import Mathlib.Tactic.Ring
import TextMelody.Proofs.Midi.Gaps
import TextMelody.Proofs.Midi.Strokes

/-!
# Tracks by the clock

A track counts in ticks. How long a tick lasts is told by the tempo events before it, which set the
microseconds of a quarter note. So whoever plays a track adds up, event after event, what the ticks
of each delta last. All that matters to this sum are the tempo events and their ticks.

* `clock`, `Song.played`: **the rule by which a track is played**;
* `microsTo`: the microseconds to a tick, stretch by stretch between the events before it;
* `clock_eq`: every event comes at the microseconds to its tick;
* `microsTo_filter`: events that set no tempo do not move the others;
* `strikes_played`: **when the notes of a performance are struck.**
-/

namespace TextMelody.Midi

open Beat

/-! ## 1. Playing a track -/

/-- The microseconds of a quarter note where no tempo event has come yet. -/
def standardTempo : Nat := 500000

/-- The microseconds of some ticks, of which `resolution` make a quarter note of `tempo`
    microseconds. -/
def microsOf (resolution tempo ticks : Nat) : Rat :=
  ticks * tempo / resolution

/-- The microseconds of a quarter note that an event sets. -/
def Event.tempo? : Event → Option Nat
  | tempo micros => some micros
  | _ => none

/-- An event and the microseconds from the start to it. -/
structure Moment where
  micros : Rat
  event : Event
deriving DecidableEq

/-- **A track by the clock**, when `passed` microseconds have gone by and a quarter note lasts
    `tempo` of them: each event comes after what its delta lasts, and a tempo event holds for what
    follows it. -/
def clock (resolution : Nat) (passed : Rat) (tempo : Nat) : List TrackEvent → List Moment
  | [] => []
  | e :: t =>
    ⟨passed + microsOf resolution tempo e.delta, e.event⟩ ::
      clock resolution (passed + microsOf resolution tempo e.delta) (e.event.tempo?.getD tempo) t

/-- **The events of a song, and when they come.** -/
def Song.played (s : Song) : List Moment :=
  clock s.resolution.toNat 0 standardTempo s.track

/-! ## 2. The microseconds to a tick -/

/-- The microseconds from the tick `last` to `tick`, where a quarter note lasts `tempo` of them and
    the events are still to come. -/
def microsTo (resolution tick : Nat) : Nat → Nat → List Scheduled → Rat
  | last, tempo, [] => microsOf resolution tempo (tick - last)
  | last, tempo, x :: xs =>
    microsOf resolution tempo (min tick x.tick - last) +
      microsTo resolution tick x.tick (x.event.tempo?.getD tempo) xs

section Ticks

variable {resolution tick last tempo : Nat}

theorem microsOf_zero : microsOf resolution tempo 0 = 0 := by
  rw [microsOf, Nat.cast_zero, zero_mul, zero_div]

theorem microsOf_add (a b : Nat) :
    microsOf resolution tempo a + microsOf resolution tempo b =
      microsOf resolution tempo (a + b) := by
  rw [microsOf, microsOf, microsOf, Nat.cast_add]
  ring

theorem Ascending.of_cons {x : Scheduled} {xs : List Scheduled}
    (h : Ascending last (x :: xs)) : Ascending last xs :=
  h.sublist (List.Sublist.cons_cons last (List.sublist_cons_self x.tick _))

/-- Up to a tick that has passed, nothing lasts. -/
theorem microsTo_of_le {xs : List Scheduled} (h : Ascending last xs) (hle : tick ≤ last) :
    microsTo resolution tick last tempo xs = 0 := by
  induction xs generalizing last tempo with
  | nil => rw [microsTo, Nat.sub_eq_zero_of_le hle, microsOf_zero]
  | cons x xs ih =>
    have hmin : min tick x.tick ≤ last := Nat.le_trans (Nat.min_le_left _ _) hle
    rw [microsTo, Nat.sub_eq_zero_of_le hmin, microsOf_zero, zero_add,
      ih h.tail (Nat.le_trans hle h.head_le)]

/-- An event that sets no tempo only cuts a stretch in two. -/
theorem microsTo_cons_of_none {x : Scheduled} {xs : List Scheduled} (hx : x.event.tempo? = none)
    (h : Ascending last (x :: xs)) :
    microsTo resolution tick last tempo (x :: xs) = microsTo resolution tick last tempo xs := by
  have hle := h.head_le
  rw [microsTo, hx, Option.getD_none]
  cases xs with
  | nil =>
    have hcut : min tick x.tick - last + (tick - x.tick) = tick - last := by omega
    rw [microsTo, microsTo, microsOf_add, hcut]
  | cons y ys =>
    have hnext := h.tail.head_le
    have hcut : min tick x.tick - last + (min tick y.tick - x.tick) = min tick y.tick - last := by
      omega
    rw [microsTo, microsTo, ← add_assoc, microsOf_add, hcut]

/-- Whether an event sets a tempo. -/
def Scheduled.isTempo (x : Scheduled) : Bool :=
  x.event.tempo?.isSome

theorem Scheduled.exists_of_isTempo {x : Scheduled} (h : x.isTempo) :
    ∃ tick micros, x = ⟨tick, .tempo micros⟩ := by
  obtain ⟨tick, event⟩ := x
  cases event with
  | tempo micros => exact ⟨tick, micros, rfl⟩
  | _ => cases h

theorem Scheduled.isHeard_of_isTempo {x : Scheduled} (h : x.isTempo) : x.isHeard := by
  obtain ⟨tick, micros, rfl⟩ := exists_of_isTempo h
  rfl

/-- **Events that set no tempo do not move the others.** -/
theorem microsTo_filter {xs : List Scheduled} (h : Ascending last xs) :
    microsTo resolution tick last tempo (xs.filter Scheduled.isTempo) =
      microsTo resolution tick last tempo xs := by
  induction xs generalizing last tempo with
  | nil => rfl
  | cons x xs ih =>
    cases hx : x.event.tempo? with
    | none =>
      have hdropped : ¬x.isTempo := by rw [Scheduled.isTempo, hx]; exact Bool.false_ne_true
      rw [List.filter_cons_of_neg hdropped, ih h.of_cons, microsTo_cons_of_none hx h]
    | some micros =>
      have hkept : x.isTempo := by rw [Scheduled.isTempo, hx]; rfl
      rw [List.filter_cons_of_pos hkept, microsTo, microsTo, ih h.tail]

/-! ## 3. Every event comes at its tick -/

/-- The ticks of a track never go back. -/
theorem ascending_absolute (last : Nat) (t : List TrackEvent) : Ascending last (absolute last t) := by
  induction t generalizing last with
  | nil => exact List.pairwise_singleton _ _
  | cons e t ih => exact .cons (Nat.le_add_right last e.delta) (ih _)

/-- **Every event comes at the microseconds to its tick.** -/
theorem clock_eq (resolution : Nat) (passed : Rat) (last tempo : Nat) (t : List TrackEvent) :
    clock resolution passed tempo t = (absolute last t).map fun x =>
      ⟨passed + microsTo resolution x.tick last tempo (absolute last t), x.event⟩ := by
  induction t generalizing passed last tempo with
  | nil => rfl
  | cons e t ih =>
    have hrest := ascending_absolute (last + e.delta) t
    -- Every tick from this event on has the whole stretch up to it behind it.
    have hstretch : ∀ tick, last + e.delta ≤ tick →
        microsTo resolution tick last tempo (absolute last (e :: t)) =
          microsOf resolution tempo e.delta +
            microsTo resolution tick (last + e.delta) (e.event.tempo?.getD tempo)
              (absolute (last + e.delta) t) := by
      intro tick hle
      rw [absolute_cons, microsTo, Nat.min_eq_right hle, Nat.add_sub_cancel_left]
    have hnow := hstretch (last + e.delta) (Nat.le_refl _)
    rw [microsTo_of_le hrest (Nat.le_refl _), add_zero] at hnow
    rw [clock, ih _ (last + e.delta) _]
    conv_rhs => rw [absolute_cons, List.map_cons, ← absolute_cons, hnow]
    refine congrArg _ (List.map_congr_left fun x hx => ?_)
    have hle : last + e.delta ≤ x.tick :=
      List.rel_of_pairwise_cons hrest (List.mem_map_of_mem hx)
    rw [hstretch x.tick hle, add_assoc]

end Ticks

/-! ## 4. The notes of a performance -/

variable {β : Type} [Beat β]

/-- Whether an event strikes a key. -/
def Event.isStrike : Event → Bool
  | noteOn _ _ _ => true
  | _ => false

/-- Whether an event strikes a key. -/
def Scheduled.isStrike (x : Scheduled) : Bool :=
  x.event.isStrike

theorem Scheduled.isNote_of_isStrike {x : Scheduled} (h : x.isStrike) : x.isNote := by
  obtain ⟨tick, event⟩ := x
  cases event with
  | noteOn _ _ _ => rfl
  | _ => cases h

/-- Whether a key is struck at a moment. -/
def Moment.isStrike (m : Moment) : Bool :=
  m.event.isStrike

/-- The strike of a note. -/
def strikeOf (params : Params) (n : NoteEvent β) : Scheduled :=
  ⟨strikeTick params.resolution n,
    .noteOn params.wireChannel (sevenBits n.key) (sevenBits n.velocity)⟩

/-- The tempo events of a performance, as they are gathered. -/
def tempoMap (p : Performance β) (params : Params) : List Scheduled :=
  openingTempo p ++ p.tempoChanges.map (ofTempoChange params)

/-- The program of a performance, as it is gathered. -/
def programOf (p : Performance β) (params : Params) : Scheduled :=
  ⟨0, .program params.wireChannel p.instrument.wireProgram⟩

/-- The settings of a performance, as they are gathered: name, tempos, program. -/
def settings (p : Performance β) (params : Params) : List Scheduled :=
  ⟨0, .trackName params.trackName⟩ :: (tempoMap p params ++ [programOf p params])

theorem gathered_eq (p : Performance β) (params : Params) :
    gathered p params = settings p params ++ p.notes.flatMap (ofNote params) := by
  rw [gathered, sevenBits_wireProgram, settings, List.cons_append,
    List.append_assoc (tempoMap p params)]
  rfl

/-- Of what is gathered, only the settings matter where strikes and releases do not. -/
theorem filter_gathered_eq_settings (p : Performance β) (params : Params) {q : Scheduled → Bool}
    (h : ∀ x, x.isNote → ¬q x) : (gathered p params).filter q = (settings p params).filter q := by
  have hnotes : (p.notes.flatMap (ofNote params)).filter q = [] := by
    refine List.filter_eq_nil_iff.mpr fun x hx => ?_
    obtain ⟨n, _, hn⟩ := List.mem_flatMap.mp hx
    exact h x (isNote_of_mem_ofNote hn)
  rw [gathered_eq, List.filter_append, hnotes, List.append_nil]

theorem isTempo_of_mem_tempoMap {p : Performance β} {params : Params} {x : Scheduled}
    (h : x ∈ tempoMap p params) : x.isTempo := by
  rcases List.mem_append.mp h with h | h
  · rcases openingTempo_eq p with e | e
    · rw [e] at h
      cases h
    · rw [e, List.mem_singleton] at h
      rw [h]
      rfl
  · obtain ⟨c, _, rfl⟩ := List.mem_map.mp h
    rfl

theorem filter_isTempo_gathered (p : Performance β) (params : Params) :
    (gathered p params).filter Scheduled.isTempo = tempoMap p params := by
  have hnotes : ∀ x : Scheduled, x.isNote → ¬x.isTempo := by
    intro x hx htempo
    obtain ⟨tick, micros, rfl⟩ := Scheduled.exists_of_isTempo htempo
    cases hx
  have htempos : (tempoMap p params).filter Scheduled.isTempo = tempoMap p params :=
    List.filter_eq_self.mpr fun _ => isTempo_of_mem_tempoMap
  have hname : ¬Scheduled.isTempo ⟨0, .trackName params.trackName⟩ := Bool.false_ne_true
  have hprogram : ¬(programOf p params).isTempo := Bool.false_ne_true
  rw [filter_gathered_eq_settings p params hnotes, settings, List.filter_cons_of_neg hname,
    List.filter_append, htempos, List.filter_cons_of_neg hprogram]
  exact List.append_nil _

theorem filter_isStrike_gathered (p : Performance β) (params : Params) :
    (gathered p params).filter Scheduled.isStrike =
      p.notes.map (strikeOf params) := by
  rw [← filter_filter_of_imp fun _ => Scheduled.isNote_of_isStrike, filter_isNote_gathered,
    List.filter_flatMap, List.map_eq_flatMap]
  rfl

section Ordered

variable [Ordered β]

/-- The tempo events of a track, if the changes are in order. -/
theorem filter_isTempo_absolute {p : Performance β}
    (hp : p.tempoChanges.Pairwise fun c d => le c.beat d.beat) (params : Params) :
    (absolute 0 (Song.ofPerformance p params).track).filter Scheduled.isTempo =
      tempoMap p params := by
  have hchanges : (p.tempoChanges.map (ofTempoChange params)).Pairwise fun a b => a.le b :=
    List.pairwise_map.mpr (hp.imp fun {c d} hcd =>
      le_of_tick_le (x := ofTempoChange params c) (y := ofTempoChange params d)
        (tickOf_le hcd) (Nat.le_refl 1))
  have hordered : (tempoMap p params).Pairwise fun a b => a.le b := by
    rw [tempoMap]
    rcases openingTempo_eq p with h | h
    · rwa [h]
    · rw [h, List.singleton_append]
      refine List.pairwise_cons.mpr ⟨fun x hx => ?_, hchanges⟩
      obtain ⟨c, _, rfl⟩ := List.mem_map.mp hx
      exact le_of_tick_le (Nat.zero_le _) (Nat.le_refl 1)
  rw [← filter_isTempo_gathered] at hordered ⊢
  exact filter_absolute_of_ordered (fun _ => Scheduled.isHeard_of_isTempo)
    (fun _ => Bool.false_ne_true) hordered

/-- The strikes of a track are those of the notes, one by one. -/
theorem filter_isStrike_absolute {p : Performance β} (hp : p.InTurn) (params : Params) :
    (absolute 0 (Song.ofPerformance p params).track).filter Scheduled.isStrike =
      p.notes.map (strikeOf params) := by
  have hheard : ∀ x : Scheduled, x.isStrike → x.isHeard := fun _ hx =>
    Scheduled.isHeard_of_isNote (Scheduled.isNote_of_isStrike hx)
  have hordered : (p.notes.map (strikeOf params)).Pairwise fun a b => a.le b := by
    refine List.pairwise_map.mpr (hp.apart.imp_of_mem fun {m n} hm _ hmn => ?_)
    have hticks : strikeTick params.resolution m ≤ strikeTick params.resolution n :=
      Nat.le_trans (tickOf_le (hp.le_release m hm)) (tickOf_le hmn)
    exact le_of_tick_le hticks (Nat.le_refl 4)
  rw [← filter_isStrike_gathered] at hordered ⊢
  exact filter_absolute_of_ordered hheard (fun _ => Bool.false_ne_true) hordered

/-- **When the notes of a performance are struck**: each at the microseconds to its tick, as far as
    the tempo events go. -/
theorem strikes_played {p : Performance β} (hp : p.InTurn)
    (htempos : p.tempoChanges.Pairwise fun c d => le c.beat d.beat) (params : Params) :
    (Song.ofPerformance p params).played.filter Moment.isStrike = p.notes.map fun n =>
      ⟨microsTo params.resolution.toNat (strikeTick params.resolution n) 0 standardTempo
        (tempoMap p params), (strikeOf params n).event⟩ := by
  have hmicros : ∀ tick, microsTo params.resolution.toNat tick 0 standardTempo
      (absolute 0 (Song.ofPerformance p params).track) =
        microsTo params.resolution.toNat tick 0 standardTempo (tempoMap p params) := by
    intro tick
    rw [← microsTo_filter (ascending_absolute 0 _), filter_isTempo_absolute htempos]
  have hresolution : (Song.ofPerformance p params).resolution = params.resolution := rfl
  have hkind : ∀ f : Scheduled → Rat,
      Moment.isStrike ∘ (fun x => ⟨f x, x.event⟩) = Scheduled.isStrike := fun _ => rfl
  rw [Song.played, hresolution, clock_eq _ _ 0, List.filter_map, hkind,
    filter_isStrike_absolute hp, List.map_map]
  refine List.map_congr_left fun n _ => ?_
  rw [Function.comp_apply, zero_add, hmicros, strikeOf]

end Ordered

end TextMelody.Midi
