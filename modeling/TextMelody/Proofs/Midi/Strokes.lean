import TextMelody.Proofs.Float.Order
import TextMelody.Proofs.Melody.Notes
import TextMelody.Proofs.Midi.Timeline

/-!
# Strikes and releases of a key

On a well-kept track every key is struck, released, struck again, and so on. Notes that lie one
after the other in beats are kept apart by the order of releases before strikes as long as their
strikes fall on different ticks. Two notes of one key that are struck on the same tick are not: each
sounds for a tick at least, so the first is still held when the second is struck. Beats may be exact
or rounded at every step, as long as the steps keep the order.

* `alternates`: strikes and releases in turn;
* `filter_isOn_absolute`: the strokes of a key whose strikes grow are its notes, one by one;
* `strictlyGrow_of_alternates`: a track in turn has its strikes on growing ticks;
* `alternates_strokes_iff`: **when the strokes of a key alternate.**
-/

namespace TextMelody.Midi

open Beat

/-! ## 1. Strokes in turn -/

/-- What can be done to a key. -/
inductive Stroke where
  | strike
  | release
deriving DecidableEq, Repr

/-- The stroke that must follow. -/
def Stroke.other : Stroke → Stroke
  | strike => release
  | release => strike

/-- **Strokes in turn**, of which the first is `next`. -/
def alternates : Stroke → List Stroke → Prop
  | _, [] => True
  | next, s :: ss => s = next ∧ alternates next.other ss

theorem alternates_of_append {next : Stroke} {a b : List Stroke} (h : alternates next (a ++ b)) :
    alternates next a := by
  induction a generalizing next with
  | nil => trivial
  | cons s a ih => exact ⟨h.1, ih h.2⟩

/-- Of strokes in turn, as many are strikes as are releases, but for one that may be ahead. -/
theorem count_of_alternates {next : Stroke} {ss : List Stroke} (h : alternates next ss) :
    ss.count next.other ≤ ss.count next ∧ ss.count next ≤ ss.count next.other + 1 := by
  induction ss generalizing next with
  | nil => exact ⟨Nat.le_refl _, Nat.zero_le _⟩
  | cons s ss ih =>
    obtain ⟨rfl, hss⟩ := h
    have hboth := ih hss
    have hback : s.other.other = s := by cases s <;> rfl
    have hne : s ≠ s.other := by cases s <;> decide
    rw [hback] at hboth
    rw [List.count_cons_self, List.count_cons_of_ne hne]
    omega

/-! ## 2. The strokes of a track -/

/-- What an event does to a key. -/
def Event.stroke? (key : UInt8) : Event → Option Stroke
  | noteOn _ k _ => if k = key then some .strike else none
  | noteOff _ k _ => if k = key then some .release else none
  | _ => none

/-- What a scheduled event does to a key. -/
def Scheduled.stroke? (key : UInt8) (x : Scheduled) : Option Stroke :=
  x.event.stroke? key

/-- Whether an event strikes or releases a key. -/
def Scheduled.isOn (key : UInt8) (x : Scheduled) : Bool :=
  (x.stroke? key).isSome

/-- **The strokes of a key**, in the order of the track. -/
def strokes (key : UInt8) (track : List TrackEvent) : List Stroke :=
  track.filterMap fun e => e.event.stroke? key

theorem Scheduled.isNote_of_isOn {key : UInt8} {x : Scheduled} (h : x.isOn key) : x.isNote := by
  obtain ⟨tick, event⟩ := x
  cases event with
  | noteOff _ _ _ => rfl
  | noteOn _ _ _ => rfl
  | _ => cases h

theorem strokes_eq_filterMap_absolute (key : UInt8) (passed : Nat) (track : List TrackEvent) :
    strokes key track = (absolute passed track).filterMap (Scheduled.stroke? key) := by
  calc strokes key track
      = (track.map TrackEvent.event).filterMap (Event.stroke? key) := by
        rw [List.filterMap_map]
        rfl
    _ = ((absolute passed track).map Scheduled.event).filterMap (Event.stroke? key) := by
        rw [map_event_absolute]
    _ = (absolute passed track).filterMap (Scheduled.stroke? key) := by
        rw [List.filterMap_map]
        rfl

/-- Only events on a key matter to its strokes. -/
theorem filterMap_filter_isOn (key : UInt8) (xs : List Scheduled) :
    (xs.filter (Scheduled.isOn key)).filterMap (Scheduled.stroke? key) =
      xs.filterMap (Scheduled.stroke? key) := by
  induction xs with
  | nil => rfl
  | cons x xs ih =>
    cases h : x.stroke? key with
    | none =>
      have hx : x.isOn key = false := by rw [Scheduled.isOn, h]; rfl
      rw [List.filter_cons_of_neg (Bool.not_eq_true _ ▸ hx), List.filterMap_cons_none h, ih]
    | some s =>
      have hx : x.isOn key = true := by rw [Scheduled.isOn, h]; rfl
      rw [List.filter_cons_of_pos hx, List.filterMap_cons_some h, List.filterMap_cons_some h, ih]

theorem filter_isOn_filter_isNote (key : UInt8) (xs : List Scheduled) :
    (xs.filter Scheduled.isNote).filter (Scheduled.isOn key) = xs.filter (Scheduled.isOn key) :=
  filter_filter_of_imp (fun _ => Scheduled.isNote_of_isOn) xs

variable {β : Type} [Beat β]

theorem filter_isOn_absolute_eq_schedule (p : Performance β) (params : Params) (key : UInt8) :
    (absolute 0 (Song.ofPerformance p params).track).filter (Scheduled.isOn key) =
      (schedule p params).filter (Scheduled.isOn key) := by
  rw [← filter_isOn_filter_isNote, filter_isNote_absolute, filter_isOn_filter_isNote]

/-- **The strokes of a track are those of its schedule.** -/
theorem strokes_ofPerformance (p : Performance β) (params : Params) (key : UInt8) :
    strokes key (Song.ofPerformance p params).track =
      (schedule p params).filterMap (Scheduled.stroke? key) := by
  rw [strokes_eq_filterMap_absolute key 0, ← filterMap_filter_isOn,
    filter_isOn_absolute_eq_schedule, filterMap_filter_isOn]

/-! ## 3. Notes on growing ticks -/

/-- The notes on a key. -/
def notesOn (key : UInt8) (ns : List (NoteEvent β)) : List (NoteEvent β) :=
  ns.filter fun n => n.key = key

/-- The ticks at which a key is struck. -/
def strikeTicks (params : Params) (key : UInt8) (ns : List (NoteEvent β)) : List Nat :=
  (notesOn key ns).map (strikeTick params.resolution)

/-- **Strikes that grow**: no two on one tick, and none on the last tick there is. -/
structure StrictlyGrow (ticks : List Nat) : Prop where
  pairwise : ticks.Pairwise (· < ·)
  lt_maxWord : ∀ t ∈ ticks, t < maxWord

/-- The strokes that a note of the key makes. -/
theorem filter_isOn_ofNote (params : Params) {n : NoteEvent β} (hn : n.key.toNat ≤ 127)
    (key : UInt8) : (ofNote params n).filter (Scheduled.isOn key) =
      if n.key = key then ofNote params n else [] := by
  have hkey := sevenBits_eq hn
  unfold ofNote
  rw [hkey]
  by_cases e : n.key = key
  · simp [Scheduled.isOn, Scheduled.stroke?, Event.stroke?, e]
  · simp [Scheduled.isOn, Scheduled.stroke?, Event.stroke?, e]

theorem filter_isOn_flatMap_ofNote (params : Params) {ns : List (NoteEvent β)}
    (h : ∀ n ∈ ns, n.key.toNat ≤ 127) (key : UInt8) :
    (ns.flatMap (ofNote params)).filter (Scheduled.isOn key) =
      (notesOn key ns).flatMap (ofNote params) := by
  induction ns with
  | nil => rfl
  | cons n ns ih =>
    have hn := h n List.mem_cons_self
    have hns := ih fun m hm => h m (List.mem_cons_of_mem n hm)
    rw [List.flatMap_cons, List.filter_append, filter_isOn_ofNote params hn, hns, notesOn, notesOn,
      List.filter_cons]
    by_cases e : n.key = key
    · simp [e]
    · simp [e]

/-- What is gathered on a key are its notes. -/
theorem filter_isOn_gathered {p : Performance β} (h : ∀ n ∈ p.notes, n.key.toNat ≤ 127)
    (params : Params) (key : UInt8) :
    (gathered p params).filter (Scheduled.isOn key) =
      (notesOn key p.notes).flatMap (ofNote params) := by
  rw [← filter_isOn_filter_isNote, filter_isNote_gathered, filter_isOn_flatMap_ofNote params h]

/-- The strokes of notes, one after the other, alternate. -/
theorem alternates_flatMap_ofNote (params : Params) {key : UInt8} {ns : List (NoteEvent β)}
    (h : ∀ n ∈ ns, sevenBits n.key = key) :
    alternates .strike ((ns.flatMap (ofNote params)).filterMap (Scheduled.stroke? key)) := by
  induction ns with
  | nil => trivial
  | cons n ns ih =>
    have hns := ih fun m hm => h m (List.mem_cons_of_mem n hm)
    have hn : (ofNote params n).filterMap (Scheduled.stroke? key) = [.strike, .release] := by
      simp [ofNote, Scheduled.stroke?, Event.stroke?, h n List.mem_cons_self]
    rw [List.flatMap_cons, List.filterMap_append, hn]
    exact ⟨rfl, rfl, hns⟩

/-! ## 4. Growing strikes keep the notes apart -/

/-- Every note sounds for a tick at least, where there is one left. -/
theorem le_releaseTick (resolution : UInt16) (n : NoteEvent β) :
    min (strikeTick resolution n + 1) maxWord ≤ releaseTick resolution n :=
  Nat.le_max_right _ _

theorem strikeTick_lt_releaseTick {resolution : UInt16} {n : NoteEvent β}
    (h : strikeTick resolution n < maxWord) :
    strikeTick resolution n < releaseTick resolution n := by
  have hheld := le_releaseTick resolution n
  omega

theorem le_of_tick_lt {x y : Scheduled} (h : x.tick < y.tick) : x.le y :=
  Scheduled.le_iff.mpr (.inl h)

theorem le_of_tick_le {x y : Scheduled} (h : x.tick ≤ y.tick)
    (hrank : x.event.rank ≤ y.event.rank) : x.le y := by
  rw [Scheduled.le_iff]
  omega

/-- **Notes that are kept apart in ticks have their strokes in order.** -/
theorem pairwise_flatMap_ofNote {params : Params} {ns : List (NoteEvent β)}
    (hheld : ∀ n ∈ ns, strikeTick params.resolution n < releaseTick params.resolution n)
    (hapart : ns.Pairwise fun m n =>
      releaseTick params.resolution m ≤ strikeTick params.resolution n) :
    (ns.flatMap (ofNote params)).Pairwise fun a b => a.le b := by
  rw [List.pairwise_flatMap]
  refine ⟨fun n hn => List.pairwise_pair.mpr (le_of_tick_lt (hheld n hn)), ?_⟩
  refine hapart.imp_of_mem fun {m n} hm hn hmn x hx y hy => ?_
  have hm' := hheld m hm
  have hn' := hheld n hn
  rw [ofNote, List.mem_cons, List.mem_singleton] at hx hy
  -- the release of the first and the strike of the second may fall on one tick
  rcases hx with rfl | rfl <;> rcases hy with rfl | rfl
  · exact le_of_tick_lt (Nat.lt_of_lt_of_le hm' hmn)
  · exact le_of_tick_lt (Nat.lt_of_lt_of_le hm' (Nat.le_trans hmn (Nat.le_of_lt hn')))
  · exact le_of_tick_le hmn (by decide : 3 ≤ 4)
  · exact le_of_tick_lt (Nat.lt_of_le_of_lt hmn hn')

section Ordered

variable [Ordered β]

theorem tickOf_le {resolution : UInt16} {a b : β} (h : le a b) :
    tickOf resolution a ≤ tickOf resolution b :=
  Ordered.nearest_le h resolution.toNat_lt

theorem releaseTick_le {resolution : UInt16} {m n : NoteEvent β} (h : le m.release n.start)
    (hlt : strikeTick resolution m < strikeTick resolution n) :
    releaseTick resolution m ≤ strikeTick resolution n := by
  have hrelease : tickOf resolution m.release ≤ strikeTick resolution n := tickOf_le h
  unfold releaseTick
  omega

/-- **What a track does to a key whose strikes grow**: it strikes and releases one note after the
    other. -/
theorem filter_isOn_absolute {p : Performance β} (hp : p.InTurn) {params : Params} {key : UInt8}
    (h : StrictlyGrow (strikeTicks params key p.notes)) :
    (absolute 0 (Song.ofPerformance p params).track).filter (Scheduled.isOn key) =
      (notesOn key p.notes).flatMap (ofNote params) := by
  have hheld : ∀ n ∈ notesOn key p.notes,
      strikeTick params.resolution n < releaseTick params.resolution n := fun n hn =>
    strikeTick_lt_releaseTick (h.lt_maxWord _ (List.mem_map_of_mem hn))
  have hapart : (notesOn key p.notes).Pairwise fun m n =>
      releaseTick params.resolution m ≤ strikeTick params.resolution n := by
    have hgrow := List.pairwise_map.mp h.pairwise
    exact (hgrow.and (hp.apart.filter fun n => n.key = key)).imp fun hmn =>
      releaseTick_le hmn.2 hmn.1
  have hheard : ∀ x : Scheduled, x.isOn key → x.isHeard := fun _ hx =>
    Scheduled.isHeard_of_isNote (Scheduled.isNote_of_isOn hx)
  have hordered := pairwise_flatMap_ofNote hheld hapart
  rw [← filter_isOn_gathered hp.key_le] at hordered ⊢
  exact filter_absolute_of_ordered hheard (fun _ => Bool.false_ne_true) hordered

omit [Ordered β] in
theorem sevenBits_of_mem_notesOn {p : Performance β} (hp : p.InTurn) {key : UInt8}
    {n : NoteEvent β} (h : n ∈ notesOn key p.notes) : sevenBits n.key = key := by
  obtain ⟨hmem, hkey⟩ := List.mem_filter.mp h
  rw [sevenBits_eq (hp.key_le n hmem)]
  exact of_decide_eq_true hkey

theorem alternates_of_strictlyGrow {p : Performance β} (hp : p.InTurn) {params : Params}
    {key : UInt8} (h : StrictlyGrow (strikeTicks params key p.notes)) :
    alternates .strike (strokes key (Song.ofPerformance p params).track) := by
  rw [strokes_eq_filterMap_absolute key 0, ← filterMap_filter_isOn, filter_isOn_absolute hp h]
  exact alternates_flatMap_ofNote params fun n hn => sevenBits_of_mem_notesOn hp hn

end Ordered

/-! ## 5. Strokes in turn have growing strikes -/

/-- How often a stroke was made on a key up to the event `m`. -/
def doneBy (key : UInt8) (m : Scheduled) (s : Stroke) (xs : List Scheduled) : Nat :=
  xs.countP fun x => x.stroke? key == some s && x.le m

/-- An ordered list falls into what comes up to an event and the rest. -/
theorem filter_le_append_filter {xs : List Scheduled} (h : xs.Pairwise fun a b => a.le b)
    (m : Scheduled) : xs.filter (fun x => x.le m) ++ xs.filter (fun x => !x.le m) = xs := by
  induction xs with
  | nil => rfl
  | cons x xs ih =>
    obtain ⟨hx, hxs⟩ := List.pairwise_cons.mp h
    by_cases e : x.le m
    · have hrest : ¬(!x.le m) = true := by rw [e]; exact Bool.false_ne_true
      rw [List.filter_cons, if_pos e, List.filter_cons, if_neg hrest, List.cons_append, ih hxs]
    · have hnone : ∀ y ∈ x :: xs, ¬y.le m := by
        intro y hy hle
        rcases List.mem_cons.mp hy with rfl | hy
        · exact e hle
        · exact e (Scheduled.le_trans x y m (hx y hy) hle)
      have hall : (x :: xs).filter (fun x => !x.le m) = x :: xs :=
        List.filter_eq_self.mpr fun y hy => by simp [hnone y hy]
      rw [List.filter_eq_nil_iff.mpr hnone, hall, List.nil_append]

/-- **Of strokes in turn, up to any event at most one strike is ahead of the releases.** -/
theorem doneBy_of_alternates {key : UInt8} {xs : List Scheduled}
    (hs : xs.Pairwise fun a b => a.le b)
    (h : alternates .strike (xs.filterMap (Scheduled.stroke? key))) (m : Scheduled) :
    doneBy key m .release xs ≤ doneBy key m .strike xs ∧
      doneBy key m .strike xs ≤ doneBy key m .release xs + 1 := by
  have hcount : ∀ s : Stroke, doneBy key m s xs =
      ((xs.filter fun x => x.le m).filterMap (Scheduled.stroke? key)).count s := by
    intro s
    rw [List.count_filterMap, List.countP_filter]
    rfl
  rw [← filter_le_append_filter hs m, List.filterMap_append] at h
  rw [hcount, hcount]
  exact count_of_alternates (alternates_of_append h)

theorem doneBy_append (key : UInt8) (m : Scheduled) (s : Stroke) (xs ys : List Scheduled) :
    doneBy key m s (xs ++ ys) = doneBy key m s xs + doneBy key m s ys :=
  List.countP_append

theorem doneBy_ofNote (key : UInt8) (m : Scheduled) (params : Params) {n : NoteEvent β}
    (h : sevenBits n.key = key) :
    doneBy key m .strike (ofNote params n) =
        (if Scheduled.le ⟨strikeTick params.resolution n,
          .noteOn params.wireChannel key (sevenBits n.velocity)⟩ m then 1 else 0) ∧
      doneBy key m .release (ofNote params n) =
        (if Scheduled.le ⟨releaseTick params.resolution n,
          .noteOff params.wireChannel key 0⟩ m then 1 else 0) := by
  constructor <;>
    simp [doneBy, ofNote, List.countP_cons, Scheduled.stroke?, Event.stroke?, h]

/-- Up to the strikes of a tick, every note struck on the tick is still held. -/
theorem doneBy_add_count_le (params : Params) {key : UInt8} {ns : List (NoteEvent β)}
    (h : ∀ n ∈ ns, sevenBits n.key = key) {tick : Nat} (htick : tick < maxWord) :
    doneBy key ⟨tick, .noteOn 0 key 0⟩ .release (ns.flatMap (ofNote params)) +
        (ns.map (strikeTick params.resolution)).count tick ≤
      doneBy key ⟨tick, .noteOn 0 key 0⟩ .strike (ns.flatMap (ofNote params)) := by
  induction ns with
  | nil => exact Nat.le_refl _
  | cons n ns ih =>
    have hns := ih fun m hm => h m (List.mem_cons_of_mem n hm)
    obtain ⟨hstrike, hrelease⟩ := doneBy_ofNote key ⟨tick, .noteOn 0 key 0⟩ params
      (h n List.mem_cons_self)
    have hheld := le_releaseTick params.resolution n
    rw [List.flatMap_cons, doneBy_append, doneBy_append, hstrike, hrelease, List.map_cons,
      List.count_cons]
    simp only [Scheduled.le_iff, Event.rank, beq_iff_eq]
    generalize maxWord = last at htick hheld
    split_ifs <;> omega

/-- Up to the releases on the last tick, no note struck there has been struck, but all are
    released. -/
theorem doneBy_add_count_maxWord_le [Ordered β] (params : Params) {key : UInt8}
    {ns : List (NoteEvent β)} (h : ∀ n ∈ ns, sevenBits n.key = key) :
    doneBy key ⟨maxWord, .noteOff 0 key 0⟩ .strike (ns.flatMap (ofNote params)) +
        (ns.map (strikeTick params.resolution)).count maxWord ≤
      doneBy key ⟨maxWord, .noteOff 0 key 0⟩ .release (ns.flatMap (ofNote params)) := by
  induction ns with
  | nil => exact Nat.le_refl _
  | cons n ns ih =>
    have hns := ih fun m hm => h m (List.mem_cons_of_mem n hm)
    obtain ⟨hstrike, hrelease⟩ := doneBy_ofNote key ⟨maxWord, .noteOff 0 key 0⟩ params
      (h n List.mem_cons_self)
    have hstruck : strikeTick params.resolution n ≤ maxWord := Ordered.nearest_le_maxWord _
    have hreleased : releaseTick params.resolution n ≤ maxWord :=
      Nat.max_le.mpr ⟨Ordered.nearest_le_maxWord _, Nat.min_le_right _ _⟩
    rw [List.flatMap_cons, doneBy_append, doneBy_append, hstrike, hrelease, List.map_cons,
      List.count_cons]
    simp only [Scheduled.le_iff, Event.rank, beq_iff_eq]
    generalize maxWord = last at hstruck hreleased hns ⊢
    split_ifs <;> omega

/-- What was done up to an event does not depend on the order. -/
theorem doneBy_schedule {p : Performance β} (hp : ∀ n ∈ p.notes, n.key.toNat ≤ 127)
    (params : Params) (key : UInt8) (m : Scheduled) (s : Stroke) :
    doneBy key m s (schedule p params) =
      doneBy key m s ((notesOn key p.notes).flatMap (ofNote params)) := by
  have hon : ∀ xs : List Scheduled,
      doneBy key m s (xs.filter (Scheduled.isOn key)) = doneBy key m s xs := by
    intro xs
    rw [doneBy, List.countP_filter]
    refine List.countP_congr fun x _ => ?_
    cases h : x.stroke? key with
    | none => simp
    | some t => simp [Scheduled.isOn, h]
  rw [← filter_isOn_gathered hp, hon]
  exact (List.mergeSort_perm _ _).countP_eq _

section Ordered

variable [Ordered β]

/-- The strikes of a key never go back. -/
theorem pairwise_strikeTicks {p : Performance β} (hp : p.InTurn) (params : Params) (key : UInt8) :
    (strikeTicks params key p.notes).Pairwise (· ≤ ·) := by
  refine List.pairwise_map.mpr ?_
  refine (hp.apart.filter fun n => n.key = key).imp_of_mem fun {m n} hm _ hmn => ?_
  have hsounds := hp.le_release m (List.mem_filter.mp hm).1
  exact Nat.le_trans (tickOf_le hsounds) (tickOf_le hmn)

/-- **A key whose strokes alternate is struck on growing ticks.** -/
theorem strictlyGrow_of_alternates {p : Performance β} (hp : p.InTurn) {params : Params}
    {key : UInt8} (h : alternates .strike (strokes key (Song.ofPerformance p params).track)) :
    StrictlyGrow (strikeTicks params key p.notes) := by
  rw [strokes_ofPerformance] at h
  have hkey : ∀ n ∈ notesOn key p.notes, sevenBits n.key = key := fun n hn =>
    sevenBits_of_mem_notesOn hp hn
  have hahead := doneBy_of_alternates (pairwise_schedule p params) h
  simp only [doneBy_schedule hp.key_le] at hahead
  have honce : ∀ tick, tick < maxWord → (strikeTicks params key p.notes).count tick ≤ 1 := by
    intro tick htick
    have hheld := doneBy_add_count_le params hkey htick
    have hone := (hahead ⟨tick, .noteOn 0 key 0⟩).2
    rw [strikeTicks]
    omega
  have hnever : (strikeTicks params key p.notes).count maxWord = 0 := by
    have hreleased := doneBy_add_count_maxWord_le params hkey
    have hnone := (hahead ⟨maxWord, .noteOff 0 key 0⟩).1
    rw [strikeTicks]
    omega
  have hle : ∀ t ∈ strikeTicks params key p.notes, t ≤ maxWord := by
    intro t ht
    obtain ⟨n, _, rfl⟩ := List.mem_map.mp ht
    exact Ordered.nearest_le_maxWord _
  have hlt : ∀ t ∈ strikeTicks params key p.notes, t < maxWord := by
    intro t ht
    refine Nat.lt_of_le_of_ne (hle t ht) fun e => ?_
    exact List.count_eq_zero.mp hnever (e ▸ ht)
  have hnodup : (strikeTicks params key p.notes).Nodup := by
    refine List.nodup_iff_count.mpr fun t => ?_
    by_cases ht : t ∈ strikeTicks params key p.notes
    · exact honce t (hlt t ht)
    · rw [List.count_eq_zero.mpr ht]
      exact Nat.zero_le 1
  refine ⟨?_, hlt⟩
  exact ((pairwise_strikeTicks hp params key).and hnodup).imp fun h =>
    Nat.lt_of_le_of_ne h.1 h.2

/-- **When the strokes of a key alternate**: exactly when its strikes fall on ticks that grow. -/
theorem alternates_strokes_iff {p : Performance β} (hp : p.InTurn) (params : Params) (key : UInt8) :
    alternates .strike (strokes key (Song.ofPerformance p params).track) ↔
      StrictlyGrow (strikeTicks params key p.notes) :=
  ⟨strictlyGrow_of_alternates hp, alternates_of_strictlyGrow hp⟩

/-- **When a melody releases a key before it strikes it again**: exactly when the notes on the key
    are struck on ticks that grow. Then the track strikes and releases them one by one, so that no
    release belongs to another note. -/
theorem melody_releases_before_striking_iff (melody : String) (instrument : Instrument)
    (params : Params) (key : UInt8) :
    let p : Performance β := (Melody.interpret melody instrument).value
    (alternates .strike (strokes key (Song.ofPerformance p params).track) ↔
        StrictlyGrow (strikeTicks params key p.notes)) ∧
      (StrictlyGrow (strikeTicks params key p.notes) →
        (absolute 0 (Song.ofPerformance p params).track).filter (Scheduled.isOn key) =
          (notesOn key p.notes).flatMap (ofNote params)) := by
  have hp : (Melody.interpret melody instrument : Reported (Performance β)).value.InTurn :=
    Melody.inTurn_interpret melody instrument
  exact ⟨alternates_strokes_iff hp params key, filter_isOn_absolute hp⟩

end Ordered

/-- Two quarter notes are struck a beat apart. -/
theorem melody_releases_before_striking_quarters :
    alternates .strike (strokes 60 (Song.ofPerformance
      (Melody.interpret "c4 c4" .piano : Reported (Performance Float)).value {}).track) :=
  (melody_releases_before_striking_iff "c4 c4" .piano {} 60).1.mpr
    ⟨by decide +kernel, by decide +kernel⟩

/-- Two notes shorter than half a tick are struck on one tick, and the first is still held. -/
theorem short_notes_struck_while_held :
    ¬alternates .strike (strokes 60 (Song.ofPerformance
      (Melody.interpret "c4096 c4096" .piano : Reported (Performance Float)).value {}).track) := by
  intro h
  have hgrow := strictlyGrow_of_alternates (Melody.inTurn_interpret "c4096 c4096" .piano) h
  exact absurd hgrow.pairwise (by decide +kernel)

end TextMelody.Midi
