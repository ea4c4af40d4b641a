import Mathlib.Tactic.Positivity
import TextMelody.Proofs.Float.Order
import TextMelody.Proofs.Midi.Clock

/-!
# Where the clock of a track stands still

A tempo event holds whole microseconds. Of a tempo above sixty million beats a minute nothing is
left of a quarter note, and while such an event is in force no time passes, however many ticks do.
Every other tempo lets time pass. How beats are counted does not matter here.

* `one_le_tempoMicros_iff`: the tempos that leave a microsecond or more;
* `forall_tempo_iff`: what holds of all tempo events of a track;
* `microsTo_lt`: where all of them let time pass, a later tick comes at a later time;
* `tempo_events_let_time_pass_iff`: **when no tempo event of a melody is nothing**;
* `clock_stands_still`: a melody that is played in no time.
-/

namespace TextMelody.Midi

open Beat

/-! ## 1. Tempo events -/

theorem tempoMicros_le_most (bpm : UInt32) : tempoMicros bpm ≤ 0xFFFFFF :=
  Nat.min_le_right _ _

/-- **A tempo event holds a microsecond or more up to sixty million beats a minute.** -/
theorem one_le_tempoMicros_iff (bpm : UInt32) :
    1 ≤ tempoMicros bpm ↔ bpm.toNat ≤ 60000000 := by
  have hpos : 0 < max bpm.toNat 1 := Nat.le_max_right _ 1
  rw [tempoMicros, Nat.le_min, Nat.one_le_div_iff hpos]
  omega

theorem Event.eq_tempo_of_mem {e : Event} {micros : Nat} (h : micros ∈ e.tempo?) :
    e = .tempo micros := by
  cases e with
  | tempo n =>
    cases h
    rfl
  | _ => cases h

theorem exists_mem_absolute_iff (passed : Nat) {t : List TrackEvent} {event : Event} :
    (∃ x ∈ absolute passed t, x.event = event) ↔ ∃ e ∈ t, e.event = event := by
  rw [← List.mem_map, ← List.mem_map, map_event_absolute]

variable {β : Type} [Beat β] {p : Performance β} {params : Params}

/-- The tempo events of a track are those of its tempo map, in whatever order. -/
theorem mem_tempoMap_iff {x : Scheduled} :
    x ∈ tempoMap p params ↔
      x ∈ absolute 0 (Song.ofPerformance p params).track ∧ x.isTempo := by
  have hend : [⟨Song.endTick p params (schedule p params), .endOfTrack⟩].filter
      Scheduled.isTempo = [] := rfl
  rw [← filter_isTempo_gathered, ← List.mem_filter,
    filter_absolute_ofPerformance p params fun _ => Scheduled.isHeard_of_isTempo, hend,
    List.append_nil, List.mem_filter, List.mem_filter, mem_schedule]

/-- **What holds of all tempo events of a track**: what holds of those of the tempo changes, if it
    holds of the one that may be put at the start. -/
theorem forall_tempo_iff {P : Nat → Prop} (hopening : P (tempoMicros Performance.defaultTempo)) :
    (∀ e ∈ (Song.ofPerformance p params).track, ∀ micros, e.event = .tempo micros → P micros) ↔
      ∀ c ∈ p.tempoChanges, P (tempoMicros c.bpm) := by
  constructor
  · intro h c hc
    have hmap : ofTempoChange params c ∈ tempoMap p params :=
      List.mem_append_right _ (List.mem_map_of_mem hc)
    obtain ⟨e, he, hevent⟩ :=
      (exists_mem_absolute_iff 0).mp ⟨_, (mem_tempoMap_iff.mp hmap).1, rfl⟩
    exact h e he _ hevent
  · intro h e he micros hevent
    obtain ⟨x, hx, hxevent⟩ := (exists_mem_absolute_iff 0).mpr ⟨e, he, hevent⟩
    have htempo : x.isTempo := by
      rw [Scheduled.isTempo, hxevent]
      rfl
    rcases List.mem_append.mp (mem_tempoMap_iff.mpr ⟨hx, htempo⟩) with hmap | hmap
    · -- A tempo that is put at the start is always the same.
      rcases openingTempo_eq p with e | e
      · rw [e] at hmap
        cases hmap
      · rw [e, List.mem_singleton] at hmap
        subst hmap
        cases hxevent
        exact hopening
    · obtain ⟨c, hc, rfl⟩ := List.mem_map.mp hmap
      cases hxevent
      exact h c hc

/-! ## 2. Time that passes -/

section Ticks

variable {resolution a b last tempo : Nat} {xs : List Scheduled}

theorem microsOf_nonneg (ticks : Nat) : 0 ≤ microsOf resolution tempo ticks := by
  unfold microsOf
  positivity

theorem microsOf_lt (hresolution : 0 < resolution) (htempo : 0 < tempo) (h : a < b) :
    microsOf resolution tempo a < microsOf resolution tempo b := by
  unfold microsOf
  gcongr

theorem microsTo_nonneg (tick : Nat) : 0 ≤ microsTo resolution tick last tempo xs := by
  induction xs generalizing last tempo with
  | nil => exact microsOf_nonneg _
  | cons x xs ih => exact add_nonneg (microsOf_nonneg _) ih

/-- **A later tick comes at a later time**, where every tempo event lets time pass. -/
theorem microsTo_lt (hresolution : 0 < resolution) (htempo : 0 < tempo)
    (hxs : ∀ x ∈ xs, ∀ micros ∈ x.event.tempo?, 0 < micros) (h : Ascending last xs)
    (ha : last ≤ a) (hab : a < b) :
    microsTo resolution a last tempo xs < microsTo resolution b last tempo xs := by
  induction xs generalizing last tempo with
  | nil => exact microsOf_lt hresolution htempo (by omega)
  | cons x xs ih =>
    obtain ⟨hx, hrest⟩ := List.forall_mem_cons.mp hxs
    have hnext : 0 < x.event.tempo?.getD tempo := by
      cases he : x.event.tempo? with
      | none => exact htempo
      | some micros => exact hx micros he
    rw [microsTo, microsTo]
    rcases le_or_gt x.tick a with hxa | hax
    · rw [Nat.min_eq_right hxa, Nat.min_eq_right (hxa.trans hab.le)]
      exact add_lt_add_right (ih hnext hrest h.tail hxa) _
    · -- The event has not come at `a`, so up to there no tempo counts but the one before it.
      have hstretch : microsOf resolution tempo (min a x.tick - last) <
          microsOf resolution tempo (min b x.tick - last) :=
        microsOf_lt hresolution htempo (by omega)
      rw [microsTo_of_le h.tail hax.le, add_zero]
      exact hstretch.trans_le (le_add_of_nonneg_right (microsTo_nonneg b))

end Ticks

/-- **A track without a tempo event of nothing never stands still**: its events come at times that
    grow with their ticks. -/
theorem exists_strictMono_played
    (h : ∀ e ∈ (Song.ofPerformance p params).track, ∀ micros, e.event = .tempo micros →
      1 ≤ micros) :
    ∃ micros : Nat → Rat, StrictMono micros ∧ (Song.ofPerformance p params).played =
      (absolute 0 (Song.ofPerformance p params).track).map fun x => ⟨micros x.tick, x.event⟩ := by
  generalize hsong : Song.ofPerformance p params = song at h ⊢
  have hresolution : 0 < song.resolution.toNat := by
    rw [← hsong]
    exact params.resolution_pos
  refine ⟨fun tick => microsTo song.resolution.toNat tick 0 standardTempo
    (absolute 0 song.track), fun a b hab => ?_, ?_⟩
  · refine microsTo_lt hresolution (by decide) (fun x hx micros hmicros => ?_)
      (ascending_absolute 0 _) (Nat.zero_le a) hab
    obtain ⟨e, he, hevent⟩ :=
      (exists_mem_absolute_iff 0).mp ⟨x, hx, Event.eq_tempo_of_mem hmicros⟩
    exact h e he micros hevent
  · rw [Song.played, clock_eq _ _ 0]
    simp only [zero_add]

/-! ## 3. Melodies -/

/-- **When no tempo event of a melody is nothing.** Every tempo event of its track holds no more
    microseconds than fit, and all of them hold one or more exactly if no tempo change is to more
    than sixty million beats a minute. Then the track never stands still: played by the clock, its
    events come at times that grow with their ticks. -/
theorem tempo_events_let_time_pass_iff (melody : String) (instrument : Instrument) (params : Params) :
    let p : Performance β := (Melody.interpret melody instrument).value
    let song := Song.ofPerformance p params
    (∀ e ∈ song.track, ∀ micros, e.event = .tempo micros → micros ≤ 0xFFFFFF) ∧
      ((∀ e ∈ song.track, ∀ micros, e.event = .tempo micros → 1 ≤ micros) ↔
        ∀ c ∈ p.tempoChanges, c.bpm.toNat ≤ 60000000) ∧
      ((∀ c ∈ p.tempoChanges, c.bpm.toNat ≤ 60000000) →
        ∃ micros : Nat → Rat, StrictMono micros ∧
          song.played = (absolute 0 song.track).map fun x => ⟨micros x.tick, x.event⟩) := by
  intro p song
  have hlast : (∀ e ∈ song.track, ∀ micros, e.event = .tempo micros → 1 ≤ micros) ↔
      ∀ c ∈ p.tempoChanges, c.bpm.toNat ≤ 60000000 := by
    rw [forall_tempo_iff (P := fun micros => 1 ≤ micros) (by decide)]
    simp only [one_le_tempoMicros_iff]
  have hfit : ∀ e ∈ song.track, ∀ micros, e.event = .tempo micros → micros ≤ 0xFFFFFF :=
    (forall_tempo_iff (P := fun micros => micros ≤ 0xFFFFFF) (tempoMicros_le_most _)).mpr
      fun c _ => tempoMicros_le_most c.bpm
  exact ⟨hfit, hlast, fun h => exists_strictMono_played (hlast.mpr h)⟩

/-- The fastest tempo that lets time pass, and the slowest tempo there is. -/
theorem tempo_events_let_time_pass_at_extremes :
    let p : Performance Float := (Melody.interpret "t60000000 c4 t1 d4" .piano).value
    let song := Song.ofPerformance p {}
    p.tempoChanges.map (fun c => tempoMicros c.bpm) = [1, 0xFFFFFF] ∧
      (∀ c ∈ p.tempoChanges, c.bpm.toNat ≤ 60000000) ∧
      (∀ e ∈ song.track, ∀ micros, e.event = .tempo micros → 1 ≤ micros) ∧
      ∃ micros : Nat → Rat, StrictMono micros ∧
        song.played = (absolute 0 song.track).map fun x => ⟨micros x.tick, x.event⟩ := by
  intro p song
  have hchanges : ∀ c ∈ p.tempoChanges, c.bpm.toNat ≤ 60000000 := by decide +kernel
  obtain ⟨-, hlast, hpass⟩ :=
    tempo_events_let_time_pass_iff (β := Float) "t60000000 c4 t1 d4" .piano {}
  exact ⟨by decide +kernel, hchanges, hlast.mpr hchanges, hpass hchanges⟩

/-- **A melody that is played in no time.** Its tempo is one that a melody can be written in. By the
    seconds of the performance a quarter note takes a little less than a microsecond, by the clock
    of the track it takes nothing. -/
theorem clock_stands_still :
    let melody := "t60000001 c4"
    let p : Performance Float := (Melody.interpret melody .piano).value
    let song := Song.ofPerformance p {}
    (Melody.parse melody).feedback = [] ∧
      (Melody.interpret melody .piano : Reported (Performance Rat)).value.duration =
        60 / 60000001 ∧
      (∃ e ∈ song.track, e.event = .tempo 0) ∧ ∀ m ∈ song.played, m.micros = 0 := by
  intro melody p song
  have hmap : tempoMap p {} = [⟨0, .tempo 0⟩] := by decide +kernel
  have horder : p.tempoChanges.Pairwise fun c d => le c.beat d.beat := by decide +kernel
  have hzero : (⟨0, .tempo 0⟩ : Scheduled) ∈ tempoMap p {} := by
    rw [hmap]
    exact List.mem_cons_self
  refine ⟨by decide +kernel, by decide +kernel,
    (exists_mem_absolute_iff 0).mp ⟨_, (mem_tempoMap_iff.mp hzero).1, rfl⟩, fun m hm => ?_⟩
  rw [Song.played, clock_eq _ _ 0] at hm
  obtain ⟨x, -, rfl⟩ := List.mem_map.mp hm
  show 0 + microsTo _ x.tick 0 standardTempo (absolute 0 song.track) = 0
  rw [← microsTo_filter (ascending_absolute 0 _), filter_isTempo_absolute horder, hmap]
  simp [microsTo, microsOf, Event.tempo?]

end TextMelody.Midi
