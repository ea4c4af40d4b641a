import TextMelody.Proofs.Midi.Clock

/-!
# The tempo in force at a tick

A performance changes its tempo at beats, its track at ticks. Several changes can fall on one tick,
and a change after the start on the first. Whatever is rounded together, the track is at each tick
at the tempo of the last change that has come by then, and before any at the tempo that holds from
the start.

* `tickOf_start`: what stands at the start falls on the first tick;
* `exists_of_openingTempo_nil`: no tempo is put at the start only where there is one;
* `filter_tick_tempoMap`: the tempo events up to a tick;
* `tempo_in_force`: **the last tempo event up to a tick is that of the last tempo change.**
-/

namespace TextMelody.Midi

open Beat

variable {β : Type} [Beat β]

/-- The tempo changes that fall on a tick or before it. -/
def changesUpTo (params : Params) (tick : Nat) (changes : List (TempoChange β)) :
    List (TempoChange β) :=
  changes.filter fun c => tickOf params.resolution c.beat ≤ tick

/-- No tempo is put at the start only where a change stands there. -/
theorem exists_of_openingTempo_nil {p : Performance β} (h : openingTempo p = []) :
    ∃ c ∈ p.tempoChanges, Beat.same c.beat (ofNat 0) := by
  unfold openingTempo at h
  split at h
  · rename_i c changes hchanges
    split at h
    · rename_i hsame
      exact ⟨c, hchanges ▸ List.mem_cons_self, hsame⟩
    · cases h
  · cases h

/-- **The tempo events up to a tick** are the one at the start, if there is one, and those of the
    changes up to the tick. -/
theorem filter_tick_tempoMap (p : Performance β) (params : Params) (tick : Nat) :
    (tempoMap p params).filter (fun x => x.tick ≤ tick) =
      openingTempo p ++ (changesUpTo params tick p.tempoChanges).map (ofTempoChange params) := by
  have hopening : (openingTempo p).filter (fun x => x.tick ≤ tick) = openingTempo p := by
    refine List.filter_eq_self.mpr fun x hx => decide_eq_true ?_
    rcases openingTempo_eq p with e | e
    · rw [e] at hx
      cases hx
    · rw [e, List.mem_singleton] at hx
      rw [hx]
      exact Nat.zero_le tick
  rw [tempoMap, List.filter_append, hopening, List.filter_map]
  rfl

variable [Metered β]

/-- What stands at the start falls on the first tick. -/
theorem tickOf_start {beat : β} (h : Beat.same beat (ofNat 0)) (resolution : UInt16) :
    tickOf resolution beat = 0 := by
  have hle : tickOf resolution beat ≤ tickOf resolution (ofNat 0 : β) :=
    tickOf_le (Instants.same_iff.mp h).1
  have hstart : tickOf resolution (ofNat 0 : β) = 0 :=
    Metered.nearest_start _ resolution.toNat_lt
  omega

/-- The tempo of the last event of a tempo map up to a tick. -/
theorem getLast?_filter_tick_tempoMap (p : Performance β) (params : Params) (tick : Nat) :
    ((tempoMap p params).filter fun x => x.tick ≤ tick).getLast?.map Scheduled.event =
      some (.tempo (tempoMicros
        (((changesUpTo params tick p.tempoChanges).getLast?.map TempoChange.bpm).getD
          Performance.defaultTempo))) := by
  rw [filter_tick_tempoMap, List.getLast?_append, List.getLast?_map]
  cases hlast : (changesUpTo params tick p.tempoChanges).getLast? with
  | some c => rfl
  | none =>
    rcases openingTempo_eq p with e | e
    · -- A change at the start would have come by any tick.
      obtain ⟨c, hc, hsame⟩ := exists_of_openingTempo_nil e
      have hnone := List.filter_eq_nil_iff.mp (List.getLast?_eq_none_iff.mp hlast) c hc
      rw [tickOf_start hsame] at hnone
      exact absurd (decide_eq_true (Nat.zero_le tick)) hnone
    · rw [e]
      rfl

/-- **The tempo in force at a tick.** The last tempo event of the track of a melody up to a tick
    sets the microseconds of the last tempo change whose own tick is not after it, and those of 120
    beats a minute if there is none. So of changes that fall on one tick, the start included, the
    latest counts. -/
theorem tempo_in_force (melody : String) (instrument : Instrument) (params : Params) (tick : Nat) :
    let p : Performance β := (Melody.interpret melody instrument).value
    let change := (p.tempoChanges.filter fun c => tickOf params.resolution c.beat ≤ tick).getLast?
    ((absolute 0 (Song.ofPerformance p params).track).filter fun x =>
        x.isTempo && x.tick ≤ tick).getLast?.map Scheduled.event =
      some (.tempo (tempoMicros ((change.map TempoChange.bpm).getD 120))) := by
  intro p change
  have hchanges : TempoChange.Chronological p.endBeat p.tempoChanges :=
    Melody.chronological_interpret melody instrument
  have htempos : (absolute 0 (Song.ofPerformance p params).track).filter Scheduled.isTempo =
      tempoMap p params :=
    filter_isTempo_absolute (hchanges.before.imp And.left) params
  have hboth := congrArg (List.filter fun x => x.tick ≤ tick) htempos
  rw [List.filter_filter] at hboth
  rw [funext fun x => Bool.and_comm (Scheduled.isTempo x) _, hboth]
  exact getLast?_filter_tick_tempoMap p params tick

/-- At one tick to a beat, two changes after the start fall on the first tick, behind the tempo that
    is put there: the second counts from there on, until a third one falls on the next tick. -/
theorem tempo_in_force_on_first_tick :
    let melody := "r16 t100 r32 t200 c4 t240 r4"
    let p : Performance Float := (Melody.interpret melody .piano).value
    let track := (Song.ofPerformance p { ticksPerBeat := 1 }).track
    p.tempoChanges.length = 3 ∧
      ((absolute 0 track).filter fun x => x.isTempo && x.tick ≤ 0).getLast?.map Scheduled.event =
        some (.tempo 300000) ∧
      ((absolute 0 track).filter fun x => x.isTempo && x.tick ≤ 1).getLast?.map Scheduled.event =
        some (.tempo 250000) := by
  intro melody p track
  have hfirst := tempo_in_force (β := Float) melody .piano { ticksPerBeat := 1 } 0
  have hnext := tempo_in_force (β := Float) melody .piano { ticksPerBeat := 1 } 1
  refine ⟨by decide +kernel, hfirst.trans ?_, hnext.trans ?_⟩
  · decide +kernel
  · decide +kernel

end TextMelody.Midi
