import TextMelody.Midi.Schedule

/-!
# Tracks

A track tells of each event how many ticks it comes after the one before it. Such a delta holds 28
bits; a wider gap is bridged by markers without a name.

* `bridge_of_le`, `bridge_of_lt`: a gap that fits one delta needs no marker, and from a wider one a
  marker takes off the largest delta;
* `ticks_bridge`: **a bridge spans exactly its gap**;
* `follow_cons`: a track is one bridge after the other.
-/

namespace TextMelody.Midi

/-- An event and the ticks since the event before it. -/
structure TrackEvent where
  delta : Nat
  event : Event
deriving DecidableEq, Repr

/-- The ticks that pass up to the last event. -/
def ticks : List TrackEvent → Nat
  | [] => 0
  | e :: t => e.delta + ticks t

/-- The largest delta. -/
def maxDelta : Nat := 0x0FFFFFFF

/-- The marker that lets the largest delta pass. -/
def filler : TrackEvent :=
  ⟨maxDelta, .marker ""⟩

theorem maxDelta_pos : 0 < maxDelta :=
  Nat.zero_lt_succ _

/-- **An event after a gap.** While the gap is wider than a delta can be, a marker lets the largest
    delta pass. -/
def bridge (gap : Nat) (e : Event) : List TrackEvent :=
  if maxDelta < gap then filler :: bridge (gap - maxDelta) e else [⟨gap, e⟩]
termination_by gap
decreasing_by
  have hpos := maxDelta_pos
  omega

/-- The events of a schedule after the tick `last`. -/
def follow (last : Nat) (s : List Scheduled) : List TrackEvent :=
  (List.zipWith (fun before next => bridge (next.tick - before) next.event)
    (last :: s.map Scheduled.tick) s).flatten

/-- The tick of the last event of a schedule. -/
def lastTick (s : List Scheduled) : Nat :=
  (s.getLast?.map Scheduled.tick).getD 0

/-- What a MIDI file holds: the ticks of a beat and one track. -/
structure Song where
  resolution : UInt16
  track : List TrackEvent
deriving DecidableEq, Repr

variable {β : Type} [Beat β]

namespace Song

/-- The tick at which a performance with the schedule `s` ends: rests after the last event count
    too. -/
def endTick (p : Performance β) (params : Params) (s : List Scheduled) : Nat :=
  max (tickOf params.resolution p.endBeat) (lastTick s)

/-- **The song of a performance**: its schedule, followed by the end of the track. -/
def ofPerformance (p : Performance β) (params : Params) : Song where
  resolution := params.resolution
  track :=
    let s := schedule p params
    follow 0 s ++ bridge (endTick p params s - lastTick s) .endOfTrack

end Song

theorem ticks_append (a b : List TrackEvent) : ticks (a ++ b) = ticks a + ticks b := by
  induction a with
  | nil => exact (Nat.zero_add _).symm
  | cons e a ih => rw [List.cons_append, ticks, ticks, ih, Nat.add_assoc]

@[simp] theorem follow_nil (last : Nat) : follow last [] = [] := rfl

@[simp] theorem follow_cons (last : Nat) (x : Scheduled) (s : List Scheduled) :
    follow last (x :: s) = bridge (x.tick - last) x.event ++ follow x.tick s := rfl

theorem bridge_of_le {gap : Nat} (h : gap ≤ maxDelta) (e : Event) : bridge gap e = [⟨gap, e⟩] := by
  rw [bridge, if_neg (Nat.not_lt.mpr h)]

theorem bridge_of_lt {gap : Nat} (h : maxDelta < gap) (e : Event) :
    bridge gap e = filler :: bridge (gap - maxDelta) e := by
  rw [bridge, if_pos h]

theorem delta_filler : filler.delta = maxDelta := rfl

theorem event_filler : filler.event = .marker "" := rfl

/-- **A bridge spans exactly its gap.** -/
theorem ticks_bridge (gap : Nat) (e : Event) : ticks (bridge gap e) = gap := by
  induction gap using bridge.induct with
  | case1 gap hwide ih =>
    rw [bridge_of_lt hwide, ticks, ih, delta_filler]
    exact Nat.add_sub_of_le (Nat.le_of_lt hwide)
  | case2 gap hfits =>
    rw [bridge_of_le (Nat.not_lt.mp hfits)]
    exact Nat.add_zero gap

end TextMelody.Midi
