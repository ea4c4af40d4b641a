import TextMelody.Beat
import TextMelody.Instrument
import TextMelody.Pitch

/-!
# Performances

A performance is what a melody sounds like: notes and tempo changes, placed on a time line that is
counted in beats. The tempo changes also tell how many seconds a beat is away from the start.
-/

namespace TextMelody

/-- A sounding note. -/
structure NoteEvent (β : Type) where
  /-- The MIDI key. -/
  key : UInt8
  start : β
  duration : β
  velocity : UInt8
deriving DecidableEq, Repr

/-- From this beat on there are so many beats in a minute. -/
structure TempoChange (β : Type) where
  beat : β
  bpm : UInt32
deriving DecidableEq, Repr

/-- Notes and tempo changes on a time line. -/
structure Performance (β : Type) where
  instrument : Instrument
  tempoChanges : List (TempoChange β)
  notes : List (NoteEvent β)
  /-- Where the last token leaves the playhead. -/
  endBeat : β
deriving DecidableEq, Repr

variable {β : Type} [Beat β]

/-- Where a note is released. -/
def NoteEvent.release (n : NoteEvent β) : β :=
  n.start + n.duration

/-- The name of a note's key. -/
def NoteEvent.name (n : NoteEvent β) : String :=
  Pitch.spell n.key

namespace Performance

/-- The tempo where no tempo change has come yet. -/
def defaultTempo : UInt32 := 120

/-- **The tempo in force at a beat**: that of the last change at or before it. -/
def tempoAt (p : Performance β) (beat : β) : UInt32 :=
  ((p.tempoChanges.reverse.find? fun c => Beat.le c.beat beat).map TempoChange.bpm).getD
    defaultTempo

/-- The seconds from one beat to another at one tempo. -/
def span (start finish : β) (bpm : UInt32) : β :=
  (finish - start) * Beat.ofNat 60 / Beat.ofNat bpm.toNat

/-- The seconds to `beat`, of which `seconds` lead to `last`, where the tempo is `bpm` and `changes`
    are still to come. -/
def secondsFrom (beat : β) : List (TempoChange β) → β → β → UInt32 → β
  | [], seconds, last, bpm => seconds + span last beat bpm
  | c :: changes, seconds, last, bpm =>
    if Beat.le beat c.beat then seconds + span last beat bpm
    else secondsFrom beat changes (seconds + span last c.beat bpm) c.beat c.bpm

/-- **The seconds from the start to a beat**, stretch by stretch between the tempo changes before
    it. -/
def secondsAt (p : Performance β) (beat : β) : β :=
  secondsFrom beat p.tempoChanges (Beat.ofNat 0) (Beat.ofNat 0) defaultTempo

/-- The seconds the whole performance lasts. -/
def duration (p : Performance β) : β :=
  p.secondsAt p.endBeat

end Performance

end TextMelody
