import TextMelody.Json
import TextMelody.Performance
import TextMelody.Transducer.Mode

/-!
# Dumps of a performance

A dump tells of a performance everything a player would need without MIDI: the tempo changes and
the notes, with names for the keys and with start times in seconds. It is written as JSON.
-/

namespace TextMelody

/-- A note with its name and its start in seconds. -/
structure NamedNote (β : Type) where
  event : NoteEvent β
  name : String
  startSeconds : β
deriving Repr

/-- What a dump holds. -/
structure EventsDump (β : Type) where
  mode : Mode
  instrument : Instrument
  melody : String
  endBeat : β
  duration : β
  tempoChanges : List (TempoChange β)
  notes : List (NamedNote β)
deriving Repr

namespace EventsDump

variable {β : Type} [Beat β]

/-- A note of a performance, with its name and its time. -/
def nameNote (p : Performance β) (n : NoteEvent β) : NamedNote β :=
  ⟨n, n.name, p.secondsAt n.start⟩

/-- **The dump of a performance** of a melody that was made by a mode. -/
def ofPerformance (mode : Mode) (melody : String) (p : Performance β) : EventsDump β where
  mode
  instrument := p.instrument
  melody
  endBeat := p.endBeat
  duration := p.duration
  tempoChanges := p.tempoChanges
  notes := p.notes.map (nameNote p)

/-- A tempo change as JSON. -/
def tempoJson (c : TempoChange Float) : Json :=
  .object [("beat", .real c.beat), ("bpm", .whole c.bpm.toNat)]

/-- A note as JSON. -/
def noteJson (n : NamedNote Float) : Json :=
  .object [("name", .text n.name), ("pitch", .whole n.event.key.toNat),
    ("start", .real n.event.start), ("duration", .real n.event.duration),
    ("velocity", .whole n.event.velocity.toNat), ("start_seconds", .real n.startSeconds)]

/-- A dump as JSON. -/
def toJson (d : EventsDump Float) : Json :=
  .object [("mode", .text d.mode.name), ("instrument", .text d.instrument.name),
    ("program", .whole d.instrument.program.toNat), ("mml", .text d.melody),
    ("end_beat", .real d.endBeat), ("duration_seconds", .real d.duration),
    ("tempo_changes", .list (d.tempoChanges.map tempoJson)),
    ("notes", .list (d.notes.map noteJson))]

/-- **The text of a dump.** -/
def text (d : EventsDump Float) : String :=
  d.toJson.pretty 0

end EventsDump

end TextMelody
