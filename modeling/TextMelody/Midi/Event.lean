/-!
# MIDI events

The events that the tracks of this library hold, and what sorts those that share a tick.
-/

namespace TextMelody.Midi

/-- An event of a track. Keys, velocities and programs have seven bits, channels four. -/
inductive Event where
  | trackName (text : String)
  /-- Microseconds in a quarter note. -/
  | tempo (micros : Nat)
  | program (channel number : UInt8)
  | noteOff (channel key velocity : UInt8)
  | noteOn (channel key velocity : UInt8)
  /-- A named place. Without a name it only lets time pass. -/
  | marker (text : String)
  | endOfTrack
deriving DecidableEq, Repr

namespace Event

/-- **What comes first among events of one tick**: settings, then releases, then strikes, so that a
    key is released before it is struck again. -/
def rank : Event → Nat
  | trackName _ => 0
  | tempo _ => 1
  | program _ _ => 2
  | noteOff _ _ _ => 3
  | noteOn _ _ _ => 4
  | marker _ => 5
  | endOfTrack => 6

/-- The status byte of an event that is sent on a channel. -/
def status? : Event → Option UInt8
  | noteOff channel _ _ => some (0x80 ||| channel)
  | noteOn channel _ _ => some (0x90 ||| channel)
  | program channel _ => some (0xC0 ||| channel)
  | _ => none

end Event

end TextMelody.Midi
