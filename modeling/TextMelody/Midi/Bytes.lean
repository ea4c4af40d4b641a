import TextMelody.Midi.Track

/-!
# MIDI files

The bytes of a Standard MIDI File of format 0: a header chunk and one track chunk. An event on a
channel leaves out its status byte when the event before it had the same; any other event in
between makes it be written again.

This stands for the writer of the package `midly`. What is assumed of it is what it documents: it lays
a song out as the Standard MIDI File specification says, with running status, and adds nothing.

* `utf8_injective`: a text is told by its bytes.
-/

namespace TextMelody.Midi

/-- A byte of a number: its value modulo 256. -/
def byte (n : Nat) : UInt8 :=
  UInt8.ofNat n

/-- A number as two bytes, the high one first. -/
def twoBytes (n : Nat) : List UInt8 :=
  [byte (n / 256), byte n]

/-- A number as four bytes, the high one first. -/
def fourBytes (n : Nat) : List UInt8 :=
  twoBytes (n / 65536) ++ twoBytes n

/-- The groups of seven bits of a number, the highest first, each marked as not the last. -/
def leadingGroups (n : Nat) : List UInt8 :=
  if n = 0 then [] else leadingGroups (n / 128) ++ [byte (n % 128 + 128)]

/-- **A number in as many bytes as it needs**: seven bits to a byte, the last byte without a
    mark. -/
def varLength (n : Nat) : List UInt8 :=
  leadingGroups (n / 128) ++ [byte (n % 128)]

/-- The bytes of an ASCII name. -/
def ascii (s : String) : List UInt8 :=
  s.toList.map fun c => byte c.toNat

/-- The bytes of a text in UTF-8. -/
def utf8 (s : String) : List UInt8 :=
  s.toByteArray.data.toList

/-- Texts of the same bytes are the same. -/
theorem utf8_injective : Function.Injective utf8 := by
  intro a b h
  apply String.toByteArray_inj.mp
  apply ByteArray.ext
  exact Array.toList_inj.mp h

/-- An event that is not sent on a channel: its kind, the length of its data, and the data. -/
def metaBytes (kind : UInt8) (content : List UInt8) : List UInt8 :=
  0xFF :: kind :: varLength content.length ++ content

namespace Event

/-- The bytes of an event, of which a channel event's status byte is not one. -/
def content : Event → List UInt8
  | trackName text => metaBytes 0x03 (utf8 text)
  | tempo micros => metaBytes 0x51 (byte (micros / 65536) :: twoBytes micros)
  | program _ number => [number]
  | noteOff _ key velocity => [key, velocity]
  | noteOn _ key velocity => [key, velocity]
  | marker text => metaBytes 0x06 (utf8 text)
  | endOfTrack => metaBytes 0x2F []

end Event

namespace TrackEvent

/-- The bytes of an event that follows one with the status `running`. -/
def bytes (running : Option UInt8) (e : TrackEvent) : List UInt8 :=
  varLength e.delta ++
    (if e.event.status? = running then [] else e.event.status?.toList) ++ e.event.content

end TrackEvent

/-- The bytes of a track's events after one with the status `running`. -/
def trackBytes (running : Option UInt8) (track : List TrackEvent) : List UInt8 :=
  (List.zipWith TrackEvent.bytes (running :: track.map fun e => e.event.status?) track).flatten

@[simp] theorem trackBytes_nil (running : Option UInt8) : trackBytes running [] = [] := rfl

@[simp] theorem trackBytes_cons (running : Option UInt8) (e : TrackEvent) (t : List TrackEvent) :
    trackBytes running (e :: t) = e.bytes running ++ trackBytes e.event.status? t := rfl

/-- A chunk: its name, the length of its content, and the content. -/
def chunk (name : String) (content : List UInt8) : List UInt8 :=
  ascii name ++ fourBytes content.length ++ content

namespace Song

/-- **The bytes of the MIDI file of a song.** -/
def bytes (s : Song) : List UInt8 :=
  chunk "MThd" (twoBytes 0 ++ twoBytes 1 ++ twoBytes s.resolution.toNat) ++
    chunk "MTrk" (trackBytes none s.track)

end Song

end TextMelody.Midi
