import TextMelody.Melody
import TextMelody.Performance

/-!
# Playing a melody

The player takes the tokens of a melody from left to right. It keeps the octave, the default length
and the volume in force and a playhead in beats, and it gathers the notes and tempo changes that the
tokens ask for. A word that is no token changes nothing but the feedback.

* `play_tempo`, `play_rest`, …: what each kind of token does to the playback state.
-/

namespace TextMelody

/-- The velocity of a volume: levels 0 to 15 are spread over 0 to 127, rounded to nearest, and any
    higher level is as loud as 15. -/
def velocity (level : UInt32) : UInt8 :=
  UInt8.ofNat (min 127 ((254 * level.toNat + 15) / 30))

/-- What is in force while a melody plays. -/
structure Playback (β : Type) where
  octave : UInt32
  length : Length
  volume : UInt32
  velocity : UInt8
  /-- The playhead. -/
  time : β
deriving DecidableEq, Repr

/-- A player in the midst of a melody. -/
structure Player (β : Type) where
  instrument : Instrument
  playback : Playback β
  tempoChanges : Array (TempoChange β)
  notes : Array (NoteEvent β)
  collector : Collector

variable {β : Type} [Beat β]

namespace Playback

/-- What is in force at the start: octave 4, eighth notes, volume 10. -/
def start : Playback β where
  octave := 4
  length := ⟨8, 0⟩
  volume := 10
  velocity := TextMelody.velocity 10
  time := Beat.ofNat 0

/-- Moves the playhead on. -/
def advance (s : Playback β) (beats : β) : Playback β :=
  { s with time := s.time + beats }

/-- The beats of a note or rest: those of its own length, or of the default length. -/
def beats (s : Playback β) (length : Option Length) : β :=
  (length.getD s.length).beats

/-- The key of a pitch class in the octave in force. -/
def key? (s : Playback β) (pitch : PitchClass) : Option UInt8 :=
  Pitch.key? s.octave pitch.semitone

/-- **What a token does to the playback state.** A note moves the playhead also when it has no
    key. -/
def play (s : Playback β) : Token → Playback β
  | .tempo _ => s
  | .volume level => { s with volume := level, velocity := TextMelody.velocity level }
  | .octave octave => { s with octave }
  | .defaultLength length => { s with length }
  | .program _ => s
  | .rest length => s.advance (s.beats length)
  | .note _ length => s.advance (s.beats length)

/-- The note that a token sounds. -/
def note? (s : Playback β) : Token → Option (NoteEvent β)
  | .note pitch length => (s.key? pitch).map (⟨·, s.time, s.beats length, s.velocity⟩)
  | _ => none

/-- Whether a token is a note above the highest key. -/
def isTooHigh (s : Playback β) : Token → Bool
  | .note pitch _ => (s.key? pitch).isNone
  | _ => false

end Playback

namespace Token

/-- Whether a token is a note with a flat. -/
def isFlat : Token → Bool
  | note pitch _ => pitch.accidental = some .flat
  | _ => false

end Token

namespace TempoChange

/-- Marks a tempo at the playhead. There is one mark at an instant: a later one takes the place of
    an earlier one. -/
def mark (changes : Array (TempoChange β)) (beat : β) (bpm : UInt32) : Array (TempoChange β) :=
  match changes.back? with
  | some last => if Beat.same last.beat beat then changes.pop.push { last with bpm }
    else changes.push ⟨beat, bpm⟩
  | none => changes.push ⟨beat, bpm⟩

end TempoChange

namespace Player

/-- The remark about a flat. -/
def flatMessage : String :=
  "Flats are played as the natural note"

/-- The warning about a note above the highest key. -/
def tooHighMessage : String :=
  "Note is outside the MIDI range and was played as a rest"

/-- The hint that goes with it. -/
def tooHighHint : String :=
  "Keep octaves between 0 and 9"

/-- A player before the first word. -/
def start (instrument : Instrument) : Player β where
  instrument
  playback := Playback.start
  tempoChanges := #[]
  notes := #[]
  collector := {}

/-- The feedback on a token, gathered. -/
def remark (s : Playback β) (t : Token) (c : Collector) : Collector :=
  let c := if t.isFlat then c.inform flatMessage else c
  if s.isTooHigh t then c.warn tooHighMessage (some tooHighHint) else c

/-- The tempo changes after a token. -/
def markTempo (s : Playback β) (changes : Array (TempoChange β)) : Token → Array (TempoChange β)
  | .tempo bpm => TempoChange.mark changes s.time bpm
  | _ => changes

/-- **Plays one token.** -/
def play (p : Player β) (t : Token) : Player β where
  instrument := p.instrument
  playback := p.playback.play t
  tempoChanges := markTempo p.playback p.tempoChanges t
  notes := match p.playback.note? t with
    | some n => p.notes.push n
    | none => p.notes
  collector := remark p.playback t p.collector

/-- **Takes in one word of a melody.** -/
def feed (p : Player β) (s : Melody.Source) : Player β :=
  let p := { p with collector := p.collector.moveTo s.position }
  match s.token with
  | .ok t => p.play t
  | .error e => { p with collector := Melody.refuse p.collector e }

/-- Takes in a token that stands at an index of a token list. -/
def feedToken (p : Player β) (t : Token) (index : Nat) : Player β :=
  { p with collector := p.collector.moveTo ⟨index, 0, t.text⟩ }.play t

/-- **The performance so far**, with its feedback. -/
def finish (p : Player β) : Reported (Performance β) where
  value := ⟨p.instrument, p.tempoChanges.toList, p.notes.toList, p.playback.time⟩
  feedback := p.collector.items.toList

end Player

namespace Melody

/-- **The performance of a melody in written form.** -/
def interpret (melody : String) (instrument : Instrument) : Reported (Performance β) :=
  ((sources melody).foldl Player.feed (Player.start instrument)).finish

/-- The performance of a list of tokens. -/
def interpretTokens (tokens : List Token) (instrument : Instrument) : Reported (Performance β) :=
  (tokens.zipIdx.foldl (fun p t => p.feedToken t.1 t.2) (Player.start instrument)).finish

end Melody

namespace Playback

@[simp] theorem play_tempo (s : Playback β) (bpm : UInt32) : s.play (.tempo bpm) = s := rfl

@[simp] theorem play_program (s : Playback β) (n : UInt32) : s.play (.program n) = s := rfl

@[simp] theorem play_rest (s : Playback β) (length : Option Length) :
    s.play (.rest length) = s.advance (s.beats length) := rfl

@[simp] theorem play_note (s : Playback β) (pitch : PitchClass) (length : Option Length) :
    s.play (.note pitch length) = s.advance (s.beats length) := rfl

end Playback

end TextMelody
