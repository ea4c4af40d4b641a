import TextMelody.Script
import TextMelody.Token

/-!
# Singing one character

A character is sung at the pitch class of its code point, in the octave of its script.
-/

namespace TextMelody.Transducer

/-- The rest of a plain length. -/
def pause (denominator : UInt32) : Token :=
  .rest (some ⟨denominator, 0⟩)

/-- **A character sung at a length**: its octave, then its note. -/
def sing (c : Char) (length : Length) : List Token :=
  [.octave (Script.of c).octave, .note (PitchClass.ofChar c) (some length)]

end TextMelody.Transducer
