import TextMelody.Length
import TextMelody.Pitch

/-!
# Tokens

A melody is a sequence of tokens, written with one space between them. This module holds the tokens
and their written form; `TextMelody.Token.Reader` reads that form back.

| written | token |
|---|---|
| `t120` | tempo in beats per minute |
| `v10` | volume, 0 to 15 |
| `o4` | octave |
| `l8` | length of the notes and rests that give none |
| `@0` | program, a mark with no effect |
| `r4`, `r` | rest |
| `c4`, `f+8.`, `b-` | note |
-/

namespace TextMelody

/-- One command of a melody. -/
inductive Token where
  | tempo (bpm : UInt32)
  | volume (level : UInt32)
  | octave (octave : UInt32)
  | defaultLength (length : Length)
  | program (number : UInt32)
  | rest (length : Option Length)
  | note (pitch : PitchClass) (length : Option Length)
deriving DecidableEq, Repr

namespace Accidental

/-- How an accidental is written after its letter. -/
def char : Accidental → Char
  | sharp => '+'
  | flat => '-'

end Accidental

namespace PitchClass

/-- The text of a pitch class: its letter, and its accidental if there is one. -/
def chars (p : PitchClass) : List Char :=
  p.letter.char :: (p.accidental.map Accidental.char).toList

end PitchClass

namespace Token

/-- The text of a length that may be left out. -/
def lengthChars (length : Option Length) : List Char :=
  (length.map Length.chars).getD []

/-- **The written form of a token.** -/
def chars : Token → List Char
  | tempo n => 't' :: Nat.toDigits 10 n.toNat
  | volume n => 'v' :: Nat.toDigits 10 n.toNat
  | octave n => 'o' :: Nat.toDigits 10 n.toNat
  | defaultLength l => 'l' :: l.chars
  | program n => '@' :: Nat.toDigits 10 n.toNat
  | rest l => 'r' :: lengthChars l
  | note p l => p.chars ++ lengthChars l

/-- The written form as a string. -/
def text (t : Token) : String :=
  String.ofList t.chars

/-- **The written form of a melody**: its tokens with one space between neighbours. -/
def render (tokens : List Token) : String :=
  String.ofList ([' '].intercalate (tokens.map chars))

/-- Every token is written with at least one character. -/
theorem chars_ne_nil (t : Token) : t.chars ≠ [] := by
  cases t <;> simp [chars, PitchClass.chars]

end Token

end TextMelody
