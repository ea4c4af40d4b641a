import TextMelody.Text.Lines
import TextMelody.Transducer.Mode

/-!
# Texts as melodies

A text becomes a melody line by line. Every melody opens with the same three settings; then each
line that is not blank gives its tempo, which is slower for a long line, and its notes.

* `ofLines_append`: a text that ends in a newline and the text after it make their music one
  after the other.
-/

namespace TextMelody.Transducer

/-- The settings that open every melody: tempo 120, volume 10, and the instrument as chosen. -/
def prelude : List Token :=
  [.tempo 120, .volume 10, .program 0]

/-- A line of more characters than this is played slower. -/
def longestQuickLine : Nat := 20

/-- The tempo of a trimmed line by the number of its characters. -/
def lineTempo (chars : Nat) : UInt32 :=
  if chars > longestQuickLine then 100 else 180

/-- **The tokens of one line**: trimmed of blanks, and if something is left, its tempo and its
    notes. -/
def ofLine (mode : Mode) (cs : List Char) : List Token :=
  let trimmed := Text.trim cs
  if trimmed = [] then mode.blankLine
  else .tempo (lineTempo trimmed.length) :: mode.line trimmed

/-- The tokens of all lines. -/
def ofLines (mode : Mode) (cs : List Char) : List Token :=
  (Text.lines cs).flatMap (ofLine mode)

/-- **The melody of a text.** -/
def tokens (mode : Mode) (text : String) : List Token :=
  prelude ++ ofLines mode text.toList

/-- The melody of a text in written form. -/
def transduce (mode : Mode) (text : String) : String :=
  Token.render (tokens mode text)

/-- **Lines make their music on their own.** -/
theorem ofLines_append (mode : Mode) (a b : List Char) :
    ofLines mode (a ++ '\n' :: b) = ofLines mode (a ++ ['\n']) ++ ofLines mode b := by
  simp [ofLines, Text.lines_append a b]

end TextMelody.Transducer
