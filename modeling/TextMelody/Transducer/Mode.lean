import TextMelody.Text.Blank
import TextMelody.Transducer.Pair
import TextMelody.Transducer.Repetition

/-!
# Modes

The rules by which the lines of a text become music.
-/

namespace TextMelody

/-- The rules to choose from. -/
inductive Mode where
  | repetition
  | pair
deriving DecidableEq, Repr

namespace Mode

/-- The name of a mode. -/
def name : Mode → String
  | repetition => "repetition"
  | pair => "pair"

/-- The mode of a name or of its short form, `a` or `b`. Case and blanks around it do not matter. -/
def ofName? (s : String) : Option Mode :=
  let wanted := String.ofList ((Text.trim s.toList).map Char.toLower)
  if wanted = "repetition" ∨ wanted = "a" then some repetition
  else if wanted = "pair" ∨ wanted = "b" then some pair
  else none

/-- The message about a name that no mode has. -/
def unknownMessage (name : String) : String :=
  "unknown transducer mode '" ++ name ++ "' (expected repetition or pair)"

/-- The tokens of a line that is not blank, without its tempo. -/
def line : Mode → List Char → List Token
  | repetition => Transducer.Repetition.line
  | pair => Transducer.Pair.line

/-- The tokens of a blank line. -/
def blankLine : Mode → List Token
  | repetition => Transducer.Repetition.blankLine
  | pair => Transducer.Pair.blankLine

@[simp] theorem ofName?_name (m : Mode) : ofName? m.name = some m := by
  cases m <;> decide +kernel

end Mode

end TextMelody
