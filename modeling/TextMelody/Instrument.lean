import TextMelody.Text.Blank

/-!
# Instruments

The instruments a melody can be played on, with their places in the General MIDI table.
-/

namespace TextMelody

/-- The instruments to choose from. -/
inductive Instrument where
  | piano
  | chiptune
  | strings
  | flute
  | guitar
  | lead
deriving DecidableEq, Repr

namespace Instrument

/-- Every instrument. -/
def all : List Instrument :=
  [piano, chiptune, strings, flute, guitar, lead]

/-- The name of an instrument. -/
def name : Instrument → String
  | piano => "piano"
  | chiptune => "chiptune"
  | strings => "strings"
  | flute => "flute"
  | guitar => "guitar"
  | lead => "lead"

/-- The number of the instrument in the General MIDI table, which counts from 1. -/
def program : Instrument → UInt8
  | piano => 1
  | chiptune => 81
  | strings => 49
  | flute => 74
  | guitar => 25
  | lead => 82

/-- The number as a program change sends it, counting from 0. -/
def wireProgram (i : Instrument) : UInt8 :=
  i.program - 1

/-- The instrument of a name. Case and blanks around the name do not matter. -/
def ofName? (s : String) : Option Instrument :=
  let wanted := (Text.trim s.toList).map Char.toLower
  all.find? fun i => i.name.toList = wanted

theorem mem_all (i : Instrument) : i ∈ all := by
  cases i <;> decide

@[simp] theorem ofName?_name (i : Instrument) : ofName? i.name = some i := by
  cases i <;> decide

/-- The message about a name that no instrument has. -/
def unknownMessage (name : String) : String :=
  "unknown instrument '" ++ name ++
    "' (expected one of: piano, chiptune, strings, flute, guitar, lead)"

end Instrument

end TextMelody
