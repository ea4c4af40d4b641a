import TextMelody.Decimal.Shortest

/-!
# JSON

Values of JSON and their written form: one member to a line, indented by two spaces a level, and an
empty list or object without a line of its own. This stands for the package `serde_json`, of which its
pretty form is assumed, with numbers in the fewest digits that tell them.
-/

namespace TextMelody

/-- A value of JSON. -/
inductive Json where
  | text (s : String)
  | whole (n : Nat)
  | real (x : Float)
  | list (items : List Json)
  | object (fields : List (String × Json))

namespace Json

/-- The character that follows a backslash to write `c`, where there is one. -/
def shortEscape? (c : Char) : Option Char :=
  match c with
  | '"' => some '"'
  | '\\' => some '\\'
  | '\n' => some 'n'
  | '\r' => some 'r'
  | '\t' => some 't'
  | '\x08' => some 'b'
  | '\x0c' => some 'f'
  | _ => none

/-- A character within quotes. Control characters without a short form are written as four
    hexadecimal digits. -/
def escape (c : Char) : List Char :=
  match shortEscape? c with
  | some e => ['\\', e]
  | none =>
    if c.toNat < 0x20 then
      ['\\', 'u', '0', '0', Nat.digitChar (c.toNat / 16), Nat.digitChar (c.toNat % 16)]
    else [c]

/-- A text in quotes. -/
def quoted (s : String) : String :=
  "\"" ++ String.ofList (s.toList.flatMap escape) ++ "\""

/-- The exponents of ten for which a number is written without one. -/
def isPositional (leading : Int) : Bool :=
  -5 ≤ leading ∧ leading < 16

/-- **A number**: its shortest decimal, with a point or an exponent so that it shows as no whole
    number. What is no finite number is written as `null`. -/
def realText (x : Float) : String :=
  match Decimal.Reading.ofFloat x with
  | .finite negative b =>
    let sign := if negative then "-" else ""
    if b.mantissa = 0 then sign ++ "0.0"
    else
      let d := Decimal.Digits.shortest b
      sign ++ if isPositional d.leading then d.positional ".0" else d.scientific
  | _ => "null"

/-- A line break and the indentation of a level. -/
def lineBreak (level : Nat) : String :=
  "\n" ++ String.ofList (List.replicate (2 * level) ' ')

/-- Members between brackets, one to a line. -/
def bracketed (opening closing : String) (level : Nat) (members : List String) : String :=
  if members.isEmpty then opening ++ closing
  else
    opening ++ lineBreak (level + 1) ++
      String.intercalate ("," ++ lineBreak (level + 1)) members ++ lineBreak level ++ closing

mutual

/-- **The written form of a value** that stands at a level of indentation. -/
def pretty (level : Nat) : Json → String
  | text s => quoted s
  | whole n => toString n
  | real x => realText x
  | list items => bracketed "[" "]" level (prettyItems (level + 1) items)
  | object fields => bracketed "\x7b" "\x7d" level (prettyFields (level + 1) fields)

/-- The written forms of the items of a list. -/
def prettyItems (level : Nat) : List Json → List String
  | [] => []
  | j :: js => pretty level j :: prettyItems level js

/-- The written forms of the fields of an object. -/
def prettyFields (level : Nat) : List (String × Json) → List String
  | [] => []
  | (key, j) :: fields => (quoted key ++ ": " ++ pretty level j) :: prettyFields level fields

end

end Json

end TextMelody
