import TextMelody.Toml.Moment
import TextMelody.Toml.Value

/-!
# Reading keys and values of TOML

Every reader takes a text and gives what stands at its start, with the text behind it. Arrays and
inline tables can hold one another to a fixed depth, which is what the readers of values recurse
on. The grammar is that of TOML 1.0; the depth is the limit of the package `toml`, which these readers
stand for.
-/

namespace TextMelody.Toml

/-! ## 1. Keys -/

/-- A character that needs no quotes in a key. -/
def isBare (c : Char) : Bool :=
  c.isAlphanum || c = '_' || c = '-'

/-- One part of a key, quoted or not. A part in three quotes is none. -/
def keyPart? (cs : List Char) : Option (String × List Char) :=
  match cs with
  | '"' :: rest => (basic rest).map fun r => (String.ofList r.1, r.2)
  | '\'' :: rest => (literal rest).map fun r => (String.ofList r.1, r.2)
  | _ =>
    if cs.takeWhile isBare = [] then none
    else some (String.ofList (cs.takeWhile isBare), cs.dropWhile isBare)

/-- The parts of a key, with dots between them. -/
def keyParts? (cs : List Char) : Option (List String × List Char) :=
  match keyPart? (skipSpace cs) with
  | none => none
  | some (part, rest) =>
    match skipSpace rest with
    | '.' :: more =>
      if more.length < cs.length then
        (keyParts? more).map fun r => (part :: r.1, r.2)
      else none
    | rest => some ([part], rest)
termination_by cs.length

/-- A key has fewer parts than this, and values are nested less deep. -/
def depthLimit : Nat := 80

/-- A key: the parts in front of its last dot, and the last part. -/
structure Key where
  path : List String
  last : String
deriving DecidableEq, Repr

/-- **A key**, with the space around it. -/
def key? (cs : List Char) : Option (Key × List Char) :=
  match keyParts? cs with
  | none => none
  | some (parts, rest) =>
    match parts.getLast? with
    | some last =>
      if parts.length < depthLimit then some (⟨parts.dropLast, last⟩, rest) else none
    | none => none

/-! ## 2. Arrays and inline tables -/

/-- Reads the value at the start of a text. -/
abbrev ValueReader := List Char → Option (Value × List Char)

/-- The items of an array from one item on, or its end. -/
def items? (value : ValueReader) (cs : List Char) : Option (List Value × List Char) :=
  match skipLines cs with
  | ']' :: rest => some ([], rest)
  | start =>
    match value start with
    | none => none
    | some (v, rest) =>
      match skipLines rest with
      | ']' :: rest => some ([v], rest)
      | ',' :: rest =>
        if rest.length < cs.length then (items? value rest).map fun r => (v :: r.1, r.2)
        else none
      | _ => none
termination_by cs.length

/-- A key with its value and the space behind it. -/
def pair? (value : ValueReader) (cs : List Char) : Option ((Key × Value) × List Char) := do
  let (key, rest) ← key? cs
  let (v, rest) ← value (skipSpace (← after? '=' rest))
  return ((key, v), skipSpace rest)

/-- The pairs of an inline table from one pair on. After a comma there is another pair. -/
def pairs? (value : ValueReader) (cs : List Char) : Option (List (Key × Value) × List Char) :=
  match pair? value cs with
  | some (p, '}' :: rest) => some ([p], rest)
  | some (p, ',' :: rest) =>
    if rest.length < cs.length then (pairs? value rest).map fun r => (p :: r.1, r.2)
    else none
  | _ => none
termination_by cs.length

/-- The table of the pairs. -/
def inlineTable? (pairs : List (Key × Value)) : Option Value :=
  (pairs.foldlM (fun es p => Entries.assign p.1.path p.1.last p.2 es) []).map (.table .inline)

/-- What follows the brace of an inline table. -/
def inlineRest? (value : ValueReader) (cs : List Char) : Option (Value × List Char) :=
  match skipSpace cs with
  | '}' :: rest => some (.table .inline [], rest)
  | start => do
    let (pairs, rest) ← pairs? value start
    return (← inlineTable? pairs, rest)

/-! ## 3. Values -/

/-- A value that is neither array nor inline table. -/
def simple? (cs : List Char) : Option (Value × List Char) :=
  match cs with
  | c :: _ =>
    if c = '"' ∨ c = '\'' then (quoted? cs).map fun r => (.text r.1, r.2)
    else (scalar? cs).map fun r => (.scalar r.1, r.2)
  | [] => none

/-- **A value** in which at most so many brackets are nested. -/
def value? : Nat → List Char → Option (Value × List Char)
  | depth + 1, '[' :: cs => (items? (value? depth) cs).map fun r => (.array r.1, r.2)
  | depth + 1, '{' :: cs => inlineRest? (value? depth) cs
  | 0, '[' :: _ => none
  | 0, '{' :: _ => none
  | _, cs => simple? cs

end TextMelody.Toml
