import TextMelody.Toml.Reader
import TextMelody.Toml.Wrapper

/-!
# TOML documents

A document is read in three steps: its lines are read as statements, the statements are carried out
one after the other on the table of the document, and moments are taken out of their wrapping. Every
step can fail.

This stands for the reader of the package `toml`. What is taken from it is what it documents: a text
is read exactly if it is a document of TOML 1.0, and then gives the tables that the specification
says; of what goes beyond the specification, how deep keys and values may be nested and in what a
moment is wrapped are modelled on the package too. Its words for a text that it refuses are left open.
-/

namespace TextMelody.Toml

/-- What a line of a document says. -/
inductive Statement where
  /-- `[a.b]`: the assignments that follow are for this table. -/
  | header (key : Key)
  /-- `[[a.b]]`: the assignments that follow are for one more table of this name. -/
  | element (key : Key)
  /-- `a.b = 1` -/
  | assignment (key : Key) (value : Value)
deriving Repr

/-! ## 1. Lines -/

/-- A statement, and the text of the lines after it. -/
def statement? (cs : List Char) : Option (Statement × List Char) :=
  match cs with
  | '[' :: '[' :: rest => do
    let (key, rest) ← key? rest
    return (.element key, ← afterLine? (← after? ']' (← after? ']' rest)))
  | '[' :: rest => do
    let (key, rest) ← key? rest
    return (.header key, ← afterLine? (← after? ']' rest))
  | _ => do
    let (key, rest) ← key? cs
    let (v, rest) ← value? (depthLimit - 1) (skipSpace (← after? '=' rest))
    return (.assignment key v, ← afterLine? rest)

/-- The statements of a text. Lines of space and comments say nothing. -/
def statements? (cs : List Char) : Option (List Statement) :=
  match skipSpace cs with
  | [] => some []
  | c :: rest =>
    match afterLine? (c :: rest) with
    | some more => if more.length < cs.length then statements? more else none
    | none =>
      match statement? (c :: rest) with
      | some (s, more) =>
        if more.length < cs.length then (statements? more).map (s :: ·) else none
      | none => none
termination_by cs.length

/-! ## 2. Tables -/

/-- A document so far: its table, and where in it assignments go. -/
structure Builder where
  root : Entries := []
  current : List String := []

namespace Builder

/-- Carries out one statement. -/
def step (b : Builder) : Statement → Option Builder
  | .header key =>
    (b.root.openTable key.path key.last).map fun es => ⟨es, key.path ++ [key.last]⟩
  | .element key =>
    (b.root.openElement key.path key.last).map fun es => ⟨es, key.path ++ [key.last]⟩
  | .assignment key v =>
    (Entries.descend .implied Entries.headerAdmits
      (fun _ es => es.assign key.path key.last v) b.current .header b.root).map fun es =>
        { b with root := es }

end Builder

/-- The text without the mark of its byte order. -/
def withoutByteOrderMark : List Char → List Char
  | '\uFEFF' :: cs => cs
  | cs => cs

/-- **Reads a document.** -/
def read? (document : String) : Option Entries := do
  let statements ← statements? (withoutByteOrderMark document.toList)
  let b ← statements.foldlM Builder.step {}
  Value.unwrapEntries? b.root

/-- What is wrong with each text that is no document, in the words of the reader. -/
abbrev Diagnosis := String → String

end TextMelody.Toml
