import TextMelody.Toml.Number

/-!
# Values and tables of TOML

A table keeps how it came to be, because that decides what may be added to it later:

* `inline`, as in `a = { … }`: nothing, the table is closed;
* `header`, as in `[a]`: longer headers may enter it;
* `implied`, as the `a` of `[a.b]`: longer headers may enter it, it may be given a header of its
  own, and dotted keys may pass through it;
* `dotted`, as the `a` of `a.b = 1`: longer headers may enter it, and dotted keys may add to it.

`descend` goes along a path of keys by such rules; assigning a value and opening a table are both a
descent with a last step.

* `find?_assign`: an assigned value is found under its key.
-/

namespace TextMelody.Toml

/-- How a table came to be. -/
inductive Origin where
  | inline
  | header
  | implied
  | dotted
deriving DecidableEq, Repr

/-- A value of TOML. -/
inductive Value where
  | text (chars : List Char)
  | scalar (s : Scalar)
  | array (items : List Value)
  | table (origin : Origin) (entries : List (String × Value))
  /-- The tables of one header in double brackets. -/
  | tables (elements : List (List (String × Value)))
deriving Repr

/-- The entries of a table, in the order in which they were written. -/
abbrev Entries := List (String × Value)

namespace Entries

/-- The value under a key. -/
def find? (es : Entries) (key : String) : Option Value :=
  es.lookup key

/-- Puts a value under a key, in its old place if it has one. -/
def set (es : Entries) (key : String) (v : Value) : Entries :=
  if (es.find? key).isSome then es.map fun e => if e.1 = key then (key, v) else e
  else es ++ [(key, v)]

/-- **Goes along a path and changes the table at its end.** A key that is not there gets a table of
    the origin `fresh`; a table that is there is entered when `admits` its origin; and of tables in
    double brackets the last is entered. `change` is told the origin of the table it changes. -/
def descend (fresh : Origin) (admits : Origin → Bool)
    (change : Origin → Entries → Option Entries) :
    List String → Origin → Entries → Option Entries
  | [], origin, es => change origin es
  | key :: path, _, es =>
    match es.find? key with
    | none => (descend fresh admits change path fresh []).map fun t => es.set key (.table fresh t)
    | some (.table origin t) =>
      if admits origin then
        (descend fresh admits change path origin t).map fun t => es.set key (.table origin t)
      else none
    | some (.tables elements) =>
      match elements.getLast? with
      | some t =>
        (descend fresh admits change path .header t).map fun t =>
          es.set key (.tables (elements.dropLast ++ [t]))
      | none => none
    | some _ => none

/-- The tables that a header enters on its path. -/
def headerAdmits (origin : Origin) : Bool :=
  origin ≠ .inline

/-- The tables that a dotted key enters on its path. -/
def keyAdmits (origin : Origin) : Bool :=
  origin = .implied || origin = .dotted

/-- Adds a value under a key that is not there yet. A dotted key adds only to a table that dotted
    keys made. -/
def add (path : List String) (key : String) (v : Value) (origin : Origin) (es : Entries) :
    Option Entries :=
  if path ≠ [] ∧ origin ≠ .dotted then none
  else if (es.find? key).isSome then none
  else some (es ++ [(key, v)])

/-- **Assigns a value to a key**, of which `path` are the parts in front of the last dot. -/
def assign (path : List String) (key : String) (v : Value) (es : Entries) : Option Entries :=
  descend .dotted keyAdmits (add path key v) path .header es

/-- The entries of all other keys. -/
def erase (es : Entries) (key : String) : Entries :=
  es.filter fun e => e.1 ≠ key

/-- Gives a table its header. A table that is there must have been implied only; its place is from
    now on that of the header. -/
def openHere (key : String) (_ : Origin) (es : Entries) : Option Entries :=
  match es.find? key with
  | none => some (es ++ [(key, .table .header [])])
  | some (.table .implied t) => some (es.erase key ++ [(key, .table .header t)])
  | some _ => none

/-- **Opens the table of a header.** -/
def openTable (path : List String) (key : String) (es : Entries) : Option Entries :=
  descend .implied headerAdmits (openHere key) path .header es

/-- Adds a table to those of a header in double brackets. -/
def extendHere (key : String) (_ : Origin) (es : Entries) : Option Entries :=
  match es.find? key with
  | none => some (es.set key (.tables [[]]))
  | some (.tables elements) => some (es.set key (.tables (elements ++ [[]])))
  | some _ => none

/-- **Opens one more table of a header in double brackets.** -/
def openElement (path : List String) (key : String) (es : Entries) : Option Entries :=
  descend .implied headerAdmits (extendHere key) path .header es

theorem find?_append_of_none {es : Entries} {key : String} {v : Value} (h : es.find? key = none) :
    find? (es ++ [(key, v)]) key = some v := by
  induction es with
  | nil => simp [find?]
  | cons e es ih =>
    obtain ⟨k, w⟩ := e
    simp only [find?, List.cons_append, List.lookup_cons] at h ⊢
    split at h
    · cases h
    · exact ih h

/-- **An assigned value is found under its key.** -/
theorem find?_assign {es es' : Entries} {key : String} {v : Value}
    (h : assign [] key v es = some es') : es'.find? key = some v := by
  simp only [assign, descend, add, ne_eq, not_true_eq_false, false_and, if_false] at h
  split at h
  · cases h
  · rename_i hn
    rw [Option.some.injEq] at h
    rw [← h]
    exact find?_append_of_none (Option.not_isSome_iff_eq_none.mp hn)

end Entries

namespace Value

/-- The entries of a table. -/
def entries? : Value → Option Entries
  | table _ es => some es
  | _ => none

/-- The text of a text. -/
def text? : Value → Option String
  | text cs => some (String.ofList cs)
  | _ => none

/-- The number of a whole number. -/
def integer? : Value → Option Int
  | scalar (.integer n) => some n
  | _ => none

end Value

end TextMelody.Toml
