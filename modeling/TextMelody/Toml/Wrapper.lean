import TextMelody.Toml.Moment
import TextMelody.Toml.Value

/-!
# Wrapped moments

A date or a time can be handed on as a table: the first key of the table is then one that is
reserved for this, and the text under it is the moment as a document writes it. Reading a document
takes moments out of such wrappings. So a table with the reserved key in front is never seen as a
table, whatever it holds besides, and it is an error when it tells no moment. In any other place of
a table the reserved key means nothing, nor does it in the table of the whole document.

* `unwrap?_wrapper`: a table with the reserved key in front is the moment under that key;
* `unwrap?_table`: any other table keeps its keys.
-/

namespace TextMelody.Toml

/-- The key that marks a table as the wrapping of a moment. -/
def wrapperKey : String :=
  "$__toml_private_datetime"

namespace Value

/-- The moment that a value under the reserved key tells: that of a text which is a moment and
    nothing else. -/
def wrapped? : Value → Option Value
  | text cs =>
    match numberOrMoment? cs with
    | some (.moment written, []) => some (scalar (.moment written))
    | _ => none
  | _ => none

/-- The value that a table stands for: a moment, or the table with its `entries` taken out of their
    wrapping. What a wrapping holds besides its moment is not looked at. -/
def opened? (origin : Origin) (written : Entries) (entries : Option Entries) : Option Value :=
  match written with
  | (key, v) :: _ => if key = wrapperKey then v.wrapped? else entries.map (table origin)
  | [] => entries.map (table origin)

mutual

/-- **A value with all moments in it taken out of their wrapping.** -/
def unwrap? : Value → Option Value
  | text cs => some (text cs)
  | scalar s => some (scalar s)
  | array items => (unwrapItems? items).map array
  | table origin es => opened? origin es (unwrapEntries? es)
  | tables elements => (unwrapElements? elements).map array

/-- The items of an array, taken out of their wrapping. -/
def unwrapItems? : List Value → Option (List Value)
  | [] => some []
  | v :: vs =>
    match unwrap? v, unwrapItems? vs with
    | some v, some vs => some (v :: vs)
    | _, _ => none

/-- The values of entries, taken out of their wrapping. -/
def unwrapEntries? : List (String × Value) → Option (List (String × Value))
  | [] => some []
  | (key, v) :: es =>
    match unwrap? v, unwrapEntries? es with
    | some v, some es => some ((key, v) :: es)
    | _, _ => none

/-- The tables of one header in double brackets, taken out of their wrapping. -/
def unwrapElements? : List (List (String × Value)) → Option (List Value)
  | [] => some []
  | es :: ts =>
    match opened? .header es (unwrapEntries? es), unwrapElements? ts with
    | some t, some ts => some (t :: ts)
    | _, _ => none

end

/-- **A table with the reserved key in front is the moment under that key.** -/
theorem unwrap?_wrapper (origin : Origin) (v : Value) (es : Entries) :
    unwrap? (table origin ((wrapperKey, v) :: es)) = v.wrapped? := by
  rw [unwrap?, opened?, if_pos rfl]

theorem unwrap?_table {origin : Origin} {key : String} {v : Value} {es : Entries}
    (h : key ≠ wrapperKey) :
    unwrap? (table origin ((key, v) :: es)) =
      (unwrapEntries? ((key, v) :: es)).map (table origin) := by
  rw [unwrap?, opened?, if_neg h]

example : (wrapped? (text "1979-05-27 23:59:60.5-07:30".toList)).isSome := by decide
example : (wrapped? (text "07:32:00Z".toList)).isNone := by decide
example : (wrapped? (text "24:00:00".toList)).isNone := by decide

end Value

end TextMelody.Toml
