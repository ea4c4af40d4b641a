import TextMelody.Toml.Space

/-!
# Quoted text in TOML

There are four kinds of quotes. Between `"` a backslash escapes; between `'` every character stands
for itself; and three quotes in a row let the text run over several lines.

    "a\tb"   'a\b'   """two⏎lines"""   '''two⏎lines'''

Each reader takes what follows the opening quotes and gives the text with what follows the closing
ones.

* `length_escape_lt`: an escape is shorter than what is left after it.
-/

namespace TextMelody.Toml

/-- The value of a hexadecimal digit. -/
def hexValue? (c : Char) : Option Nat :=
  if c.isDigit then some (c.toNat - '0'.toNat)
  else if 'a' ≤ c ∧ c ≤ 'f' then some (c.toNat - 'a'.toNat + 10)
  else if 'A' ≤ c ∧ c ≤ 'F' then some (c.toNat - 'A'.toNat + 10)
  else none

/-- The number that hexadecimal digits write. -/
def hexNumber? (digits : List Char) : Option Nat :=
  digits.foldlM (fun n c => (hexValue? c).map (16 * n + ·)) 0

/-- The character of a code point, if it is the code point of a character. -/
def charOf? (n : Nat) : Option Char :=
  if n.isValidChar then some (Char.ofNat n) else none

/-- The character that `count` hexadecimal digits at the start of a text write. -/
def codePoint? (count : Nat) (cs : List Char) : Option (Char × List Char) :=
  if count ≤ cs.length then
    ((hexNumber? (cs.take count)).bind charOf?).map (·, cs.drop count)
  else none

/-- The character that stands for itself or for a control character behind a backslash. -/
def escaped? (c : Char) : Option Char :=
  match c with
  | '"' => some '"'
  | '\\' => some '\\'
  | 'b' => some '\x08'
  | 't' => some '\t'
  | 'n' => some '\n'
  | 'f' => some '\x0c'
  | 'r' => some '\r'
  | _ => none

/-- The character that is written behind a backslash. -/
def escape? : List Char → Option (Char × List Char)
  | [] => none
  | c :: cs =>
    if c = 'u' then codePoint? 4 cs
    else if c = 'U' then codePoint? 8 cs
    else (escaped? c).map (·, cs)

theorem length_codePoint_le {n : Nat} {cs rest : List Char} {c : Char}
    (h : codePoint? n cs = some (c, rest)) : rest.length ≤ cs.length := by
  unfold codePoint? at h
  split at h
  · obtain ⟨d, _, e⟩ := Option.map_eq_some_iff.mp h
    rw [Prod.mk.injEq] at e
    rw [← e.2, List.length_drop]
    exact Nat.sub_le _ _
  · cases h

theorem length_escape_lt {cs rest : List Char} {c : Char} (h : escape? cs = some (c, rest)) :
    rest.length < cs.length := by
  cases cs with
  | nil => cases h
  | cons d cs =>
    simp only [escape?] at h
    split at h
    · exact Nat.lt_succ_of_le (length_codePoint_le h)
    · split at h
      · exact Nat.lt_succ_of_le (length_codePoint_le h)
      · obtain ⟨e, _, he⟩ := Option.map_eq_some_iff.mp h
        rw [Prod.mk.injEq] at he
        rw [← he.2]
        exact Nat.lt_succ_self _

/-- Puts a character in front of a text that was read. -/
def before (c : Char) (r : List Char × List Char) : List Char × List Char :=
  (c :: r.1, r.2)

/-! ## 1. One line -/

/-- Reads to the closing `"`. -/
def basic : List Char → Option (List Char × List Char)
  | [] => none
  | c :: cs =>
    if c = '"' then some ([], cs)
    else if c = '\\' then
      match _h : escape? cs with
      | some (d, rest) => (basic rest).map (before d)
      | none => none
    else if isPlain c then (basic cs).map (before c)
    else none
termination_by cs => cs.length
decreasing_by
  · exact Nat.lt_succ_of_lt (length_escape_lt _h)
  · exact Nat.lt_succ_self _

/-- Reads to the closing `'`. -/
def literal : List Char → Option (List Char × List Char)
  | [] => none
  | c :: cs =>
    if c = '\'' then some ([], cs)
    else if isPlain c then (literal cs).map (before c)
    else none

/-! ## 2. Several lines -/

/-- The text without the newline at its start. -/
def skipNewline (cs : List Char) : List Char :=
  (afterNewline? cs).getD cs

/-- What follows three quotes. A text may end in one or two quotes more; the last three of such a
    run close it. -/
def closing (quote : Char) : List Char → List Char × List Char
  | c :: d :: cs =>
    if c = quote then
      if d = quote then ([quote, quote], cs) else ([quote], d :: cs)
    else ([], c :: d :: cs)
  | [c] => if c = quote then ([quote], []) else ([], [c])
  | [] => ([], [])

/-- Space and newlines of any number. -/
def skipSpaceAndNewlines : List Char → List Char
  | [] => []
  | c :: cs =>
    if isSpace c || c = '\n' then skipSpaceAndNewlines cs
    else if c = '\r' ∧ cs.head? = some '\n' then skipSpaceAndNewlines cs
    else c :: cs

/-- The text after a backslash that ends its line: the next character that is neither space nor
    newline. -/
def joinLines? (cs : List Char) : Option (List Char) :=
  (afterNewline? (skipSpace cs)).map skipSpaceAndNewlines

theorem length_skipSpaceAndNewlines_le (cs : List Char) :
    (skipSpaceAndNewlines cs).length ≤ cs.length := by
  induction cs with
  | nil => exact Nat.le_refl _
  | cons c cs ih =>
    unfold skipSpaceAndNewlines
    split
    · exact Nat.le_succ_of_le ih
    · split
      · exact Nat.le_succ_of_le ih
      · exact Nat.le_refl _

theorem length_joinLines_lt {cs rest : List Char} (h : joinLines? cs = some rest) :
    rest.length < cs.length := by
  obtain ⟨r, hr, e⟩ := Option.map_eq_some_iff.mp h
  have h1 := length_afterNewline_lt hr
  have h2 := length_skipSpace_le cs
  have h3 := length_skipSpaceAndNewlines_le r
  rw [← e]
  omega

/-- Reads to the closing `"""`. -/
def basicLines : List Char → Option (List Char × List Char)
  | [] => none
  | c :: cs =>
    if c = '"' ∧ cs.take 2 = ['"', '"'] then some (closing '"' (cs.drop 2))
    else if c = '\\' then
      match _hj : joinLines? cs with
      | some rest => basicLines rest
      | none =>
        match _he : escape? cs with
        | some (d, rest) => (basicLines rest).map (before d)
        | none => none
    else
      match _hn : afterNewline? (c :: cs) with
      | some rest => (basicLines rest).map (before '\n')
      | none => if isPlain c then (basicLines cs).map (before c) else none
termination_by cs => cs.length
decreasing_by
  · exact Nat.lt_succ_of_lt (length_joinLines_lt _hj)
  · exact Nat.lt_succ_of_lt (length_escape_lt _he)
  · exact length_afterNewline_lt _hn
  · exact Nat.lt_succ_self _

/-- Reads to the closing `'''`. -/
def literalLines : List Char → Option (List Char × List Char)
  | [] => none
  | c :: cs =>
    if c = '\'' ∧ cs.take 2 = ['\'', '\''] then some (closing '\'' (cs.drop 2))
    else
      match _hn : afterNewline? (c :: cs) with
      | some rest => (literalLines rest).map (before '\n')
      | none => if isPlain c then (literalLines cs).map (before c) else none
termination_by cs => cs.length
decreasing_by
  · exact length_afterNewline_lt _hn
  · exact Nat.lt_succ_self _

/-! ## 3. Any quotes -/

/-- **Reads a text in quotes of any kind.** A newline right after three opening quotes is no part of
    the text. -/
def quoted? : List Char → Option (List Char × List Char)
  | c :: cs =>
    if c = '"' then
      if cs.take 2 = ['"', '"'] then basicLines (skipNewline (cs.drop 2)) else basic cs
    else if c = '\'' then
      if cs.take 2 = ['\'', '\''] then literalLines (skipNewline (cs.drop 2)) else literal cs
    else none
  | [] => none

example : quoted? "\"a\\tb\" x".toList = some ("a\tb".toList, " x".toList) := by decide +kernel
example : quoted? "'''a''''\n".toList = some ("a'".toList, "\n".toList) := by decide +kernel
example : quoted? "\"\"".toList = some ([], []) := by decide +kernel

end TextMelody.Toml
