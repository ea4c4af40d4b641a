/-!
# Space between the parts of a TOML text

Spaces and tabs stand between the parts of a line; a comment runs from `#` to the end of its line;
a line ends in a newline, with or without a carriage return before it, or where the text ends.

* `length_afterNewline_lt`, `length_afterLine_lt`: what is left is shorter.
-/

namespace TextMelody.Toml

/-- A space or a tab. -/
def isSpace (c : Char) : Bool :=
  c = ' ' || c = '\t'

/-- A character that may stand in a comment, and unless it has a meaning there, in quotes: no
    control character but the tab. -/
def isPlain (c : Char) : Bool :=
  c = '\t' || (0x20 ≤ c.toNat && c.toNat ≤ 0x7E) || 0x80 ≤ c.toNat

/-- The text without the space at its start. -/
def skipSpace (cs : List Char) : List Char :=
  cs.dropWhile isSpace

/-- The text after the newline at its start. -/
def afterNewline? : List Char → Option (List Char)
  | '\n' :: cs => some cs
  | '\r' :: '\n' :: cs => some cs
  | _ => none

/-- The text without the comment at its start. -/
def skipComment : List Char → List Char
  | '#' :: cs => cs.dropWhile isPlain
  | cs => cs

/-- The text of the next lines, when nothing but space and a comment is left of this one. -/
def afterLine? (cs : List Char) : Option (List Char) :=
  match skipComment (skipSpace cs) with
  | [] => some []
  | rest => afterNewline? rest

theorem length_dropWhile_le {α : Type} (p : α → Bool) (cs : List α) :
    (cs.dropWhile p).length ≤ cs.length := by
  induction cs with
  | nil => exact Nat.le_refl _
  | cons c cs ih =>
    rw [List.dropWhile_cons]
    split
    · exact Nat.le_succ_of_le ih
    · exact Nat.le_refl _

theorem length_skipSpace_le (cs : List Char) : (skipSpace cs).length ≤ cs.length :=
  length_dropWhile_le isSpace cs

theorem length_skipComment_le (cs : List Char) : (skipComment cs).length ≤ cs.length := by
  unfold skipComment
  split
  · exact Nat.le_succ_of_le (length_dropWhile_le _ _)
  · exact Nat.le_refl _

theorem length_afterNewline_lt {cs rest : List Char} (h : afterNewline? cs = some rest) :
    rest.length < cs.length := by
  unfold afterNewline? at h
  split at h
  · rw [Option.some.injEq] at h
    subst h
    exact Nat.lt_succ_self _
  · rw [Option.some.injEq] at h
    subst h
    simp only [List.length_cons]
    omega
  · cases h

/-- A line that is not empty is passed. -/
theorem length_afterLine_lt {cs rest : List Char} (hne : cs ≠ []) (h : afterLine? cs = some rest) :
    rest.length < cs.length := by
  have h1 := length_skipSpace_le cs
  have h2 := length_skipComment_le (skipSpace cs)
  have hpos := List.length_pos_iff.mpr hne
  unfold afterLine? at h
  split at h
  · rw [Option.some.injEq] at h
    subst h
    exact hpos
  · have := length_afterNewline_lt h
    omega

/-- The text without the space, the comments and the newlines at its start. A comment that no
    newline ends stays. -/
def skipLines : List Char → List Char
  | [] => []
  | c :: cs =>
    if isSpace c then skipLines cs
    else
      match _h : afterNewline? (skipComment (c :: cs)) with
      | some rest => skipLines rest
      | none => c :: cs
termination_by cs => cs.length
decreasing_by
  · exact Nat.lt_succ_self _
  · exact Nat.lt_of_lt_of_le (length_afterNewline_lt _h) (length_skipComment_le _)

end TextMelody.Toml
