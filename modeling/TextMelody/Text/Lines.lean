/-!
# Lines

A newline ends a line, and a carriage return right in front of it is a part of that end. The last
line needs no newline, and a newline at the end of a text opens no further line.

* `lines_newline`, `lines_return`, `lines_cons`: the lines of a text from its first character on;
* `lines_append`: a text that ends in a newline splits off its lines;
* `lines_of_not_mem`: a text without newlines is one line.
-/

namespace TextMelody.Text

/-- Puts `c` in front of the first of some lines. -/
def addToFirst (c : Char) (ls : List (List Char)) : List (List Char) :=
  match ls with
  | [] => [[c]]
  | l :: ls => (c :: l) :: ls

/-- **The lines of a text**, without their ends. -/
def lines : List Char → List (List Char)
  | [] => []
  | c :: cs =>
    if c = '\n' then [] :: lines cs
    else if c = '\r' ∧ cs.head? = some '\n' then lines cs
    else addToFirst c (lines cs)

@[simp] theorem lines_nil : lines [] = [] := rfl

theorem lines_newline (cs : List Char) : lines ('\n' :: cs) = [] :: lines cs := rfl

theorem lines_return {cs : List Char} (h : cs.head? = some '\n') : lines ('\r' :: cs) = lines cs :=
  (if_neg (by decide)).trans (if_pos ⟨rfl, h⟩)

theorem lines_cons {c : Char} {cs : List Char} (hline : c ≠ '\n')
    (hreturn : ¬(c = '\r' ∧ cs.head? = some '\n')) : lines (c :: cs) = addToFirst c (lines cs) :=
  (if_neg hline).trans (if_neg hreturn)

/-- A text that is not empty has a line. -/
theorem lines_ne_nil {cs : List Char} (h : cs ≠ []) : lines cs ≠ [] := by
  induction cs with
  | nil => exact absurd rfl h
  | cons c cs ih =>
    rw [lines]
    split
    · exact List.cons_ne_nil _ _
    · split
      · rename_i hreturn
        refine ih ?_
        rintro rfl
        cases hreturn.2
      · unfold addToFirst
        split <;> exact List.cons_ne_nil _ _

/-- **A text that ends in a newline hands its lines over whole.** -/
theorem lines_append (a b : List Char) :
    lines (a ++ '\n' :: b) = lines (a ++ ['\n']) ++ lines b := by
  induction a with
  | nil => rfl
  | cons c a ih =>
    have hhead : (a ++ '\n' :: b).head? = (a ++ ['\n']).head? := by cases a <;> rfl
    rw [List.cons_append, List.cons_append, lines, lines, hhead, ih]
    split
    · rfl
    · split
      · rfl
      · obtain ⟨l, ls, e⟩ := List.exists_cons_of_ne_nil (lines_ne_nil (by simp : a ++ ['\n'] ≠ []))
        rw [e]
        rfl

/-- A text without newlines is one line. -/
theorem lines_of_not_mem {cs : List Char} (hne : cs ≠ []) (h : '\n' ∉ cs) : lines cs = [cs] := by
  induction cs with
  | nil => exact absurd rfl hne
  | cons c cs ih =>
    have hc : c ≠ '\n' := fun e => h (e ▸ List.mem_cons_self)
    have hcs : '\n' ∉ cs := fun hmem => h (List.mem_cons_of_mem c hmem)
    rw [lines_cons hc fun hreturn => hcs (List.mem_of_head? hreturn.2)]
    cases cs with
    | nil => rfl
    | cons d cs =>
      rw [ih (List.cons_ne_nil d cs) hcs]
      rfl

example : lines "a\n\nb".toList = [['a'], [], ['b']] := by decide
example : lines "a\r\n\r\r\nb\r".toList = [['a'], ['\r'], ['b', '\r']] := by decide

end TextMelody.Text
