import TextMelody.Proofs.Transducer.Lines

/-!
# The ends of lines

A line is trimmed before it becomes music, so it does not matter which blanks stand between its last
word and its newline: spaces, or the carriage return of files that end their lines with two
characters. Only a newline ends a line, and what stands behind the last newline is left alone, since
blanks there are a line of their own.

* `trim_append_blank`: blanks at the end of a line are trimmed away;
* `rows`, `map_trim_lines`: **trimmed, lines are the same with carriage returns and without**;
* `Trailing`: two texts that differ in the blanks before newlines alone;
* `ofLines_of_trailing`: **such texts make the same music**;
* `tokens_by_lines`: texts one after the other, and texts with other ends of lines.
-/

namespace TextMelody

/-! ## 1. Blanks before newlines -/

namespace Text

theorem trimStart_append_of_blank {w : List Char} (hw : ∀ c ∈ w, isBlank c) (cs : List Char) :
    trimStart (w ++ cs) = trimStart cs := by
  induction w with
  | nil => rfl
  | cons c w ih =>
    rw [List.cons_append, trimStart_cons_of_blank (hw c List.mem_cons_self)]
    exact ih fun d hd => hw d (List.mem_cons_of_mem c hd)

/-- **Blanks at the end of a line are trimmed away.** -/
theorem trim_append_blank (l : List Char) {w : List Char} (hw : ∀ c ∈ w, isBlank c) :
    trim (l ++ w) = trim l := by
  induction l with
  | nil => rw [List.nil_append, trim_blank hw, trim_nil]
  | cons c l ih =>
    by_cases hc : isBlank c
    · rw [trim, trim, List.cons_append, trimStart_cons_of_blank hc, trimStart_cons_of_blank hc]
      exact ih
    · have hreverse : ∀ d ∈ w.reverse, isBlank d := fun d hd => hw d (List.mem_reverse.mp hd)
      rw [trim, trim, List.cons_append, trimStart_cons_of_not_blank hc,
        trimStart_cons_of_not_blank hc, ← List.cons_append, trimEnd, trimEnd, List.reverse_append,
        trimStart_append_of_blank hreverse]

/-- **Two texts that differ in the blanks before newlines alone**: the second has all that the first
    has, and may have more. -/
inductive Trailing : List Char → List Char → Prop where
  | nil : Trailing [] []
  | char (c : Char) {a b : List Char} (h : Trailing a b) : Trailing (c :: a) (c :: b)
  | blank {c : Char} {a b : List Char} (hc : isBlank c) (hline : c ≠ '\n')
      (h : Trailing ('\n' :: a) b) : Trailing ('\n' :: a) (c :: b)

theorem Trailing.append_newline {w : List Char} (hw : ∀ c ∈ w, isBlank c ∧ c ≠ '\n')
    {a b : List Char} (h : Trailing a b) : Trailing ('\n' :: a) (w ++ '\n' :: b) := by
  induction w with
  | nil => exact .char '\n' h
  | cons c w ih =>
    obtain ⟨⟨hc, hline⟩, hw⟩ := List.forall_mem_cons.mp hw
    exact .blank hc hline (ih hw)

/-- A text with some characters put in front of every newline. -/
def beforeNewlines (w cs : List Char) : List Char :=
  cs.flatMap fun c => if c = '\n' then w ++ ['\n'] else [c]

theorem beforeNewlines_cons_newline (w cs : List Char) :
    beforeNewlines w ('\n' :: cs) = w ++ '\n' :: beforeNewlines w cs := by
  simp [beforeNewlines]

theorem beforeNewlines_cons_of_ne {c : Char} (h : c ≠ '\n') (w cs : List Char) :
    beforeNewlines w (c :: cs) = c :: beforeNewlines w cs := by
  simp [beforeNewlines, h]

theorem trailing_beforeNewlines {w : List Char} (hw : ∀ c ∈ w, isBlank c ∧ c ≠ '\n')
    (cs : List Char) : Trailing cs (beforeNewlines w cs) := by
  induction cs with
  | nil => exact .nil
  | cons c cs ih =>
    by_cases h : c = '\n'
    · subst h
      rw [beforeNewlines_cons_newline]
      exact ih.append_newline hw
    · rw [beforeNewlines_cons_of_ne h]
      exact .char c ih

/-- A text without the carriage returns that stand before newlines. -/
def dropReturns : List Char → List Char
  | [] => []
  | c :: cs => if c = '\r' ∧ cs.head? = some '\n' then dropReturns cs else c :: dropReturns cs

/-- What starts with a newline does so without the carriage returns. -/
theorem dropReturns_cons_newline (cs : List Char) :
    dropReturns ('\n' :: cs) = '\n' :: dropReturns cs :=
  if_neg fun h => absurd h.1 (by decide)

theorem trailing_dropReturns (cs : List Char) : Trailing (dropReturns cs) cs := by
  induction cs with
  | nil => exact .nil
  | cons c cs ih =>
    rw [dropReturns]
    split
    · rename_i h
      obtain ⟨rfl, hhead⟩ := h
      obtain ⟨rest, rfl⟩ := List.head?_eq_some_iff.mp hhead
      rw [dropReturns_cons_newline] at ih ⊢
      exact .blank rfl (by decide) ih
    · exact .char c ih

/-- The second line is the first one with some blanks behind it. -/
def AddsBlanks (l m : List Char) : Prop :=
  ∃ w, (∀ c ∈ w, isBlank c) ∧ m = l ++ w

theorem AddsBlanks.refl (l : List Char) : AddsBlanks l l :=
  ⟨[], fun _ hd => absurd hd List.not_mem_nil, (List.append_nil l).symm⟩

theorem AddsBlanks.cons {l m : List Char} (h : AddsBlanks l m) (c : Char) :
    AddsBlanks (c :: l) (c :: m) := by
  obtain ⟨w, hw, rfl⟩ := h
  exact ⟨w, hw, rfl⟩

/-- **The rows of a text**: its lines, with the carriage returns that stand at their ends. -/
def rows : List Char → List (List Char)
  | [] => []
  | c :: cs => if c = '\n' then [] :: rows cs else addToFirst c (rows cs)

theorem rows_newline (cs : List Char) : rows ('\n' :: cs) = [] :: rows cs := rfl

theorem rows_cons {c : Char} (h : c ≠ '\n') (cs : List Char) :
    rows (c :: cs) = addToFirst c (rows cs) :=
  if_neg h

/-- Lines are the rows of a text without the carriage returns before its newlines. -/
theorem lines_eq_rows (cs : List Char) : lines cs = rows (dropReturns cs) := by
  induction cs with
  | nil => rfl
  | cons c cs ih =>
    by_cases hline : c = '\n'
    · subst hline
      rw [lines_newline, dropReturns_cons_newline, rows_newline, ih]
    · by_cases hreturn : c = '\r' ∧ cs.head? = some '\n'
      · obtain ⟨rfl, hhead⟩ := hreturn
        rw [lines_return hhead, dropReturns, if_pos ⟨rfl, hhead⟩, ih]
      · rw [lines_cons hline hreturn, dropReturns, if_neg hreturn, rows_cons hline, ih]

/-- **Row by row, only blanks at the end are added.** -/
theorem Trailing.rows {a b : List Char} (h : Trailing a b) :
    List.Forall₂ AddsBlanks (rows a) (rows b) := by
  induction h with
  | nil => exact .nil
  | @char c a b _ ih =>
    by_cases hc : c = '\n'
    · subst hc
      exact .cons (.refl []) ih
    · rw [rows_cons hc, rows_cons hc]
      generalize Text.rows a = ls, Text.rows b = ms at ih
      cases ih with
      | nil => exact .cons (.refl [c]) .nil
      | cons hl hrest => exact .cons (hl.cons c) hrest
  | @blank c a b hc hline _ ih =>
    -- The row that ends here has no blanks of its own yet, or blanks alone.
    rw [rows_newline] at ih ⊢
    rw [rows_cons hline]
    generalize Text.rows b = ms at ih
    cases ih with
    | cons hl hrest =>
      obtain ⟨w, hw, e⟩ := hl
      exact .cons ⟨c :: w, List.forall_mem_cons.mpr ⟨hc, hw⟩, congrArg (c :: ·) e⟩ hrest

/-- A row is its line with some blanks behind it. -/
theorem forall₂_lines_rows (cs : List Char) :
    List.Forall₂ AddsBlanks (lines cs) (Text.rows cs) := by
  rw [lines_eq_rows]
  exact (trailing_dropReturns cs).rows

theorem map_trim_of_addsBlanks {ls ms : List (List Char)} (h : List.Forall₂ AddsBlanks ls ms) :
    ms.map trim = ls.map trim := by
  induction h with
  | nil => rfl
  | cons hl _ ih =>
    obtain ⟨w, hw, rfl⟩ := hl
    rw [List.map_cons, List.map_cons, ih, trim_append_blank _ hw]

/-- **Trimmed lines are the same with the carriage returns at their ends and without.** -/
theorem map_trim_lines (cs : List Char) : (lines cs).map trim = (Text.rows cs).map trim :=
  (map_trim_of_addsBlanks (forall₂_lines_rows cs)).symm

end Text

/-! ## 2. Music -/

namespace Transducer

/-- What lines make is made of what they are trimmed to. -/
theorem flatMap_ofLine_eq_of_map_trim (mode : Mode) {ls ms : List (List Char)}
    (h : ms.map Text.trim = ls.map Text.trim) :
    ms.flatMap (ofLine mode) = ls.flatMap (ofLine mode) := by
  have htrim : ∀ ks : List (List Char), ks.flatMap (ofLine mode) =
      (ks.map Text.trim).flatMap fun trimmed => if trimmed = [] then mode.blankLine
        else .tempo (lineTempo trimmed.length) :: mode.line trimmed := fun ks => by
    rw [List.flatMap_map]
    rfl
  rw [htrim, htrim, h]

/-- The rows of a text make the music of the lines. -/
theorem ofLines_eq_rows (mode : Mode) (cs : List Char) :
    ofLines mode cs = (Text.rows cs).flatMap (ofLine mode) :=
  flatMap_ofLine_eq_of_map_trim mode (Text.map_trim_lines cs)

/-- **Texts that differ in the blanks before newlines alone make the same music.** -/
theorem ofLines_of_trailing (mode : Mode) {a b : List Char} (h : Text.Trailing a b) :
    ofLines mode b = ofLines mode a := by
  rw [ofLines_eq_rows, ofLines_eq_rows]
  exact flatMap_ofLine_eq_of_map_trim mode (Text.map_trim_of_addsBlanks h.rows)

theorem tokens_of_trailing (mode : Mode) {a b : List Char} (h : Text.Trailing a b) :
    tokens mode (String.ofList b) = tokens mode (String.ofList a) := by
  rw [tokens, tokens, String.toList_ofList, String.toList_ofList, ofLines_of_trailing mode h]

/-- **A text makes its music line by line, however its lines end.** Where a text is cut behind a
    newline, the tokens of its second part follow those of the first, only that the melody opens
    once. Blanks may be put in front of every newline, and carriage returns that stand there may be
    taken for a part of the newline. -/
theorem tokens_by_lines (mode : Mode) :
    (∀ a b : String, (∀ c ∈ a.toList.getLast?, c = '\n') →
      tokens mode (a ++ b) = tokens mode a ++ (tokens mode b).drop 3) ∧
    (∀ text w : String, (∀ c ∈ w.toList, Text.isBlank c ∧ c ≠ '\n') →
      tokens mode (String.ofList (Text.beforeNewlines w.toList text.toList)) = tokens mode text) ∧
    ∀ text : String,
      tokens mode (String.ofList (Text.dropReturns text.toList)) = tokens mode text := by
  refine ⟨fun a b h => ?_, fun text w hw => ?_, fun text => ?_⟩
  · have hopening : (tokens mode b).drop 3 = ofLines mode b.toList := rfl
    rw [hopening, tokens, tokens, String.toList_append, ofLines_append_of_newline mode h,
      List.append_assoc]
  · rw [tokens_of_trailing mode (Text.trailing_beforeNewlines hw text.toList), String.ofList_toList]
  · rw [← tokens_of_trailing mode (Text.trailing_dropReturns text.toList), String.ofList_toList]

/-- A blank line is a rest in this mode, with blanks on it or without; and the same text in a file
    that ends its lines with three blanks and a newline. -/
theorem tokens_by_lines_with_blanks :
    let first := "ああ。\n"
    let blanks := "\t\u3000\r"
    (∀ c ∈ first.toList.getLast?, c = '\n') ∧ (∀ c ∈ blanks.toList, Text.isBlank c ∧ c ≠ '\n') ∧
      tokens .pair (first ++ "\nab") = tokens .pair first ++ (tokens .pair "\nab").drop 3 ∧
      tokens .pair "ああ。\t\u3000\r\n\t\u3000\r\nab" = tokens .pair (first ++ "\nab") := by
  intro first blanks
  have hlast : first.toList.getLast? = some '\n' := by decide
  have hnewline : ∀ c ∈ first.toList.getLast?, c = '\n' := by
    intro c hc
    rw [hlast] at hc
    exact (Option.some.inj hc).symm
  have hblanks : ∀ c ∈ blanks.toList, Text.isBlank c ∧ c ≠ '\n' := by
    have hlist : blanks.toList = ['\t', '\u3000', '\r'] := by decide
    simp [hlist, Text.isBlank, Text.blankRanges]
  obtain ⟨happend, hends, -⟩ := tokens_by_lines .pair
  have hpadded : String.ofList (Text.beforeNewlines blanks.toList (first ++ "\nab").toList) =
      "ああ。\t\u3000\r\n\t\u3000\r\nab" := by decide
  refine ⟨hnewline, hblanks, happend first "\nab" hnewline, ?_⟩
  rw [← hpadded]
  exact hends (first ++ "\nab") blanks hblanks

/-- Only the return that stands before a newline belongs to it. -/
example : Text.dropReturns "a\r\r\nb\r".toList = "a\r\nb\r".toList := by decide

end Transducer

end TextMelody
