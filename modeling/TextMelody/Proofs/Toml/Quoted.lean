import TextMelody.Toml.Printer
import TextMelody.Toml.Quoted

/-!
# Quoted text reads back

Whatever quotes a text is written in, reading them gives the text again and leaves what stands
behind them. The four kinds of quotes undo four different writings: escapes between `"`, nothing
between `'`, and in three quotes also the newline that opens a text of several lines and the quotes
that the text itself may end in.

* `escape_cases`: a character is written as it is, or with a backslash that reads back;
* `basic_flatMap_escape`, `literal_append`: texts on one line;
* `basicLines_linesFrom`, `literalLines_append`: texts on several lines, with quotes in them;
* `quoted?_quoted`: **every text reads back from the quotes that suit it.**
-/

namespace TextMelody.Toml

open Printer

/-! ## 1. Characters -/

theorem isPlain_of_isControl {c : Char} (hc : isControl c = false) (hn : c ≠ '\n') :
    isPlain c = true := by
  simp only [isControl, Bool.or_eq_false_iff, Bool.and_eq_false_iff, decide_eq_false_iff_not,
    ne_eq, Decidable.not_not] at hc
  simp only [isPlain, Bool.or_eq_true, Bool.and_eq_true, decide_eq_true_eq]
  obtain ⟨(hlow | rfl) | rfl, hdel⟩ := hc
  · omega
  · exact .inl (.inl rfl)
  · exact absurd rfl hn

/-- The digits of a control character read back. -/
theorem codePoint?_capitalDigits {c : Char} (h : c.toNat < 128) (rest : List Char) :
    codePoint? 4 (['0', '0', capitalDigit (c.toNat / 16), capitalDigit (c.toNat % 16)] ++ rest) =
      some (c, rest) := by
  have hdigits : ∀ n : Fin 128,
      hexNumber? ['0', '0', capitalDigit (n / 16), capitalDigit (n % 16)] = some n.val := by
    decide
  have hread := hdigits ⟨c.toNat, h⟩
  have hchar : charOf? c.toNat = some c := by
    have hvalid : c.toNat.isValidChar := c.valid
    rw [charOf?, if_pos hvalid, Char.ofNat_toNat]
  have hfour : 4 ≤ (['0', '0', capitalDigit (c.toNat / 16), capitalDigit (c.toNat % 16)] ++
      rest).length := by
    rw [List.length_append]
    exact Nat.le_add_right 4 _
  rw [codePoint?, if_pos hfour]
  show ((hexNumber? ['0', '0', capitalDigit (c.toNat / 16), capitalDigit (c.toNat % 16)]).bind
    charOf?).map (·, rest) = some (c, rest)
  rw [hread, Option.bind_some, hchar]
  rfl

/-- **A character is written as it is, or behind a backslash in a way that reads back.** What stands
    behind the backslash is no end of a line. -/
theorem escape_cases (c : Char) :
    (escape c = [c] ∧ isPlain c ∧ c ≠ '"' ∧ c ≠ '\\') ∨
      ∃ written, escape c = '\\' :: written ∧ ∀ rest,
        escape? (written ++ rest) = some (c, rest) ∧ joinLines? (written ++ rest) = none := by
  unfold escape
  split
  · exact .inr ⟨['b'], rfl, fun rest => ⟨rfl, rfl⟩⟩
  · exact .inr ⟨['t'], rfl, fun rest => ⟨rfl, rfl⟩⟩
  · exact .inr ⟨['n'], rfl, fun rest => ⟨rfl, rfl⟩⟩
  · exact .inr ⟨['f'], rfl, fun rest => ⟨rfl, rfl⟩⟩
  · exact .inr ⟨['r'], rfl, fun rest => ⟨rfl, rfl⟩⟩
  · exact .inr ⟨['"'], rfl, fun rest => ⟨rfl, rfl⟩⟩
  · exact .inr ⟨['\\'], rfl, fun rest => ⟨rfl, rfl⟩⟩
  · rename_i hnewline _ _ hquote hbackslash
    split
    · rename_i hcontrol
      have hsmall : c.toNat < 128 := by
        simp only [isControl, Bool.or_eq_true, Bool.and_eq_true, decide_eq_true_eq] at hcontrol
        omega
      exact .inr ⟨_, rfl, fun rest => ⟨codePoint?_capitalDigits hsmall rest, rfl⟩⟩
    · rename_i hcontrol
      refine .inl ⟨rfl, isPlain_of_isControl (Bool.not_eq_true _ ▸ hcontrol) hnewline, ?_, ?_⟩
      · exact hquote
      · exact hbackslash

/-! ## 2. Texts on one line -/

theorem basic_quote (cs : List Char) : basic ('"' :: cs) = some ([], cs) := by
  rw [basic, if_pos rfl]

theorem basic_of_isPlain {c : Char} (hc : isPlain c) (hquote : c ≠ '"') (hbackslash : c ≠ '\\')
    (cs : List Char) : basic (c :: cs) = (basic cs).map (before c) := by
  rw [basic, if_neg hquote, if_neg hbackslash, if_pos hc]

theorem basic_of_escape {c : Char} {cs rest : List Char} (h : escape? cs = some (c, rest)) :
    basic ('\\' :: cs) = (basic rest).map (before c) := by
  rw [basic, if_neg (by decide), if_pos rfl]
  split
  · rename_i hsome
    rw [h] at hsome
    cases hsome
    rfl
  · rename_i hnone
    rw [h] at hnone
    cases hnone

/-- **A text between `"` reads back**, character by character. -/
theorem basic_flatMap_escape (cs rest : List Char) :
    basic (cs.flatMap escape ++ '"' :: rest) = some (cs, rest) := by
  induction cs with
  | nil => exact basic_quote rest
  | cons c cs ih =>
    rw [List.flatMap_cons, List.append_assoc]
    rcases escape_cases c with ⟨hself, hplain, hquote, hbackslash⟩ | ⟨written, hescape, hread⟩
    · rw [hself, List.singleton_append, basic_of_isPlain hplain hquote hbackslash, ih]
      rfl
    · rw [hescape, List.cons_append, basic_of_escape (hread _).1, ih]
      rfl

/-- **A text between `'` reads back**, if every character of it stands for itself there. -/
theorem literal_append {cs : List Char} (h : ∀ c ∈ cs, isPlain c ∧ c ≠ '\'') (rest : List Char) :
    literal (cs ++ '\'' :: rest) = some (cs, rest) := by
  induction cs with
  | nil => exact if_pos rfl
  | cons c cs ih =>
    obtain ⟨hplain, hquote⟩ := h c List.mem_cons_self
    rw [List.cons_append, literal, if_neg hquote, if_pos hplain,
      ih fun d hd => h d (List.mem_cons_of_mem c hd)]
    rfl

/-! ## 3. Texts on several lines -/

/-- Behind three quotes, at most two more belong to the text. -/
theorem closing_replicate {q : Char} {n : Nat} (hn : n ≤ 2) {rest : List Char}
    (h : rest.head? ≠ some q) :
    closing q (List.replicate n q ++ rest) = (List.replicate n q, rest) := by
  match n, rest with
  | 0, [] => rfl
  | 0, [c] =>
    have hc : c ≠ q := fun e => h (congrArg some e)
    exact if_neg hc
  | 0, c :: d :: cs =>
    have hc : c ≠ q := fun e => h (congrArg some e)
    exact if_neg hc
  | 1, [] => exact if_pos rfl
  | 1, c :: cs =>
    have hc : c ≠ q := fun e => h (congrArg some e)
    exact (if_pos rfl).trans (if_neg hc)
  | 2, rest => exact (if_pos rfl).trans (if_pos rfl)

/-- Of a run of quotes that closes a text, all but the last three belong to the text. -/
theorem closing_run {q : Char} {n : Nat} (hn : n ≤ 1) {rest : List Char}
    (h : rest.head? ≠ some q) :
    closing q ((List.replicate n q ++ q :: q :: q :: rest).drop 2) =
      (q :: List.replicate n q, rest) := by
  have hone := closing_replicate (Nat.succ_le_succ hn) h
  match n, hn with
  | 0, _ => exact hone
  | 1, _ => exact hone

theorem basicLines_close {cs : List Char} (h : cs.take 2 = ['"', '"']) :
    basicLines ('"' :: cs) = some (closing '"' (cs.drop 2)) := by
  rw [basicLines, if_pos ⟨rfl, h⟩]

theorem basicLines_of_escape {c : Char} {cs rest : List Char} (hj : joinLines? cs = none)
    (h : escape? cs = some (c, rest)) :
    basicLines ('\\' :: cs) = (basicLines rest).map (before c) := by
  have hquote : ¬('\\' = '"' ∧ cs.take 2 = ['"', '"']) := fun e => absurd e.1 (by decide)
  rw [basicLines, if_neg hquote, if_pos rfl]
  split
  · rename_i hsome
    rw [hj] at hsome
    cases hsome
  · split
    · rename_i hsome
      rw [h] at hsome
      cases hsome
      rfl
    · rename_i hnone
      rw [h] at hnone
      cases hnone

theorem basicLines_newline (cs : List Char) :
    basicLines ('\n' :: cs) = (basicLines cs).map (before '\n') := by
  have hquote : ¬('\n' = '"' ∧ cs.take 2 = ['"', '"']) := fun e => absurd e.1 (by decide)
  rw [basicLines, if_neg hquote, if_neg (by decide)]
  rfl

theorem afterNewline?_cons {c : Char} (hn : c ≠ '\n') (hr : c ≠ '\r') (cs : List Char) :
    afterNewline? (c :: cs) = none := by
  unfold afterNewline?
  split
  · rename_i e
    exact absurd (List.cons.inj e).1 hn
  · rename_i e
    exact absurd (List.cons.inj e).1 hr
  · rfl

theorem afterNewline?_of_isPlain {c : Char} (hc : isPlain c) (cs : List Char) :
    afterNewline? (c :: cs) = none := by
  refine afterNewline?_cons ?_ ?_ cs
  · rintro rfl
    cases hc
  · rintro rfl
    cases hc

theorem basicLines_of_isPlain {c : Char} {cs : List Char} (hc : isPlain c) (hbackslash : c ≠ '\\')
    (hquote : ¬(c = '"' ∧ cs.take 2 = ['"', '"'])) :
    basicLines (c :: cs) = (basicLines cs).map (before c) := by
  rw [basicLines, if_neg hquote, if_neg hbackslash]
  split
  · rename_i hsome
    rw [afterNewline?_of_isPlain hc] at hsome
    cases hsome
  · exact if_pos hc

theorem linesFrom_quote {run : Nat} (h : run ≠ 2) (cs : List Char) :
    linesFrom run ('"' :: cs) = '"' :: linesFrom (run + 1) cs := by
  rw [linesFrom, if_pos rfl, if_neg h]

theorem linesFrom_third_quote (cs : List Char) :
    linesFrom 2 ('"' :: cs) = '\\' :: '"' :: linesFrom 0 cs := by
  rw [linesFrom, if_pos rfl, if_pos rfl]

/-- Only a quote that is not the third in a row is written with a quote in front. -/
theorem exists_linesFrom {run : Nat} {c : Char} (h : c = '"' → run = 2) (cs : List Char) :
    ∃ d ds, linesFrom run (c :: cs) = d :: ds ∧ d ≠ '"' := by
  by_cases hquote : c = '"'
  · rw [hquote, h hquote, linesFrom_third_quote]
    exact ⟨_, _, rfl, by decide⟩
  · rw [linesFrom, if_neg hquote]
    split
    · exact ⟨_, _, rfl, by decide⟩
    · rcases escape_cases c with ⟨hself, -, -, -⟩ | ⟨written, hescape, -⟩
      · rw [hself]
        exact ⟨_, _, rfl, hquote⟩
      · rw [hescape]
        exact ⟨_, _, rfl, by decide⟩

/-- Behind quotes, a text is written with two quotes in front only where it ends in quotes, and has
    no more than three of them in a row: the third would be escaped. -/
theorem eq_replicate_of_take_linesFrom {run : Nat} (hpos : 1 ≤ run) (hrun : run ≤ 2)
    {cs rest : List Char}
    (h : (linesFrom run cs ++ '"' :: '"' :: '"' :: rest).take 2 = ['"', '"']) :
    ∃ n, run + n ≤ 2 ∧ cs = List.replicate n '"' ∧ linesFrom run cs = List.replicate n '"' := by
  cases cs with
  | nil => exact ⟨0, hrun, rfl, rfl⟩
  | cons c cs =>
    by_cases hfirst : c = '"' → run = 2
    · obtain ⟨d, ds, hwritten, hd⟩ := exists_linesFrom hfirst cs
      rw [hwritten] at h
      exact absurd (List.cons.inj h).1 hd
    · obtain ⟨rfl, hne⟩ := Classical.not_imp.mp hfirst
      have hone : run = 1 := by omega
      subst hone
      rw [linesFrom_quote hne] at h ⊢
      cases cs with
      | nil => exact ⟨1, Nat.le_refl 2, rfl, rfl⟩
      | cons e cs =>
        have hthird : e = '"' → 1 + 1 = 2 := fun _ => rfl
        obtain ⟨d, ds, hwritten, hd⟩ := exists_linesFrom hthird cs
        rw [hwritten] at h
        exact absurd (List.cons.inj (List.cons.inj h).2).1 hd

/-- One more quote in front of a text that reads back. Where it makes three with those that close
    the text, these are the last three of the run. -/
theorem basicLines_quote {run : Nat} (hrun : run + 1 ≤ 2) {cs rest : List Char}
    (hrest : rest.head? ≠ some '"')
    (h : basicLines (linesFrom (run + 1) cs ++ '"' :: '"' :: '"' :: rest) = some (cs, rest)) :
    basicLines ('"' :: (linesFrom (run + 1) cs ++ '"' :: '"' :: '"' :: rest)) =
      some ('"' :: cs, rest) := by
  by_cases htwo : (linesFrom (run + 1) cs ++ '"' :: '"' :: '"' :: rest).take 2 = ['"', '"']
  · obtain ⟨n, hn, hcs, hwritten⟩ :=
      eq_replicate_of_take_linesFrom (Nat.le_add_left 1 run) hrun htwo
    rw [basicLines_close htwo, hwritten, closing_run (by omega) hrest, hcs]
  · rw [basicLines_of_isPlain (by decide) (by decide) fun e => htwo e.2, h]
    rfl

/-- **A text in three `"` reads back**, the quotes at its end included. -/
theorem basicLines_linesFrom {run : Nat} (hrun : run ≤ 2) (cs : List Char) {rest : List Char}
    (hrest : rest.head? ≠ some '"') :
    basicLines (linesFrom run cs ++ '"' :: '"' :: '"' :: rest) = some (cs, rest) := by
  induction cs generalizing run with
  | nil =>
    show basicLines ('"' :: '"' :: '"' :: rest) = some ([], rest)
    rw [basicLines_close rfl]
    exact congrArg some (closing_replicate (Nat.zero_le 2) hrest)
  | cons c cs ih =>
    by_cases hquote : c = '"'
    · subst hquote
      by_cases hthird : run = 2
      · have hread : escape? ('"' :: (linesFrom 0 cs ++ '"' :: '"' :: '"' :: rest)) =
            some ('"', linesFrom 0 cs ++ '"' :: '"' :: '"' :: rest) := rfl
        rw [hthird, linesFrom_third_quote, List.cons_append, List.cons_append,
          basicLines_of_escape rfl hread, ih (Nat.zero_le 2)]
        rfl
      · have hnext : run + 1 ≤ 2 := by omega
        rw [linesFrom_quote hthird, List.cons_append]
        exact basicLines_quote hnext hrest (ih hnext)
    · by_cases hnewline : c = '\n'
      · subst hnewline
        rw [linesFrom, if_neg hquote, if_pos rfl, List.cons_append, basicLines_newline,
          ih (Nat.zero_le 2)]
        rfl
      · rw [linesFrom, if_neg hquote, if_neg hnewline, List.append_assoc]
        rcases escape_cases c with ⟨hself, hplain, -, hbackslash⟩ | ⟨written, hescape, hread⟩
        · rw [hself, List.singleton_append,
            basicLines_of_isPlain hplain hbackslash fun e => hquote e.1, ih (Nat.zero_le 2)]
          rfl
        · obtain ⟨he, hj⟩ := hread (linesFrom 0 cs ++ '"' :: '"' :: '"' :: rest)
          rw [hescape, List.cons_append, basicLines_of_escape hj he, ih (Nat.zero_le 2)]
          rfl

theorem literalLines_close {cs : List Char} (h : cs.take 2 = ['\'', '\'']) :
    literalLines ('\'' :: cs) = some (closing '\'' (cs.drop 2)) := by
  rw [literalLines, if_pos ⟨rfl, h⟩]

theorem literalLines_newline (cs : List Char) :
    literalLines ('\n' :: cs) = (literalLines cs).map (before '\n') := by
  have hquote : ¬('\n' = '\'' ∧ cs.take 2 = ['\'', '\'']) := fun e => absurd e.1 (by decide)
  rw [literalLines, if_neg hquote]
  rfl

theorem literalLines_of_isPlain {c : Char} {cs : List Char} (hc : isPlain c)
    (hquote : ¬(c = '\'' ∧ cs.take 2 = ['\'', '\''])) :
    literalLines (c :: cs) = (literalLines cs).map (before c) := by
  rw [literalLines, if_neg hquote]
  split
  · rename_i hsome
    rw [afterNewline?_of_isPlain hc] at hsome
    cases hsome
  · exact if_pos hc

theorem longestRunFrom_quote (q : Char) (run : Nat) (cs : List Char) :
    longestRunFrom q run (q :: cs) = longestRunFrom q (run + 1) cs :=
  if_pos rfl

theorem longestRunFrom_of_ne {q c : Char} (h : c ≠ q) (run : Nat) (cs : List Char) :
    longestRunFrom q run (c :: cs) = max run (longestRunFrom q 0 cs) :=
  if_neg h

theorem le_longestRunFrom (q : Char) (run : Nat) (cs : List Char) :
    run ≤ longestRunFrom q run cs := by
  induction cs generalizing run with
  | nil => exact Nat.le_refl run
  | cons c cs ih =>
    by_cases hc : c = q
    · rw [hc, longestRunFrom_quote]
      exact Nat.le_trans (Nat.le_succ run) (ih (run + 1))
    · rw [longestRunFrom_of_ne hc]
      exact Nat.le_max_left _ _

/-- Behind a quote, a text without three of them in a row has two quotes in front of what closes it
    only where it ends in them. -/
theorem eq_replicate_of_take_append {q : Char} {run : Nat} (hpos : 1 ≤ run) {cs rest : List Char}
    (hruns : longestRunFrom q run cs ≤ 2) (h : (cs ++ q :: q :: q :: rest).take 2 = [q, q]) :
    ∃ n, run + n ≤ 2 ∧ cs = List.replicate n q := by
  have hrun := Nat.le_trans (le_longestRunFrom q run cs) hruns
  match cs with
  | [] => exact ⟨0, hrun, rfl⟩
  | [c] =>
    have hc : c = q := (List.cons.inj h).1
    subst hc
    rw [longestRunFrom_quote] at hruns
    exact ⟨1, hruns, rfl⟩
  | c :: d :: cs =>
    have hc : c = q := (List.cons.inj h).1
    have hd : d = q := (List.cons.inj (List.cons.inj h).2).1
    subst hc
    subst hd
    rw [longestRunFrom_quote, longestRunFrom_quote] at hruns
    have hthree := Nat.le_trans (le_longestRunFrom _ _ cs) hruns
    omega

/-- **A text in three `'` reads back**, the quotes at its end included, if it has no three of them
    in a row. -/
theorem literalLines_append {run : Nat} {cs : List Char} (hcs : ∀ c ∈ cs, isControl c = false)
    (hruns : longestRunFrom '\'' run cs ≤ 2) {rest : List Char} (hrest : rest.head? ≠ some '\'') :
    literalLines (cs ++ '\'' :: '\'' :: '\'' :: rest) = some (cs, rest) := by
  induction cs generalizing run with
  | nil =>
    show literalLines ('\'' :: '\'' :: '\'' :: rest) = some ([], rest)
    rw [literalLines_close rfl]
    exact congrArg some (closing_replicate (Nat.zero_le 2) hrest)
  | cons c cs ih =>
    have hinner : ∀ d ∈ cs, isControl d = false := fun d hd => hcs d (List.mem_cons_of_mem c hd)
    rw [List.cons_append]
    by_cases hquote : c = '\''
    · subst hquote
      rw [longestRunFrom_quote] at hruns
      by_cases htwo : (cs ++ '\'' :: '\'' :: '\'' :: rest).take 2 = ['\'', '\'']
      · obtain ⟨n, hn, rfl⟩ := eq_replicate_of_take_append (Nat.le_add_left 1 run) hruns htwo
        rw [literalLines_close htwo, closing_run (by omega) hrest]
      · rw [literalLines_of_isPlain (by decide) fun e => htwo e.2, ih hinner hruns]
        rfl
    · have hnext : longestRunFrom '\'' 0 cs ≤ 2 := by
        rw [longestRunFrom_of_ne hquote] at hruns
        exact Nat.le_trans (Nat.le_max_right _ _) hruns
      by_cases hnewline : c = '\n'
      · rw [hnewline, literalLines_newline, ih hinner hnext]
        rfl
      · have hplain := isPlain_of_isControl (hcs c List.mem_cons_self) hnewline
        rw [literalLines_of_isPlain hplain fun e => hquote e.1, ih hinner hnext]
        rfl

/-! ## 4. Any quotes -/

/-- A newline after the opening quotes is passed over where one was written, and only there. -/
theorem skipNewline_opening {cs body : List Char}
    (h : '\n' ∉ cs → ∀ c ∈ body.head?, isPlain c) : skipNewline (opening cs ++ body) = body := by
  by_cases hn : '\n' ∈ cs
  · rw [opening, if_pos (List.contains_iff_mem.mpr hn)]
    rfl
  · rw [opening, if_neg fun e => hn (List.contains_iff_mem.mp e), List.nil_append]
    cases body with
    | nil => rfl
    | cons c body =>
      rw [skipNewline, afterNewline?_of_isPlain (h hn c rfl)]
      rfl

theorem isPlain_head_linesFrom {cs : List Char} (h : '\n' ∉ cs) (rest : List Char) :
    ∀ c ∈ (linesFrom 0 cs ++ '"' :: rest).head?, isPlain c := by
  intro d hd
  cases cs with
  | nil =>
    cases hd
    decide
  | cons c cs =>
    have hnewline : c ≠ '\n' := fun e => h (e ▸ List.mem_cons_self)
    by_cases hquote : c = '"'
    · rw [hquote, linesFrom_quote (by decide)] at hd
      cases hd
      decide
    · rw [linesFrom, if_neg hquote, if_neg hnewline, List.append_assoc] at hd
      rcases escape_cases c with ⟨hself, hplain, -, -⟩ | ⟨written, hescape, -⟩
      · rw [hself] at hd
        cases hd
        exact hplain
      · rw [hescape] at hd
        cases hd
        decide

theorem quoted?_basic (cs : List Char) {rest : List Char} (hrest : rest.head? ≠ some '"') :
    quoted? (inQuotes cs .basic ++ rest) = some (cs, rest) := by
  have htext : inQuotes cs .basic ++ rest = '"' :: (cs.flatMap escape ++ '"' :: rest) := by
    simp [inQuotes]
  have htwo : (cs.flatMap escape ++ '"' :: rest).take 2 ≠ ['"', '"'] := by
    intro h
    cases cs with
    | nil =>
      cases rest with
      | nil => cases h
      | cons c rest => exact hrest (congrArg some (List.cons.inj (List.cons.inj h).2).1)
    | cons c cs =>
      rw [List.flatMap_cons, List.append_assoc] at h
      rcases escape_cases c with ⟨hself, -, hquote, -⟩ | ⟨written, hescape, -⟩
      · rw [hself] at h
        exact hquote (List.cons.inj h).1
      · rw [hescape] at h
        exact absurd (List.cons.inj h).1 (by decide)
  rw [htext, quoted?, if_pos rfl, if_neg htwo, basic_flatMap_escape]

theorem quoted?_literal {cs : List Char} (h : ∀ c ∈ cs, isPlain c ∧ c ≠ '\'') {rest : List Char}
    (hrest : rest.head? ≠ some '\'') :
    quoted? (inQuotes cs .literal ++ rest) = some (cs, rest) := by
  have htext : inQuotes cs .literal ++ rest = '\'' :: (cs ++ '\'' :: rest) := by
    simp [inQuotes]
  have htwo : (cs ++ '\'' :: rest).take 2 ≠ ['\'', '\''] := by
    intro e
    cases cs with
    | nil =>
      cases rest with
      | nil => cases e
      | cons c rest => exact hrest (congrArg some (List.cons.inj (List.cons.inj e).2).1)
    | cons c cs => exact (h c List.mem_cons_self).2 (List.cons.inj e).1
  rw [htext, quoted?, if_neg (by decide), if_pos rfl, if_neg htwo, literal_append h]

theorem quoted?_basicLines (cs : List Char) {rest : List Char} (hrest : rest.head? ≠ some '"') :
    quoted? (inQuotes cs .basicLines ++ rest) = some (cs, rest) := by
  have htext : inQuotes cs .basicLines ++ rest =
      '"' :: '"' :: '"' :: (opening cs ++ (linesFrom 0 cs ++ '"' :: '"' :: '"' :: rest)) := by
    simp [inQuotes]
  have hopening : skipNewline (opening cs ++ (linesFrom 0 cs ++ '"' :: '"' :: '"' :: rest)) =
      linesFrom 0 cs ++ '"' :: '"' :: '"' :: rest :=
    skipNewline_opening fun hn => isPlain_head_linesFrom hn _
  rw [htext]
  show basicLines (skipNewline (opening cs ++ (linesFrom 0 cs ++ '"' :: '"' :: '"' :: rest))) = _
  rw [hopening, basicLines_linesFrom (Nat.zero_le 2) cs hrest]

theorem quoted?_literalLines {cs : List Char} (h : ∀ c ∈ cs, isControl c = false)
    (hruns : longestRun '\'' cs ≤ 2) {rest : List Char} (hrest : rest.head? ≠ some '\'') :
    quoted? (inQuotes cs .literalLines ++ rest) = some (cs, rest) := by
  have htext : inQuotes cs .literalLines ++ rest =
      '\'' :: '\'' :: '\'' :: (opening cs ++ (cs ++ '\'' :: '\'' :: '\'' :: rest)) := by
    simp [inQuotes]
  have hhead : '\n' ∉ cs → ∀ c ∈ (cs ++ '\'' :: '\'' :: '\'' :: rest).head?, isPlain c := by
    intro hn c hc
    cases cs with
    | nil =>
      cases hc
      decide
    | cons d cs =>
      cases hc
      exact isPlain_of_isControl (h c List.mem_cons_self) fun e => hn (e ▸ List.mem_cons_self)
  rw [htext]
  show literalLines (skipNewline (opening cs ++ (cs ++ '\'' :: '\'' :: '\'' :: rest))) = _
  rw [skipNewline_opening hhead, literalLines_append h hruns hrest]

theorem not_mem_of_longestRun {q : Char} {cs : List Char} (h : longestRun q cs = 0) : q ∉ cs := by
  rw [longestRun] at h
  induction cs with
  | nil => exact List.not_mem_nil
  | cons c cs ih =>
    by_cases hc : c = q
    · rw [hc, longestRunFrom_quote] at h
      have hone := le_longestRunFrom q (0 + 1) cs
      omega
    · rw [longestRunFrom_of_ne hc] at h
      rw [List.mem_cons, not_or]
      exact ⟨Ne.symm hc, ih (by omega)⟩

/-- **Every text reads back from the quotes that suit it**, whatever it holds, and what stands
    behind them is left. -/
theorem quoted?_quoted (cs : List Char) {rest : List Char} (hquote : rest.head? ≠ some '"')
    (hapostrophe : rest.head? ≠ some '\'') : quoted? (quoted cs ++ rest) = some (cs, rest) := by
  have hcontrol : (!cs.any isControl) = true → ∀ c ∈ cs, isControl c = false := by
    intro h
    simpa using h
  unfold quoted quotesFor
  simp only
  split
  · exact quoted?_basic cs hquote
  · split
    · rename_i h
      simp only [Bool.and_eq_true, decide_eq_true_eq] at h
      obtain ⟨⟨hnone, hline⟩, hruns⟩ := h
      refine quoted?_literal (fun c hc => ⟨?_, ?_⟩) hapostrophe
      · refine isPlain_of_isControl (hcontrol hnone c hc) ?_
        rintro rfl
        simp [hc] at hline
      · rintro rfl
        exact not_mem_of_longestRun hruns hc
    · split
      · exact quoted?_basicLines cs hquote
      · split
        · rename_i h
          simp only [Bool.and_eq_true, decide_eq_true_eq] at h
          exact quoted?_literalLines (hcontrol h.1) h.2 hapostrophe
        · split
          · exact quoted?_basicLines cs hquote
          · exact quoted?_basic cs hquote

end TextMelody.Toml
