import TextMelody.Proofs.Text.Words
import TextMelody.Proofs.Toml.Quoted
import TextMelody.Toml.Document

/-!
# Lines of a document read back

A document that is put together line by line is read line by line: empty lines and comments say
nothing, and a header or an assignment is one statement in front of those of the lines behind it.
The value of an assignment may run over several lines; it is enough that its own reader leaves the
newline behind it.

* `key?_append`: a key of one bare part;
* `Written`, `written_quoted`, `written_toDigits`: texts and whole numbers, as they are written;
* `statements?_blank`, `statements?_comment`: lines that say nothing;
* `statements?_header`, `statements?_assignment`: **lines that are one statement.**
-/

namespace TextMelody.Toml

open Printer

/-! ## 1. Space, bare characters and digits -/

theorem skipSpace_cons {c : Char} (h : isSpace c = false) (cs : List Char) :
    skipSpace (c :: cs) = c :: cs :=
  List.dropWhile_cons_of_neg (Bool.not_eq_true _ ▸ h)

/-- A line that starts with something else than space, a comment or its own end is not empty. -/
theorem afterLine?_of_head {c : Char} (hspace : isSpace c = false) (hcomment : c ≠ '#')
    (hn : c ≠ '\n') (hr : c ≠ '\r') (cs : List Char) : afterLine? (c :: cs) = none := by
  have hskip : skipComment (c :: cs) = c :: cs := by
    unfold skipComment
    split
    · rename_i e
      exact absurd (List.cons.inj e).1 hcomment
    · rfl
  rw [afterLine?, skipSpace_cons hspace, hskip]
  exact afterNewline?_cons hn hr cs

/-- What a test tells apart is no single character. -/
theorem ne_of_test {p : Char → Bool} {c d : Char} (hc : p c = true) (hd : p d = false) : c ≠ d := by
  rintro rfl
  rw [hc] at hd
  cases hd

/-! ## 2. Keys -/

theorem isSpace_of_isBare {c : Char} (h : isBare c) : isSpace c = false := by
  have hspace : c ≠ ' ' := ne_of_test h (by decide)
  have htab : c ≠ '\t' := ne_of_test h (by decide)
  simp [isSpace, hspace, htab]

/-- **A key of one bare part reads back**, and leaves what stands behind the space after it. -/
theorem key?_append {c : Char} {name rest : List Char} (hbare : ∀ d ∈ c :: name, isBare d)
    (hstop : ∀ d ∈ rest.head?, isBare d = false) (hdot : (skipSpace rest).head? ≠ some '.') :
    key? (c :: name ++ rest) = some (⟨[], String.ofList (c :: name)⟩, skipSpace rest) := by
  have hc : isBare c := hbare c List.mem_cons_self
  obtain ⟨htake, hdrop⟩ := Text.takeWhile_append_of_stop hbare hstop
  have hpart : keyPart? (c :: name ++ rest) = some (String.ofList (c :: name), rest) := by
    rw [List.cons_append] at htake hdrop ⊢
    unfold keyPart?
    split
    · rename_i e
      exact absurd (List.cons.inj e).1 (ne_of_test hc (by decide))
    · rename_i e
      exact absurd (List.cons.inj e).1 (ne_of_test hc (by decide))
    · rw [htake, hdrop, if_neg (List.cons_ne_nil c name)]
  have hparts : keyParts? (c :: name ++ rest) =
      some ([String.ofList (c :: name)], skipSpace rest) := by
    have hskip : skipSpace (c :: name ++ rest) = c :: name ++ rest :=
      skipSpace_cons (isSpace_of_isBare hc) _
    rw [keyParts?, hskip, hpart]
    simp only
    split
    · rename_i e
      rw [e] at hdot
      exact absurd rfl hdot
    · rfl
  rw [key?, hparts]
  rfl

/-! ## 3. Values -/

theorem exists_quoted (cs : List Char) :
    ∃ c ds, quoted cs = c :: ds ∧ (c = '"' ∨ c = '\'') := by
  unfold quoted inQuotes
  split
  · exact ⟨_, _, rfl, .inl rfl⟩
  · exact ⟨_, _, rfl, .inr rfl⟩
  · exact ⟨_, _, rfl, .inl rfl⟩
  · exact ⟨_, _, rfl, .inr rfl⟩

/-- A value that opens no bracket is a simple one. -/
theorem value?_eq_simple? {c : Char} (hbracket : c ≠ '[') (hbrace : c ≠ '{') (depth : Nat)
    (cs : List Char) : value? depth (c :: cs) = simple? (c :: cs) := by
  unfold value?
  split
  · rename_i e
    exact absurd (List.cons.inj e).1 hbracket
  · rename_i e
    exact absurd (List.cons.inj e).1 hbrace
  · rename_i e
    exact absurd (List.cons.inj e).1 hbracket
  · rename_i e
    exact absurd (List.cons.inj e).1 hbrace
  · rfl

/-- **A value as it is written**: its reader takes it, and leaves the newline behind it. -/
structure Written (written : List Char) (v : Value) : Prop where
  starts : ∃ c cs, written = c :: cs ∧ isSpace c = false
  reads : ∀ rest, value? (depthLimit - 1) (written ++ '\n' :: rest) = some (v, '\n' :: rest)

/-- **A text as it is written.** -/
theorem written_quoted (cs : List Char) : Written (quoted cs) (.text cs) := by
  obtain ⟨c, ds, hquoted, hc⟩ := exists_quoted cs
  refine ⟨⟨c, ds, hquoted, ?_⟩, fun rest => ?_⟩
  · rcases hc with rfl | rfl <;> rfl
  · have hread : quoted? (quoted cs ++ '\n' :: rest) = some (cs, '\n' :: rest) :=
      quoted?_quoted cs (by simp) (by simp)
    have hbracket : c ≠ '[' := by rcases hc with rfl | rfl <;> decide
    have hbrace : c ≠ '{' := by rcases hc with rfl | rfl <;> decide
    rw [hquoted, List.cons_append] at hread ⊢
    rw [value?_eq_simple? hbracket hbrace, simple?, if_pos hc, hread]
    rfl

/-- The digits of a number other than zero do not start with a zero. -/
theorem exists_toDigits {n : Nat} (hpos : 0 < n) :
    ∃ c ds, Nat.toDigits 10 n = c :: ds ∧ c.isDigit ∧ c ≠ '0' := by
  have hsmall : ∀ n : Fin 10, 0 < n.val → n.val.digitChar.isDigit ∧ n.val.digitChar ≠ '0' := by
    decide
  induction n using Nat.strongRecOn with
  | ind n ih =>
    rw [Nat.toDigits_eq_if (by decide)]
    by_cases hlt : n < 10
    · rw [if_pos hlt]
      exact ⟨_, _, rfl, hsmall ⟨n, hlt⟩ hpos⟩
    · obtain ⟨c, ds, hdigits, hc⟩ := ih (n / 10) (by omega) (by omega)
      rw [if_neg hlt, hdigits]
      exact ⟨c, _, rfl, hc⟩

/-- A character that no number goes on with. -/
structure EndsNumber (e : Char) : Prop where
  not_digit : e.isDigit = false
  ne_underscore : e ≠ '_'
  ne_point : e ≠ '.'
  ne_exponent : ¬(e = 'e' ∨ e = 'E')

theorem moreDigits_append {e : Char} (he : EndsNumber e) {ds : List Char}
    (h : ∀ d ∈ ds, d.isDigit) (rest : List Char) :
    moreDigits Char.isDigit (ds ++ e :: rest) = some (ds, e :: rest) := by
  induction ds with
  | nil =>
    have hdigit : ¬e.isDigit = true := Bool.not_eq_true _ ▸ he.not_digit
    rw [List.nil_append]
    unfold moreDigits
    split
    · rename_i h
      exact absurd (List.cons.inj h).1 he.ne_underscore
    · rename_i h
      exact absurd (List.cons.inj h).1 he.ne_underscore
    · rename_i h
      obtain ⟨rfl, rfl⟩ := List.cons.inj h
      exact if_neg hdigit
    · rename_i h
      cases h
  | cons d ds ih =>
    have hd := h d List.mem_cons_self
    have hunderscore : d ≠ '_' := ne_of_test hd (by decide)
    have hrest := ih fun e he => h e (List.mem_cons_of_mem d he)
    rw [List.cons_append]
    unfold moreDigits
    split
    · rename_i e
      exact absurd (List.cons.inj e).1 hunderscore
    · rename_i e
      exact absurd (List.cons.inj e).1 hunderscore
    · rename_i e
      obtain ⟨rfl, rfl⟩ := List.cons.inj e
      rw [if_pos hd, hrest]
      rfl
    · rename_i e
      cases e

/-- No date starts with digits that a line ends behind. -/
theorem year?_of_dropWhile {cs rest : List Char}
    (h : cs.dropWhile Char.isDigit = '\n' :: rest) : year? cs = none := by
  unfold year?
  split
  · split
    · rename_i a b c d cs hdigits
      simp only [Bool.and_eq_true] at hdigits
      obtain ⟨⟨⟨ha, hb⟩, hc⟩, hd⟩ := hdigits
      rw [List.dropWhile_cons_of_pos ha, List.dropWhile_cons_of_pos hb,
        List.dropWhile_cons_of_pos hc, List.dropWhile_cons_of_pos hd] at h
      cases h
    · rfl
  · rfl

/-- No time starts with digits that a line ends behind: a third digit or the newline stands where
    its colon would. -/
theorem afterHour?_of_dropWhile {cs rest : List Char}
    (h : cs.dropWhile Char.isDigit = '\n' :: rest) : afterHour? cs = none := by
  have hcolon : ∀ ds : List Char, ds.dropWhile Char.isDigit = '\n' :: rest →
      after? ':' ds = none := by
    intro ds hds
    cases ds with
    | nil => cases hds
    | cons d ds =>
      have hd : d ≠ ':' := by
        rintro rfl
        cases hds
      exact if_neg hd
  cases htwo : twoDigits? 0 23 cs with
  | none =>
    rw [afterHour?, htwo]
    rfl
  | some r =>
    rw [afterHour?, htwo]
    show after? ':' r.2 = none
    unfold twoDigits? at htwo
    split at htwo
    · rename_i a b cs
      simp only at htwo
      split at htwo
      · rename_i hdigits
        simp only [Bool.and_eq_true] at hdigits
        obtain ⟨⟨⟨ha, hb⟩, -⟩, -⟩ := hdigits
        rw [List.dropWhile_cons_of_pos ha, List.dropWhile_cons_of_pos hb] at h
        cases htwo
        exact hcolon cs h
      · cases htwo
    · cases htwo

theorem afterWord?_of_head {c d : Char} (h : c ≠ d) (word cs : List Char) :
    afterWord? (d :: word) (c :: cs) = none :=
  if_neg fun e => h (List.cons.inj e).1

/-- **The digits of a whole number read as the number.** -/
theorem number?_append {e : Char} (he : EndsNumber e) {c : Char} {ds : List Char}
    (hc : c.isDigit) (hzero : c ≠ '0') (hds : ∀ d ∈ ds, d.isDigit) {n : Nat}
    (hvalue : Nat.ofDigitChars 10 (c :: ds) 0 = n) (hword : (n : Int) < wordBound)
    (rest : List Char) : number? (c :: ds ++ e :: rest) = some (.integer n, e :: rest) := by
  have hne : ∀ {d : Char}, d.isDigit = false → c ≠ d := fun hd => ne_of_test hc hd
  have hsign : sign (c :: (ds ++ e :: rest)) = (false, c :: (ds ++ e :: rest)) := by
    unfold sign
    split
    · rename_i h
      exact absurd (List.cons.inj h).1 (hne rfl)
    · rename_i h
      exact absurd (List.cons.inj h).1 (hne rfl)
    · rfl
  have hspecial : afterSpecial? (c :: (ds ++ e :: rest)) = none := by
    rw [afterSpecial?, afterWord?_of_head (hne rfl), afterWord?_of_head (hne rfl)]
    rfl
  have hwhole : wholePart? (c :: (ds ++ e :: rest)) = some (c :: ds, e :: rest) := by
    unfold wholePart?
    split
    · rename_i h
      exact absurd (List.cons.inj h).1 hzero
    · rw [digits?, if_pos hc, moreDigits_append he hds]
      rfl
  have hinteger : integer? (signed false (Nat.ofDigitChars 10 (c :: ds) 0)) =
      some (.integer n) := by
    have hbounds : -wordBound ≤ (n : Int) ∧ (n : Int) < wordBound := by
      refine ⟨?_, hword⟩
      have hpos : 0 ≤ wordBound := by decide
      omega
    rw [hvalue]
    exact if_pos hbounds
  have hdecimal : decimal? (c :: (ds ++ e :: rest)) = some (.integer n, e :: rest) := by
    simp only [decimal?, hsign, hspecial, hwhole, Option.bind_eq_bind, Option.bind_some]
    split
    · rename_i h
      exact absurd (List.cons.inj h).1 he.ne_point
    · rename_i h
      obtain ⟨rfl, rfl⟩ := List.cons.inj h
      rw [if_neg he.ne_exponent, hinteger]
      rfl
    · rename_i h
      cases h
  rw [List.cons_append]
  unfold number?
  split
  · rename_i h
    exact absurd (List.cons.inj h).1 hzero
  · exact hdecimal

/-- **A whole number reads back from its digits**, in front of a newline. -/
theorem scalar?_toDigits {n : Nat} (hpos : 0 < n) (hword : (n : Int) < wordBound)
    (rest : List Char) :
    scalar? (Nat.toDigits 10 n ++ '\n' :: rest) = some (.integer n, '\n' :: rest) := by
  have hall : ∀ d ∈ Nat.toDigits 10 n, d.isDigit := fun d =>
    Nat.isDigit_of_mem_toDigits (by decide) (by decide)
  have hstop : ∀ d ∈ ('\n' :: rest).head?, d.isDigit = false := by
    intro d hd
    cases hd
    rfl
  have hdrop := (Text.takeWhile_append_of_stop hall hstop).2
  have hvalue : Nat.ofDigitChars 10 (Nat.toDigits 10 n) 0 = n := Nat.ofDigitChars_ten_toDigits
  obtain ⟨c, ds, hdigits, hc, hzero⟩ := exists_toDigits hpos
  rw [hdigits] at hall hdrop hvalue ⊢
  have hds : ∀ d ∈ ds, d.isDigit := fun d hd => hall d (List.mem_cons_of_mem c hd)
  have hne : ∀ {d : Char}, d.isDigit = false → c ≠ d := fun hd => ne_of_test hc hd
  rw [scalar?, List.cons_append, afterWord?_of_head (hne rfl), afterWord?_of_head (hne rfl),
    numberOrMoment?, ← List.cons_append, year?_of_dropWhile hdrop, afterHour?_of_dropWhile hdrop]
  exact number?_append ⟨rfl, by decide, by decide, by decide⟩ hc hzero hds hvalue hword rest

/-- **A whole number as it is written.** -/
theorem written_toDigits {n : Nat} (hpos : 0 < n) (hword : (n : Int) < wordBound) :
    Written (Nat.toDigits 10 n) (.scalar (.integer n)) := by
  obtain ⟨c, ds, hdigits, hc, -⟩ := exists_toDigits hpos
  have hne : ∀ {d : Char}, d.isDigit = false → c ≠ d := fun hd => ne_of_test hc hd
  refine ⟨⟨c, ds, hdigits, ?_⟩, fun rest => ?_⟩
  · have hspace : c ≠ ' ' := hne rfl
    have htab : c ≠ '\t' := hne rfl
    simp [isSpace, hspace, htab]
  · have hread := scalar?_toDigits hpos hword rest
    have hquotes : ¬(c = '"' ∨ c = '\'') := not_or.mpr ⟨hne rfl, hne rfl⟩
    rw [hdigits, List.cons_append] at hread ⊢
    rw [value?_eq_simple? (hne rfl) (hne rfl), simple?, if_neg hquotes, hread]
    rfl

/-! ## 4. Lines -/

theorem statements?_of_afterLine? {c : Char} {cs more : List Char} (hspace : isSpace c = false)
    (h : afterLine? (c :: cs) = some more) : statements? (c :: cs) = statements? more := by
  have hshorter : more.length < (c :: cs).length := length_afterLine_lt (List.cons_ne_nil c cs) h
  rw [statements?, skipSpace_cons hspace]
  simp only [h, if_pos hshorter]

/-- A line of which nothing is written says nothing. -/
theorem statements?_blank (rest : List Char) : statements? ('\n' :: rest) = statements? rest :=
  statements?_of_afterLine? rfl rfl

/-- **A comment says nothing.** -/
theorem statements?_comment {text : List Char} (h : ∀ c ∈ text, isPlain c) (rest : List Char) :
    statements? ('#' :: (text ++ '\n' :: rest)) = statements? rest := by
  have hstop : ∀ c ∈ ('\n' :: rest).head?, isPlain c = false := by
    intro c hc
    cases hc
    rfl
  have hskip : skipComment (skipSpace ('#' :: (text ++ '\n' :: rest))) = '\n' :: rest :=
    (Text.takeWhile_append_of_stop h hstop).2
  refine statements?_of_afterLine? rfl ?_
  rw [afterLine?, hskip]
  rfl

/-- A line that says something is one statement in front of those behind it. -/
theorem statements?_of_statement? {c : Char} {cs more : List Char} {s : Statement}
    (hspace : isSpace c = false) (hline : afterLine? (c :: cs) = none)
    (h : statement? (c :: cs) = some (s, more)) (hshorter : more.length < (c :: cs).length) :
    statements? (c :: cs) = (statements? more).map (s :: ·) := by
  rw [statements?, skipSpace_cons hspace]
  simp only [hline, h, if_pos hshorter]

/-- **A header is one statement.** -/
theorem statements?_header {c : Char} {name : List Char} (hbare : ∀ d ∈ c :: name, isBare d)
    (rest : List Char) :
    statements? ('[' :: (c :: name ++ ']' :: '\n' :: rest)) =
      (statements? rest).map (.header ⟨[], String.ofList (c :: name)⟩ :: ·) := by
  have hkey : key? (c :: name ++ ']' :: '\n' :: rest) =
      some (⟨[], String.ofList (c :: name)⟩, ']' :: '\n' :: rest) := by
    refine key?_append hbare ?_ ?_
    · intro d hd
      cases hd
      rfl
    · intro h
      cases h
  have hstatement : statement? ('[' :: (c :: name ++ ']' :: '\n' :: rest)) =
      some (.header ⟨[], String.ofList (c :: name)⟩, rest) := by
    have hbracket : c ≠ '[' := ne_of_test (hbare c List.mem_cons_self) (by decide)
    unfold statement?
    split
    · rename_i h
      exact absurd (List.cons.inj (List.cons.inj h).2).1 hbracket
    · rename_i h
      obtain ⟨-, rfl⟩ := List.cons.inj h
      rw [hkey]
      rfl
    · rename_i h
      exact absurd rfl (h _)
  refine statements?_of_statement? rfl ?_ hstatement ?_
  · exact afterLine?_of_head rfl (by decide) (by decide) (by decide) _
  · simp only [List.length_cons, List.length_append]
    omega

/-- **An assignment is one statement**, whatever lines its value takes. -/
theorem statements?_assignment {c : Char} {name written : List Char} {v : Value}
    (hbare : ∀ d ∈ c :: name, isBare d) (hvalue : Written written v) (rest : List Char) :
    statements? (c :: name ++ ' ' :: '=' :: ' ' :: (written ++ '\n' :: rest)) =
      (statements? rest).map (.assignment ⟨[], String.ofList (c :: name)⟩ v :: ·) := by
  have hc : isBare c := hbare c List.mem_cons_self
  have hkey : key? (c :: name ++ ' ' :: '=' :: ' ' :: (written ++ '\n' :: rest)) =
      some (⟨[], String.ofList (c :: name)⟩, '=' :: ' ' :: (written ++ '\n' :: rest)) := by
    refine key?_append hbare ?_ ?_
    · intro d hd
      cases hd
      rfl
    · intro h
      cases h
  have hspace : skipSpace (' ' :: (written ++ '\n' :: rest)) = written ++ '\n' :: rest := by
    obtain ⟨d, ds, hwritten, hd⟩ := hvalue.starts
    rw [hwritten]
    exact skipSpace_cons hd _
  have hstatement : statement? (c :: name ++ ' ' :: '=' :: ' ' :: (written ++ '\n' :: rest)) =
      some (.assignment ⟨[], String.ofList (c :: name)⟩ v, rest) := by
    have hbracket : c ≠ '[' := ne_of_test hc (by decide)
    unfold statement?
    split
    · rename_i h
      exact absurd (List.cons.inj h).1 hbracket
    · rename_i h
      exact absurd (List.cons.inj h).1 hbracket
    · rw [hkey]
      show (value? (depthLimit - 1) (skipSpace (' ' :: (written ++ '\n' :: rest)))).bind _ = _
      rw [hspace, hvalue.reads]
      rfl
  have hshorter : rest.length <
      (c :: name ++ ' ' :: '=' :: ' ' :: (written ++ '\n' :: rest)).length := by
    simp only [List.length_append, List.length_cons]
    omega
  exact statements?_of_statement? (isSpace_of_isBare hc)
    (afterLine?_of_head (isSpace_of_isBare hc) (ne_of_test hc (by decide))
      (ne_of_test hc (by decide)) (ne_of_test hc (by decide)) _) hstatement hshorter

end TextMelody.Toml
