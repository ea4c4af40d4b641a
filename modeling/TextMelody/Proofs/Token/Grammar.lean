import TextMelody.Proofs.Token.Lexeme

/-!
# The grammar of tokens

Which texts are tokens, and which token each of them is, as rules that know nothing of lexemes:

    token   =  t number | v number | o number | @ number | l length | r [length]
            |  letter [+ | # | -] [length]
    length  =  number dots
    number  =  digit | number digit

The case of a command or letter does not matter. Every number is below 2³², a tempo and a length are
not zero, and a length has 255 dots at most.

* `Numeral`, `IsLength`, `Spells`: the rules;
* `spells_of_ofLexeme`, `exists_lexeme_of_spells`: the judgement and the rules agree;
* `ofString_eq_ok_iff_spells`: **the reader reads exactly the tokens of the grammar.**
-/

namespace TextMelody

namespace Grammar

/-! ## 1. The rules -/

/-- **A number in decimal**, and its value: a digit, or a number and one more digit. Zeros may lead,
    and there is no limit to the digits. -/
inductive Numeral : List Char → Nat → Prop where
  | digit (d : Fin 10) : Numeral [Nat.digitChar d] d
  | snoc {ds : List Char} {n : Nat} (h : Numeral ds n) (d : Fin 10) :
      Numeral (ds ++ [Nat.digitChar d]) (10 * n + d)

/-- A length: a number that is not zero, and the dots. -/
inductive IsLength : List Char → Length → Prop where
  | intro {ds : List Char} {l : Length} (h : Numeral ds l.denominator.toNat)
      (hpos : 1 ≤ l.denominator.toNat) : IsLength (ds ++ List.replicate l.dots.toNat '.') l

/-- A length that may be left out. -/
inductive IsOptionalLength : List Char → Option Length → Prop where
  | none : IsOptionalLength [] none
  | some {cs : List Char} {l : Length} (h : IsLength cs l) : IsOptionalLength cs (some l)

/-- A character in either case. -/
def eitherCase (c : Char) : List Char :=
  [c, c.toUpper]

/-- What may stand for an accidental. -/
def accidentalTexts : Option Accidental → List (List Char)
  | none => [[]]
  | some .sharp => [['+'], ['#']]
  | some .flat => [['-']]

/-- **The texts of a token.** The arguments are words of 32 bits, so a number that no word can hold
    is the text of none. -/
inductive Spells : List Char → Token → Prop where
  | tempo {c : Char} {ds : List Char} {n : UInt32} (hc : c ∈ eitherCase 't')
      (h : Numeral ds n.toNat) (hpos : 1 ≤ n.toNat) : Spells (c :: ds) (.tempo n)
  | volume {c : Char} {ds : List Char} {n : UInt32} (hc : c ∈ eitherCase 'v')
      (h : Numeral ds n.toNat) : Spells (c :: ds) (.volume n)
  | octave {c : Char} {ds : List Char} {n : UInt32} (hc : c ∈ eitherCase 'o')
      (h : Numeral ds n.toNat) : Spells (c :: ds) (.octave n)
  | program {ds : List Char} {n : UInt32} (h : Numeral ds n.toNat) : Spells ('@' :: ds) (.program n)
  | defaultLength {c : Char} {cs : List Char} {l : Length} (hc : c ∈ eitherCase 'l')
      (h : IsLength cs l) : Spells (c :: cs) (.defaultLength l)
  | rest {c : Char} {cs : List Char} {l : Option Length} (hc : c ∈ eitherCase 'r')
      (h : IsOptionalLength cs l) : Spells (c :: cs) (.rest l)
  | note {c : Char} {m cs : List Char} {p : PitchClass} {l : Option Length}
      (hc : c ∈ eitherCase p.letter.char) (hm : m ∈ accidentalTexts p.accidental)
      (h : IsOptionalLength cs l) : Spells (c :: (m ++ cs)) (.note p l)

/-! ## 2. Numbers -/

theorem isDigit_iff {c : Char} : c.isDigit ↔ ∃ d : Fin 10, c = Nat.digitChar d := by
  constructor
  · intro h
    have hc : 48 ≤ c.toNat ∧ c.toNat ≤ 57 := Char.isDigit_iff_toNat.mp h
    have hlt : c.toNat - 48 < 10 := by omega
    refine ⟨⟨c.toNat - 48, hlt⟩, Char.toNat_inj.mp ?_⟩
    rw [Nat.toNat_digitChar_of_lt_ten hlt]
    omega
  · rintro ⟨d, rfl⟩
    exact Nat.isDigit_digitChar.trans (decide_eq_true d.isLt)

/-- A digit behind a number. -/
theorem ofDigitChars_digitChar_cons (d : Fin 10) (ds : List Char) (n : Nat) :
    Nat.ofDigitChars 10 (Nat.digitChar d :: ds) n = Nat.ofDigitChars 10 ds (10 * n + d) := by
  rw [Nat.ofDigitChars_cons, Nat.toNat_digitChar_of_lt_ten d.isLt]
  exact congrArg (fun k => Nat.ofDigitChars 10 ds (10 * n + k)) (Nat.add_sub_cancel_left 48 d.val)

theorem Numeral.ne_nil {ds : List Char} {n : Nat} (h : Numeral ds n) : ds ≠ [] := by
  cases h <;> simp

theorem Numeral.isDigit {ds : List Char} {n : Nat} (h : Numeral ds n) : ∀ c ∈ ds, c.isDigit := by
  induction h with
  | digit d =>
    intro c hc
    exact isDigit_iff.mpr ⟨d, List.mem_singleton.mp hc⟩
  | snoc _ d ih =>
    intro c hc
    rcases List.mem_append.mp hc with hc | hc
    · exact ih c hc
    · exact isDigit_iff.mpr ⟨d, List.mem_singleton.mp hc⟩

theorem Numeral.ofDigitChars {ds : List Char} {n : Nat} (h : Numeral ds n) :
    Nat.ofDigitChars 10 ds 0 = n := by
  induction h with
  | digit d => exact (ofDigitChars_digitChar_cons d [] 0).trans (Nat.zero_add _)
  | snoc _ d ih =>
    rw [Nat.ofDigitChars_append, ih, ofDigitChars_digitChar_cons]
    rfl

/-- More digits make a number longer. -/
theorem Numeral.append {ds es : List Char} {n : Nat} (h : Numeral ds n)
    (hes : ∀ c ∈ es, c.isDigit) : Numeral (ds ++ es) (Nat.ofDigitChars 10 es n) := by
  induction es generalizing ds n with
  | nil =>
    rw [List.append_nil]
    exact h
  | cons c es ih =>
    obtain ⟨d, rfl⟩ := isDigit_iff.mp (hes c List.mem_cons_self)
    have hrest := ih (h.snoc d) fun x hx => hes x (List.mem_cons_of_mem _ hx)
    rw [List.append_assoc] at hrest
    rw [ofDigitChars_digitChar_cons]
    exact hrest

/-- **Every run of digits is a number.** -/
theorem numeral_of_isDigit {ds : List Char} (hne : ds ≠ []) (h : ∀ c ∈ ds, c.isDigit) :
    Numeral ds (Nat.ofDigitChars 10 ds 0) := by
  obtain ⟨c, es, rfl⟩ := List.exists_cons_of_ne_nil hne
  obtain ⟨d, rfl⟩ := isDigit_iff.mp (h c List.mem_cons_self)
  have hrest := (Numeral.digit d).append fun x hx => h x (List.mem_cons_of_mem _ hx)
  rw [ofDigitChars_digitChar_cons, Nat.mul_zero, Nat.zero_add]
  exact hrest

/-! ## 3. Lengths -/

theorem one_le_toNat_iff {n : UInt32} : 1 ≤ n.toNat ↔ n ≠ 0 := by
  rw [Ne, ← UInt32.toNat_inj]
  exact Nat.one_le_iff_ne_zero

theorem isOptionalLength_some_iff {cs : List Char} {l : Length} :
    IsOptionalLength cs (some l) ↔ IsLength cs l := by
  refine ⟨fun h => ?_, .some⟩
  cases h with
  | some h => exact h

theorem IsOptionalLength.denominator_ne_zero {cs : List Char} {l : Option Length}
    (h : IsOptionalLength cs l) : ∀ x ∈ l, x.denominator ≠ 0 := by
  cases h with
  | none => exact fun x hx => absurd hx (Option.not_mem_none x)
  | some h =>
    cases h with
    | intro _ hpos =>
      rintro _ ⟨⟩
      exact one_le_toNat_iff.mp hpos

end Grammar

/-! ## 4. What the parts of a lexeme are judged to be -/

namespace Token

open Grammar

/-- **A run of digits is read as the number it is in the grammar.** -/
theorem numeral_iff {ds : List Char} (hds : ∀ c ∈ ds, c.isDigit) {n : UInt32} :
    Numeral ds n.toNat ↔ ds ≠ [] ∧ number ds = .ok n := by
  rw [number_eq_ok_iff]
  constructor
  · exact fun h => ⟨h.ne_nil, h.ofDigitChars⟩
  · rintro ⟨hne, e⟩
    rw [← e]
    exact numeral_of_isDigit hne hds

theorem argument_eq_ok_iff {c : Char} {ds : List Char} {dots : Nat}
    (hds : ∀ c ∈ ds, c.isDigit) {n : UInt32} :
    argument c ds dots = .ok n ↔ dots = 0 ∧ Numeral ds n.toNat := by
  rw [numeral_iff hds, argument]
  by_cases hdots : dots = 0
  · by_cases hne : ds = []
    · simp [hdots, hne]
    · simp [hdots, hne]
  · simp [hdots]

/-- **Digits and dots are read as the length they are in the grammar**, or as none. -/
theorem isOptionalLength_of_length? {ds : List Char} (hds : ∀ c ∈ ds, c.isDigit) {dots : Nat}
    {l : Option Length} (h : length? ds dots = .ok l) :
    IsOptionalLength (ds ++ List.replicate dots '.') l := by
  cases l with
  | none =>
    obtain ⟨rfl, rfl⟩ := length?_eq_ok_none_iff.mp h
    exact .none
  | some l =>
    obtain ⟨hne, hn, hzero, rfl⟩ := length?_eq_ok_some_iff.mp h
    have hnum : Numeral ds l.denominator.toNat := (numeral_iff hds).mpr ⟨hne, hn⟩
    exact .some (.intro hnum (one_le_toNat_iff.mpr hzero))

/-- The digits and dots of a length. -/
theorem exists_of_isOptionalLength {cs : List Char} {l : Option Length}
    (h : IsOptionalLength cs l) : ∃ (ds : List Char) (dots : Nat), (∀ c ∈ ds, c.isDigit) ∧
      ds ++ List.replicate dots '.' = cs ∧ length? ds dots = .ok l := by
  cases h with
  | none => exact ⟨[], 0, fun c hc => absurd hc List.not_mem_nil, rfl, rfl⟩
  | @some _ l h =>
    cases h with
    | @intro ds _ hnum hpos =>
      obtain ⟨hne, hn⟩ := (numeral_iff hnum.isDigit).mp hnum
      have hlen := length?_eq_ok_some_iff.mpr ⟨hne, hn, one_le_toNat_iff.mp hpos, rfl⟩
      exact ⟨ds, l.dots.toNat, hnum.isDigit, rfl, hlen⟩

/-! ## 5. Commands and letters -/

theorem toNat_toLower (c : Char) :
    c.toLower.toNat = if 65 ≤ c.toNat ∧ c.toNat ≤ 90 then c.toNat + 32 else c.toNat := by
  have hupper : (c.val ≥ 'A'.val ∧ c.val ≤ 'Z'.val) ↔ 65 ≤ c.toNat ∧ c.toNat ≤ 90 := by
    rw [ge_iff_le, UInt32.le_iff_toNat_le, UInt32.le_iff_toNat_le]
    rfl
  by_cases h : c.val ≥ 'A'.val ∧ c.val ≤ 'Z'.val
  · obtain ⟨_, hhigh⟩ := hupper.mp h
    have hval : c.toLower = _ := dif_pos h
    rw [if_pos (hupper.mp h), hval, ← Char.toNat_val, UInt32.toNat_add]
    show (c.toNat + 32) % 4294967296 = c.toNat + 32
    omega
  · rw [if_neg (mt hupper.mpr h)]
    exact congrArg Char.toNat (dif_neg h)

theorem toNat_toUpper (c : Char) :
    c.toUpper.toNat = if 97 ≤ c.toNat ∧ c.toNat ≤ 122 then c.toNat - 32 else c.toNat := by
  have hlower : ('a'.val ≤ c.val ∧ c.val ≤ 'z'.val) ↔ 97 ≤ c.toNat ∧ c.toNat ≤ 122 := by
    rw [UInt32.le_iff_toNat_le, UInt32.le_iff_toNat_le]
    rfl
  by_cases h : 'a'.val ≤ c.val ∧ c.val ≤ 'z'.val
  · obtain ⟨hlow, hhigh⟩ := hlower.mp h
    -- The difference of the cases is added as a word, so it wraps around.
    have hval : c.toUpper = _ := dif_pos h
    rw [if_pos (hlower.mp h), hval, ← Char.toNat_val, UInt32.toNat_add]
    show (c.toNat + 4294967264) % 4294967296 = c.toNat - 32
    omega
  · rw [if_neg (mt hlower.mpr h)]
    exact congrArg Char.toNat (dif_neg h)

/-- Going to lower case forgets the case, and nothing else. -/
theorem toLower_eq_iff {c d : Char} (hd : ¬(65 ≤ d.toNat ∧ d.toNat ≤ 90)) :
    c.toLower = d ↔ c ∈ eitherCase d := by
  rw [eitherCase, List.mem_cons, List.mem_singleton, ← Char.toNat_inj, ← Char.toNat_inj,
    ← Char.toNat_inj, toNat_toLower, toNat_toUpper]
  split <;> split <;> omega

theorem toLower_toLower (c : Char) : c.toLower.toLower = c.toLower := by
  have hlower : ¬(65 ≤ c.toLower.toNat ∧ c.toLower.toNat ≤ 90) := by
    rw [toNat_toLower]
    split <;> omega
  exact (toLower_eq_iff hlower).mpr List.mem_cons_self

theorem ofChar?_eq_some_iff {c : Char} {letter : Letter} :
    Letter.ofChar? c = some letter ↔ c.toLower = letter.char := by
  unfold Letter.ofChar?
  constructor
  · intro h
    split at h
    case h_8 => cases h
    all_goals
      rename_i e
      cases h
      exact e
  · intro h
    rw [h]
    cases letter <;> rfl

theorem letter_iff {c : Char} {letter : Letter} :
    Letter.ofChar? c.toLower = some letter ↔ c ∈ eitherCase letter.char := by
  have hlower : ¬(65 ≤ letter.char.toNat ∧ letter.char.toNat ≤ 90) := by
    cases letter <;> decide
  rw [ofChar?_eq_some_iff, toLower_toLower, toLower_eq_iff hlower]

/-- **The modifiers are the texts of the accidentals**, and one of them may be missing. -/
theorem mem_accidentalTexts_iff {m : List Char} {a : Option Accidental} :
    m ∈ accidentalTexts a ↔ ∃ x : Option Char, (∀ c ∈ x, Lexeme.isModifier c) ∧
      x.toList = m ∧ x.map accidental = a := by
  constructor
  · intro h
    have hsome : ∀ c : Char, Lexeme.isModifier c → ∃ x : Option Char,
        (∀ c ∈ x, Lexeme.isModifier c) ∧ x.toList = [c] ∧ x.map accidental = some (accidental c) :=
      fun c hc => ⟨some c, fun d hd => Option.mem_some.mp hd ▸ hc, rfl, rfl⟩
    rcases a with _ | (_ | _)
    · rw [List.mem_singleton.mp h]
      exact ⟨none, fun c hc => absurd hc (Option.not_mem_none c), rfl, rfl⟩
    · rw [accidentalTexts, List.mem_cons, List.mem_singleton] at h
      rcases h with rfl | rfl
      · exact hsome '+' rfl
      · exact hsome '#' rfl
    · rw [List.mem_singleton.mp h]
      exact hsome '-' rfl
  · rintro ⟨x, hx, rfl, rfl⟩
    cases x with
    | none => exact List.mem_singleton_self _
    | some c =>
      have hc := hx c rfl
      simp only [Lexeme.isModifier, Bool.or_eq_true, decide_eq_true_eq] at hc
      rcases hc with (rfl | rfl) | rfl <;> decide

/-! ## 6. Words -/

/-- The text of a command with a number. -/
theorem exists_of_argument {c : Char} {ds : List Char} {dots : Nat} {α : Type} {f : UInt32 → α}
    {a : α} (hds : ∀ c ∈ ds, c.isDigit) (h : (argument c ds dots).map f = .ok a) :
    ∃ n, Numeral (ds ++ List.replicate dots '.') n.toNat ∧ f n = a := by
  obtain ⟨n, hn, e⟩ := exists_of_map_ok h
  obtain ⟨rfl, hnum⟩ := (argument_eq_ok_iff hds).mp hn
  refine ⟨n, ?_, e⟩
  rw [List.replicate_zero, List.append_nil]
  exact hnum

theorem spells_of_ofCommand {c command : Char} {ds : List Char} {dots : Nat} {t : Token}
    (hc : command.toLower = c) (hds : ∀ c ∈ ds, c.isDigit) (h : ofCommand c ds dots = .ok t) :
    Spells (command :: (ds ++ List.replicate dots '.')) t := by
  unfold ofCommand at h
  split at h
  · obtain ⟨l, hl, rfl⟩ := exists_of_map_ok h
    exact .rest ((toLower_eq_iff (by decide)).mp hc) (isOptionalLength_of_length? hds hl)
  · split at h
    · cases h
    · cases h
    · rename_i l hl
      cases h
      have hlen := isOptionalLength_some_iff.mp (isOptionalLength_of_length? hds hl)
      exact .defaultLength ((toLower_eq_iff (by decide)).mp hc) hlen
  · split at h
    · cases h
    · rename_i bpm hbpm
      split at h
      · cases h
      · rename_i hzero
        cases h
        obtain ⟨rfl, hnum⟩ := (argument_eq_ok_iff hds).mp hbpm
        rw [List.replicate_zero, List.append_nil]
        exact .tempo ((toLower_eq_iff (by decide)).mp hc) hnum (one_le_toNat_iff.mpr hzero)
  · obtain ⟨n, hnum, rfl⟩ := exists_of_argument hds h
    exact .volume ((toLower_eq_iff (by decide)).mp hc) hnum
  · obtain ⟨n, hnum, rfl⟩ := exists_of_argument hds h
    exact .octave ((toLower_eq_iff (by decide)).mp hc) hnum
  · obtain ⟨n, hnum, rfl⟩ := exists_of_argument hds h
    have hat : command = '@' := by
      have hmem := (toLower_eq_iff (by decide)).mp hc
      rw [eitherCase, List.mem_cons, List.mem_singleton] at hmem
      exact hmem.elim id id
    rw [hat]
    exact .program hnum
  · cases h

theorem spells_of_ofLexeme {l : Lexeme} (hl : l.WellFormed) {t : Token}
    (h : ofLexeme l = .ok t) : Spells l.chars t := by
  unfold ofLexeme at h
  simp only at h
  split at h
  · rename_i letter hletter
    obtain ⟨len, hlen, rfl⟩ := exists_of_map_ok h
    have hmod := mem_accidentalTexts_iff.mpr ⟨l.modifier, hl.modifier, rfl, rfl⟩
    rw [Lexeme.chars, List.append_assoc]
    exact .note (letter_iff.mp hletter) hmod (isOptionalLength_of_length? hl.digits hlen)
  · split at h
    · cases h
    · split at h
      · cases h
      · rename_i hmod
        have hnone : l.modifier = none := by simpa using hmod
        rw [Lexeme.chars, hnone]
        exact spells_of_ofCommand rfl hl.digits h

/-- A command in either case, with its digits and dots, is a lexeme. -/
theorem exists_lexeme_of_ofCommand {c command : Char} {ds : List Char} {dots : Nat} {t : Token}
    (hc : command ∈ eitherCase c) (hcommand : isCommand c) (hds : ∀ c ∈ ds, c.isDigit)
    (h : ofCommand c ds dots = .ok t) :
    ∃ l : Lexeme, l.WellFormed ∧ l.chars = command :: (ds ++ List.replicate dots '.') ∧
      ofLexeme l = .ok t := by
  have hplain : ¬(65 ≤ c.toNat ∧ c.toNat ≤ 90) ∧ Letter.ofChar? c = none := by
    simp only [isCommand, decide_eq_true_eq, List.mem_cons, List.not_mem_nil, or_false] at hcommand
    rcases hcommand with rfl | rfl | rfl | rfl | rfl | rfl <;> decide
  have hlower : command.toLower = c := (toLower_eq_iff hplain.1).mpr hc
  refine ⟨⟨command, none, ds, dots⟩, ⟨fun m hm => absurd hm (Option.not_mem_none m), hds⟩, rfl, ?_⟩
  rw [← h]
  simp [ofLexeme, hlower, hplain.2, hcommand]

/-- A command with a number is a lexeme. -/
theorem exists_lexeme_of_argument {c command : Char} {ds : List Char} {n : UInt32} {t : Token}
    (hc : command ∈ eitherCase c) (hcommand : isCommand c) (hnum : Numeral ds n.toNat)
    (h : argument c ds 0 = .ok n → ofCommand c ds 0 = .ok t) :
    ∃ l : Lexeme, l.WellFormed ∧ l.chars = command :: ds ∧ ofLexeme l = .ok t := by
  have harg := (argument_eq_ok_iff (c := c) hnum.isDigit).mpr ⟨rfl, hnum⟩
  have hlexeme := exists_lexeme_of_ofCommand hc hcommand hnum.isDigit (h harg)
  rwa [List.replicate_zero, List.append_nil] at hlexeme

theorem exists_lexeme_of_spells {cs : List Char} {t : Token} (h : Spells cs t) :
    ∃ l : Lexeme, l.WellFormed ∧ l.chars = cs ∧ ofLexeme l = .ok t := by
  cases h with
  | tempo hc hnum hpos =>
    refine exists_lexeme_of_argument hc rfl hnum fun harg => ?_
    simp [ofCommand, harg, one_le_toNat_iff.mp hpos]
  | volume hc hnum =>
    refine exists_lexeme_of_argument hc rfl hnum fun harg => ?_
    simp [ofCommand, harg, Except.map]
  | octave hc hnum =>
    refine exists_lexeme_of_argument hc rfl hnum fun harg => ?_
    simp [ofCommand, harg, Except.map]
  | program hnum =>
    refine exists_lexeme_of_argument (c := '@') List.mem_cons_self rfl hnum fun harg => ?_
    simp [ofCommand, harg, Except.map]
  | defaultLength hc hlen =>
    obtain ⟨ds, dots, hds, rfl, hl⟩ := exists_of_isOptionalLength (.some hlen)
    refine exists_lexeme_of_ofCommand hc rfl hds ?_
    simp [ofCommand, hl]
  | rest hc hlen =>
    obtain ⟨ds, dots, hds, rfl, hl⟩ := exists_of_isOptionalLength hlen
    refine exists_lexeme_of_ofCommand hc rfl hds ?_
    simp [ofCommand, hl, Except.map]
  | @note c m cs p l hc hm hlen =>
    obtain ⟨ds, dots, hds, rfl, hl⟩ := exists_of_isOptionalLength hlen
    obtain ⟨x, hx, rfl, e⟩ := mem_accidentalTexts_iff.mp hm
    refine ⟨⟨c, x, ds, dots⟩, ⟨hx, hds⟩, ?_, ?_⟩
    · rw [Lexeme.chars, List.append_assoc]
    · simp only [ofLexeme, letter_iff.mpr hc, hl, e]
      rfl

/-- **The reader reads exactly the tokens of the grammar.** -/
theorem ofString_eq_ok_iff_spells (s : String) (t : Token) :
    ofString s = .ok t ↔ Spells s.toList t := by
  rw [ofString, read_eq_ok_iff]
  constructor
  · rintro ⟨l, hl, e, h⟩
    rw [← e]
    exact spells_of_ofLexeme hl h
  · exact exists_lexeme_of_spells

end Token

end TextMelody
