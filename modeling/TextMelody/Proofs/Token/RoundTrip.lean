import TextMelody.Proofs.Token.Grammar
import TextMelody.Text.Blank

/-!
# Reading back a written token

A token is written by its kind and read by longest match, so the way back goes through lexemes: a
token is written as a lexeme (`lexeme`), a well-formed lexeme is cut out of its own text again, and
judging that lexeme gives the token.

* `ofLexeme_lexeme`: the lexeme of a readable token is judged to be that token;
* `isReadable_of_read`: whatever is read is readable;
* `read_chars_iff`: **a token is read back from its text exactly when it is readable**;
* `isGraphic_of_mem_chars`: its text has ASCII characters only, and no blanks.
-/

namespace TextMelody

namespace Token

/-! ## 1. Tokens as lexemes -/

/-- The length that a token holds, if it holds one. -/
def ownLength : Token → Option Length
  | defaultLength l => some l
  | rest l => l
  | note _ l => l
  | _ => none

/-- **The tokens that can be read at all**: a tempo is not zero, and no length is a part of
    nothing. -/
def IsReadable (t : Token) : Prop :=
  t ≠ tempo 0 ∧ ∀ l ∈ t.ownLength, l.denominator ≠ 0

/-- The tokens that never hold the playhead for a part of nothing. -/
def IsTimed (t : Token) : Prop :=
  ∀ l ∈ t.ownLength, l.denominator ≠ 0

instance (t : Token) : Decidable t.IsTimed :=
  inferInstanceAs (Decidable (∀ l ∈ t.ownLength, l.denominator ≠ 0))

theorem IsReadable.isTimed {t : Token} (h : t.IsReadable) : t.IsTimed :=
  h.2

/-- The digits of a number. -/
def digits (n : UInt32) : List Char :=
  Nat.toDigits 10 n.toNat

/-- The lexeme of a command with a length that may be left out. -/
def lengthLexeme (c : Char) (modifier : Option Char) : Option Length → Lexeme
  | none => ⟨c, modifier, [], 0⟩
  | some l => ⟨c, modifier, digits l.denominator, l.dots.toNat⟩

/-- The lexeme that a token is written as. -/
def lexeme : Token → Lexeme
  | tempo n => ⟨'t', none, digits n, 0⟩
  | volume n => ⟨'v', none, digits n, 0⟩
  | octave n => ⟨'o', none, digits n, 0⟩
  | defaultLength l => lengthLexeme 'l' none (some l)
  | program n => ⟨'@', none, digits n, 0⟩
  | rest l => lengthLexeme 'r' none l
  | note p l => lengthLexeme p.letter.char (p.accidental.map Accidental.char) l

theorem chars_lengthLexeme (c : Char) (m : Option Char) (l : Option Length) :
    (lengthLexeme c m l).chars = c :: (m.toList ++ lengthChars l) := by
  cases l with
  | none => simp [lengthLexeme, Lexeme.chars, lengthChars]
  | some l => simp [lengthLexeme, Lexeme.chars, lengthChars, Length.chars, digits]

/-- A token is written as its lexeme. -/
theorem chars_lexeme (t : Token) : t.lexeme.chars = t.chars := by
  cases t with
  | tempo n => simp [lexeme, Lexeme.chars, chars, digits]
  | volume n => simp [lexeme, Lexeme.chars, chars, digits]
  | octave n => simp [lexeme, Lexeme.chars, chars, digits]
  | defaultLength l =>
    rw [lexeme, chars_lengthLexeme]
    rfl
  | program n => simp [lexeme, Lexeme.chars, chars, digits]
  | rest l =>
    rw [lexeme, chars_lengthLexeme]
    rfl
  | note p l =>
    rw [lexeme, chars_lengthLexeme]
    rfl

theorem isDigit_digits {n : UInt32} {d : Char} (h : d ∈ digits n) : d.isDigit :=
  Nat.isDigit_of_mem_toDigits (by decide) (by decide) h

theorem digits_ne_nil (n : UInt32) : digits n ≠ [] :=
  Nat.toDigits_ne_nil

theorem wellFormed_lengthLexeme {c : Char} {m : Option Char}
    (hm : ∀ x ∈ m, Lexeme.isModifier x) (l : Option Length) :
    (lengthLexeme c m l).WellFormed := by
  cases l with
  | none => exact ⟨hm, fun d hd => absurd hd List.not_mem_nil⟩
  | some l => exact ⟨hm, fun d hd => isDigit_digits hd⟩

theorem isModifier_char (a : Accidental) : Lexeme.isModifier a.char := by
  cases a <;> rfl

theorem wellFormed_lexeme (t : Token) : t.lexeme.WellFormed := by
  have plain : ∀ (c : Char) (n : UInt32), Lexeme.WellFormed ⟨c, none, digits n, 0⟩ := by
    intro c n
    exact ⟨fun x hx => absurd hx (Option.not_mem_none x), fun d hd => isDigit_digits hd⟩
  cases t with
  | tempo n => exact plain 't' n
  | volume n => exact plain 'v' n
  | octave n => exact plain 'o' n
  | defaultLength l =>
    exact wellFormed_lengthLexeme (fun x hx => absurd hx (Option.not_mem_none x)) (some l)
  | program n => exact plain '@' n
  | rest l => exact wellFormed_lengthLexeme (fun x hx => absurd hx (Option.not_mem_none x)) l
  | note p l =>
    refine wellFormed_lengthLexeme (fun x hx => ?_) l
    obtain ⟨a, _, rfl⟩ := Option.map_eq_some_iff.mp hx
    exact isModifier_char a

/-! ## 2. Judging the lexeme of a token -/

@[simp] theorem number_digits (n : UInt32) : number (digits n) = .ok n :=
  number_eq_ok_iff.mpr Nat.ofDigitChars_ten_toDigits

@[simp] theorem argument_digits (c : Char) (n : UInt32) : argument c (digits n) 0 = .ok n := by
  rw [argument, if_neg (by decide), if_neg (digits_ne_nil n), number_digits]

theorem length?_digits {l : Length} (h : l.denominator ≠ 0) :
    length? (digits l.denominator) l.dots.toNat = .ok (some l) :=
  length?_eq_ok_some_iff.mpr ⟨digits_ne_nil _, number_digits _, h, rfl⟩

/-- The length of a lexeme that was written with one, or without. -/
theorem length?_lengthLexeme {c : Char} {m : Option Char} {l : Option Length}
    (h : ∀ x ∈ l, x.denominator ≠ 0) :
    length? (lengthLexeme c m l).digits (lengthLexeme c m l).dots = .ok l := by
  cases l with
  | none => rfl
  | some l => exact length?_digits (h l rfl)

theorem toLower_char (l : Letter) : l.char.toLower = l.char := by
  cases l <;> rfl

theorem accidental_char (a : Accidental) : accidental a.char = a := by
  cases a <;> rfl

theorem command_lengthLexeme (c : Char) (m : Option Char) (l : Option Length) :
    (lengthLexeme c m l).command = c := by
  cases l <;> rfl

theorem modifier_lengthLexeme (c : Char) (m : Option Char) (l : Option Length) :
    (lengthLexeme c m l).modifier = m := by
  cases l <;> rfl

/-- Judging the lexeme of a note. -/
theorem ofLexeme_note {p : PitchClass} {l : Option Length} (h : ∀ x ∈ l, x.denominator ≠ 0) :
    ofLexeme (lengthLexeme p.letter.char (p.accidental.map Accidental.char) l) =
      .ok (note p l) := by
  rw [ofLexeme, command_lengthLexeme, toLower_char, modifier_lengthLexeme, length?_lengthLexeme h]
  obtain ⟨letter, acc⟩ := p
  simp only [Letter.ofChar?_char, Option.map_map]
  cases acc with
  | none => rfl
  | some a => simp [Except.map, accidental_char]

/-- Judging a lexeme whose command is no note letter and has no modifier. -/
theorem ofLexeme_command {c : Char} (hlow : c.toLower = c) (hnote : Letter.ofChar? c = none)
    (hc : isCommand c) (ds : List Char) (n : Nat) :
    ofLexeme ⟨c, none, ds, n⟩ = ofCommand c ds n := by
  simp [ofLexeme, hlow, hnote, hc]

/-- **The lexeme of a readable token is judged to be that token.** -/
theorem ofLexeme_lexeme {t : Token} (h : t.IsReadable) : ofLexeme t.lexeme = .ok t := by
  obtain ⟨htempo, hlen⟩ := h
  cases t with
  | tempo n =>
    have hn : n ≠ 0 := fun e => htempo (by rw [e])
    rw [lexeme, ofLexeme_command (by decide) (by decide) (by decide)]
    simp [ofCommand, hn]
  | volume n =>
    rw [lexeme, ofLexeme_command (by decide) (by decide) (by decide)]
    simp [ofCommand, Except.map]
  | octave n =>
    rw [lexeme, ofLexeme_command (by decide) (by decide) (by decide)]
    simp [ofCommand, Except.map]
  | defaultLength l =>
    rw [lexeme, lengthLexeme, ofLexeme_command (by decide) (by decide) (by decide)]
    simp [ofCommand, length?_digits (hlen l rfl)]
  | program n =>
    rw [lexeme, ofLexeme_command (by decide) (by decide) (by decide)]
    simp [ofCommand, Except.map]
  | rest l =>
    have hl := length?_lengthLexeme (c := 'r') (m := none) hlen
    cases l with
    | none => rfl
    | some l =>
      rw [lexeme, lengthLexeme, ofLexeme_command (by decide) (by decide) (by decide)]
      simp only [ofCommand]
      rw [length?_digits (hlen l rfl)]
      rfl
  | note p l => exact ofLexeme_note hlen

/-! ## 3. What is read is readable -/

theorem isReadable_of_spells {cs : List Char} {t : Token} (h : Grammar.Spells cs t) :
    t.IsReadable := by
  cases h with
  | tempo _ _ hpos =>
    refine ⟨fun e => ?_, fun l hl => absurd hl (Option.not_mem_none l)⟩
    exact Grammar.one_le_toNat_iff.mp hpos (tempo.inj e)
  | volume _ _ => exact ⟨nofun, fun l hl => absurd hl (Option.not_mem_none l)⟩
  | octave _ _ => exact ⟨nofun, fun l hl => absurd hl (Option.not_mem_none l)⟩
  | program _ => exact ⟨nofun, fun l hl => absurd hl (Option.not_mem_none l)⟩
  | defaultLength _ hlen => exact ⟨nofun, Grammar.IsOptionalLength.denominator_ne_zero (.some hlen)⟩
  | rest _ hlen => exact ⟨nofun, hlen.denominator_ne_zero⟩
  | note _ _ hlen => exact ⟨nofun, hlen.denominator_ne_zero⟩

/-- **Whatever is read is readable.** -/
theorem isReadable_of_read {cs : List Char} {t : Token} (h : read cs = .ok t) : t.IsReadable := by
  obtain ⟨l, hl, _, h⟩ := read_eq_ok_iff.mp h
  exact isReadable_of_spells (spells_of_ofLexeme hl h)

theorem read_chars {t : Token} (h : t.IsReadable) : read t.chars = .ok t := by
  rw [← chars_lexeme, Lexeme.read_chars (wellFormed_lexeme t), ofLexeme_lexeme h]

/-- **A token is read back from its text exactly when it is readable.** -/
theorem read_chars_iff (t : Token) : read t.chars = .ok t ↔ t.IsReadable :=
  ⟨isReadable_of_read, read_chars⟩

/-! ## 4. The text of a token is one word -/

/-- **A character that ASCII gives a shape**: no blank and no control character. -/
def IsGraphic (c : Char) : Prop :=
  33 ≤ c.toNat ∧ c.toNat ≤ 126

instance (c : Char) : Decidable (IsGraphic c) :=
  inferInstanceAs (Decidable (_ ∧ _))

theorem IsGraphic.not_isBlank {c : Char} (h : IsGraphic c) : Text.isBlank c = false := by
  obtain ⟨hlow, hhigh⟩ := h
  simp only [Text.isBlank, Text.blankRanges, List.any_cons, List.any_nil, Bool.or_eq_false_iff,
    Bool.and_eq_false_iff, decide_eq_false_iff_not, and_true]
  omega

theorem isGraphic_of_isDigit {c : Char} (h : c.isDigit) : IsGraphic c := by
  have hc : 48 ≤ c.toNat ∧ c.toNat ≤ 57 := by
    simpa [Char.isDigit, UInt32.le_iff_toNat_le] using h
  exact ⟨by omega, by omega⟩

theorem isGraphic_of_isModifier {c : Char} (h : Lexeme.isModifier c) : IsGraphic c := by
  simp only [Lexeme.isModifier, Bool.or_eq_true, decide_eq_true_eq] at h
  rcases h with (rfl | rfl) | rfl <;> decide

theorem isGraphic_of_mem_lexeme {l : Lexeme} (h : l.WellFormed) (hc : IsGraphic l.command)
    {c : Char} (hmem : c ∈ l.chars) : IsGraphic c := by
  rw [Lexeme.chars_eq] at hmem
  rcases List.mem_cons.mp hmem with rfl | hmem
  · exact hc
  · rcases List.mem_append.mp hmem with hm | hmem
    · exact isGraphic_of_isModifier (h.modifier c (Option.mem_toList.mp hm))
    · rcases List.mem_append.mp hmem with hd | hd
      · exact isGraphic_of_isDigit (h.digits c hd)
      · rw [List.eq_of_mem_replicate hd]
        decide

theorem isGraphic_command (t : Token) : IsGraphic t.lexeme.command := by
  cases t with
  | tempo n => exact (by decide : IsGraphic 't')
  | volume n => exact (by decide : IsGraphic 'v')
  | octave n => exact (by decide : IsGraphic 'o')
  | defaultLength l => exact (by decide : IsGraphic 'l')
  | program n => exact (by decide : IsGraphic '@')
  | rest l =>
    rw [lexeme, command_lengthLexeme]
    decide
  | note p l =>
    rw [lexeme, command_lengthLexeme]
    cases p.letter <;> decide

/-- **A token is written in characters that have a shape.** -/
theorem isGraphic_of_mem_chars {t : Token} {c : Char} (h : c ∈ t.chars) : IsGraphic c := by
  rw [← chars_lexeme] at h
  exact isGraphic_of_mem_lexeme (wellFormed_lexeme t) (isGraphic_command t) h

end Token

end TextMelody
