import TextMelody.Proofs.Text.Words
import TextMelody.Token.Reader

/-!
# Lexemes and what they are judged to be

A word is cut into a lexeme, and the lexeme is judged. Both steps are turned round here: which texts
are cut into a given lexeme, and which digits and dots are judged to be a given number or length.

* `Lexeme.WellFormed`: the shape of the parts that a cut gives;
* `Lexeme.IsCut`: a lexeme at the start of a word, with what it leaves over;
* `IsCut.eq_cut`, `isCut_cut`: **the reader finds it in every word, and there is no other**;
* `isCut_chars`: a well-formed lexeme is cut off its own text again, and nothing is left over;
* `read_eq_ok_iff`: **what is read is the text of a well-formed lexeme that is judged to be a token**;
* `number_eq_ok_iff`, `length?_eq_ok_some_iff`: the numbers and the lengths that digits give.
-/

namespace TextMelody

/-! ## 1. Lexemes and their text -/

namespace Lexeme

/-- What follows the command in the text of a lexeme. -/
def tail (l : Lexeme) : List Char :=
  l.modifier.toList ++ (l.digits ++ List.replicate l.dots '.')

/-- The shape of the parts that a cut gives: the modifier is one, and the digits are digits. -/
structure WellFormed (l : Lexeme) : Prop where
  modifier : ∀ m ∈ l.modifier, isModifier m
  digits : ∀ d ∈ l.digits, d.isDigit

theorem chars_eq (l : Lexeme) : l.chars = l.command :: l.tail := by
  rw [chars, tail, List.append_assoc]

theorem isModifier_of_isDigit {c : Char} (h : c.isDigit) : isModifier c = false := by
  cases hm : isModifier c with
  | false => rfl
  | true =>
    simp only [isModifier, Bool.or_eq_true, decide_eq_true_eq] at hm
    rcases hm with (rfl | rfl) | rfl <;> exact absurd h (by decide)

/-- **A lexeme that is cut off the start of a word**, with what it leaves over. No part of it could
    be longer, for each stops short of something that does not belong to it. -/
structure IsCut (l : Lexeme) (word rest : List Char) : Prop where
  wellFormed : l.WellFormed
  whole : l.chars ++ rest = word
  /-- A modifier that follows the command is not left behind. -/
  modifier : l.modifier = none →
    ∀ c ∈ (l.digits ++ (List.replicate l.dots '.' ++ rest)).head?, isModifier c = false
  /-- No digit follows the digits. -/
  digits : ∀ c ∈ (List.replicate l.dots '.' ++ rest).head?, c.isDigit = false
  /-- No dot follows the dots. -/
  dots : ∀ c ∈ rest.head?, c ≠ '.'

theorem modifier?_append {m : Option Char} {cs : List Char} (hm : ∀ c ∈ m, isModifier c)
    (hcs : m = none → ∀ c ∈ cs.head?, isModifier c = false) :
    modifier? (m.toList ++ cs) = m ∧ afterModifier (m.toList ++ cs) = cs := by
  cases m with
  | some c => simp [modifier?, afterModifier, Option.filter, hm c rfl]
  | none =>
    cases cs with
    | nil => exact ⟨rfl, rfl⟩
    | cons c cs => simp [modifier?, afterModifier, Option.filter, hcs rfl c rfl]

theorem IsCut.exists_cons {l : Lexeme} {word rest : List Char} (h : l.IsCut word rest) :
    ∃ c cs, word = c :: cs := by
  rw [← h.whole, chars_eq]
  exact ⟨l.command, l.tail ++ rest, rfl⟩

/-- **What is cut off a word is what the reader cuts off**, and so is what is left over. -/
theorem IsCut.eq_cut {l : Lexeme} {c : Char} {cs rest : List Char} (h : l.IsCut (c :: cs) rest) :
    l = cut c cs ∧ rest = Lexeme.rest cs := by
  have hwhole := h.whole
  rw [chars_eq, tail, List.cons_append, List.append_assoc, List.append_assoc] at hwhole
  obtain ⟨hc, rfl⟩ := List.cons.inj hwhole
  obtain ⟨hmod, hafter⟩ := modifier?_append h.wellFormed.modifier h.modifier
  obtain ⟨hdigits, hbehind⟩ := Text.takeWhile_append_of_stop h.wellFormed.digits h.digits
  obtain ⟨hdots, hrest⟩ := Text.takeWhile_append_of_stop (p := fun c => c = '.')
    (fun c hc => decide_eq_true (List.eq_of_mem_replicate hc))
    (fun c hc => decide_eq_false (h.dots c hc))
  refine ⟨?_, ?_⟩
  · rw [cut, hmod, hafter, hdigits, afterDigits, hbehind, hdots, List.length_replicate, ← hc]
  · rw [Lexeme.rest, hafter, afterDigits, hbehind, hrest]

theorem wellFormed_cut (c : Char) (cs : List Char) : (cut c cs).WellFormed := by
  refine ⟨fun m hm => ?_, fun d hd => ?_⟩
  · exact (Option.filter_eq_some_iff.mp hm).2
  · exact List.all_eq_true.mp List.all_takeWhile d hd

/-- What is dropped ends where the first other character stands. -/
theorem of_mem_head?_dropWhile {p : Char → Bool} {cs : List Char} {c : Char}
    (h : c ∈ (cs.dropWhile p).head?) : p c = false := by
  have hstop := List.head?_dropWhile_not p cs
  rwa [Option.mem_def.mp h] at hstop

theorem isModifier_of_modifier?_eq_none {cs : List Char} (h : modifier? cs = none) :
    ∀ c ∈ (afterModifier cs).head?, isModifier c = false := by
  cases cs with
  | nil => exact fun c hc => absurd hc (Option.not_mem_none c)
  | cons c cs =>
    have hc : isModifier c = false := by simpa [modifier?] using h
    rw [afterModifier, if_neg (Bool.not_eq_true _ ▸ hc)]
    rintro _ ⟨⟩
    exact hc

/-- **The reader cuts a lexeme off every word.** -/
theorem isCut_cut (c : Char) (cs : List Char) : (cut c cs).IsCut (c :: cs) (rest cs) := by
  have hdigits : List.replicate (cut c cs).dots '.' ++ rest cs = afterDigits (afterModifier cs) := by
    rw [cut, ← takeWhile_dot]
    exact List.takeWhile_append_dropWhile
  have hmodifier : (cut c cs).digits ++ (List.replicate (cut c cs).dots '.' ++ rest cs) =
      afterModifier cs := by
    rw [hdigits]
    exact List.takeWhile_append_dropWhile
  refine ⟨wellFormed_cut c cs, chars_append_rest c cs, fun hnone => ?_, fun d hd => ?_,
    fun d hd => ?_⟩
  · rw [hmodifier]
    exact isModifier_of_modifier?_eq_none hnone
  · rw [hdigits] at hd
    exact of_mem_head?_dropWhile hd
  · exact of_decide_eq_false (of_mem_head?_dropWhile hd)

/-- A well-formed lexeme is all that is cut off its own text. -/
theorem isCut_chars {l : Lexeme} (h : l.WellFormed) : l.IsCut l.chars [] := by
  have hdot : ∀ c ∈ List.replicate l.dots '.' ++ [], c = '.' := by
    rw [List.append_nil]
    exact fun c hc => List.eq_of_mem_replicate hc
  refine ⟨h, List.append_nil _, fun _ c hc => ?_, fun c hc => ?_, fun c hc => ?_⟩
  · rcases List.mem_append.mp (List.mem_of_mem_head? hc) with hd | hd
    · exact isModifier_of_isDigit (h.digits c hd)
    · rw [hdot c hd]
      rfl
  · rw [hdot c (List.mem_of_mem_head? hc)]
    rfl
  · exact absurd hc (Option.not_mem_none c)

/-- **A word is read by judging the lexeme that is cut off it**, unless something is left over. -/
theorem IsCut.read_eq {l : Lexeme} {word rest : List Char} (h : l.IsCut word rest) :
    Token.read word =
      if rest = [] then Token.ofLexeme l else .error (.trailingInput (String.ofList rest)) := by
  obtain ⟨c, cs, rfl⟩ := h.exists_cons
  obtain ⟨rfl, rfl⟩ := h.eq_cut
  exact Token.read_cons c cs

/-- The text of a well-formed lexeme is read by judging that lexeme. -/
theorem read_chars {l : Lexeme} (h : l.WellFormed) : Token.read l.chars = Token.ofLexeme l := by
  rw [(isCut_chars h).read_eq, if_pos rfl]

end Lexeme

namespace Token

/-! ## 2. Reading and judging, turned round -/

/-- **What is read is the text of a well-formed lexeme that is judged to be a token.** -/
theorem read_eq_ok_iff {cs : List Char} {t : Token} :
    read cs = .ok t ↔ ∃ l : Lexeme, l.WellFormed ∧ l.chars = cs ∧ ofLexeme l = .ok t := by
  constructor
  · intro h
    cases cs with
    | nil => cases h
    | cons c cs =>
      rw [read_cons] at h
      split at h
      · rename_i hrest
        have hall := Lexeme.chars_append_rest c cs
        rw [hrest, List.append_nil] at hall
        exact ⟨Lexeme.cut c cs, Lexeme.wellFormed_cut c cs, hall, h⟩
      · cases h
  · rintro ⟨l, hl, rfl, h⟩
    rw [Lexeme.read_chars hl, h]

/-- A value that is mapped to a success came from a success. -/
theorem exists_of_map_ok {ε α β : Type} {f : α → β} {x : Except ε α} {b : β}
    (h : x.map f = .ok b) : ∃ a, x = .ok a ∧ f a = b := by
  cases x with
  | error e => cases h
  | ok a =>
    cases h
    exact ⟨a, rfl, rfl⟩

/-- An error that is left when a value is mapped was there before. -/
theorem error_of_map_error {ε α β : Type} {f : α → β} {x : Except ε α} {e : ε}
    (h : x.map f = .error e) : x = .error e := by
  cases x with
  | error d =>
    cases h
    rfl
  | ok a => cases h

theorem number_eq_ok_iff {ds : List Char} {n : UInt32} :
    number ds = .ok n ↔ Nat.ofDigitChars 10 ds 0 = n.toNat := by
  unfold number
  split
  · rename_i h
    rw [Except.ok.injEq, ← UInt32.toNat_inj, UInt32.toNat_ofNatLT]
  · rename_i h
    refine ⟨nofun, fun e => absurd ?_ h⟩
    rw [e]
    exact n.toNat_lt

theorem length?_eq_ok_none_iff {ds : List Char} {dots : Nat} :
    length? ds dots = .ok none ↔ ds = [] ∧ dots = 0 := by
  unfold length?
  constructor
  · intro h
    split at h
    · rename_i hnil
      split at h
      · rename_i hdots
        exact ⟨hnil, hdots⟩
      · cases h
    · split at h
      · cases h
      · split at h
        · cases h
        · split at h <;> cases h
  · rintro ⟨rfl, rfl⟩
    rfl

/-- **The digits of a length give its denominator, which is not zero, and every dot counts.** -/
theorem length?_eq_ok_some_iff {ds : List Char} {dots : Nat} {l : Length} :
    length? ds dots = .ok (some l) ↔
      ds ≠ [] ∧ number ds = .ok l.denominator ∧ l.denominator ≠ 0 ∧ l.dots.toNat = dots := by
  unfold length?
  constructor
  · intro h
    -- What may fail, in the order it is looked at: no digits, the number, the zero, the dots.
    split at h
    · split at h <;> cases h
    · rename_i hne
      split at h
      · cases h
      · rename_i n hn
        split at h
        · cases h
        · rename_i hzero
          split at h
          · rename_i hdots
            cases h
            exact ⟨hne, hn, hzero, UInt8.toNat_ofNatLT⟩
          · cases h
  · rintro ⟨hne, hn, hzero, rfl⟩
    rw [if_neg hne, hn]
    simp only [hzero, if_false]
    rw [dif_pos l.dots.toNat_lt]
    rfl

end Token

end TextMelody
