import Mathlib.Data.List.Basic
import TextMelody.Proofs.Token.Lexeme

/-!
# Longest match

The reader cuts off a word the longest lexeme that the word starts with. There is only one way to do
so, and what the lexeme leaves over is reported as it stands, before anything that may be wrong with
the lexeme. A lexeme that leaves nothing over is never reported for what it leaves.

* `IsCut.unique`: a word is cut in one way only;
* `IsCut.longest`: **no lexeme that a word starts with is longer than the one that is cut off**;
* `isOfParts_of_ofLexeme`: what is wrong with a lexeme is wrong with its parts;
* `ofString_eq_trailingInput_iff`: a word is refused for what is left over exactly when something
  is;
* `leftover_is_reported_whole`: all of this for every word, and for what stands before the leftover.
-/

namespace TextMelody

/-! ## 1. The cut -/

namespace Lexeme

variable {l m : Lexeme} {word rest : List Char}

/-- **A word is cut in one way only.** -/
theorem IsCut.unique {other : List Char} (h : l.IsCut word rest) (hm : m.IsCut word other) :
    m = l ∧ other = rest := by
  obtain ⟨c, cs, rfl⟩ := h.exists_cons
  obtain ⟨rfl, rfl⟩ := h.eq_cut
  exact hm.eq_cut

/-- Where a word is cut, it is also cut when some of it is taken away at its end. -/
theorem IsCut.of_append {front back : List Char} (h : l.IsCut word (front ++ back)) :
    l.IsCut (l.chars ++ front) front where
  wellFormed := h.wellFormed
  whole := rfl
  modifier hnone c hc := by
    refine h.modifier hnone c ?_
    rw [← List.append_assoc, ← List.append_assoc]
    rw [← List.append_assoc] at hc
    exact List.mem_head?_append_of_mem_head? hc
  digits c hc := by
    refine h.digits c ?_
    rw [← List.append_assoc]
    exact List.mem_head?_append_of_mem_head? hc
  dots c hc := h.dots c (List.mem_head?_append_of_mem_head? hc)

/-- **No lexeme that a word starts with is longer than the one that is cut off.** -/
theorem IsCut.longest (h : l.IsCut word rest) (hm : m.WellFormed) (hstart : m.chars <+: word) :
    m.chars <+: l.chars := by
  have hl : l.chars <+: word := ⟨rest, h.whole⟩
  rcases List.prefix_or_prefix_of_prefix hstart hl with hshort | ⟨more, hmore⟩
  · exact hshort
  · -- A longer lexeme would be a word that is cut in two ways: whole, and where `l` ends.
    obtain ⟨back, hback⟩ := hstart
    have hwhole : l.chars ++ rest = l.chars ++ (more ++ back) := by
      rw [h.whole, ← hback, ← hmore, List.append_assoc]
    rw [List.append_cancel_left hwhole] at h
    have hcut : l.IsCut m.chars more := hmore ▸ h.of_append
    obtain ⟨rfl, -⟩ := hcut.unique (isCut_chars hm)
    exact List.prefix_refl _

end Lexeme

/-! ## 2. What may be wrong with a lexeme -/

/-- **Whether an error is about the parts of a lexeme**, and neither about what is left over nor about
    there being no word. -/
def TokenError.IsOfParts : TokenError → Prop
  | empty | trailingInput _ => False
  | _ => True

namespace Token

theorem isOfParts_of_number {ds : List Char} {e : TokenError} (h : number ds = .error e) :
    e.IsOfParts := by
  unfold number at h
  split at h
  · cases h
  · cases h
    trivial

theorem isOfParts_of_length? {ds : List Char} {dots : Nat} {e : TokenError}
    (h : length? ds dots = .error e) : e.IsOfParts := by
  unfold length? at h
  split at h
  · split at h
    · cases h
    · cases h
      trivial
  · split at h
    · rename_i hnumber
      cases h
      exact isOfParts_of_number hnumber
    · split at h
      · cases h
        trivial
      · split at h
        · cases h
        · cases h
          trivial

theorem isOfParts_of_argument {c : Char} {ds : List Char} {dots : Nat} {e : TokenError}
    (h : argument c ds dots = .error e) : e.IsOfParts := by
  unfold argument at h
  split at h
  · cases h
    trivial
  · split at h
    · cases h
      trivial
    · exact isOfParts_of_number h

theorem isOfParts_of_ofCommand {c : Char} {ds : List Char} {dots : Nat} {e : TokenError}
    (h : ofCommand c ds dots = .error e) : e.IsOfParts := by
  unfold ofCommand at h
  split at h
  case h_1 => exact isOfParts_of_length? (error_of_map_error h)
  case h_2 =>
    split at h
    · rename_i hlength
      cases h
      exact isOfParts_of_length? hlength
    · cases h
      trivial
    · cases h
  case h_3 =>
    split at h
    · rename_i hargument
      cases h
      exact isOfParts_of_argument hargument
    · split at h
      · cases h
        trivial
      · cases h
  case h_7 =>
    cases h
    trivial
  all_goals exact isOfParts_of_argument (error_of_map_error h)

/-- **What is wrong with a lexeme is wrong with its parts.** -/
theorem isOfParts_of_ofLexeme {l : Lexeme} {e : TokenError} (h : ofLexeme l = .error e) :
    e.IsOfParts := by
  unfold ofLexeme at h
  simp only at h
  split at h
  · exact isOfParts_of_length? (error_of_map_error h)
  · split at h
    · cases h
      trivial
    · split at h
      · cases h
        trivial
      · exact isOfParts_of_ofCommand h

/-! ## 3. What is left over -/

/-- Every word that has a character can be cut. -/
theorem exists_isCut {s : String} (hs : s ≠ "") :
    ∃ (l : Lexeme) (rest : String), l.IsCut s.toList rest.toList := by
  obtain ⟨c, cs, e⟩ := List.exists_cons_of_ne_nil (mt String.toList_eq_nil_iff.mp hs)
  refine ⟨Lexeme.cut c cs, String.ofList (Lexeme.rest cs), ?_⟩
  rw [e, String.toList_ofList]
  exact Lexeme.isCut_cut c cs

variable {l : Lexeme} {s rest : String}

/-- **A word is refused for what is left over exactly when something is**, and all of that is
    reported. -/
theorem ofString_eq_trailingInput_iff (h : l.IsCut s.toList rest.toList) {r : String} :
    ofString s = .error (.trailingInput r) ↔ rest ≠ "" ∧ r = rest := by
  have hnil : rest.toList = [] ↔ rest = "" := String.toList_eq_nil_iff
  rw [ofString, h.read_eq, String.ofList_toList]
  by_cases hrest : rest = ""
  · rw [if_pos (hnil.mpr hrest)]
    exact ⟨fun e => (isOfParts_of_ofLexeme e).elim, fun ⟨hne, _⟩ => absurd hrest hne⟩
  · rw [if_neg (mt hnil.mp hrest), Except.error.injEq, TokenError.trailingInput.injEq,
      and_iff_right hrest, eq_comm]

/-- A word that has a character is never taken for none. -/
theorem ofString_ne_empty (h : l.IsCut s.toList rest.toList) : ofString s ≠ .error .empty := by
  rw [ofString, h.read_eq]
  intro e
  split at e
  · exact isOfParts_of_ofLexeme e
  · cases e

/-- **The longest lexeme is cut off a word, and what is left over is reported whole.** Every word is
    cut in one way only, and no lexeme that it starts with is longer. It is refused for what is left
    over exactly when something is, whatever the lexeme may be; and if nothing is left over, neither
    for that nor as no word. What stands before a leftover that was reported has none itself. -/
theorem leftover_is_reported_whole :
    (∀ s : String, s ≠ "" → ∃ (l : Lexeme) (rest : String),
      l.IsCut s.toList rest.toList ∧
      (∀ (m : Lexeme) (other : String), m.IsCut s.toList other.toList → m = l ∧ other = rest) ∧
      (∀ m : Lexeme, m.WellFormed → m.chars <+: s.toList → m.chars <+: l.chars) ∧
      (∀ r, ofString s = .error (.trailingInput r) ↔ rest ≠ "" ∧ r = rest) ∧
      (rest = "" → (∀ r, ofString s ≠ .error (.trailingInput r)) ∧ ofString s ≠ .error .empty)) ∧
    ∀ s r : String, ofString s = .error (.trailingInput r) →
      ∃ p : String, s = p ++ r ∧ ∀ q, ofString p ≠ .error (.trailingInput q) := by
  refine ⟨fun s hs => ?_, fun s r h => ?_⟩
  · obtain ⟨l, rest, hcut⟩ := exists_isCut hs
    have hiff : ∀ r, ofString s = .error (.trailingInput r) ↔ rest ≠ "" ∧ r = rest :=
      fun r => ofString_eq_trailingInput_iff hcut
    refine ⟨l, rest, hcut, fun m other hm => ?_, fun m => hcut.longest, hiff, fun hnone => ?_⟩
    · obtain ⟨hl, hrest⟩ := hcut.unique hm
      exact ⟨hl, String.toList_inj.mp hrest⟩
    · exact ⟨fun r hr => ((hiff r).mp hr).1 hnone, ofString_ne_empty hcut⟩
  · have hs : s ≠ "" := by
      rintro rfl
      cases h
    obtain ⟨l, rest, hcut⟩ := exists_isCut hs
    obtain ⟨-, rfl⟩ := (ofString_eq_trailingInput_iff hcut).mp h
    refine ⟨String.ofList l.chars, String.toList_inj.mp ?_, fun q hq => ?_⟩
    · rw [String.toList_append, String.toList_ofList, hcut.whole]
    · -- What was cut off is all that can be cut off it.
      have hself : l.IsCut (String.ofList l.chars).toList "".toList := by
        rw [String.toList_ofList]
        exact Lexeme.isCut_chars hcut.wellFormed
      exact ((ofString_eq_trailingInput_iff hself).mp hq).1 rfl

/-- A modifier behind the dots goes with nothing, and is reported although there is no such command
    either. -/
theorem leftover_is_reported_whole_unknown_command :
    let s := "ß#07..-4"
    let l : Lexeme := ⟨'ß', some '#', ['0', '7'], 2⟩
    s ≠ "" ∧ l.IsCut s.toList "-4".toList ∧
      (∀ m : Lexeme, m.WellFormed → m.chars <+: s.toList → m.chars <+: l.chars) ∧
      ofString s = .error (.trailingInput "-4") ∧
      (∃ p : String, s = p ++ "-4" ∧ ∀ q, ofString p ≠ .error (.trailingInput q)) ∧
      ofString "ß#07.." = .error (.unknownCommand 'ß') := by
  intro s l
  have hs : s ≠ "" := by decide
  have hcut : l.IsCut s.toList "-4".toList := by
    refine ⟨⟨?_, List.all_eq_true.mp rfl⟩, by decide +kernel, nofun, ?_, ?_⟩
    · rintro _ ⟨⟩
      rfl
    · rintro _ ⟨⟩
      rfl
    · rintro _ ⟨⟩
      decide
  obtain ⟨hwords, hprefix⟩ := leftover_is_reported_whole
  obtain ⟨l', rest, -, hunique, hlongest, hiff, -⟩ := hwords s hs
  obtain ⟨rfl, rfl⟩ := hunique l "-4" hcut
  have hleft : ofString s = .error (.trailingInput "-4") := (hiff "-4").mpr ⟨by decide, rfl⟩
  exact ⟨hs, hcut, hlongest, hleft, hprefix s "-4" hleft, by decide +kernel⟩

end Token

end TextMelody
