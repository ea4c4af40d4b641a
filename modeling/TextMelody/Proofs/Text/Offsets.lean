import TextMelody.Proofs.Text.Words

/-!
# The bytes that words take up

A word carries the number of bytes that stand before it in the UTF-8 form of the text. This module
tells for every byte of a text which character it belongs to, and from that, which bytes belong to
words: the bytes of each word are those that its offset and its length point out, and the bytes that
belong to no word are those of blanks.

* `charAt?`: the character that a byte belongs to;
* `extract_toByteArray`: what stands behind some characters, as a slice of the bytes of a text;
* `Follows`, `follows_words`: **words and blanks as they follow each other**, with the bytes passed;
* `Follows.isBlank_iff`: a byte is one of a blank exactly when it is in no word;
* `CutInto`, `cutInto_words`: **what cutting a text into words comes to, byte by byte**.
-/

namespace TextMelody.Text

/-! ## 1. Bytes and characters -/

/-- **The character that a byte of a text belongs to.** -/
def charAt? : List Char → Nat → Option Char
  | [], _ => none
  | c :: cs, i => if i < c.utf8Size then some c else charAt? cs (i - c.utf8Size)

theorem charAt?_cons_of_lt {c : Char} {i : Nat} (h : i < c.utf8Size) (cs : List Char) :
    charAt? (c :: cs) i = some c :=
  if_pos h

theorem charAt?_cons_add (c : Char) (cs : List Char) (i : Nat) :
    charAt? (c :: cs) (c.utf8Size + i) = charAt? cs i := by
  rw [charAt?, if_neg (by omega), Nat.add_sub_cancel_left]

theorem charAt?_append_add (a b : List Char) (i : Nat) :
    charAt? (a ++ b) (byteCount a + i) = charAt? b i := by
  induction a with
  | nil => simp
  | cons c a ih => rw [List.cons_append, byteCount_cons, Nat.add_assoc, charAt?_cons_add, ih]

/-- The bytes of a front belong to its characters. -/
theorem exists_charAt?_append {a : List Char} {i : Nat} (h : i < byteCount a) (b : List Char) :
    ∃ c ∈ a, charAt? (a ++ b) i = some c := by
  induction a generalizing i with
  | nil => cases h
  | cons c a ih =>
    by_cases hc : i < c.utf8Size
    · exact ⟨c, List.mem_cons_self, charAt?_cons_of_lt hc _⟩
    · obtain ⟨j, rfl⟩ := Nat.exists_eq_add_of_le (Nat.not_lt.mp hc)
      have hj : j < byteCount a := by
        rw [byteCount_cons] at h
        omega
      obtain ⟨d, hd, hat⟩ := ih hj
      exact ⟨d, List.mem_cons_of_mem c hd, by rw [List.cons_append, charAt?_cons_add, hat]⟩

/-- Every byte of a text belongs to a character of it. -/
theorem exists_charAt? {cs : List Char} {i : Nat} (h : i < byteCount cs) :
    ∃ c, charAt? cs i = some c := by
  obtain ⟨c, -, hc⟩ := exists_charAt?_append h []
  exact ⟨c, by rw [← hc, List.append_nil]⟩

theorem byteCount_eq (cs : List Char) : byteCount cs = (String.ofList cs).utf8ByteSize := by
  induction cs with
  | nil => rfl
  | cons c cs ih =>
    have hsplit : String.ofList (c :: cs) = String.singleton c ++ String.ofList cs := by
      rw [String.singleton_eq_ofList, ← String.ofList_append, List.singleton_append]
    rw [byteCount_cons, ih, hsplit, String.utf8ByteSize_append, String.utf8ByteSize_singleton]

theorem byteCount_toList (s : String) : byteCount s.toList = s.utf8ByteSize := by
  rw [byteCount_eq, String.ofList_toList]

/-- **Characters in the midst of a text are the slice of its bytes** that starts behind the bytes of
    what is before them and is as long as they are. -/
theorem extract_toByteArray {text : String} {front mid back : List Char}
    (h : text.toList = front ++ mid ++ back) :
    text.toByteArray.extract (byteCount front) (byteCount front + byteCount mid) =
      (String.ofList mid).toByteArray := by
  have htext : text = String.ofList front ++ String.ofList mid ++ String.ofList back := by
    rw [← String.ofList_append, ← String.ofList_append, ← h, String.ofList_toList]
  have hfront : byteCount front = (String.ofList front).toByteArray.size := byteCount_eq front
  have hmid : byteCount mid = (String.ofList mid).toByteArray.size := byteCount_eq mid
  rw [htext, String.append_assoc, String.toByteArray_append, String.toByteArray_append, hfront, hmid,
    ← Nat.add_zero (String.ofList front).toByteArray.size, Nat.add_assoc, Nat.zero_add,
    ByteArray.extract_append_size_add, ByteArray.extract_append_eq_left rfl]

/-! ## 2. Words and blanks in a row -/

namespace Word

/-- The bytes before what stands behind the word. -/
def finish (w : Word) : Nat :=
  w.offset + byteCount w.chars

/-- Whether a byte of the text is one of the word. -/
def Covers (w : Word) (i : Nat) : Prop :=
  w.offset ≤ i ∧ i < w.finish

end Word

/-- **Words and blanks as they follow each other** in a text that has `n` bytes before it. A word
    carries the bytes that were passed, and reaches to a blank or to the end of the text. -/
inductive Follows : Nat → List Word → List Char → Prop where
  | nil (n : Nat) : Follows n [] []
  | blank {n : Nat} {c : Char} {ws : List Word} {cs : List Char} (hc : isBlank c)
      (h : Follows (n + c.utf8Size) ws cs) : Follows n ws (c :: cs)
  | word {n : Nat} {w : List Char} {ws : List Word} {cs : List Char} (hw : IsWord w)
      (hcs : ∀ d ∈ cs.head?, isBlank d) (h : Follows (n + byteCount w) ws cs) :
      Follows n (⟨n, w⟩ :: ws) (w ++ cs)

/-- The pieces of a text that are no blanks follow each other as words. -/
theorem follows_wordsFrom {vs : List (List Char)} {cs : List Char} (h : Spaced vs cs) (n : Nat) :
    Follows n (wordsFrom n (pieces cs)) cs := by
  induction h generalizing n with
  | nil => exact .nil n
  | blank hc _ ih =>
    rw [wordsFrom_pieces_blank hc]
    exact .blank hc (ih _)
  | word hw hcs _ ih =>
    rw [wordsFrom_pieces_append hw n hcs]
    exact .word hw hcs (ih _)

/-- **So do the words that are found in a text.** -/
theorem follows_words (cs : List Char) : Follows 0 (words cs) cs := by
  obtain ⟨vs, h⟩ := exists_spaced cs
  rw [words_eq]
  exact follows_wordsFrom h 0

namespace Follows

variable {n i : Nat} {v w : Word} {ws : List Word} {cs : List Char}

theorem isWord (h : Follows n ws cs) (hw : w ∈ ws) : IsWord w.chars := by
  induction h with
  | nil => cases hw
  | blank _ _ ih => exact ih hw
  | word hword _ _ ih =>
    rcases List.mem_cons.mp hw with rfl | hw
    · exact hword
    · exact ih hw

/-- No word stands before the text. -/
theorem le_offset (h : Follows n ws cs) (hw : w ∈ ws) : n ≤ w.offset := by
  induction h with
  | nil => cases hw
  | blank _ _ ih => exact Nat.le_of_add_right_le (ih hw)
  | word _ _ _ ih =>
    rcases List.mem_cons.mp hw with rfl | hw
    · exact Nat.le_refl _
    · exact Nat.le_of_add_right_le (ih hw)

/-- Where a text starts with a blank, its words stand behind that. -/
theorem lt_offset (h : Follows n ws cs) (hcs : ∀ d ∈ cs.head?, isBlank d) (hw : w ∈ ws) :
    n < w.offset := by
  cases h with
  | nil => cases hw
  | @blank _ c _ _ _ h =>
    exact Nat.lt_of_lt_of_le (Nat.lt_add_of_pos_right c.utf8Size_pos) (h.le_offset hw)
  | word hword _ _ =>
    obtain ⟨c, rest, rfl⟩ := List.exists_cons_of_ne_nil hword.ne_nil
    have hblank := hcs c rfl
    rw [hword.not_blank c List.mem_cons_self] at hblank
    cases hblank

/-- **Between two words there is room for a blank.** -/
theorem pairwise (h : Follows n ws cs) : ws.Pairwise fun v w => v.finish < w.offset := by
  induction h with
  | nil => exact .nil
  | blank _ _ ih => exact ih
  | word _ hcs h ih => exact .cons (fun w hw => h.lt_offset hcs hw) ih

/-- **A byte is one of a blank exactly when no word covers it.** -/
theorem isBlank_iff (h : Follows n ws cs) {c : Char} (hc : charAt? cs i = some c) :
    isBlank c ↔ ∀ w ∈ ws, ¬w.Covers (n + i) := by
  induction h generalizing i with
  | nil => cases hc
  | @blank n d ws cs hd h ih =>
    by_cases hi : i < d.utf8Size
    · rw [charAt?_cons_of_lt hi, Option.some.injEq] at hc
      subst hc
      refine iff_of_true hd fun w hw hcovers => ?_
      have := h.le_offset hw
      have := hcovers.1
      omega
    · obtain ⟨j, rfl⟩ := Nat.exists_eq_add_of_le (Nat.not_lt.mp hi)
      rw [charAt?_cons_add] at hc
      rw [← Nat.add_assoc]
      exact ih hc
  | @word n v ws cs hv _ h ih =>
    rw [List.forall_mem_cons]
    by_cases hi : i < byteCount v
    · -- The byte is one of the word, so it is none of a blank.
      obtain ⟨d, hd, hat⟩ := exists_charAt?_append hi cs
      rw [hat, Option.some.injEq] at hc
      subst hc
      have hcovers : Word.Covers ⟨n, v⟩ (n + i) :=
        ⟨Nat.le_add_right n i, Nat.add_lt_add_left hi n⟩
      refine iff_of_false ?_ fun hnone => hnone.1 hcovers
      rw [hv.not_blank d hd]
      exact Bool.false_ne_true
    · obtain ⟨j, rfl⟩ := Nat.exists_eq_add_of_le (Nat.not_lt.mp hi)
      rw [charAt?_append_add] at hc
      have hbehind : ¬Word.Covers ⟨n, v⟩ (n + (byteCount v + j)) := by
        rintro ⟨-, hlt⟩
        rw [Word.finish] at hlt
        simp only at hlt
        omega
      rw [and_iff_right hbehind, ← Nat.add_assoc]
      exact ih hc

end Follows

/-! ## 3. Texts cut into words -/

/-- **What it is to cut a text into words**, by the bytes of the text. -/
structure CutInto (text : String) (ws : List Word) : Prop where
  /-- A word has at least one character and no blank. -/
  isWord : ∀ w ∈ ws, IsWord w.chars
  /-- It is the slice of the text that its offset and its length point out. -/
  slice : ∀ w ∈ ws, text.toByteArray.extract w.offset w.finish = w.text.toByteArray
  /-- Each word starts behind the ones before it. -/
  ascending : (ws.map Word.offset).Pairwise (· < ·)
  /-- What no word covers is blank. -/
  outside : ∀ i < text.utf8ByteSize, (∀ w ∈ ws, ¬w.Covers i) →
    ∃ c, charAt? text.toList i = some c ∧ isBlank c
  /-- Between neighbours there is at least one byte, and all bytes there are those of blanks. -/
  apart : ∀ front v w back, ws = front ++ v :: w :: back → v.finish < w.offset ∧
    ∀ i, v.finish ≤ i → i < w.offset → ∃ c, charAt? text.toList i = some c ∧ isBlank c

/-- No word covers what lies between two neighbours. -/
theorem not_covers_of_between {front back : List Word} {v w : Word} {i : Nat}
    (h : (front ++ v :: w :: back).Pairwise fun v w => v.finish < w.offset) (hv : v.finish ≤ i)
    (hw : i < w.offset) : ∀ x ∈ front ++ v :: w :: back, ¬x.Covers i := by
  obtain ⟨-, hrest, hfront⟩ := List.pairwise_append.mp h
  obtain ⟨-, hback⟩ := List.pairwise_cons.mp hrest
  have hlater := (List.pairwise_cons.mp hback).1
  have hle : ∀ x : Word, x.offset ≤ x.finish := fun x => Nat.le_add_right _ _
  rintro x hx ⟨hlow, hhigh⟩
  rcases List.mem_append.mp hx with hx | hx
  · have := hfront x hx v List.mem_cons_self
    have := hle v
    omega
  · rcases List.mem_cons.mp hx with rfl | hx
    · omega
    · rcases List.mem_cons.mp hx with rfl | hx
      · omega
      · have := hlater x hx
        have := hle w
        omega

/-- A word ends within its text. -/
theorem finish_le_of_mem_words {text : String} {w : Word} (h : w ∈ words text.toList) :
    w.finish ≤ text.utf8ByteSize := by
  obtain ⟨front, back, hslice, hoffset⟩ := exists_slice_of_mem_words h
  rw [Word.finish, ← byteCount_toList, hslice, byteCount_append, byteCount_append, hoffset]
  exact Nat.le_add_right _ _

/-- **A text is cut into its words.** -/
theorem cutInto_words (text : String) : CutInto text (words text.toList) := by
  have hfollows := follows_words text.toList
  have hpairwise := hfollows.pairwise
  have hblank : ∀ i < text.utf8ByteSize, (∀ w ∈ words text.toList, ¬w.Covers i) →
      ∃ c, charAt? text.toList i = some c ∧ isBlank c := by
    intro i hi hnone
    rw [← byteCount_toList] at hi
    obtain ⟨c, hc⟩ := exists_charAt? hi
    rw [← Nat.zero_add i] at hnone
    exact ⟨c, hc, (hfollows.isBlank_iff hc).mpr hnone⟩
  refine ⟨fun w hw => hfollows.isWord hw, fun w hw => ?_, ?_, hblank, ?_⟩
  · obtain ⟨front, back, hslice, hoffset⟩ := exists_slice_of_mem_words hw
    rw [Word.finish, ← hoffset]
    exact extract_toByteArray hslice
  · rw [List.pairwise_map]
    exact hpairwise.imp fun h => Nat.lt_of_le_of_lt (Nat.le_add_right _ _) h
  · intro front v w back e
    have hw : w ∈ words text.toList := by simp [e]
    have hfinish := finish_le_of_mem_words hw
    rw [e] at hpairwise hblank
    have hgap := (List.pairwise_cons.mp (List.pairwise_append.mp hpairwise).2.1).1 w
      List.mem_cons_self
    refine ⟨hgap, fun i hv hi => hblank i ?_ (not_covers_of_between hpairwise hv hi)⟩
    have : w.offset ≤ w.finish := Nat.le_add_right _ _
    omega

/-- The offsets count the three bytes of each wide character. -/
example : words " あい\u3000x\r\n".toList = [⟨1, ['あ', 'い']⟩, ⟨10, ['x']⟩] := by decide +kernel

end TextMelody.Text
