import TextMelody.Text.Words

/-!
# The words of a text

What the scan of a text finds, and the words of a text that was put together from words.

* `takeWhile_append_of_stop`: a run ends where the first other character stands;
* `words_eq`: a scan finds the words among the pieces of a text (`wordsFrom`);
* `map_chars_words`: the words are the pieces that are not blank, in their order;
* `exists_slice_of_mem_words`: each stands as far into the text as its offset says;
* `pieces_append`: a word hands over to what follows it where the first blank stands;
* `Spaced`, `spaced_iff`: **the words of a text are the only ones it can be made of**;
* `words_join`: words with one space between neighbours are found again;
* `mem_join`, `getLast?_join`: what such a text holds, and how it ends.
-/

namespace TextMelody.Text

/-! ## 1. Runs and the scan -/

/-- **A run ends where the first other character stands.** -/
theorem takeWhile_append_of_stop {p : Char → Bool} {cs rest : List Char} (h : ∀ c ∈ cs, p c)
    (hstop : ∀ c ∈ rest.head?, p c = false) :
    (cs ++ rest).takeWhile p = cs ∧ (cs ++ rest).dropWhile p = rest := by
  have hrest : rest.takeWhile p = [] ∧ rest.dropWhile p = rest := by
    cases rest with
    | nil => exact ⟨rfl, rfl⟩
    | cons c rest =>
      have hc : ¬p c = true := Bool.not_eq_true _ ▸ hstop c rfl
      exact ⟨List.takeWhile_cons_of_neg hc, List.dropWhile_cons_of_neg hc⟩
  constructor
  · rw [List.takeWhile_append_of_pos h, hrest.1, List.append_nil]
  · rw [List.dropWhile_append_of_pos h, hrest.2]

/-- Whether a piece is a word. -/
def holdsWord (piece : List Char) : Bool :=
  !piece.all isBlank

/-- The words among pieces that have `n` bytes before them. -/
def wordsFrom (n : Nat) : List (List Char) → List Word
  | [] => []
  | p :: ps =>
    if p.all isBlank then wordsFrom (n + byteCount p) ps
    else ⟨n, p⟩ :: wordsFrom (n + byteCount p) ps

theorem wordsFrom_cons_blank {p : List Char} (h : ∀ c ∈ p, isBlank c) (n : Nat)
    (ps : List (List Char)) : wordsFrom n (p :: ps) = wordsFrom (n + byteCount p) ps :=
  if_pos (List.all_eq_true.mpr h)

/-- A scan adds the words among the pieces that it passes. -/
theorem toList_found_foldl_pass (ps : List (List Char)) (s : Scan) :
    (ps.foldl Scan.pass s).found.toList = s.found.toList ++ wordsFrom s.offset ps := by
  induction ps generalizing s with
  | nil => exact (List.append_nil _).symm
  | cons p ps ih =>
    rw [List.foldl_cons, ih]
    by_cases h : p.all isBlank
    · simp [Scan.pass, wordsFrom, h]
    · simp [Scan.pass, wordsFrom, h]

theorem words_eq (cs : List Char) : words cs = wordsFrom 0 (pieces cs) :=
  toList_found_foldl_pass (pieces cs) {}

theorem map_chars_wordsFrom (n : Nat) (ps : List (List Char)) :
    (wordsFrom n ps).map Word.chars = ps.filter holdsWord := by
  induction ps generalizing n with
  | nil => rfl
  | cons p ps ih =>
    by_cases h : p.all isBlank
    · simp [wordsFrom, holdsWord, h, ih]
    · simp [wordsFrom, holdsWord, h, ih]

/-- **The words of a text are its pieces that are not blank.** -/
theorem map_chars_words (cs : List Char) :
    (words cs).map Word.chars = (pieces cs).filter holdsWord := by
  rw [words_eq, map_chars_wordsFrom]

/-- A word is a piece, and as many bytes into the text as the pieces before it take. -/
theorem of_mem_wordsFrom {n : Nat} {ps : List (List Char)} {w : Word} (h : w ∈ wordsFrom n ps) :
    ∃ front back, ps = front ++ w.chars :: back ∧ w.offset = n + byteCount front.flatten := by
  induction ps generalizing n with
  | nil => cases h
  | cons p ps ih =>
    have hnew : w = ⟨n, p⟩ ∨ w ∈ wordsFrom (n + byteCount p) ps := by
      unfold wordsFrom at h
      split at h
      · exact .inr h
      · exact List.mem_cons.mp h
    rcases hnew with rfl | hmem
    · exact ⟨[], ps, rfl, rfl⟩
    · obtain ⟨front, back, rfl, hoffset⟩ := ih hmem
      refine ⟨p :: front, back, rfl, ?_⟩
      rw [hoffset, List.flatten_cons, byteCount_append, Nat.add_assoc]

/-- **A word stands in the text as far in as its offset says.** -/
theorem exists_slice_of_mem_words {cs : List Char} {w : Word} (h : w ∈ words cs) :
    ∃ front back, cs = front ++ w.chars ++ back ∧ byteCount front = w.offset := by
  rw [words_eq] at h
  obtain ⟨front, back, hpieces, hoffset⟩ := of_mem_wordsFrom h
  refine ⟨front.flatten, back.flatten, ?_, ?_⟩
  · rw [← flatten_pieces cs, hpieces]
    simp
  · rw [hoffset, Nat.zero_add]

/-! ## 2. Words as pieces -/

/-- What is put between blanks: at least one character, and no blank. -/
structure IsWord (w : List Char) : Prop where
  ne_nil : w ≠ []
  not_blank : ∀ c ∈ w, isBlank c = false

theorem IsWord.holdsWord {w : List Char} (h : IsWord w) : holdsWord w := by
  obtain ⟨c, cs, rfl⟩ := List.exists_cons_of_ne_nil h.ne_nil
  rw [Text.holdsWord, List.all_cons, h.not_blank c List.mem_cons_self, Bool.false_and]
  rfl

/-- The first piece of a text starts with its first character. -/
theorem head_pieces_cons (c : Char) (cs : List Char) :
    ∃ p ps, pieces (c :: cs) = (c :: p) :: ps := by
  rw [pieces_cons]
  unfold addToPieces
  split
  · split
    · exact ⟨_, _, rfl⟩
    · exact ⟨_, _, rfl⟩
  · exact ⟨_, _, rfl⟩

/-- A character and a text that starts with one of the other kind. -/
theorem pieces_cons_of_ne {c : Char} {cs : List Char}
    (h : ∀ d ∈ cs.head?, isBlank c ≠ isBlank d) : pieces (c :: cs) = [c] :: pieces cs := by
  cases cs with
  | nil => rfl
  | cons d cs =>
    obtain ⟨p, ps, e⟩ := head_pieces_cons d cs
    rw [pieces_cons, e]
    exact if_neg (h d rfl)

/-- **A word is one piece**, before the end of the text or a blank. -/
theorem pieces_append {w : List Char} (hw : IsWord w) {rest : List Char}
    (hrest : ∀ d ∈ rest.head?, isBlank d) : pieces (w ++ rest) = w :: pieces rest := by
  obtain ⟨hne, hblank⟩ := hw
  induction w with
  | nil => exact absurd rfl hne
  | cons c w ih =>
    have hc : isBlank c = false := hblank c List.mem_cons_self
    cases w with
    | nil =>
      refine pieces_cons_of_ne fun d hd => ?_
      rw [hc, hrest d hd]
      decide
    | cons d w =>
      have hd : isBlank d = false := hblank d (List.mem_cons_of_mem c List.mem_cons_self)
      have ih' := ih (by simp) fun x hx => hblank x (List.mem_cons_of_mem c hx)
      rw [List.cons_append, pieces_cons, ih']
      exact if_pos (hc.trans hd.symm)

/-! ## 3. Texts made of words and any blanks -/

/-- **A text that is made of words and blanks**, whatever the blanks are, with at least one between
    two words. -/
inductive Spaced : List (List Char) → List Char → Prop where
  | nil : Spaced [] []
  | blank {c : Char} {ws : List (List Char)} {cs : List Char} (hc : isBlank c)
      (h : Spaced ws cs) : Spaced ws (c :: cs)
  | word {w : List Char} {ws : List (List Char)} {cs : List Char} (hw : IsWord w)
      (hcs : ∀ d ∈ cs.head?, isBlank d) (h : Spaced ws cs) : Spaced (w :: ws) (w ++ cs)

/-- A piece that starts with a blank holds blanks only. -/
theorem isBlank_of_mem_piece {cs p : List Char} {c : Char} (h : c :: p ∈ pieces cs)
    (hc : isBlank c) : ∀ d ∈ c :: p, isBlank d := by
  induction cs generalizing c p with
  | nil => cases h
  | cons x cs ih =>
    have halone : ∀ d ∈ [c], isBlank d := fun d hd => List.mem_singleton.mp hd ▸ hc
    rw [pieces_cons] at h
    unfold addToPieces at h
    split at h
    · rename_i d q ps e
      split at h
      · rename_i hkind
        rcases List.mem_cons.mp h with h | h
        · obtain ⟨rfl, rfl⟩ := List.cons.inj h
          have hrest := ih (e ▸ List.mem_cons_self) (hkind ▸ hc)
          exact List.forall_mem_cons.mpr ⟨hc, hrest⟩
        · exact ih (e ▸ List.mem_cons_of_mem _ h) hc
      · rcases List.mem_cons.mp h with h | h
        · obtain ⟨rfl, rfl⟩ := List.cons.inj h
          exact halone
        · exact ih (e ▸ h) hc
    · rcases List.mem_cons.mp h with h | h
      · obtain ⟨rfl, rfl⟩ := List.cons.inj h
        exact halone
      · exact ih h hc

/-- **A blank in front of a text adds no word**: it joins the blanks that the text starts with, or it
    is a piece by itself. -/
theorem wordsFrom_pieces_blank {c : Char} (hc : isBlank c) (n : Nat) (cs : List Char) :
    wordsFrom n (pieces (c :: cs)) = wordsFrom (n + c.utf8Size) (pieces cs) := by
  have halone : ∀ d ∈ [c], isBlank d := fun d hd => List.mem_singleton.mp hd ▸ hc
  cases cs with
  | nil => exact wordsFrom_cons_blank halone n []
  | cons d cs =>
    by_cases hkind : isBlank c = isBlank d
    · obtain ⟨p, ps, e⟩ := head_pieces_cons d cs
      have hp := isBlank_of_mem_piece (e ▸ List.mem_cons_self) (hkind ▸ hc)
      have hjoined : pieces (c :: d :: cs) = (c :: d :: p) :: ps := by
        rw [pieces_cons, e]
        exact if_pos hkind
      rw [hjoined, e, wordsFrom_cons_blank hp,
        wordsFrom_cons_blank (List.forall_mem_cons.mpr ⟨hc, hp⟩), byteCount_cons c, Nat.add_assoc]
    · have hapart : ∀ x ∈ (d :: cs).head?, isBlank c ≠ isBlank x := by
        intro x hx
        rw [List.head?_cons, Option.mem_some] at hx
        exact hx ▸ hkind
      rw [pieces_cons_of_ne hapart, wordsFrom_cons_blank halone]
      rfl

/-- A word in front of a blank or of nothing is the first word. -/
theorem wordsFrom_pieces_append {w : List Char} (hw : IsWord w) (n : Nat) {cs : List Char}
    (hcs : ∀ d ∈ cs.head?, isBlank d) :
    wordsFrom n (pieces (w ++ cs)) = ⟨n, w⟩ :: wordsFrom (n + byteCount w) (pieces cs) := by
  rw [pieces_append hw hcs]
  exact if_neg (by simpa [Text.holdsWord] using hw.holdsWord)

theorem map_chars_words_blank {c : Char} (hc : isBlank c) (cs : List Char) :
    (words (c :: cs)).map Word.chars = (words cs).map Word.chars := by
  rw [words_eq, wordsFrom_pieces_blank hc, map_chars_wordsFrom, map_chars_words]

theorem map_chars_words_append {w : List Char} (hw : IsWord w) {cs : List Char}
    (hcs : ∀ d ∈ cs.head?, isBlank d) :
    (words (w ++ cs)).map Word.chars = w :: (words cs).map Word.chars := by
  rw [words_eq, wordsFrom_pieces_append hw 0 hcs, List.map_cons, map_chars_wordsFrom,
    map_chars_words]

/-- The words that a text is made of are found. -/
theorem Spaced.map_chars_words {ws : List (List Char)} {cs : List Char} (h : Spaced ws cs) :
    (words cs).map Word.chars = ws := by
  induction h with
  | nil => rfl
  | blank hc _ ih => rw [map_chars_words_blank hc, ih]
  | word hw hcs _ ih => rw [map_chars_words_append hw hcs, ih]

/-- **Every text is made of words and blanks.** -/
theorem exists_spaced (cs : List Char) : ∃ ws, Spaced ws cs := by
  induction cs with
  | nil => exact ⟨[], .nil⟩
  | cons c cs ih =>
    obtain ⟨ws, h⟩ := ih
    by_cases hc : isBlank c
    · exact ⟨ws, .blank hc h⟩
    · have hone : IsWord [c] :=
        ⟨List.cons_ne_nil c [], fun d hd => List.mem_singleton.mp hd ▸ eq_false_of_ne_true hc⟩
      -- The character joins the word that follows it, or is a word by itself.
      cases h with
      | nil => exact ⟨[[c]], .word hone (fun d hd => absurd hd (Option.not_mem_none d)) .nil⟩
      | blank hd h =>
        refine ⟨[c] :: ws, .word hone (fun x hx => ?_) (.blank hd h)⟩
        rw [List.head?_cons, Option.mem_some] at hx
        exact hx ▸ hd
      | @word w ws cs hw hcs h =>
        have hjoined : IsWord (c :: w) :=
          ⟨List.cons_ne_nil c w,
            List.forall_mem_cons.mpr ⟨eq_false_of_ne_true hc, hw.not_blank⟩⟩
        exact ⟨(c :: w) :: ws, .word hjoined hcs h⟩

/-- **The words of a text are those that it is made of.** -/
theorem spaced_iff {ws : List (List Char)} {cs : List Char} :
    Spaced ws cs ↔ (words cs).map Word.chars = ws := by
  constructor
  · exact Spaced.map_chars_words
  · rintro rfl
    obtain ⟨ws, h⟩ := exists_spaced cs
    rw [h.map_chars_words]
    exact h

/-- A text has no more words than characters. -/
theorem Spaced.length_le {ws : List (List Char)} {cs : List Char} (h : Spaced ws cs) :
    ws.length ≤ cs.length := by
  induction h with
  | nil => exact Nat.le_refl 0
  | blank _ _ ih => exact Nat.le_succ_of_le ih
  | @word w ws cs hw _ _ ih =>
    have hpos : 0 < w.length := List.length_pos_iff.mpr hw.ne_nil
    rw [List.length_cons, List.length_append]
    omega

/-! ## 4. Words with one space between neighbours -/

/-- Words with one space between neighbours. -/
def join (ws : List (List Char)) : List Char :=
  [' '].intercalate ws

theorem join_cons_cons (v w : List Char) (ws : List (List Char)) :
    join (v :: w :: ws) = v ++ ' ' :: join (w :: ws) := by
  rw [join, List.intercalate_cons_cons]
  simp [join]

theorem join_singleton (w : List Char) : join [w] = w :=
  List.intercalate_singleton

/-- Nothing but spaces is put between words. -/
theorem mem_join {ws : List (List Char)} {c : Char} (h : c ∈ join ws) :
    c = ' ' ∨ ∃ w ∈ ws, c ∈ w := by
  induction ws with
  | nil => cases h
  | cons v ws ih =>
    cases ws with
    | nil => exact .inr ⟨v, List.mem_cons_self, join_singleton v ▸ h⟩
    | cons w ws =>
      rw [join_cons_cons, List.mem_append, List.mem_cons] at h
      rcases h with hv | hspace | hrest
      · exact .inr ⟨v, List.mem_cons_self, hv⟩
      · exact .inl hspace
      · exact (ih hrest).imp_right fun ⟨u, hu, hc⟩ => ⟨u, List.mem_cons_of_mem v hu, hc⟩

/-- What is joined ends where its last word ends. -/
theorem getLast?_join {ws : List (List Char)} {w : List Char} (hw : w ≠ []) :
    (join (ws ++ [w])).getLast? = w.getLast? := by
  induction ws with
  | nil => rw [List.nil_append, join_singleton]
  | cons v ws ih =>
    obtain ⟨c, hc⟩ := Option.isSome_iff_exists.mp (List.getLast?_isSome.mpr hw)
    have hjoin : ∃ u us, ws ++ [w] = u :: us := List.exists_cons_of_ne_nil (by simp)
    obtain ⟨u, us, e⟩ := hjoin
    rw [e, hc] at ih
    rw [List.cons_append, e, join_cons_cons, List.getLast?_append, List.getLast?_cons, ih, hc]
    rfl

theorem spaced_join {ws : List (List Char)} (h : ∀ w ∈ ws, IsWord w) : Spaced ws (join ws) := by
  induction ws with
  | nil => exact .nil
  | cons v ws ih =>
    have hv : IsWord v := h v List.mem_cons_self
    have hjoin := ih fun w hw => h w (List.mem_cons_of_mem v hw)
    cases ws with
    | nil =>
      have hend : ∀ d ∈ ([] : List Char).head?, isBlank d :=
        fun d hd => absurd hd (Option.not_mem_none d)
      have hone := Spaced.word hv hend .nil
      rw [List.append_nil] at hone
      rwa [join_singleton]
    | cons w ws =>
      rw [join_cons_cons]
      refine .word hv (fun d hd => ?_) (.blank rfl hjoin)
      rw [List.head?_cons, Option.mem_some] at hd
      exact hd ▸ rfl

/-- **Words with one space between neighbours are found again.** -/
theorem words_join {ws : List (List Char)} (h : ∀ w ∈ ws, IsWord w) :
    (words (join ws)).map Word.chars = ws :=
  (spaced_join h).map_chars_words

end TextMelody.Text
