import TextMelody.Proofs.Melody.LookBack
import TextMelody.Transducer.Mode

/-!
# The laws of a line

A line becomes music piece by piece. Each of the two rules has a few laws: where a line may be cut,
so that its parts make their music one after the other, and what the pieces sound like that cannot
be cut any further. There is nothing more to a rule than its laws, since only one function has them.

* `Repetition.run_induction`: a line is made of pauses and of runs of other characters, each run as
  long as it can be;
* `Repetition.Laws`, `Repetition.laws_iff`: **the laws of runs, and what has them**;
* `Pair.Laws`, `Pair.laws_iff`: **the laws of pairs, and what has them**;
* `lines_are_determined`: both, and the number of tokens that take time.
-/

namespace TextMelody.Transducer

/-! ## 1. Runs -/

namespace Repetition

/-- A comma, as far as it is a rest. -/
def IsComma (c : Char) : Prop :=
  c ∈ ['、', '，', ',']

/-- The end of a sentence. -/
def IsSentenceEnd (c : Char) : Prop :=
  c ∈ ['。', '．', '.', '！', '!', '？', '?']

/-- A character that is a rest of its own, wherever it stands. -/
def IsPause (c : Char) : Prop :=
  IsComma c ∨ IsSentenceEnd c

/-- **Where a line may be cut**: not within a run, unless of pauses. -/
def MayCut (a b : List Char) : Prop :=
  a = [] ∨ b = [] ∨ a.getLast? ≠ b.head? ∨ ∃ c ∈ a.getLast?, IsPause c

/-- How long a run of `n` characters is sung. -/
def IsRunLength (n : Nat) (d : UInt32) : Prop :=
  n = 1 ∧ d = 8 ∨ n = 2 ∧ d = 4 ∨ n = 3 ∧ d = 2 ∨ 4 ≤ n ∧ d = 1

/-- **The laws of runs.** -/
structure Laws (f : List Char → List Token) : Prop where
  append : ∀ a b, MayCut a b → f (a ++ b) = f a ++ f b
  comma : ∀ c, IsComma c → f [c] = [.rest (some ⟨16, 0⟩)]
  sentenceEnd : ∀ c, IsSentenceEnd c → f [c] = [.rest (some ⟨4, 0⟩)]
  /-- A run is sung at the pitch of its character, the longer the longer. -/
  run : ∀ c n d, ¬IsPause c → IsRunLength n d → f (List.replicate n c) =
    [.octave (Script.of c).octave, .note (PitchClass.ofChar c) (some ⟨d, 0⟩)]

/-! ### Pauses and runs -/

theorem pause?_of_isComma {c : Char} (h : IsComma c) : pause? c = some 16 :=
  if_pos h

theorem pause?_of_isSentenceEnd {c : Char} (h : IsSentenceEnd c) : pause? c = some 4 := by
  have hall : longPauses.all (pause? · == some 4) = true := rfl
  exact beq_iff_eq.mp (List.all_eq_true.mp hall c h)

theorem pause?_eq_none {c : Char} (h : ¬IsPause c) : pause? c = none := by
  obtain ⟨hcomma, hend⟩ := not_or.mp h
  exact (if_neg hcomma).trans (if_neg hend)

theorem isRunLength_denominator (n : Nat) : IsRunLength (n + 1) (denominator (n + 1)) := by
  match n with
  | 0 => exact .inl ⟨rfl, rfl⟩
  | 1 => exact .inr (.inl ⟨rfl, rfl⟩)
  | 2 => exact .inr (.inr (.inl ⟨rfl, rfl⟩))
  | n + 3 => exact .inr (.inr (.inr ⟨Nat.le_add_left 4 n, rfl⟩))

theorem IsRunLength.exists_eq {n : Nat} {d : UInt32} (h : IsRunLength n d) :
    ∃ m, n = m + 1 ∧ d = denominator (m + 1) := by
  rcases h with ⟨rfl, rfl⟩ | ⟨rfl, rfl⟩ | ⟨rfl, rfl⟩ | ⟨hn, rfl⟩
  · exact ⟨0, rfl, rfl⟩
  · exact ⟨1, rfl, rfl⟩
  · exact ⟨2, rfl, rfl⟩
  · obtain ⟨m, rfl⟩ := Nat.exists_eq_add_of_le' hn
    exact ⟨m + 3, rfl, rfl⟩

/-- A run ends where another character follows. -/
theorem runLength_replicate_append {c : Char} {cs : List Char} (h : ∀ d ∈ cs.head?, d ≠ c)
    (n : Nat) : runLength c (List.replicate n c ++ cs) = n := by
  induction n with
  | zero =>
    cases cs with
    | nil => rfl
    | cons x cs => simp [runLength, h x rfl]
  | succ n ih => rw [List.replicate_succ, List.cons_append, runLength_cons_self, ih]

theorem line_replicate_append {c : Char} {cs : List Char} (hc : ¬IsPause c)
    (h : ∀ d ∈ cs.head?, d ≠ c) (n : Nat) :
    line (List.replicate (n + 1) c ++ cs) = sing c ⟨denominator (n + 1), 0⟩ ++ line cs := by
  have hrun := runLength_replicate_append h (n + 1)
  have hdrop : (List.replicate (n + 1) c ++ cs).drop (n + 1) = cs :=
    List.drop_left' List.length_replicate
  rw [List.replicate_succ, List.cons_append] at hrun hdrop ⊢
  rw [line_cons_of_not_pause (pause?_eq_none hc), hrun, hdrop]

/-- What a text starts with of one character, and the rest. -/
theorem exists_run (c : Char) (cs : List Char) :
    ∃ n rest, cs = List.replicate n c ++ rest ∧ ∀ d ∈ rest.head?, d ≠ c := by
  induction cs with
  | nil => exact ⟨0, [], rfl, fun d hd => absurd hd (Option.not_mem_none d)⟩
  | cons x cs ih =>
    by_cases hx : x = c
    · obtain ⟨n, rest, e, h⟩ := ih
      exact ⟨n + 1, rest, by rw [hx, e, List.replicate_succ, List.cons_append], h⟩
    · refine ⟨0, x :: cs, rfl, fun d hd => ?_⟩
      rw [List.head?_cons, Option.mem_some] at hd
      exact hd ▸ hx

/-- **A line is made of pauses and of runs of other characters**, each run as long as it can be. -/
theorem run_induction {P : List Char → Prop} (nil : P [])
    (pause : ∀ c cs, IsPause c → P cs → P (c :: cs))
    (run : ∀ c n cs, ¬IsPause c → (∀ d ∈ cs.head?, d ≠ c) → P cs →
      P (List.replicate (n + 1) c ++ cs)) (cs : List Char) : P cs := by
  induction hlen : cs.length using Nat.strong_induction_on generalizing cs with
  | _ k ih =>
    subst hlen
    cases cs with
    | nil => exact nil
    | cons c cs =>
      by_cases hc : IsPause c
      · exact pause c cs hc (ih _ (Nat.lt_succ_self _) cs rfl)
      · obtain ⟨n, rest, rfl, hrest⟩ := exists_run c cs
        have hshorter : rest.length < (c :: (List.replicate n c ++ rest)).length := by
          rw [List.length_cons, List.length_append]
          omega
        exact run c n rest hc hrest (ih _ hshorter rest rfl)

/-! ### What has the laws -/

/-- What may be cut behind its whole may be cut behind its last part. -/
theorem MayCut.of_append {a b cs : List Char} (h : MayCut (a ++ cs) b) : MayCut cs b := by
  rcases List.eq_nil_or_concat' cs with rfl | ⟨front, last, rfl⟩
  · exact .inl rfl
  · rw [MayCut, ← List.append_assoc, List.getLast?_concat] at h
    rw [MayCut, List.getLast?_concat]
    exact h.imp_left fun e => absurd e (by simp)

theorem line_append {a b : List Char} (h : MayCut a b) : line (a ++ b) = line a ++ line b := by
  induction a using run_induction with
  | nil => rw [line_nil, List.nil_append, List.nil_append]
  | pause c a hc ih =>
    have hd : ∃ d, pause? c = some d :=
      hc.elim (fun h => ⟨_, pause?_of_isComma h⟩) fun h => ⟨_, pause?_of_isSentenceEnd h⟩
    obtain ⟨d, hd⟩ := hd
    rw [List.cons_append, line_cons_of_pause hd, line_cons_of_pause hd, List.cons_append,
      ih (MayCut.of_append (a := [c]) h)]
  | run c n a hc ha ih =>
    have hcut : ∀ d ∈ (a ++ b).head?, d ≠ c := by
      intro d hd
      cases a with
      | cons x a => exact ha d hd
      | nil =>
        -- The whole of `a` is one run here, and `b` does not go on with it.
        rintro rfl
        rw [List.nil_append, Option.mem_def] at hd
        have hlast : (List.replicate (n + 1) d ++ []).getLast? = some d := by
          simp [List.getLast?_replicate]
        rw [MayCut, hlast, hd] at h
        rcases h with h | rfl | h | ⟨x, hx, hpause⟩
        · simp at h
        · cases hd
        · exact h rfl
        · exact hc (Option.mem_some.mp hx ▸ hpause)
    rw [List.append_assoc, line_replicate_append hc hcut, line_replicate_append hc ha,
      ih h.of_append, List.append_assoc]

theorem laws_line : Laws line where
  append _ _ := line_append
  comma c hc := by
    rw [line_cons_of_pause (pause?_of_isComma hc), line_nil]
    rfl
  sentenceEnd c hc := by
    rw [line_cons_of_pause (pause?_of_isSentenceEnd hc), line_nil]
    rfl
  run c n d hc hd := by
    obtain ⟨m, rfl, rfl⟩ := hd.exists_eq
    have hend : ∀ d ∈ ([] : List Char).head?, d ≠ c := fun d hd => absurd hd (Option.not_mem_none d)
    have hline := line_replicate_append hc hend m
    rw [List.append_nil, line_nil, List.append_nil] at hline
    exact hline

/-- **Only one function has the laws of runs.** -/
theorem Laws.eq_line {f : List Char → List Token} (hf : Laws f) : f = line := by
  funext cs
  induction cs using run_induction with
  | nil =>
    rw [line_nil]
    exact List.self_eq_append_left.mp (hf.append [] [] (.inl rfl))
  | pause c cs hc ih =>
    have hcut : MayCut [c] cs := .inr (.inr (.inr ⟨c, rfl, hc⟩))
    have hpause : f [c] = line [c] := by
      rcases hc with hc | hc
      · rw [hf.comma c hc, laws_line.comma c hc]
      · rw [hf.sentenceEnd c hc, laws_line.sentenceEnd c hc]
    have hf' := hf.append [c] cs hcut
    rw [hpause, ih, ← laws_line.append [c] cs hcut] at hf'
    exact hf'
  | run c n cs hc hcs ih =>
    have hcut : MayCut (List.replicate (n + 1) c) cs := by
      cases cs with
      | nil => exact .inr (.inl rfl)
      | cons x cs =>
        refine .inr (.inr (.inl ?_))
        simpa [List.getLast?_replicate] using (hcs x rfl).symm
    have hd := isRunLength_denominator n
    rw [hf.append _ _ hcut, laws_line.append _ _ hcut, ih, hf.run c _ _ hc hd,
      laws_line.run c _ _ hc hd]

theorem laws_iff {f : List Char → List Token} : Laws f ↔ f = line :=
  ⟨Laws.eq_line, fun h => h ▸ laws_line⟩

end Repetition

/-! ## 2. Pairs -/

namespace Pair

/-- The lengths that the second character of a pair can ask for, by its code point modulo eight. -/
def noteLengths : List (Nat × Length) :=
  [(0, ⟨16, 0⟩), (1, ⟨8, 0⟩), (2, ⟨8, 0⟩), (3, ⟨4, 0⟩), (4, ⟨2, 0⟩), (5, ⟨8, 1⟩)]

/-- The lengths of rests that it can ask for instead. -/
def restLengths : List (Nat × Length) :=
  [(6, ⟨8, 0⟩), (7, ⟨4, 0⟩)]

/-- **The laws of pairs.** -/
structure Laws (f : List Char → List Token) : Prop where
  append : ∀ a b, a.length % 2 = 0 → f (a ++ b) = f a ++ f b
  single : ∀ c, f [c] = [.octave (Script.of c).octave, .note (PitchClass.ofChar c) (some ⟨4, 0⟩)]
  /-- The second character alone decides on a rest. -/
  rest : ∀ c d l, (d.toNat % 8, l) ∈ restLengths → f [c, d] = [.rest (some l)]
  /-- Otherwise the first one is sung, as long as the second one says. -/
  note : ∀ c d l, (d.toNat % 8, l) ∈ noteLengths →
    f [c, d] = [.octave (Script.of c).octave, .note (PitchClass.ofChar c) (some l)]

/-- What a pair gives. -/
theorem line_pair (c d : Char) : line [c, d] = (Rhythm.of d).tokens c :=
  List.append_nil _

theorem laws_line : Laws line where
  append := line_append
  single _ := rfl
  rest c d l h := by
    rw [line_pair, Rhythm.of]
    simp only [restLengths, List.mem_cons, Prod.mk.injEq, List.not_mem_nil, or_false] at h
    rcases h with ⟨hd, rfl⟩ | ⟨hd, rfl⟩ <;> rw [hd] <;> rfl
  note c d l h := by
    rw [line_pair, Rhythm.of]
    simp only [noteLengths, List.mem_cons, Prod.mk.injEq, List.not_mem_nil, or_false] at h
    rcases h with ⟨hd, rfl⟩ | ⟨hd, rfl⟩ | ⟨hd, rfl⟩ | ⟨hd, rfl⟩ | ⟨hd, rfl⟩ | ⟨hd, rfl⟩ <;>
      rw [hd] <;> rfl

/-- Every character asks for a rest or for a note of some length. -/
theorem exists_length (d : Char) :
    (∃ l, (d.toNat % 8, l) ∈ restLengths) ∨ ∃ l, (d.toNat % 8, l) ∈ noteLengths := by
  have hlt : d.toNat % 8 < 8 := Nat.mod_lt _ (by omega)
  have hkeys : (restLengths ++ noteLengths).map Prod.fst = [6, 7, 0, 1, 2, 3, 4, 5] := rfl
  have hmem : d.toNat % 8 ∈ (restLengths ++ noteLengths).map Prod.fst := by
    rw [hkeys]
    simp only [List.mem_cons, List.not_mem_nil, or_false]
    omega
  obtain ⟨⟨r, l⟩, hl, hr⟩ := List.mem_map.mp hmem
  rw [← hr]
  exact (List.mem_append.mp hl).imp (fun h => ⟨l, h⟩) fun h => ⟨l, h⟩

/-- **Only one function has the laws of pairs.** -/
theorem Laws.eq_line {f : List Char → List Token} (hf : Laws f) : ∀ cs, f cs = line cs
  | [] => List.self_eq_append_left.mp (hf.append [] [] rfl)
  | [c] => hf.single c
  | c :: d :: cs => by
    have hpair : f [c, d] = line [c, d] := by
      rcases exists_length d with ⟨l, hl⟩ | ⟨l, hl⟩
      · rw [hf.rest c d l hl, laws_line.rest c d l hl]
      · rw [hf.note c d l hl, laws_line.note c d l hl]
    have heven : [c, d].length % 2 = 0 := by simp
    have hcut := hf.append [c, d] cs heven
    rw [hpair, eq_line hf cs, ← laws_line.append [c, d] cs heven] at hcut
    exact hcut

theorem laws_iff {f : List Char → List Token} : Laws f ↔ f = line :=
  ⟨fun hf => funext hf.eq_line, fun h => h ▸ laws_line⟩

theorem timed_sing (c : Char) (l : Length) : (sing c l).filterMap Token.timed? = [some l] :=
  rfl

/-- Every pair gives one token that takes time, and so does a character without a partner. -/
theorem length_timed_line : ∀ cs : List Char,
    ((line cs).filterMap Token.timed?).length = (cs.length + 1) / 2
  | [] => rfl
  | [c] => by
    rw [line, timed_sing, List.length_singleton, List.length_singleton]
  | c :: d :: cs => by
    have hpair : (((Rhythm.of d).tokens c).filterMap Token.timed?).length = 1 := by
      cases Rhythm.of d <;> rfl
    rw [line, List.filterMap_append, List.length_append, hpair, length_timed_line cs,
      List.length_cons, List.length_cons]
    omega

end Pair

/-! ## 3. Both rules -/

/-- **Both rules are determined by their laws.** They have them, and nothing else does; and of `n`
    characters taken in pairs, half as many tokens take time, rounded up. -/
theorem lines_are_determined :
    (∀ f, Repetition.Laws f ↔ f = Mode.repetition.line) ∧
      (∀ f, Pair.Laws f ↔ f = Mode.pair.line) ∧
      ∀ cs, ((Mode.pair.line cs).filterMap Token.timed?).length = (cs.length + 1) / 2 :=
  ⟨fun _ => Repetition.laws_iff, fun _ => Pair.laws_iff, Pair.length_timed_line⟩

/-- A comma breaks a run, and commas in a row are rests of their own. -/
example : Mode.repetition.line ['a', 'a', ',', ',', 'a'] =
    [.octave 4, .note (PitchClass.ofChar 'a') (some ⟨4, 0⟩), .rest (some ⟨16, 0⟩),
      .rest (some ⟨16, 0⟩), .octave 4, .note (PitchClass.ofChar 'a') (some ⟨8, 0⟩)] := by
  decide +kernel

end TextMelody.Transducer
