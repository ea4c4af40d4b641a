import TextMelody.Proofs.Melody.RoundTrip
import TextMelody.Transducer.Text

/-!
# The tokens of a text

Whatever a text holds, its melody is made of few kinds of tokens: tempos that are not zero, octaves
up to five, and notes and rests of six lengths, each written out, the notes without flats.

* `Piecewise`: **what holds of a pause and of a character that is sung holds of every line**;
* `isSung_of_mem_tokens`: **every token of a text is one of these**;
* `parse_transduce`: the melody of a text is read back as it was made.
-/

namespace TextMelody

/-- The lengths that texts are sung in. -/
def Length.sung : List Length :=
  [⟨1, 0⟩, ⟨2, 0⟩, ⟨4, 0⟩, ⟨8, 0⟩, ⟨8, 1⟩, ⟨16, 0⟩]

/-- **A token that a text can ask for.** -/
def Token.IsSung : Token → Prop
  | tempo bpm => bpm ≠ 0
  | volume _ => True
  | octave n => n ≤ 5
  | defaultLength _ => False
  | program _ => True
  | rest length => ∃ l ∈ Length.sung, length = some l
  | note pitch length => pitch.accidental ≠ some .flat ∧ ∃ l ∈ Length.sung, length = some l

theorem Length.denominator_ne_zero_of_sung {l : Length} (h : l ∈ sung) : l.denominator ≠ 0 := by
  revert l
  decide

/-- Sung tokens can be read back. -/
theorem Token.IsSung.isReadable {t : Token} (h : t.IsSung) : t.IsReadable := by
  have hlength : ∀ {length : Option Length}, (∃ l ∈ Length.sung, length = some l) →
      ∀ l ∈ length, l.denominator ≠ 0 := by
    rintro _ ⟨l, hl, rfl⟩ _ ⟨⟩
    exact Length.denominator_ne_zero_of_sung hl
  have hnone : ∀ l ∈ (none : Option Length), l.denominator ≠ 0 := fun l hl =>
    absurd hl (Option.not_mem_none l)
  cases t with
  | tempo bpm => exact ⟨fun e => h (Token.tempo.inj e), hnone⟩
  | volume _ => exact ⟨Token.noConfusion, hnone⟩
  | octave _ => exact ⟨Token.noConfusion, hnone⟩
  | defaultLength _ => exact h.elim
  | program _ => exact ⟨Token.noConfusion, hnone⟩
  | rest length => exact ⟨Token.noConfusion, hlength h⟩
  | note pitch length => exact ⟨Token.noConfusion, hlength h.2⟩

namespace Transducer

/-! ## 1. One character -/

theorem octave_of_le (c : Char) : (Script.of c).octave ≤ 5 :=
  (Script.octave_bounds _).2

theorem ofChar_accidental_ne_flat (c : Char) :
    (PitchClass.ofChar c).accidental ≠ some .flat := by
  have h : ∀ n : Fin 12, (PitchClass.chromatic n).accidental ≠ some .flat := by decide
  exact h _

theorem isSung_of_mem_sing {c : Char} {l : Length} (hl : l ∈ Length.sung) {t : Token}
    (h : t ∈ sing c l) : t.IsSung := by
  rw [sing, List.mem_cons, List.mem_singleton] at h
  rcases h with rfl | rfl
  · exact octave_of_le c
  · exact ⟨ofChar_accidental_ne_flat c, l, hl, rfl⟩

theorem isSung_pause {d : UInt32} (h : ⟨d, 0⟩ ∈ Length.sung) : (pause d).IsSung :=
  ⟨_, h, rfl⟩

/-! ## 2. Lines -/

/-- **A property that is kept when music is put together**, and that pauses and characters of the
    lengths of a text have. -/
structure Piecewise (P : List Token → Prop) : Prop where
  nil : P []
  append : ∀ {ts us : List Token}, P ts → P us → P (ts ++ us)
  pause : ∀ {d : UInt32}, ⟨d, 0⟩ ∈ Length.sung → P [pause d]
  sing : ∀ (c : Char) {l : Length}, l ∈ Length.sung → P (sing c l)

namespace Repetition

theorem denominator_mem_sung (n : Nat) : ⟨denominator n, 0⟩ ∈ Length.sung := by
  unfold denominator
  split <;> decide

theorem pause?_mem_sung {c : Char} {d : UInt32} (h : pause? c = some d) :
    ⟨d, 0⟩ ∈ Length.sung := by
  unfold pause? at h
  split at h
  · cases h
    decide
  · split at h
    · cases h
      decide
    · cases h

end Repetition

namespace Piecewise

variable {P : List Token → Prop}

theorem flatMap (h : Piecewise P) {α : Type} {f : α → List Token} {as : List α}
    (hf : ∀ a ∈ as, P (f a)) : P (as.flatMap f) := by
  induction as with
  | nil => exact h.nil
  | cons a as ih =>
    rw [List.flatMap_cons]
    exact h.append (hf a List.mem_cons_self) (ih fun b hb => hf b (List.mem_cons_of_mem a hb))

theorem repetitionLine (h : Piecewise P) (cs : List Char) : P (Repetition.line cs) := by
  induction cs using Repetition.line.induct with
  | case1 =>
    rw [Repetition.line_nil]
    exact h.nil
  | case2 c cs d hd ih =>
    rw [Repetition.line_cons_of_pause hd]
    exact h.append (h.pause (Repetition.pause?_mem_sung hd)) ih
  | case3 c cs hc run ih =>
    rw [Repetition.line_cons_of_not_pause hc]
    exact h.append (h.sing c (Repetition.denominator_mem_sung run)) ih

theorem rhythm (h : Piecewise P) (c d : Char) : P ((Pair.Rhythm.of d).tokens c) := by
  unfold Pair.Rhythm.of
  split
  case h_7 | h_8 => exact h.pause (by decide)
  all_goals exact h.sing c (by decide)

theorem pairLine (h : Piecewise P) : ∀ cs : List Char, P (Pair.line cs)
  | [] => h.nil
  | [c] => h.sing c (by decide)
  | c :: d :: cs => h.append (h.rhythm c d) (h.pairLine cs)

/-- **Both modes make a line of pauses and characters that are sung.** -/
theorem line (h : Piecewise P) (mode : Mode) (cs : List Char) : P (mode.line cs) := by
  cases mode with
  | repetition => exact h.repetitionLine cs
  | pair => exact h.pairLine cs

theorem blankLine (h : Piecewise P) (mode : Mode) : P mode.blankLine := by
  cases mode with
  | repetition => exact h.nil
  | pair => exact h.pause (by decide)

end Piecewise

theorem lineTempo_ne_zero (chars : Nat) : lineTempo chars ≠ 0 := by
  unfold lineTempo
  split <;> decide

theorem ofLine_of_blank (mode : Mode) {cs : List Char} (h : Text.trim cs = []) :
    ofLine mode cs = mode.blankLine :=
  if_pos h

theorem ofLine_of_not_blank (mode : Mode) {cs : List Char} (h : Text.trim cs ≠ []) :
    ofLine mode cs = .tempo (lineTempo (Text.trim cs).length) :: mode.line (Text.trim cs) :=
  if_neg h

namespace Piecewise

variable {P : List Token → Prop}

theorem ofLine (h : Piecewise P) (htempo : ∀ chars, P [.tempo (lineTempo chars)]) (mode : Mode)
    (cs : List Char) : P (ofLine mode cs) := by
  by_cases hblank : Text.trim cs = []
  · rw [ofLine_of_blank mode hblank]
    exact h.blankLine mode
  · rw [ofLine_of_not_blank mode hblank]
    exact h.append (htempo _) (h.line mode _)

/-- **A text is made of its lines.** -/
theorem ofLines (h : Piecewise P) (htempo : ∀ chars, P [.tempo (lineTempo chars)]) (mode : Mode)
    (cs : List Char) : P (ofLines mode cs) :=
  h.flatMap fun l _ => h.ofLine htempo mode l

end Piecewise

/-- What each of some tokens is, is kept when they are put together. -/
theorem piecewise_forall {P : Token → Prop}
    (hpause : ∀ {d : UInt32}, ⟨d, 0⟩ ∈ Length.sung → P (pause d))
    (hsing : ∀ (c : Char) {l : Length}, l ∈ Length.sung → ∀ t ∈ sing c l, P t) :
    Piecewise fun ts => ∀ t ∈ ts, P t where
  nil _ ht := absurd ht List.not_mem_nil
  append hts hus := List.forall_mem_append.mpr ⟨hts, hus⟩
  pause hd := List.forall_mem_singleton.mpr (hpause hd)
  sing := hsing

theorem piecewise_isSung : Piecewise fun ts => ∀ t ∈ ts, t.IsSung :=
  piecewise_forall (fun hd => isSung_pause hd) fun _ _ hl _ ht => isSung_of_mem_sing hl ht

/-! ## 3. Texts -/

theorem isSung_of_mem_prelude {t : Token} (h : t ∈ prelude) : t.IsSung := by
  simp only [prelude, List.mem_cons, List.not_mem_nil, or_false] at h
  rcases h with rfl | rfl | rfl
  · exact (by decide : (120 : UInt32) ≠ 0)
  · trivial
  · trivial

/-- **Every token of a text is sung.** -/
theorem isSung_of_mem_tokens {mode : Mode} {text : String} {t : Token}
    (h : t ∈ tokens mode text) : t.IsSung := by
  rcases List.mem_append.mp h with h | h
  · exact isSung_of_mem_prelude h
  · have htempo : ∀ chars, ∀ u ∈ [Token.tempo (lineTempo chars)], u.IsSung := fun chars =>
      List.forall_mem_singleton.mpr (lineTempo_ne_zero chars)
    exact piecewise_isSung.ofLines htempo mode _ t h

theorem isReadable_of_mem_tokens {mode : Mode} {text : String} {t : Token}
    (h : t ∈ tokens mode text) : t.IsReadable :=
  (isSung_of_mem_tokens h).isReadable

/-- **The melody of a text is read back as it was made.** -/
theorem parse_transduce (mode : Mode) (text : String) :
    Melody.parse (transduce mode text) = ⟨tokens mode text, []⟩ :=
  Melody.parse_render fun _ h => isReadable_of_mem_tokens h

end Transducer

end TextMelody
