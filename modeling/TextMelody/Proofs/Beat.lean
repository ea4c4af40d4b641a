import Mathlib.Algebra.Order.Round
import Mathlib.Data.Rat.Floor
import Mathlib.Tactic.Linarith
import Mathlib.Tactic.Positivity
import TextMelody.Length

/-!
# Counting that keeps the order

What the order of notes and ticks rests on is little: adding something that is not negative never
leads back, and rounding to ticks keeps the order. Numbers that beats can be counted in and that
obey this are `Ordered`; exact numbers do, and so do numbers that round every step to a nearest one.
The order of notes alone rests on less, for it does not matter to it how beats are rounded to ticks
(`Advancing`). That no two tempo changes stand at one instant also needs a word on when two instants
are the same (`Instants`).

* `zero_le_beats`: no length is negative;
* `instance : Ordered Rat`: exact beats keep the order;
* `nearest_natCast`, `nearest_eq_round`, `nearest_lt`: the nearest tick of an exact beat.
-/

namespace TextMelody

namespace Beat

/-- **Numbers whose steps keep the order.** -/
class Ordered (β : Type) [Beat β] : Prop where
  le_trans : ∀ {a b c : β}, le a b → le b c → le a c
  /-- A number that can be told to be at or after the start is at or after itself. -/
  le_refl : ∀ {a : β}, le (ofNat 0) a → le a a
  zero_le_ofNat : ∀ n : Nat, n < UInt32.size → le (ofNat 0 : β) (ofNat n)
  /-- Adding never leads back. -/
  le_add : ∀ {a d : β}, le (ofNat 0) a → le (ofNat 0) d → le a (a + d)
  zero_le_div : ∀ {a : β} {n : Nat}, le (ofNat 0) a → 0 < n → n < UInt32.size →
    le (ofNat 0) (a / ofNat n)
  /-- A later beat has no earlier tick. -/
  nearest_le : ∀ {a b : β} {n : Nat}, le a b → n < UInt16.size →
    nearest (a * ofNat n) ≤ nearest (b * ofNat n)
  nearest_le_maxWord : ∀ a : β, nearest a ≤ maxWord

/-- **Numbers in which adding leads forward**, however they are rounded to ticks. -/
class Advancing (β : Type) [Beat β] : Prop where
  le_trans : ∀ {a b c : β}, le a b → le b c → le a c
  le_refl : ∀ {a : β}, le (ofNat 0) a → le a a
  zero_le_ofNat : ∀ n : Nat, n < UInt32.size → le (ofNat 0 : β) (ofNat n)
  le_add : ∀ {a d : β}, le (ofNat 0) a → le (ofNat 0) d → le a (a + d)
  zero_le_div : ∀ {a : β} {n : Nat}, le (ofNat 0) a → 0 < n → n < UInt32.size →
    le (ofNat 0) (a / ofNat n)

instance {β : Type} [Beat β] [Ordered β] : Advancing β where
  le_trans := Ordered.le_trans
  le_refl := Ordered.le_refl
  zero_le_ofNat := Ordered.zero_le_ofNat
  le_add := Ordered.le_add
  zero_le_div := Ordered.zero_le_div

/-- **Numbers in which instants are told apart by the order**: two are the same if neither is after
    the other. -/
class Instants (β : Type) [Beat β] : Prop extends Advancing β where
  same_iff : ∀ {a b : β}, same a b ↔ le a b ∧ le b a

/-- **Numbers that ticks can be told from**: they keep the order, tell instants apart, and start on
    the first tick. -/
class Metered (β : Type) [Beat β] : Prop extends Ordered β, Instants β where
  nearest_start : ∀ n : Nat, n < UInt16.size → nearest (ofNat 0 * ofNat n : β) = 0

/-- The first instant is before the second. -/
def Before {β : Type} [Beat β] (a b : β) : Prop :=
  le a b ∧ ¬le b a

end Beat

open Beat

variable {β : Type} [Beat β] [Advancing β]

theorem Beat.Before.trans_le {a b c : β} (h : Before a b) (hbc : le b c) : Before a c :=
  ⟨Advancing.le_trans h.1 hbc, fun hca => h.2 (Advancing.le_trans hbc hca)⟩

omit [Advancing β] in
/-- An instant that is not after another, and not the same, is before it. -/
theorem Beat.Before.of_le_of_not_same [Instants β] {a b : β} (h : le a b) (hne : ¬same a b) :
    Before a b :=
  ⟨h, fun hba => hne (Instants.same_iff.mpr ⟨h, hba⟩)⟩

theorem Beat.zero_le_add {a d : β} (ha : le (ofNat 0) a) (hd : le (ofNat 0) d) :
    le (ofNat 0) (a + d) :=
  Advancing.le_trans ha (Advancing.le_add ha hd)

namespace Length

theorem zero_le_dotted (dots : Nat) {total last : β} (ht : le (ofNat 0) total)
    (hl : le (ofNat 0) last) : le (ofNat 0) (dotted dots total last) := by
  induction dots generalizing total last with
  | zero => exact ht
  | succ dots ih =>
    have hhalf : le (ofNat 0) (last / ofNat 2) := Advancing.zero_le_div hl (by decide) (by decide)
    exact ih (zero_le_add ht hhalf) hhalf

/-- **No length is negative.** -/
theorem zero_le_beats {l : Length} (h : l.denominator ≠ 0) : le (ofNat 0) (l.beats : β) := by
  have hpos : 0 < l.denominator.toNat := by
    refine Nat.pos_of_ne_zero fun e => h ?_
    rw [← UInt32.toNat_inj]
    exact e
  have hplain : le (ofNat 0) (ofNat 4 / ofNat l.denominator.toNat : β) :=
    Advancing.zero_le_div (Advancing.zero_le_ofNat 4 (by decide)) hpos l.denominator.toNat_lt
  exact zero_le_dotted l.dots.toNat hplain hplain

end Length

/-! ## Exact numbers -/

namespace Beat

theorem le_iff {a b : Rat} : le a b ↔ a ≤ b :=
  decide_eq_true_iff

theorem same_iff {a b : Rat} : same a b ↔ a = b :=
  decide_eq_true_iff

theorem ofNat_eq (n : Nat) : (ofNat n : Rat) = n := rfl

/-- The nearest whole number, with halves going up. -/
theorem nearest_eq (a : Rat) : nearest a = min (a + 1 / 2).floor.toNat maxWord := rfl

theorem nearest_mono {a b : Rat} (h : a ≤ b) : nearest a ≤ nearest b := by
  have hfloor : (a + 1 / 2).floor ≤ (b + 1 / 2).floor := Rat.floor_monotone (by linarith)
  rw [nearest_eq, nearest_eq]
  omega

instance : Ordered Rat where
  le_trans hab hbc := le_iff.mpr (Rat.le_trans (le_iff.mp hab) (le_iff.mp hbc))
  le_refl _ := le_iff.mpr Rat.le_refl
  zero_le_ofNat n _ := by
    rw [le_iff, ofNat_eq, ofNat_eq]
    exact Nat.cast_le.mpr (Nat.zero_le n)
  le_add {a d} _ hd := by
    rw [le_iff] at hd ⊢
    exact le_add_of_nonneg_right hd
  zero_le_div {a n} ha _ _ := by
    rw [le_iff] at ha ⊢
    exact div_nonneg ha (Nat.cast_nonneg n)
  nearest_le {a b n} hab _ :=
    nearest_mono (mul_le_mul_of_nonneg_right (le_iff.mp hab) (Nat.cast_nonneg n))
  nearest_le_maxWord _ := Nat.min_le_right _ _

instance : Instants Rat where
  same_iff {a b} := by rw [same_iff, le_iff, le_iff, le_antisymm_iff]

theorem before_iff {a b : Rat} : Before a b ↔ a < b := by
  rw [Before, le_iff, le_iff, lt_iff_le_not_ge]

/-- A whole number is its own nearest, as long as a word can hold it. -/
theorem nearest_natCast (n : Nat) : nearest (n : Rat) = min n maxWord := by
  have hint : ⌊(n : Rat) + 1 / 2⌋ = (n : Int) := by
    rw [Int.floor_eq_iff, Int.cast_natCast]
    constructor <;> linarith
  have hfloor : ((n : Rat) + 1 / 2).floor = (n : Int) := hint
  rw [nearest_eq, hfloor]
  rfl

instance : Metered Rat where
  nearest_start n _ := by
    rw [ofNat_eq, Nat.cast_zero, zero_mul, ← Nat.cast_zero, nearest_natCast]
    exact Nat.zero_min _

/-- **The nearest tick of an exact beat**, as long as a word can hold it. -/
theorem nearest_eq_round {x : Rat} (h : x < maxWord) : nearest x = (round x).toNat := by
  have hfloor : (x + 1 / 2).floor = round x := (round_eq x).symm
  have hle : round x ≤ (maxWord : Int) := by
    rw [round_eq, ← Int.lt_add_one_iff, Int.floor_lt]
    push_cast
    linarith
  rw [nearest_eq, hfloor]
  generalize maxWord = last at hle ⊢
  omega

/-- Beats that are a tick apart do not share their nearest tick. -/
theorem nearest_lt {x y : Rat} (hx : 0 ≤ x) (hxy : x + 1 ≤ y) (hy : y < maxWord) :
    nearest x < nearest y := by
  have hnonneg : 0 ≤ round x := by
    rw [round_eq, Int.floor_nonneg]
    linarith
  have hstep : round x + 1 ≤ round y := by
    rw [← round_add_one, round_eq, round_eq]
    exact Int.floor_mono (by linarith)
  rw [nearest_eq_round (by linarith), nearest_eq_round hy]
  omega

end Beat

end TextMelody
