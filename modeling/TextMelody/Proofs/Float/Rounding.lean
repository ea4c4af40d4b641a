import Mathlib

/-!
# Rounding to a floating-point number

Floating-point numbers that are not negative can be counted: zero is the first, and each comes one
place after the next smaller one. A positive number `m * 2 ^ e` is rounded to a place, with ties
going to the even mantissa, and the place says everything about the result that its order depends
on.

* `nearestEven`: division that rounds to the nearest, ties to even;
* `place`: **the place a number is rounded to**;
* `place_mono`: rounding keeps the order;
* `place_shift`: it depends on the number alone, not on how it is written;
* `place_of_lt`: a number of at most 53 bits is not rounded.
-/

namespace TextMelody.Binary64

open Float.Model Float.Model.UnpackedFloat

/-! ## 1. Rounding a quotient -/

/-- `m / d`, rounded to the nearest whole number, ties to even. -/
def nearestEven (m d : Nat) : Nat :=
  if 2 * (m % d) < d then m / d
  else if 2 * (m % d) = d then m / d + m / d % 2
  else m / d + 1

theorem div_le_nearestEven (m d : Nat) : m / d ≤ nearestEven m d := by
  unfold nearestEven
  split_ifs <;> omega

theorem nearestEven_le (m d : Nat) : nearestEven m d ≤ m / d + 1 := by
  unfold nearestEven
  split_ifs <;> omega

theorem nearestEven_one (m : Nat) : nearestEven m 1 = m := by
  rw [nearestEven, Nat.mod_one, Nat.div_one]
  rfl

/-- **Rounding keeps the order.** -/
theorem nearestEven_mono {m n d : Nat} (h : m ≤ n) : nearestEven m d ≤ nearestEven n d := by
  have hdiv : m / d ≤ n / d := Nat.div_le_div_right h
  rcases Nat.lt_or_eq_of_le hdiv with hlt | heq
  · calc nearestEven m d
        ≤ m / d + 1 := nearestEven_le m d
      _ ≤ n / d := hlt
      _ ≤ nearestEven n d := div_le_nearestEven n d
  · have hmod : m % d ≤ n % d := by
      have hm := Nat.div_add_mod m d
      have hn := Nat.div_add_mod n d
      rw [heq] at hm
      omega
    unfold nearestEven
    rw [heq]
    split_ifs <;> omega

theorem nearestEven_mul_right (m d : Nat) {c : Nat} (hc : 0 < c) :
    nearestEven (m * c) (d * c) = nearestEven m d := by
  have hlt : 2 * (m % d * c) < d * c ↔ 2 * (m % d) < d := by
    rw [← Nat.mul_assoc]
    exact Nat.mul_lt_mul_right hc
  have heq : 2 * (m % d * c) = d * c ↔ 2 * (m % d) = d := by
    rw [← Nat.mul_assoc]
    exact Nat.mul_left_inj (Nat.ne_of_gt hc)
  unfold nearestEven
  rw [Nat.mul_mod_mul_right, Nat.mul_div_mul_right _ _ hc]
  simp only [hlt, heq]

/-- A mantissa after a number of shifts to the right. -/
theorem shiftRight_exact (m k : Nat) :
    ((⟨m, false, false⟩ : ExtendedMantissa) >>> (k + 1)) =
      ⟨m / 2 ^ (k + 1), m / 2 ^ k % 2 != 0, m % 2 ^ k != 0⟩ := by
  induction k with
  | zero =>
    show ExtendedMantissa.shiftRightOne ⟨m, false, false⟩ = _
    simp [ExtendedMantissa.shiftRightOne, Nat.mod_one]
  | succ k ih =>
    have hsticky : (m / 2 ^ k % 2 != 0 || m % 2 ^ k != 0) = (m % 2 ^ (k + 1) != 0) := by
      have hmod := Nat.mod_pow_succ (x := m) (b := 2) (k := k)
      have hpos : 0 < 2 ^ k := Nat.two_pow_pos k
      rw [hmod, Bool.eq_iff_iff]
      simp only [Bool.or_eq_true, bne_iff_ne, ne_eq, Nat.add_eq_zero_iff, Nat.mul_eq_zero,
        Nat.ne_of_gt hpos, false_or]
      omega
    show ExtendedMantissa.shiftRightOne ((⟨m, false, false⟩ : ExtendedMantissa) >>> (k + 1)) = _
    rw [ih, ExtendedMantissa.shiftRightOne]
    simp only [hsticky, Nat.div_div_eq_div_mul, ← Nat.pow_succ]

/-- **Shifting and rounding a mantissa** divides it and rounds to the nearest. -/
theorem roundedMantissa_shiftRight (m k : Nat) :
    ((⟨m, false, false⟩ : ExtendedMantissa) >>> k).roundedMantissa = nearestEven m (2 ^ k) := by
  cases k with
  | zero =>
    rw [Nat.pow_zero, nearestEven_one]
    rfl
  | succ k =>
    have hmod := Nat.mod_pow_succ (x := m) (b := 2) (k := k)
    have hlt : m % 2 ^ k < 2 ^ k := Nat.mod_lt m (Nat.two_pow_pos k)
    rw [shiftRight_exact, nearestEven, hmod, Nat.pow_succ]
    generalize m / (2 ^ k * 2) = q
    generalize 2 ^ k = d at hlt ⊢
    generalize m % d = r at hlt ⊢
    -- the round bit tells whether at least a half is cut off, the sticky bit whether more is
    obtain hbit | hbit : m / d % 2 = 0 ∨ m / d % 2 = 1 := by omega
    · have hless : 2 * (r + d * 0) < d * 2 := by omega
      rw [hbit, if_pos hless]
      cases hsticky : r != 0 <;> rfl
    · have hnot : ¬2 * (r + d * 1) < d * 2 := by omega
      rw [hbit, if_neg hnot]
      cases hsticky : r != 0 with
      | false =>
        have hr : r = 0 := by simpa using hsticky
        rw [if_pos (by omega)]
        rfl
      | true =>
        have hr : r ≠ 0 := by simpa using hsticky
        rw [if_neg (by omega)]
        rfl

/-! ## 2. The place of a number -/

theorem log2_mono {m n : Nat} (h : m ≤ n) : m.log2 ≤ n.log2 := by
  by_cases hm : m = 0
  · rw [hm, Nat.log2_zero]
    exact Nat.zero_le _
  · have hn : n ≠ 0 := by omega
    exact (Nat.le_log2 hn).mpr ((Nat.log2_self_le hm).trans h)

theorem log2_mul_two_pow {m : Nat} (hm : 0 < m) (j : Nat) :
    (m * 2 ^ j).log2 = m.log2 + j := by
  have hpow : 0 < 2 ^ j := Nat.two_pow_pos j
  rw [Nat.log2_eq_iff (Nat.ne_of_gt (Nat.mul_pos hm hpow)), Nat.add_right_comm, Nat.pow_add,
    Nat.pow_add]
  exact ⟨Nat.mul_le_mul_right _ (Nat.log2_self_le (Nat.ne_of_gt hm)),
    Nat.mul_lt_mul_of_pos_right Nat.lt_log2_self hpow⟩

/-- The exponent that a number is rounded to: its own with 53 bits, but not below the least. -/
def target (m : Nat) (e : Int) : Int :=
  max (m.log2 + e - 52) (-1074)

/-- **The place of the number that `m * 2 ^ e` is rounded to.** There are 2 ^ 52 places to each
    exponent. -/
def place (m : Nat) (e : Int) : Nat :=
  (target m e + 1074).toNat * 2 ^ 52 + nearestEven m (2 ^ (target m e - e).toNat)

theorem targetExponent_eq (m : Nat) (e : Int) :
    Format.binary64.targetExponent (totalExponent m e) = target m e := by
  have hmin : Format.binary64.minExponent = -1074 := by decide
  have hbits : Format.binary64.mantissaBits = 53 := rfl
  rw [Format.targetExponent, totalExponent, target, hmin, hbits]
  omega

theorem le_target (m : Nat) (e : Int) : -1074 ≤ target m e :=
  le_max_right _ _

theorem target_mono {m n : Nat} (h : m ≤ n) (e : Int) : target m e ≤ target n e := by
  have hlog := log2_mono h
  unfold target
  omega

/-- Above the least exponent all 53 bits are used. -/
theorem two_pow_le_of_target {m : Nat} {e : Int} (hm : 0 < m) (he : e ≤ target m e)
    (h : -1074 < target m e) : 2 ^ 52 ≤ m / 2 ^ (target m e - e).toNat := by
  have hlog : (target m e - e).toNat + 52 = m.log2 := by
    unfold target at he h ⊢
    omega
  rw [Nat.le_div_iff_mul_le (Nat.two_pow_pos _), ← Nat.pow_add, Nat.add_comm, hlog]
  exact Nat.log2_self_le (Nat.ne_of_gt hm)

/-- No more than 53 bits are used. -/
theorem div_lt_two_pow (m : Nat) (e : Int) : m / 2 ^ (target m e - e).toNat < 2 ^ 53 := by
  have hlog : m.log2 < 53 + (target m e - e).toNat := by
    unfold target
    omega
  rw [Nat.div_lt_iff_lt_mul (Nat.two_pow_pos _), ← Nat.pow_add]
  calc m
      < 2 ^ (m.log2 + 1) := Nat.lt_log2_self
    _ ≤ 2 ^ (53 + (target m e - e).toNat) := Nat.pow_le_pow_right (by decide) hlog

theorem nearestEven_le_two_pow (m : Nat) (e : Int) :
    nearestEven m (2 ^ (target m e - e).toNat) ≤ 2 ^ 53 :=
  (nearestEven_le _ _).trans (div_lt_two_pow m e)

/-- **Rounding keeps the order.** -/
theorem place_mono {m n : Nat} {e : Int} (hm : 0 < m) (h : m ≤ n) (he : e ≤ target m e) :
    place m e ≤ place n e := by
  have htarget := target_mono h e
  have hle := le_target m e
  rcases lt_or_eq_of_le htarget with hlt | heq
  · have hn := two_pow_le_of_target (Nat.lt_of_lt_of_le hm h) (he.trans htarget)
      (lt_of_le_of_lt hle hlt)
    have hround := nearestEven_le_two_pow m e
    have hnext := hn.trans (div_le_nearestEven n _)
    have hstep : (target m e + 1074).toNat + 1 ≤ (target n e + 1074).toNat := by omega
    unfold place
    calc (target m e + 1074).toNat * 2 ^ 52 + nearestEven m (2 ^ (target m e - e).toNat)
        ≤ (target m e + 1074).toNat * 2 ^ 52 + 2 ^ 53 := Nat.add_le_add_left hround _
      _ = ((target m e + 1074).toNat + 1) * 2 ^ 52 + 2 ^ 52 := by ring
      _ ≤ (target n e + 1074).toNat * 2 ^ 52 + nearestEven n (2 ^ (target n e - e).toNat) :=
        Nat.add_le_add (Nat.mul_le_mul_right _ hstep) hnext
  · unfold place
    rw [← heq]
    exact Nat.add_le_add_left (nearestEven_mono h) _

/-- **The place depends on the number alone.** -/
theorem place_shift {m : Nat} {e : Int} (hm : 0 < m) (he : e ≤ target m e) (j : Nat) :
    place (m * 2 ^ j) (e - j) = place m e := by
  have htarget : target (m * 2 ^ j) (e - j) = target m e := by
    have hlog := log2_mul_two_pow hm j
    unfold target
    rw [hlog]
    omega
  have hshift : (target m e - (e - j)).toNat = (target m e - e).toNat + j := by omega
  unfold place
  rw [htarget, hshift, Nat.pow_add, nearestEven_mul_right _ _ (Nat.two_pow_pos j)]

/-! ## 3. Rounded numbers -/

/-- **A mantissa and an exponent as numbers are rounded to**: of 53 bits, or with the least
    exponent. -/
structure Canonical (m : Nat) (e : Int) : Prop where
  lt : m < 2 ^ 53
  le_exponent : -1074 ≤ e
  normal : 2 ^ 52 ≤ m ∨ e = -1074

/-- The place of a canonical number. -/
def ordinal (m : Nat) (e : Int) : Nat :=
  (e + 1074).toNat * 2 ^ 52 + m

/-- A number that stands at a place, as it is before the largest exponent is looked at. -/
def IsAt (s : Sign) (n : Nat) : UnpackedFloat → Prop
  | .zero s' => s' = s ∧ n = 0
  | .finite s' m e _ => s' = s ∧ Canonical m e ∧ ordinal m e = n
  | _ => False

theorem Canonical.target_eq {m : Nat} {e : Int} (h : Canonical m e) : target m e = e := by
  have hle := h.le_exponent
  by_cases hm : m = 0
  · have he : e = -1074 := by
      rcases h.normal with hn | he
      · omega
      · exact he
    rw [hm, he]
    decide
  · have hlog : m.log2 < 53 := (Nat.log2_lt hm).mpr h.lt
    rcases h.normal with hn | he
    · have hlow : 52 ≤ m.log2 := (Nat.le_log2 hm).mpr hn
      unfold target
      omega
    · unfold target
      omega

/-- A canonical number is rounded to itself. -/
theorem Canonical.place_eq {m : Nat} {e : Int} (h : Canonical m e) : place m e = ordinal m e := by
  rw [place, ordinal, h.target_eq, Int.sub_self]
  exact congrArg _ (nearestEven_one m)

/-- A mantissa that is moved up to 53 bits. -/
def widen (m : Nat) : Nat :=
  m * 2 ^ (52 - m.log2)

theorem widen_pos {m : Nat} (hm : 0 < m) : 0 < widen m :=
  Nat.mul_pos hm (Nat.two_pow_pos _)

theorem two_pow_le_widen {m : Nat} (hm : 0 < m) (h : m < 2 ^ 53) : 2 ^ 52 ≤ widen m := by
  have hlog : m.log2 < 53 := (Nat.log2_lt (Nat.ne_of_gt hm)).mpr h
  have hsplit : m.log2 + (52 - m.log2) = 52 := by omega
  calc 2 ^ 52
      = 2 ^ m.log2 * 2 ^ (52 - m.log2) := by rw [← Nat.pow_add, hsplit]
    _ ≤ widen m := Nat.mul_le_mul_right _ (Nat.log2_self_le (Nat.ne_of_gt hm))

theorem widen_lt {m : Nat} (hm : 0 < m) (h : m < 2 ^ 53) : widen m < 2 ^ 53 := by
  have hlog : m.log2 < 53 := (Nat.log2_lt (Nat.ne_of_gt hm)).mpr h
  have hsplit : m.log2 + 1 + (52 - m.log2) = 53 := by omega
  calc widen m
      < 2 ^ (m.log2 + 1) * 2 ^ (52 - m.log2) :=
        Nat.mul_lt_mul_of_pos_right Nat.lt_log2_self (Nat.two_pow_pos _)
    _ = 2 ^ 53 := by rw [← Nat.pow_add, hsplit]

theorem canonical_widen {m : Nat} {e : Int} (hm : 0 < m) (h : m < 2 ^ 53) (he : -1022 ≤ e) :
    Canonical (widen m) (e - (52 - m.log2 : Nat)) :=
  ⟨widen_lt hm h, by omega, .inl (two_pow_le_widen hm h)⟩

/-- **A number of at most 53 bits is not rounded**, however low the exponent it is written with. -/
theorem place_of_lt {m j : Nat} {e : Int} (hm : 0 < m) (h : m < 2 ^ 53) (he : -1022 ≤ e)
    (hj : 52 - m.log2 ≤ j) :
    place (m * 2 ^ j) (e - j) = ordinal (widen m) (e - (52 - m.log2 : Nat)) := by
  have hcanonical := canonical_widen hm h he
  have hpow : m * 2 ^ j = widen m * 2 ^ (j - (52 - m.log2)) := by
    have hsplit : 52 - m.log2 + (j - (52 - m.log2)) = j := by omega
    rw [widen, Nat.mul_assoc, ← Nat.pow_add, hsplit]
  have hexp : e - j = e - (52 - m.log2 : Nat) - (j - (52 - m.log2) : Nat) := by omega
  rw [hpow, hexp, place_shift (widen_pos hm) (Int.le_of_eq hcanonical.target_eq.symm),
    hcanonical.place_eq]

theorem shiftToTargetExponent_exact {m : Nat} {e : Int} (he : e ≤ target m e) :
    shiftToTargetExponent Format.binary64 m e .exact =
      ((⟨m, false, false⟩ : ExtendedMantissa) >>> (target m e - e).toNat, target m e) := by
  have hshift : e + ((target m e - e).toNat : Int) = target m e := by omega
  rw [shiftToTargetExponent, targetExponent_eq, shiftToExponent]
  exact congrArg _ hshift

/-- A mantissa of 53 bits is not shifted again. -/
theorem shiftToTargetExponent_of_lt {m : Nat} {e : Int} (hm : m < 2 ^ 53) (he : -1074 ≤ e) :
    shiftToTargetExponent Format.binary64 m e .exact = (⟨m, false, false⟩, e) := by
  have hlog : m.log2 ≤ 52 := by
    by_cases h : m = 0
    · rw [h, Nat.log2_zero]
      exact Nat.zero_le _
    · exact Nat.le_of_lt_succ ((Nat.log2_lt h).mpr hm)
  have hnone : (target m e - e).toNat = 0 := by
    unfold target
    omega
  rw [shiftToTargetExponent, targetExponent_eq, shiftToExponent, hnone]
  exact congrArg _ (Int.add_zero e)

/-- A mantissa that was rounded up to 54 bits is. -/
theorem shiftToTargetExponent_two_pow {e : Int} (he : -1074 ≤ e) :
    shiftToTargetExponent Format.binary64 (2 ^ 53) e .exact =
      (⟨2 ^ 52, false, false⟩, e + 1) := by
  have htarget : target (2 ^ 53) e = e + 1 := by
    rw [target, Nat.log2_two_pow]
    omega
  have hone : (e + 1 - e).toNat = 1 := by omega
  rw [shiftToTargetExponent_exact (by omega), htarget, hone]
  rfl

/-- The number of a mantissa that may be zero. -/
def assemble (s : Sign) (m : Nat) (e : Int) : UnpackedFloat :=
  if h : m = 0 then .zero s else .finite s m e (Nat.pos_of_ne_zero h)

/-- Rounding shifts, rounds the mantissa, and shifts once more if it has become too wide. -/
theorem roundWithAccuracy_exact (s : Sign) {m : Nat} {e : Int} (he : e ≤ target m e) :
    let again := shiftToTargetExponent Format.binary64
      (nearestEven m (2 ^ (target m e - e).toNat)) (target m e) .exact
    roundWithAccuracy Format.binary64 s m e .exact = assemble s again.1.mantissa again.2 := by
  unfold roundWithAccuracy
  rw [shiftToTargetExponent_exact he]
  simp only [roundedMantissa_shiftRight]
  rfl

/-- **What rounding an exact number gives** stands at the number's place. -/
theorem isAt_roundWithAccuracy (s : Sign) {m : Nat} {e : Int} (hm : 0 < m)
    (he : e ≤ target m e) :
    IsAt s (place m e) (roundWithAccuracy Format.binary64 s m e .exact) := by
  have hleast := le_target m e
  have hbound := nearestEven_le_two_pow m e
  have hnormal : 2 ^ 52 ≤ nearestEven m (2 ^ (target m e - e).toNat) ∨ target m e = -1074 := by
    rcases lt_or_eq_of_le hleast with hlt | heq
    · exact .inl ((two_pow_le_of_target hm he hlt).trans (div_le_nearestEven m _))
    · exact .inr heq.symm
  rw [roundWithAccuracy_exact s he, place]
  generalize nearestEven m (2 ^ (target m e - e).toNat) = r at hbound hnormal ⊢
  generalize target m e = t at hleast hnormal ⊢
  rcases Nat.lt_or_eq_of_le hbound with hlt | rfl
  · rw [shiftToTargetExponent_of_lt hlt hleast]
    by_cases hzero : r = 0
    · have ht : t = -1074 := by
        rcases hnormal with hn | ht
        · omega
        · exact ht
      rw [hzero, ht]
      exact ⟨rfl, rfl⟩
    · rw [assemble, dif_neg hzero]
      exact ⟨rfl, ⟨hlt, hleast, hnormal⟩, rfl⟩
  · have hnext : (t + 1 + 1074).toNat = (t + 1074).toNat + 1 := by omega
    have hpos : (2 ^ 52 : Nat) ≠ 0 := by decide
    have hlt : (2 ^ 52 : Nat) < 2 ^ 53 := by decide
    rw [shiftToTargetExponent_two_pow hleast, assemble, dif_neg hpos]
    refine ⟨rfl, ⟨hlt, Int.le_add_one hleast, .inl (Nat.le_refl _)⟩, ?_⟩
    rw [ordinal, hnext]
    ring

end TextMelody.Binary64
