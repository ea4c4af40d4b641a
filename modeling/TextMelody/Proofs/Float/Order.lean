import TextMelody.Proofs.Beat
import TextMelody.Proofs.Float.Packing

/-!
# Floating-point numbers keep the order

Every step of floating-point arithmetic rounds to the nearest number. Rounding never passes a
number, so adding something that is not negative never leads back, and a product never falls behind
that of a smaller factor. This is all that the order of notes and ticks rests on.

* `rank`: the position of a floating-point number;
* `position_le_position_add`, `nearest_mul_mono`: sums, and the ticks of products, in order;
* `unpack_ofNat`: whole numbers of beats;
* `instance : Ordered Float`: **floating-point beats keep the order**;
* `instance : Instants Float`, `instance : Metered Float`: their order tells instants apart, and they
  start on the first tick.
-/

namespace TextMelody.Binary64

open Float.Model Float.Model.UnpackedFloat

/-! ## 1. The rank of a number -/

/-- **The position of a floating-point number among all.** -/
def rank (a : Float) : Option Int :=
  position a.toModel.unpack

theorem le_iff_rank {a b : Float} :
    Beat.le a b ↔ ∃ i j, rank a = some i ∧ rank b = some j ∧ i ≤ j := by
  have hle : Beat.le a b ↔ Float.le a b = true := decide_eq_true_iff
  have hunpack : Float.le a b = true ↔ a.toModel.unpack.le b.toModel.unpack = true :=
    decide_eq_true_iff
  exact (hle.trans hunpack).trans (le_iff_position (unpacked_unpack _) (unpacked_unpack _))

theorem same_iff_rank {a b : Float} : Beat.same a b ↔ ∃ i, rank a = some i ∧ rank b = some i := by
  have hsame : Beat.same a b = (a.toModel.unpack.compare b.toModel.unpack == some .eq) := rfl
  rw [hsame, beq_iff_eq]
  exact compare_eq_iff_position (unpacked_unpack _) (unpacked_unpack _)

theorem rank_zero : rank (Beat.ofNat 0) = some 0 := rfl

theorem zero_le_iff_rank {a : Float} :
    Beat.le (Beat.ofNat 0) a ↔ ∃ i, rank a = some i ∧ 0 ≤ i := by
  rw [le_iff_rank, rank_zero]
  constructor
  · rintro ⟨i, j, hi, hj, hij⟩
    cases hi
    exact ⟨j, hj, hij⟩
  · rintro ⟨i, hi, hpos⟩
    exact ⟨0, i, rfl, hi, hpos⟩

/-- A number that is not negative is zero, or positive and finite or infinite. -/
theorem cases_of_position {x : UnpackedFloat} {i : Int} (hi : position x = some i) (h : 0 ≤ i) :
    (∃ s, x = .zero s) ∨ x = .infinity .positive ∨ ∃ m e hm, x = .finite .positive m e hm := by
  cases x with
  | notANumber => cases hi
  | infinity s =>
    cases s with
    | positive => exact .inr (.inl rfl)
    | negative =>
      cases hi
      exact absurd h (by decide)
  | zero s => exact .inl ⟨s, rfl⟩
  | finite s m e hm =>
    cases s with
    | positive => exact .inr (.inr ⟨m, e, hm, rfl⟩)
    | negative =>
      cases hi
      have hpos := ordinal_pos hm e
      simp only [Sign.apply] at h
      omega

/-! ## 2. Sums -/

theorem le_target_of_two_pow_le {m : Nat} (h : 2 ^ 52 ≤ m) (e : Int) : e ≤ target m e := by
  have hm : m ≠ 0 := by omega
  have hlog : 52 ≤ m.log2 := (Nat.le_log2 hm).mpr h
  unfold target
  omega

/-- The place of a canonical number, written with a lower exponent. -/
theorem place_lower {m : Nat} {e c : Int} (hm : 0 < m) (h : Canonical m e) (hc : c ≤ e) :
    place (m * 2 ^ (e - c).toNat) c = ordinal m e := by
  have hexp : e - ((e - c).toNat : Int) = c := by omega
  have hshift := place_shift hm (Int.le_of_eq h.target_eq.symm) (e - c).toNat
  rw [hexp, h.place_eq] at hshift
  exact hshift

theorem target_lower {m : Nat} {e c : Int} (hm : 0 < m) (h : Canonical m e) (hc : c ≤ e) :
    target (m * 2 ^ (e - c).toNat) c = e := by
  have htarget := h.target_eq
  have hlog := log2_mul_two_pow hm (e - c).toNat
  unfold target at htarget ⊢
  rw [hlog]
  omega

theorem round_eq (s : Sign) (m : Nat) (e : Int) :
    UnpackedFloat.round Format.binary64 s m e =
      roundWithAccuracy Format.binary64 s (m * 2 ^ (e - target m e).toNat)
        (e - (e - target m e).toNat) .exact := by
  unfold UnpackedFloat.round decreaseExponent
  simp only [targetExponent_eq, Nat.shiftLeft_eq]

/-- A number that is written with a low exponent keeps it until it is rounded. -/
theorem round_of_le (s : Sign) {m : Nat} {e : Int} (he : e ≤ target m e) :
    UnpackedFloat.round Format.binary64 s m e =
      roundWithAccuracy Format.binary64 s m e .exact := by
  have hnone : (e - target m e).toNat = 0 := by omega
  rw [round_eq, hnone, Nat.pow_zero, Nat.mul_one, Int.natCast_zero, Int.sub_zero]

theorem normalize_positive {m : Nat} (hm : 0 < m) (e : Int) (z : Sign) :
    UnpackedFloat.normalize Format.binary64 m e z =
      UnpackedFloat.round Format.binary64 .positive m e := by
  have hsign : compare (m : Int) 0 = .gt := compare_gt_iff_gt.mpr (Int.natCast_pos.mpr hm)
  rw [UnpackedFloat.normalize, hsign]
  rfl

theorem add_positive {m n : Nat} {e f : Int} (hm : 0 < m) (hn : 0 < n) :
    UnpackedFloat.add Format.binary64 (.finite .positive m e hm) (.finite .positive n f hn) =
      UnpackedFloat.normalize Format.binary64
        ((m * 2 ^ (e - min e f).toNat + n * 2 ^ (f - min e f).toNat : Nat) : Int) (min e f)
        .positive := by
  simp only [UnpackedFloat.add, decreaseExponent, Sign.apply, Nat.shiftLeft_eq, Int.natCast_add]

theorem min_le_target_add {m n : Nat} {e f : Int} (hm : 0 < m) (hn : 0 < n) (hx : Canonical m e)
    (hy : Canonical n f) :
    min e f ≤ target (m * 2 ^ (e - min e f).toNat + n * 2 ^ (f - min e f).toNat) (min e f) := by
  have hleft := target_lower hm hx (Int.min_le_left e f)
  have hright := target_lower hn hy (Int.min_le_right e f)
  have hfirst := target_mono (Nat.le_add_right (m * 2 ^ (e - min e f).toNat)
    (n * 2 ^ (f - min e f).toNat)) (min e f)
  omega

/-- **A sum is rounded to its place.** -/
theorem isAt_add {m n : Nat} {e f : Int} (hm : 0 < m) (hn : 0 < n) (hx : Canonical m e)
    (hy : Canonical n f) :
    IsAt .positive
      (place (m * 2 ^ (e - min e f).toNat + n * 2 ^ (f - min e f).toNat) (min e f))
      (UnpackedFloat.add Format.binary64 (.finite .positive m e hm)
        (.finite .positive n f hn)) := by
  have hpos : 0 < m * 2 ^ (e - min e f).toNat + n * 2 ^ (f - min e f).toNat :=
    Nat.add_pos_left (Nat.mul_pos hm (Nat.two_pow_pos _)) _
  have htarget := min_le_target_add hm hn hx hy
  rw [add_positive, normalize_positive hpos, round_of_le .positive htarget]
  exact isAt_roundWithAccuracy .positive hpos htarget

/-- It is not rounded below its first part. -/
theorem ordinal_le_place_add {m : Nat} {e c : Int} (hm : 0 < m) (hx : Canonical m e) (hc : c ≤ e)
    (n : Nat) : ordinal m e ≤ place (m * 2 ^ (e - c).toNat + n) c := by
  have hlow : c ≤ target (m * 2 ^ (e - c).toNat) c := by
    rw [target_lower hm hx hc]
    exact hc
  rw [← place_lower hm hx hc]
  exact place_mono (Nat.mul_pos hm (Nat.two_pow_pos _)) (Nat.le_add_right _ n) hlow

/-- **Adding what is not negative does not lead back.** -/
theorem position_le_position_add {x y : UnpackedFloat} {i j : Int} (hx : Unpacked x)
    (hy : Unpacked y) (hi : position x = some i) (hipos : 0 ≤ i) (hj : position y = some j)
    (hjpos : 0 ≤ j) :
    ∃ k, position (Float.Model.pack (UnpackedFloat.add Format.binary64 x y)).unpack = some k ∧
      i ≤ k := by
  rcases cases_of_position hi hipos with ⟨s, rfl⟩ | rfl | ⟨m, e, hm, rfl⟩
  · cases hi
    rcases cases_of_position hj hjpos with ⟨t, rfl⟩ | rfl | ⟨n, f, hn, rfl⟩
    · refine ⟨0, ?_, Int.le_refl 0⟩
      cases s <;> cases t <;> rfl
    · exact ⟨j, (position_pack_of_unpacked hy).trans hj, hjpos⟩
    · exact ⟨j, (position_pack_of_unpacked hy).trans hj, hjpos⟩
  · -- what is infinite stays so
    refine ⟨i, ?_, Int.le_refl i⟩
    rw [← hi]
    rcases cases_of_position hj hjpos with ⟨t, rfl⟩ | rfl | ⟨n, f, hn, rfl⟩
    · exact position_pack_of_unpacked hx
    · exact position_pack_of_unpacked hx
    · exact position_pack_of_unpacked hx
  · cases hi
    have hlt := ordinal_lt_top hx.1 hx.2
    rcases cases_of_position hj hjpos with ⟨t, rfl⟩ | rfl | ⟨n, f, hn, rfl⟩
    · exact ⟨ordinal m e, position_pack_of_unpacked hx, Int.le_refl _⟩
    · exact ⟨top, position_pack_of_unpacked hy, Int.ofNat_le.mpr (Nat.le_of_lt hlt)⟩
    · have hsum := ordinal_le_place_add hm hx.1 (Int.min_le_left e f)
        (n * 2 ^ (f - min e f).toNat)
      exact ⟨_, position_pack (isAt_add hm hn hx.1 hy.1),
        Int.ofNat_le.mpr (Nat.le_min.mpr ⟨hsum, Nat.le_of_lt hlt⟩)⟩

/-! ## 3. Products -/

/-- Of two canonical numbers the later one is the larger, once both have the same exponent. -/
theorem le_of_ordinal_le {m n : Nat} {e f : Int} (hx : Canonical m e) (hy : Canonical n f)
    (hle : ordinal m e ≤ ordinal n f) : e ≤ f ∧ m ≤ n * 2 ^ (f - e).toNat := by
  have hexp : e ≤ f := by
    refine Int.not_lt.mp fun h => ?_
    exact absurd (ordinal_lt_of_exponent_lt hy hx h) (Nat.not_lt.mpr hle)
  refine ⟨hexp, ?_⟩
  rcases Int.lt_or_eq_of_le hexp with hlt | rfl
  · have hleast := hx.le_exponent
    have hnormal : 2 ^ 52 ≤ n := hy.normal.resolve_right (by omega)
    have hshift : 1 ≤ (f - e).toNat := by omega
    calc m
        ≤ 2 ^ 52 * 2 ^ 1 := Nat.le_of_lt hx.lt
      _ ≤ n * 2 ^ (f - e).toNat :=
        Nat.mul_le_mul hnormal (Nat.pow_le_pow_right (by decide) hshift)
  · have hmant : m ≤ n := Nat.le_of_add_le_add_left hle
    exact hmant.trans (Nat.le_mul_of_pos_right n (Nat.two_pow_pos _))

/-- **A product does not fall behind that of a smaller factor.** -/
theorem place_mul_mono {m m' n : Nat} {e e' : Int} (f : Int) (hm : 0 < m) (hm' : 0 < m')
    (hx : Canonical m e) (hy : Canonical m' e') (hle : ordinal m e ≤ ordinal m' e')
    (hn : 2 ^ 52 ≤ n) : place (m * n) (e + f) ≤ place (m' * n) (e' + f) := by
  obtain ⟨hexp, hmant⟩ := le_of_ordinal_le hx hy hle
  have hpos : 0 < n := by omega
  have hwide : ∀ {k : Nat}, 0 < k → ∀ c, c ≤ target (k * n) c := fun hk c =>
    le_target_of_two_pow_le (hn.trans (Nat.le_mul_of_pos_left n hk)) c
  have hshift := place_shift (Nat.mul_pos hm' hpos) (hwide hm' (e' + f)) (e' - e).toNat
  have hlow : e' + f - ((e' - e).toNat : Int) = e + f := by omega
  calc place (m * n) (e + f)
      ≤ place (m' * n * 2 ^ (e' - e).toNat) (e + f) := by
        refine place_mono (Nat.mul_pos hm hpos) ?_ (hwide hm _)
        rw [Nat.mul_right_comm]
        exact Nat.mul_le_mul_right n hmant
    _ = place (m' * n) (e' + f) := by rw [← hlow, hshift]

/-- **A product is rounded to its place.** -/
theorem isAt_mul (s : Sign) {m n : Nat} {e f : Int} (hm : 0 < m) (hn : 2 ^ 52 ≤ n)
    (hpos : 0 < n) :
    IsAt s (place (m * n) (e + f)) (UnpackedFloat.mul Format.binary64 (.finite s m e hm)
      (.finite .positive n f hpos)) := by
  have hsign : s * .positive = s := by cases s <;> rfl
  have hwide : 2 ^ 52 ≤ m * n := hn.trans (Nat.le_mul_of_pos_left n hm)
  rw [UnpackedFloat.mul, hsign]
  exact isAt_roundWithAccuracy s (Nat.mul_pos hm hpos) (le_target_of_two_pow_le hwide _)

/-! ## 4. Whole numbers -/

/-- A whole number of at most 53 bits is converted as it is. -/
theorem unpack_model_ofNat {n : Nat} (hn : 0 < n) (h : n < 2 ^ 53) :
    (Float.Model.ofNat n).unpack =
      .finite .positive (widen n) (0 - (52 - n.log2 : Nat)) (widen_pos hn) := by
  have hcanonical : Canonical (widen n) (0 - (52 - n.log2 : Nat)) :=
    canonical_widen hn h (by decide)
  have hlog : n.log2 < 53 := (Nat.log2_lt (Nat.ne_of_gt hn)).mpr h
  have hshift : (0 - target n 0).toNat = 52 - n.log2 := by
    unfold target
    omega
  have hround : IsAt .positive (ordinal (widen n) (0 - (52 - n.log2 : Nat)))
      (UnpackedFloat.normalize Format.binary64 n 0 .positive) := by
    rw [normalize_positive hn, round_eq, hshift, ← hcanonical.place_eq]
    exact isAt_roundWithAccuracy .positive (widen_pos hn) (Int.le_of_eq hcanonical.target_eq.symm)
  have hmodel : Float.Model.ofNat n =
      Float.Model.pack (UnpackedFloat.normalize Format.binary64 n 0 .positive) := rfl
  rw [hmodel, eq_of_isAt (widen_pos hn) hcanonical hround]
  exact unpack_pack_of_le .positive _ hcanonical (by omega)

/-- A whole number is made from the word that holds it, times ten to the power of zero. -/
theorem ofNat_eq_mul_one {n : Nat} (h : n < 2 ^ 53) :
    (Beat.ofNat n : Float) = n.toUInt64.toFloat * Float.ofBits 0x3FF0000000000000 := by
  have hfast : n < 2 ^ 53 ∧ 0 ≤ 22 := ⟨h, by decide⟩
  show Float.ofNat n = _
  unfold Float.ofNat OfScientific.ofScientific instOfScientificFloat Float.ofScientific
  simp only []
  rw [dif_pos hfast]
  rfl

/-- **A whole number of beats** is exact, if 53 bits hold it. -/
theorem unpack_ofNat {n : Nat} (hn : 0 < n) (h : n < 2 ^ 53) :
    (Beat.ofNat n : Float).toModel.unpack =
      .finite .positive (widen n) (0 - (52 - n.log2 : Nat)) (widen_pos hn) := by
  have hcanonical : Canonical (widen n) (0 - (52 - n.log2 : Nat)) :=
    canonical_widen hn h (by decide)
  have hword : n.toUInt64.toNat = n := UInt64.toNat_ofNat_of_lt' (h.trans (by decide))
  have hconvert : n.toUInt64.toFloat.toModel = Float.Model.ofNat n :=
    congrArg Float.Model.ofNat hword
  have hone : (Float.ofBits 0x3FF0000000000000).toModel.unpack =
      .finite .positive (2 ^ 52) (-52) (by decide) := rfl
  have hmul : (Beat.ofNat n : Float).toModel = Float.Model.pack (UnpackedFloat.mul Format.binary64
      (Float.Model.ofNat n).unpack (Float.ofBits 0x3FF0000000000000).toModel.unpack) := by
    rw [ofNat_eq_mul_one h, ← hconvert]
    rfl
  have hplace := place_shift (widen_pos hn) (Int.le_of_eq hcanonical.target_eq.symm) 52
  have hproduct : IsAt .positive (ordinal (widen n) (0 - (52 - n.log2 : Nat)))
      (UnpackedFloat.mul Format.binary64 (Float.Model.ofNat n).unpack
        (Float.ofBits 0x3FF0000000000000).toModel.unpack) := by
    rw [unpack_model_ofNat hn h, hone, ← hcanonical.place_eq, ← hplace]
    exact isAt_mul .positive (widen_pos hn) (by decide) (by decide)
  rw [hmul, eq_of_isAt (widen_pos hn) hcanonical hproduct]
  exact unpack_pack_of_le .positive _ hcanonical (by omega)

/-! ## 5. Quotients -/

theorem position_pack_assemble {s : Sign} (hs : s = .positive) (m : Nat) (e : Int) :
    ∃ k, position (Float.Model.pack (assemble s m e)).unpack = some k ∧ 0 ≤ k := by
  subst hs
  by_cases h : m = 0
  · rw [assemble, dif_pos h]
    exact ⟨0, rfl, Int.le_refl 0⟩
  · rw [assemble, dif_neg h]
    exact position_pack_positive _ e

/-- **A quotient of numbers that are not negative is not negative.** -/
theorem zero_le_position_div {x : UnpackedFloat} {i : Int} {n : Nat} {f : Int}
    (hi : position x = some i) (hipos : 0 ≤ i) (hn : 0 < n) :
    ∃ k, position (Float.Model.pack (UnpackedFloat.div Format.binary64 x
      (.finite .positive n f hn))).unpack = some k ∧ 0 ≤ k := by
  rcases cases_of_position hi hipos with ⟨s, rfl⟩ | rfl | ⟨m, e, hm, rfl⟩
  · refine ⟨0, ?_, Int.le_refl 0⟩
    rw [UnpackedFloat.div, unpack_pack_zero]
    rfl
  · exact ⟨top, congrArg position (unpack_pack_infinity .positive), Int.natCast_nonneg top⟩
  · exact position_pack_assemble rfl _ _

/-! ## 6. The nearest tick -/

theorem nearestOfParts_le (x : UnpackedFloat) : Beat.nearestOfParts x ≤ Beat.maxWord := by
  unfold Beat.nearestOfParts
  split
  · exact Nat.min_le_right _ _
  · exact Nat.le_refl _
  · exact Nat.zero_le _

/-- There is no tick before the start. -/
theorem nearestOfParts_of_le {x : UnpackedFloat} {i : Int} (hi : position x = some i)
    (h : i ≤ 0) : Beat.nearestOfParts x = 0 := by
  cases x with
  | notANumber => rfl
  | zero s => cases s <;> rfl
  | infinity s =>
    cases s with
    | negative => rfl
    | positive =>
      cases hi
      exact absurd h (by decide)
  | finite s m e hm =>
    cases s with
    | negative => rfl
    | positive =>
      cases hi
      have hpos := ordinal_pos hm e
      simp only [Sign.apply] at h
      omega

/-- **A later number has no earlier tick.** -/
theorem nearestOfParts_mono {x y : UnpackedFloat} {i j : Int} (hx : Unpacked x) (hy : Unpacked y)
    (hi : position x = some i) (hj : position y = some j) (hij : i ≤ j) :
    Beat.nearestOfParts x ≤ Beat.nearestOfParts y := by
  by_cases hneg : i ≤ 0
  · rw [nearestOfParts_of_le hi hneg]
    exact Nat.zero_le _
  · rcases cases_of_position hj (by omega) with ⟨t, rfl⟩ | rfl | ⟨n, f, hn, rfl⟩
    · cases hj
      omega
    · exact nearestOfParts_le x
    · rcases cases_of_position hi (by omega) with ⟨s, rfl⟩ | rfl | ⟨m, e, hm, rfl⟩
      · exact Nat.zero_le _
      · cases hi
        cases hj
        exact absurd hij (Int.not_le.mpr (apply_ordinal_bounds .positive hy.1 hy.2).2)
      · cases hi
        cases hj
        obtain ⟨hexp, hmant⟩ := le_of_ordinal_le hx.1 hy.1 (Int.ofNat_le.mp hij)
        have hleast := hx.1.le_exponent
        have hshift : (f + 1074).toNat = (f - e).toNat + (e + 1074).toNat := by omega
        have hscaled : m <<< (e + 1074).toNat ≤ n <<< (f + 1074).toNat := by
          rw [Nat.shiftLeft_eq, Nat.shiftLeft_eq, hshift, Nat.pow_add, ← Nat.mul_assoc]
          exact Nat.mul_le_mul_right _ hmant
        exact min_le_min (Nat.div_le_div_right (Nat.add_le_add_right hscaled _)) (Nat.le_refl _)

theorem position_mul_of_le {x : UnpackedFloat} {i : Int} {n : Nat} {f : Int}
    (hi : position x = some i) (h : i ≤ 0) (hn : 2 ^ 52 ≤ n) (hpos : 0 < n) :
    ∃ k, position (Float.Model.pack (UnpackedFloat.mul Format.binary64 x
      (.finite .positive n f hpos))).unpack = some k ∧ k ≤ 0 := by
  cases x with
  | notANumber => cases hi
  | zero s =>
    refine ⟨0, ?_, Int.le_refl 0⟩
    rw [UnpackedFloat.mul, unpack_pack_zero]
    rfl
  | infinity s =>
    refine ⟨i, ?_, h⟩
    rw [← hi, UnpackedFloat.mul, unpack_pack_infinity]
    cases s <;> rfl
  | finite s m e hm =>
    refine ⟨_, position_pack (isAt_mul _ hm hn hpos), ?_⟩
    cases hi
    cases s with
    | negative => exact Int.neg_nonpos_of_nonneg (Int.natCast_nonneg _)
    | positive =>
      have hord := ordinal_pos hm e
      simp only [Sign.apply] at h
      omega

/-- **The tick of a product** is not before that of a smaller factor. -/
theorem nearest_mul_mono {x y : UnpackedFloat} {i j : Int} {n : Nat} (f : Int) (hx : Unpacked x)
    (hy : Unpacked y) (hi : position x = some i) (hj : position y = some j) (hij : i ≤ j)
    (hn : 2 ^ 52 ≤ n) (hpos : 0 < n) :
    Beat.nearestOfParts (Float.Model.pack (UnpackedFloat.mul Format.binary64 x
        (.finite .positive n f hpos))).unpack ≤
      Beat.nearestOfParts (Float.Model.pack (UnpackedFloat.mul Format.binary64 y
        (.finite .positive n f hpos))).unpack := by
  by_cases hneg : i ≤ 0
  · obtain ⟨k, hk, hkneg⟩ := position_mul_of_le (f := f) hi hneg hn hpos
    rw [nearestOfParts_of_le hk hkneg]
    exact Nat.zero_le _
  · rcases cases_of_position hj (by omega) with ⟨t, rfl⟩ | rfl | ⟨m', e', hm', rfl⟩
    · cases hj
      omega
    · have hinf : UnpackedFloat.mul Format.binary64 (.infinity .positive)
          (.finite .positive n f hpos) = .infinity .positive := rfl
      rw [hinf, unpack_pack_infinity]
      exact nearestOfParts_le _
    · rcases cases_of_position hi (by omega) with ⟨s, rfl⟩ | rfl | ⟨m, e, hm, rfl⟩
      · cases hi
        omega
      · cases hi
        cases hj
        exact absurd hij (Int.not_le.mpr (apply_ordinal_bounds .positive hy.1 hy.2).2)
      · cases hi
        cases hj
        have hplace := place_mul_mono f hm hm' hx.1 hy.1 (Int.ofNat_le.mp hij) hn
        exact nearestOfParts_mono (unpacked_unpack _) (unpacked_unpack _)
          (position_pack (isAt_mul _ hm hn hpos)) (position_pack (isAt_mul _ hm' hn hpos))
          (Int.ofNat_le.mpr (min_le_min hplace (Nat.le_refl _)))

/-- What is multiplied by zero has no tick but the first. -/
theorem nearest_mul_zero (x : UnpackedFloat) :
    Beat.nearestOfParts (Float.Model.pack (UnpackedFloat.mul Format.binary64 x
      (.zero .positive))).unpack = 0 := by
  cases x with
  | notANumber => rfl
  | infinity s =>
    rw [UnpackedFloat.mul]
    rfl
  | zero s =>
    rw [UnpackedFloat.mul, unpack_pack_zero]
    cases s <;> rfl
  | finite s m e hm =>
    rw [UnpackedFloat.mul, unpack_pack_zero]
    cases s <;> rfl

/-! ## 7. Floating-point beats -/

theorem zero_le_rank_ofNat {n : Nat} (h : n < 2 ^ 53) :
    ∃ k, rank (Beat.ofNat n) = some k ∧ 0 ≤ k := by
  rcases Nat.eq_zero_or_pos n with rfl | hn
  · exact ⟨0, rfl, Int.le_refl 0⟩
  · rw [rank, unpack_ofNat hn h]
    exact ⟨_, rfl, Int.natCast_nonneg _⟩

theorem nearest_mul_ofNat (a : Float) (n : Nat) : Beat.nearest (a * Beat.ofNat n) =
    Beat.nearestOfParts (Float.Model.pack (UnpackedFloat.mul Format.binary64
      a.toModel.unpack (Beat.ofNat n : Float).toModel.unpack)).unpack := rfl

/-- **Floating-point beats keep the order.** -/
instance : Beat.Ordered Float where
  le_trans hab hbc := by
    obtain ⟨i, j, hi, hj, hij⟩ := le_iff_rank.mp hab
    obtain ⟨j', k, hj', hk, hjk⟩ := le_iff_rank.mp hbc
    obtain rfl : j = j' := Option.some.inj (hj.symm.trans hj')
    exact le_iff_rank.mpr ⟨i, k, hi, hk, Int.le_trans hij hjk⟩
  le_refl ha := by
    obtain ⟨i, hi, -⟩ := zero_le_iff_rank.mp ha
    exact le_iff_rank.mpr ⟨i, i, hi, hi, Int.le_refl i⟩
  zero_le_ofNat n hn := zero_le_iff_rank.mpr (zero_le_rank_ofNat (hn.trans (by decide)))
  le_add ha hd := by
    obtain ⟨i, hi, hipos⟩ := zero_le_iff_rank.mp ha
    obtain ⟨j, hj, hjpos⟩ := zero_le_iff_rank.mp hd
    obtain ⟨k, hk, hik⟩ := position_le_position_add (unpacked_unpack _) (unpacked_unpack _) hi hipos
      hj hjpos
    exact le_iff_rank.mpr ⟨i, k, hi, hk, hik⟩
  zero_le_div {a n} ha hn hlt := by
    obtain ⟨i, hi, hipos⟩ := zero_le_iff_rank.mp ha
    have hdiv : (a / Beat.ofNat n).toModel = Float.Model.pack (UnpackedFloat.div Format.binary64
        a.toModel.unpack (Beat.ofNat n : Float).toModel.unpack) := rfl
    rw [zero_le_iff_rank, rank, hdiv, unpack_ofNat hn (hlt.trans (by decide))]
    exact zero_le_position_div hi hipos (widen_pos hn)
  nearest_le {a b n} hab hlt := by
    rw [nearest_mul_ofNat, nearest_mul_ofNat]
    rcases Nat.eq_zero_or_pos n with rfl | hn
    · have hzero : (Beat.ofNat 0 : Float).toModel.unpack = .zero .positive := rfl
      rw [hzero, nearest_mul_zero]
      exact Nat.zero_le _
    · have hbits : n < 2 ^ 53 := hlt.trans (by decide)
      obtain ⟨i, j, hi, hj, hij⟩ := le_iff_rank.mp hab
      rw [unpack_ofNat hn hbits]
      exact nearest_mul_mono _ (unpacked_unpack _) (unpacked_unpack _) hi hj hij
        (two_pow_le_widen hn hbits) (widen_pos hn)
  nearest_le_maxWord a := nearestOfParts_le _

instance : Beat.Instants Float where
  same_iff {a b} := by
    rw [same_iff_rank, le_iff_rank, le_iff_rank]
    constructor
    · rintro ⟨i, hi, hj⟩
      exact ⟨⟨i, i, hi, hj, Int.le_refl i⟩, i, i, hj, hi, Int.le_refl i⟩
    · rintro ⟨⟨i, j, hi, hj, hij⟩, j', i', hj', hi', hji⟩
      obtain rfl : j = j' := Option.some.inj (hj.symm.trans hj')
      obtain rfl : i = i' := Option.some.inj (hi.symm.trans hi')
      obtain rfl : i = j := Int.le_antisymm hij hji
      exact ⟨i, hi, hj⟩

instance : Beat.Metered Float where
  nearest_start n hlt := by
    rw [nearest_mul_ofNat]
    rcases Nat.eq_zero_or_pos n with rfl | hn
    · exact nearest_mul_zero _
    · have hbits : n < 2 ^ 53 := hlt.trans (by decide)
      have hstart : position (Beat.ofNat 0 : Float).toModel.unpack = some 0 := rank_zero
      rw [unpack_ofNat hn hbits]
      obtain ⟨k, hk, hneg⟩ := position_mul_of_le hstart (Int.le_refl 0)
        (two_pow_le_widen hn hbits) (widen_pos hn)
      exact nearestOfParts_of_le hk hneg

end TextMelody.Binary64
