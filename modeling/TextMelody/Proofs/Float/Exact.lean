import TextMelody.Proofs.Float.Order

/-!
# Floating-point numbers that are exact

A number of quarters is held exactly as long as 53 bits are enough for it. Sums of such numbers, and
whole multiples of them, are rounded to what they are.

* `quarters`: **the floating-point number of so many quarters**;
* `quarters_add`, `quarters_mul_ofNat`: arithmetic that rounds nothing;
* `nearest_quarters`: the nearest tick.
-/

namespace TextMelody.Binary64

open Float.Model Float.Model.UnpackedFloat

/-! ## 1. Quarters -/

/-- The parts of `k` quarters. -/
def parts (k : Nat) : UnpackedFloat :=
  assemble .positive (widen k) (-2 - (52 - k.log2 : Nat))

/-- **The floating-point number of `k` quarters.** -/
def quarters (k : Nat) : Float :=
  Float.ofModel (Float.Model.pack (parts k))

theorem parts_eq {k : Nat} (hk : 0 < k) :
    parts k = .finite .positive (widen k) (-2 - (52 - k.log2 : Nat)) (widen_pos hk) :=
  dif_neg (Nat.ne_of_gt (widen_pos hk))

theorem canonical_parts {k : Nat} (hk : 0 < k) (h : k < 2 ^ 53) :
    Canonical (widen k) (-2 - (52 - k.log2 : Nat)) :=
  canonical_widen hk h (by decide)

/-- **Packing loses nothing of it.** -/
theorem unpack_quarters {k : Nat} (h : k < 2 ^ 53) : (quarters k).toModel.unpack = parts k := by
  rcases Nat.eq_zero_or_pos k with rfl | hk
  · exact unpack_pack_zero .positive
  · rw [quarters, parts_eq hk]
    exact unpack_pack_of_le .positive _ (canonical_parts hk h) (by omega)

/-- A number is told by its parts. -/
theorem eq_quarters {x : Float} {k : Nat}
    (h : x.toModel = Float.Model.pack (parts k)) : x = quarters k :=
  congrArg Float.ofModel h

/-- **What is rounded to the place of a number of quarters is this number**, however low the
    exponent was that it was written with. -/
theorem eq_parts_of_isAt {x : UnpackedFloat} {k j : Nat} (hk : 0 < k) (h : k < 2 ^ 53)
    (hj : 52 - k.log2 ≤ j) (hx : IsAt .positive (place (k * 2 ^ j) (-2 - j)) x) : x = parts k := by
  rw [place_of_lt hk h (by decide) hj] at hx
  rw [parts_eq hk]
  exact eq_of_isAt (widen_pos hk) (canonical_parts hk h) hx

/-! ## 2. Arithmetic -/

/-- The parts of two numbers of quarters, written with the smaller of their exponents. -/
theorem widen_lower {a j : Nat} (h : 52 - a.log2 ≤ j) :
    widen a * 2 ^ (-2 - (52 - a.log2 : Nat) - (-2 - j) : Int).toNat = a * 2 ^ j := by
  have hshift : (-2 - (52 - a.log2 : Nat) - (-2 - j) : Int).toNat = j - (52 - a.log2) := by omega
  have hsplit : 52 - a.log2 + (j - (52 - a.log2)) = j := by omega
  rw [hshift, widen, Nat.mul_assoc, ← Nat.pow_add, hsplit]

/-- **A sum of quarters is exact.** -/
theorem quarters_add {a b : Nat} (h : a + b < 2 ^ 53) :
    quarters a + quarters b = quarters (a + b) := by
  have ha : a < 2 ^ 53 := by omega
  have hb : b < 2 ^ 53 := by omega
  have hadd : (quarters a + quarters b).toModel = Float.Model.pack (UnpackedFloat.add
      Format.binary64 (quarters a).toModel.unpack (quarters b).toModel.unpack) := rfl
  refine eq_quarters ?_
  rw [hadd, unpack_quarters ha, unpack_quarters hb]
  rcases Nat.eq_zero_or_pos a with rfl | hapos
  · rcases Nat.eq_zero_or_pos b with rfl | hbpos
    · rfl
    · rw [Nat.zero_add, parts_eq hbpos]
      rfl
  · rcases Nat.eq_zero_or_pos b with rfl | hbpos
    · rw [Nat.add_zero, parts_eq hapos]
      rfl
    · have hlog : a.log2 ≤ (a + b).log2 := log2_mono (Nat.le_add_right a b)
      have hmin : min (-2 - (52 - a.log2 : Nat) : Int) (-2 - (52 - b.log2 : Nat)) =
          -2 - (max (52 - a.log2) (52 - b.log2) : Nat) := by omega
      have hsum := isAt_add (widen_pos hapos) (widen_pos hbpos) (canonical_parts hapos ha)
        (canonical_parts hbpos hb)
      rw [hmin, widen_lower (Nat.le_max_left _ _), widen_lower (Nat.le_max_right _ _),
        ← Nat.add_mul] at hsum
      rw [parts_eq hapos, parts_eq hbpos]
      exact congrArg _ (eq_parts_of_isAt (Nat.add_pos_left hapos b) h (by omega) hsum)

/-- **So is a whole multiple.** -/
theorem quarters_mul_ofNat {k n : Nat} (hn : 0 < n) (hbits : n < 2 ^ 53) (h : k * n < 2 ^ 53) :
    quarters k * Beat.ofNat n = quarters (k * n) := by
  have hk : k < 2 ^ 53 := Nat.lt_of_le_of_lt (Nat.le_mul_of_pos_right k hn) h
  have hmul : (quarters k * Beat.ofNat n).toModel = Float.Model.pack (UnpackedFloat.mul
      Format.binary64 (quarters k).toModel.unpack (Beat.ofNat n : Float).toModel.unpack) := rfl
  refine eq_quarters ?_
  rw [hmul, unpack_quarters hk, unpack_ofNat hn hbits]
  rcases Nat.eq_zero_or_pos k with rfl | hkpos
  · rw [Nat.zero_mul]
    rfl
  · have hlog : k.log2 ≤ (k * n).log2 := log2_mono (Nat.le_mul_of_pos_right k hn)
    have hmant : widen k * widen n = k * n * 2 ^ (52 - k.log2 + (52 - n.log2)) := by
      rw [widen, widen, Nat.pow_add]
      ring
    have hexp : (-2 - (52 - k.log2 : Nat) + (0 - (52 - n.log2 : Nat)) : Int) =
        -2 - (52 - k.log2 + (52 - n.log2) : Nat) := by omega
    have hproduct := isAt_mul .positive (e := -2 - (52 - k.log2 : Nat))
      (f := 0 - (52 - n.log2 : Nat)) (widen_pos hkpos) (two_pow_le_widen hn hbits) (widen_pos hn)
    rw [hmant, hexp] at hproduct
    rw [parts_eq hkpos]
    exact congrArg _ (eq_parts_of_isAt (Nat.mul_pos hkpos hn) h (by omega) hproduct)

/-! ## 3. Ticks and instants -/

/-- A number of quarters, written out in a unit of which four times `2 ^ n` make one, is rounded as
    it is. -/
theorem round_widen {k i n : Nat} (hi : 52 - k.log2 + i = n)
    (hone : Beat.leastInOne = 1 <<< (n + 2)) :
    (widen k <<< i + Beat.leastInOne / 2) / Beat.leastInOne = (k + 2) / 4 := by
  have hpos : 0 < 2 ^ n := Nat.two_pow_pos n
  have hscaled : widen k <<< i = k * 2 ^ n := by
    rw [Nat.shiftLeft_eq, widen, Nat.mul_assoc, ← Nat.pow_add, hi]
  have hunit : Beat.leastInOne = 4 * 2 ^ n := by
    rw [hone, Nat.one_shiftLeft, Nat.pow_add, Nat.mul_comm]
  have hhalf : 4 * 2 ^ n / 2 = 2 * 2 ^ n := by omega
  rw [hscaled, hunit, hhalf, ← Nat.add_mul, Nat.mul_div_mul_right _ _ hpos]

/-- **The nearest tick of a number of quarters.** -/
theorem nearest_quarters {k : Nat} (h : k < 2 ^ 53) :
    Beat.nearest (quarters k) = min ((k + 2) / 4) Beat.maxWord := by
  have hnearest : Beat.nearest (quarters k) =
      Beat.nearestOfParts (quarters k).toModel.unpack := rfl
  rw [hnearest, unpack_quarters h]
  rcases Nat.eq_zero_or_pos k with rfl | hk
  · rfl
  · have hlog : k.log2 < 53 := (Nat.log2_lt (Nat.ne_of_gt hk)).mpr h
    have hshift : 52 - k.log2 + (-2 - (52 - k.log2 : Nat) + 1074 : Int).toNat = 1072 := by omega
    rw [parts_eq hk, Beat.nearestOfParts, round_widen hshift rfl]

/-- The place of a number of quarters. -/
def placeOf (k : Nat) : Nat :=
  if k = 0 then 0 else ordinal (widen k) (-2 - (52 - k.log2 : Nat))

theorem position_parts (k : Nat) : position (parts k) = some (placeOf k : Int) := by
  rcases Nat.eq_zero_or_pos k with rfl | hk
  · rfl
  · rw [parts_eq hk, placeOf, if_neg (Nat.ne_of_gt hk)]
    rfl

theorem placeOf_pos {k : Nat} (hk : 0 < k) : 0 < placeOf k := by
  rw [placeOf, if_neg (Nat.ne_of_gt hk)]
  exact ordinal_pos (widen_pos hk) _

/-- Different numbers of quarters have different places. -/
theorem placeOf_inj {a b : Nat} (ha : a < 2 ^ 53) (hb : b < 2 ^ 53) (h : placeOf a = placeOf b) :
    a = b := by
  rcases Nat.eq_zero_or_pos a with rfl | hapos
  · rcases Nat.eq_zero_or_pos b with rfl | hbpos
    · rfl
    · exact absurd h (Nat.ne_of_lt (placeOf_pos hbpos))
  · rcases Nat.eq_zero_or_pos b with rfl | hbpos
    · exact absurd h (Nat.ne_of_gt (placeOf_pos hapos))
    · rw [placeOf, placeOf, if_neg (Nat.ne_of_gt hapos), if_neg (Nat.ne_of_gt hbpos)] at h
      obtain ⟨hmant, hexp⟩ := eq_of_ordinal_eq (canonical_parts hapos ha)
        (canonical_parts hbpos hb) h
      have hshift : 52 - a.log2 = 52 - b.log2 := by omega
      rw [widen, widen, hshift] at hmant
      exact Nat.mul_right_cancel (Nat.two_pow_pos _) hmant

/-- **Numbers of quarters are the same instant** only if they are the same number. -/
theorem same_quarters {a b : Nat} (ha : a < 2 ^ 53) (hb : b < 2 ^ 53) :
    Beat.same (quarters a) (quarters b) = decide (a = b) := by
  have hsame : Beat.same (quarters a) (quarters b) =
      ((quarters a).toModel.unpack.compare (quarters b).toModel.unpack == some .eq) := rfl
  have hcompare := compare_eq_position (unpacked_unpack (quarters a).toModel)
    (unpacked_unpack (quarters b).toModel)
    ((congrArg position (unpack_quarters ha)).trans (position_parts a))
    ((congrArg position (unpack_quarters hb)).trans (position_parts b))
  have hplace : (some (compare (placeOf a : Int) (placeOf b)) == some .eq) =
      decide (placeOf a = placeOf b) := by
    rw [compare_natCast, Bool.eq_iff_iff, beq_iff_eq, decide_eq_true_iff, Option.some_inj,
      compare_eq_iff_eq]
  rw [hsame, hcompare, hplace]
  exact decide_eq_decide.mpr ⟨placeOf_inj ha hb, congrArg placeOf⟩

end TextMelody.Binary64
