import TextMelody.Proofs.Float.Rounding

/-!
# Floating-point numbers in their order

A packed number is unpacked to a canonical one, and packing loses nothing of a number that was
rounded, except that numbers beyond the largest exponent become infinite. So every number but the
one that is none has a position, and one number is at or before another when its position is.

* `position`: **where a number stands among all**;
* `le_iff_position`: the comparison of numbers is that of their positions;
* `position_pack`: a packed number stands where it was rounded to, or at infinity.
-/

namespace TextMelody.Binary64

open Float.Model Float.Model.UnpackedFloat

/-! ## 1. Positions -/

/-- The place after that of every finite number. -/
def top : Nat := 2047 * 2 ^ 52

/-- **The position of a number among all**, zero in the middle. -/
def position : UnpackedFloat → Option Int
  | .notANumber => none
  | .infinity s => some (s.apply top)
  | .zero _ => some 0
  | .finite s m e _ => some (s.apply (ordinal m e))

/-- A number as it is unpacked. -/
def Unpacked : UnpackedFloat → Prop
  | .finite _ m e _ => Canonical m e ∧ e ≤ 971
  | _ => True

theorem ordinal_lt_top {m : Nat} {e : Int} (h : Canonical m e) (he : e ≤ 971) :
    ordinal m e < top := by
  have hm := h.lt
  have hexp : (e + 1074).toNat ≤ 2045 := by omega
  calc ordinal m e
      < (e + 1074).toNat * 2 ^ 52 + 2 ^ 53 := Nat.add_lt_add_left hm _
    _ ≤ 2045 * 2 ^ 52 + 2 ^ 53 := Nat.add_le_add_right (Nat.mul_le_mul_right _ hexp) _
    _ = top := by decide

theorem ordinal_pos {m : Nat} (h : 0 < m) (e : Int) : 0 < ordinal m e :=
  Nat.add_pos_right _ h

/-- A larger exponent means a later place. -/
theorem ordinal_lt_of_exponent_lt {m n : Nat} {e f : Int} (hm : Canonical m e)
    (hn : Canonical n f) (h : e < f) : ordinal m e < ordinal n f := by
  have hleast := hm.le_exponent
  have hlt := hm.lt
  have hnormal : 2 ^ 52 ≤ n := by
    rcases hn.normal with hn | hf
    · exact hn
    · omega
  have hstep : (e + 1074).toNat + 1 ≤ (f + 1074).toNat := by omega
  calc ordinal m e
      < (e + 1074).toNat * 2 ^ 52 + 2 ^ 53 := Nat.add_lt_add_left hlt _
    _ = ((e + 1074).toNat + 1) * 2 ^ 52 + 2 ^ 52 := by ring
    _ ≤ ordinal n f := Nat.add_le_add (Nat.mul_le_mul_right _ hstep) hnormal

/-- A canonical number is told by its place. -/
theorem eq_of_ordinal_eq {m n : Nat} {e f : Int} (hm : Canonical m e) (hn : Canonical n f)
    (h : ordinal m e = ordinal n f) : m = n ∧ e = f := by
  rcases lt_trichotomy e f with hlt | rfl | hlt
  · exact absurd h (Nat.ne_of_lt (ordinal_lt_of_exponent_lt hm hn hlt))
  · exact ⟨Nat.add_left_cancel h, rfl⟩
  · exact absurd h (Nat.ne_of_gt (ordinal_lt_of_exponent_lt hn hm hlt))

/-- **What stands at the place of a canonical number is this number.** -/
theorem eq_of_isAt {s : Sign} {m : Nat} {e : Int} {x : UnpackedFloat} (hm : 0 < m)
    (h : Canonical m e) (hx : IsAt s (ordinal m e) x) : x = .finite s m e hm := by
  cases x with
  | notANumber => exact hx.elim
  | infinity t => exact hx.elim
  | zero t => exact absurd hx.2 (Nat.ne_of_gt (ordinal_pos hm e))
  | finite t n f hn =>
    obtain ⟨rfl, hcanonical, hord⟩ := hx
    obtain ⟨rfl, rfl⟩ := eq_of_ordinal_eq hcanonical h hord
    rfl

/-- **Canonical numbers compare as their places do.** -/
theorem compare_eq_ordinal {m n : Nat} {e f : Int} (hm : Canonical m e) (hn : Canonical n f) :
    (compare e f).then (compare m n) = compare (ordinal m e) (ordinal n f) := by
  rcases lt_trichotomy e f with h | rfl | h
  · rw [compare_lt_iff_lt.mpr h, compare_lt_iff_lt.mpr (ordinal_lt_of_exponent_lt hm hn h)]
    rfl
  · have hsame : compare e e = .eq := compare_eq_iff_eq.mpr rfl
    rw [hsame, Ordering.then]
    rcases lt_trichotomy m n with h | rfl | h
    · have hord : ordinal m e < ordinal n e := Nat.add_lt_add_left h _
      rw [compare_lt_iff_lt.mpr h, compare_lt_iff_lt.mpr hord]
    · rw [compare_eq_iff_eq.mpr rfl, compare_eq_iff_eq.mpr rfl]
    · have hord : ordinal n e < ordinal m e := Nat.add_lt_add_left h _
      rw [compare_gt_iff_gt.mpr h, compare_gt_iff_gt.mpr hord]
  · rw [compare_gt_iff_gt.mpr h, compare_gt_iff_gt.mpr (ordinal_lt_of_exponent_lt hn hm h)]
    rfl

/-- Infinity is beyond every finite number, on either side. -/
theorem apply_ordinal_bounds (s : Sign) {m : Nat} {e : Int} (h : Canonical m e) (he : e ≤ 971) :
    -(top : Int) < s.apply (ordinal m e) ∧ s.apply (ordinal m e) < top := by
  have hlt := ordinal_lt_top h he
  cases s <;> simp only [Sign.apply] <;> omega

theorem compare_natCast (a b : Nat) : compare (a : Int) b = compare a b := by
  rcases lt_trichotomy a b with h | rfl | h
  · rw [compare_lt_iff_lt.mpr h, compare_lt_iff_lt.mpr (Int.ofNat_lt.mpr h)]
  · rw [compare_eq_iff_eq.mpr rfl, compare_eq_iff_eq.mpr rfl]
  · rw [compare_gt_iff_gt.mpr h, compare_gt_iff_gt.mpr (Int.ofNat_lt.mpr h)]

theorem compare_neg (a b : Nat) : compare (-(a : Int)) (-b) = (compare a b).swap := by
  rcases lt_trichotomy a b with h | rfl | h
  · rw [compare_lt_iff_lt.mpr h, compare_gt_iff_gt.mpr (by omega)]
    rfl
  · rw [compare_eq_iff_eq.mpr rfl, compare_eq_iff_eq.mpr rfl]
    rfl
  · rw [compare_gt_iff_gt.mpr h, compare_lt_iff_lt.mpr (by omega)]
    rfl

/-- **Numbers compare as their positions do.** -/
theorem compare_eq_position {x y : UnpackedFloat} (hx : Unpacked x) (hy : Unpacked y) {i j : Int}
    (hi : position x = some i) (hj : position y = some j) :
    x.compare y = some (compare i j) := by
  cases x with
  | notANumber => cases hi
  | infinity s =>
    cases hi
    cases y with
    | notANumber => cases hj
    | infinity t =>
      cases hj
      cases s <;> cases t <;> decide
    | zero t =>
      cases hj
      cases s <;> rfl
    | finite t n f hn =>
      cases hj
      have hbounds := apply_ordinal_bounds t hy.1 hy.2
      cases s with
      | positive => exact congrArg some (compare_gt_iff_gt.mpr hbounds.2).symm
      | negative => exact congrArg some (compare_lt_iff_lt.mpr hbounds.1).symm
  | zero s =>
    cases hi
    cases y with
    | notANumber => cases hj
    | infinity t =>
      cases hj
      cases t <;> rfl
    | zero t =>
      cases hj
      rfl
    | finite t n f hn =>
      cases hj
      have hpos : (0 : Int) < ordinal n f := Int.natCast_pos.mpr (ordinal_pos hn f)
      cases t with
      | positive => exact congrArg some (compare_lt_iff_lt.mpr hpos).symm
      | negative => exact congrArg some (compare_gt_iff_gt.mpr (Int.neg_neg_of_pos hpos)).symm
  | finite s m e hm =>
    cases hi
    have hmpos : (0 : Int) < ordinal m e := Int.natCast_pos.mpr (ordinal_pos hm e)
    cases y with
    | notANumber => cases hj
    | infinity t =>
      cases hj
      have hbounds := apply_ordinal_bounds s hx.1 hx.2
      cases t with
      | positive =>
        cases s <;> exact congrArg some (compare_lt_iff_lt.mpr hbounds.2).symm
      | negative =>
        cases s <;> exact congrArg some (compare_gt_iff_gt.mpr hbounds.1).symm
    | zero t =>
      cases hj
      cases s with
      | positive => exact congrArg some (compare_gt_iff_gt.mpr hmpos).symm
      | negative => exact congrArg some (compare_lt_iff_lt.mpr (Int.neg_neg_of_pos hmpos)).symm
    | finite t n f hn =>
      cases hj
      have hnpos : (0 : Int) < ordinal n f := Int.natCast_pos.mpr (ordinal_pos hn f)
      have hplaces := compare_eq_ordinal hx.1 hy.1
      cases s with
      | positive =>
        cases t with
        | positive => exact congrArg some (hplaces.trans (compare_natCast _ _).symm)
        | negative =>
          have hlt : -(ordinal n f : Int) < ordinal m e := by omega
          exact congrArg some (compare_gt_iff_gt.mpr hlt).symm
      | negative =>
        cases t with
        | positive =>
          have hlt : -(ordinal m e : Int) < ordinal n f := by omega
          exact congrArg some (compare_lt_iff_lt.mpr hlt).symm
        | negative =>
          exact congrArg some ((congrArg Ordering.swap hplaces).trans (compare_neg _ _).symm)

theorem position_eq_none {x : UnpackedFloat} (h : position x = none) : x = .notANumber := by
  cases x with
  | notANumber => rfl
  | _ => cases h

/-- **One number is at or before another** when its position is. -/
theorem le_iff_position {x y : UnpackedFloat} (hx : Unpacked x) (hy : Unpacked y) :
    x.le y ↔ ∃ i j, position x = some i ∧ position y = some j ∧ i ≤ j := by
  constructor
  · intro h
    cases hi : position x with
    | none =>
      rw [position_eq_none hi] at h
      cases h
    | some i =>
      cases hj : position y with
      | none =>
        rw [position_eq_none hj] at h
        cases x <;> cases h
      | some j =>
        refine ⟨i, j, rfl, rfl, ?_⟩
        rw [UnpackedFloat.le, compare_eq_position hx hy hi hj] at h
        exact Int.isLE_compare.mp h
  · rintro ⟨i, j, hi, hj, hij⟩
    rw [UnpackedFloat.le, compare_eq_position hx hy hi hj]
    exact Int.isLE_compare.mpr hij

/-- **Two numbers are equal** when their positions are. -/
theorem compare_eq_iff_position {x y : UnpackedFloat} (hx : Unpacked x) (hy : Unpacked y) :
    x.compare y = some .eq ↔ ∃ i, position x = some i ∧ position y = some i := by
  constructor
  · intro h
    cases hi : position x with
    | none =>
      rw [position_eq_none hi] at h
      cases h
    | some i =>
      cases hj : position y with
      | none =>
        rw [position_eq_none hj] at h
        cases x <;> cases h
      | some j =>
        rw [compare_eq_position hx hy hi hj, Option.some_inj, compare_eq_iff_eq] at h
        exact ⟨i, rfl, congrArg some h.symm⟩
  · rintro ⟨i, hi, hj⟩
    rw [compare_eq_position hx hy hi hj, compare_eq_iff_eq.mpr rfl]

/-! ## 2. The fields of a packed number -/

/-- **The number of a sign, an exponent field and a mantissa field.** -/
def ofFields (s : Sign) (e : BitVec 11) (m : BitVec 52) : UnpackedFloat :=
  if e = -1#11 then
    if m = 0#52 then .infinity s else .notANumber
  else if e = 0#11 then
    if h : m = 0#52 then .zero s
    else .finite s m.toNat (-1074) (by simpa [BitVec.toNat_pos, BitVec.pos_iff_ne_zero])
  else .finite s (2 ^ 52 + m.toNat) (e.toNat - 1075) (Nat.add_pos_left (by decide) _)

/-- The mantissa field with its leading bit. -/
theorem toNat_one_append (m : BitVec 52) : (1#1 ++ m).toNat = 2 ^ 52 + m.toNat := by
  rw [BitVec.toNat_append, ← Nat.shiftLeft_add_eq_or_of_lt m.isLt]
  rfl

/-- Unpacking reads the fields. -/
theorem unpack_eq_ofFields (b : BitVec 64) : UnpackedFloat.unpack Format.binary64 b =
    ofFields (Sign.ofBitVec (@unpackSign Format.binary64 b)) (@unpackExponent Format.binary64 b)
      (@unpackMantissa Format.binary64 b) := by
  unfold UnpackedFloat.unpack ofFields
  simp only []
  split_ifs with hones hnan hleast hzero
  · rfl
  · rfl
  · rfl
  · congr 1
    rw [hleast]
    rfl
  · congr 1
    exact toNat_one_append _

/-- Fields that were packed are read back. -/
theorem unpack_packComponents (s : Sign) (e : BitVec 11) (m : BitVec 52) :
    UnpackedFloat.unpack Format.binary64 (packComponents Format.binary64 s e m) =
      ofFields s e m := by
  rw [unpack_eq_ofFields, unpackSign_packComponents, unpackExponent_packComponents,
    unpackMantissa_packComponents, Sign.ofBitVec_toBitVec]

theorem unpacked_ofFields (s : Sign) (e : BitVec 11) (m : BitVec 52) :
    Unpacked (ofFields s e m) := by
  have hm := m.isLt
  have he := e.isLt
  unfold ofFields
  split_ifs with hones hnan hleast hzero
  · trivial
  · trivial
  · trivial
  · exact ⟨⟨by omega, Int.le_refl _, .inr rfl⟩, by decide⟩
  · have hpos : 0 < e.toNat := by
      refine Nat.pos_of_ne_zero fun h => hleast ?_
      exact BitVec.toNat_inj.mp h
    have hmax : e.toNat ≠ 2047 := fun h => hones (BitVec.toNat_inj.mp h)
    exact ⟨⟨by omega, by omega, .inl (Nat.le_add_right _ _)⟩, by omega⟩

/-- **What is unpacked is canonical.** -/
theorem unpacked_unpack (f : Float.Model) : Unpacked f.unpack := by
  rw [Float.Model.unpack, unpack_eq_ofFields]
  exact unpacked_ofFields _ _ _

/-! ## 3. Packing a rounded number -/

theorem unpack_pack (x : UnpackedFloat) :
    (Float.Model.pack x).unpack =
      UnpackedFloat.unpack Format.binary64 (UnpackedFloat.pack Format.binary64 x) := rfl

theorem unpack_pack_zero (s : Sign) : (Float.Model.pack (.zero s)).unpack = .zero s :=
  unpack_packComponents s 0 0

theorem unpack_pack_infinity (s : Sign) :
    (Float.Model.pack (.infinity s)).unpack = .infinity s :=
  unpack_packComponents s (-1#11) 0

/-- A number beyond the largest exponent becomes infinite. -/
theorem unpack_pack_of_lt (s : Sign) {m : Nat} {e : Int} (hm : 0 < m) (he : 971 < e) :
    (Float.Model.pack (.finite s m e hm)).unpack = .infinity s := by
  have hbias : 2 ^ 11 ≤ (e + 1023 + 52).toNat + 1 := by omega
  have hpack : UnpackedFloat.pack Format.binary64 (.finite s m e hm) =
      packedInfinity Format.binary64 s := if_pos hbias
  rw [unpack_pack, hpack]
  exact unpack_pack_infinity s

theorem finite_congr (s : Sign) {m n : Nat} {e f : Int} {hm : 0 < m} {hn : 0 < n} (h : m = n)
    (he : e = f) : UnpackedFloat.finite s m e hm = .finite s n f hn := by
  subst h he
  rfl

/-- **A canonical number is packed without loss.** -/
theorem unpack_pack_of_le (s : Sign) {m : Nat} {e : Int} (hm : 0 < m) (h : Canonical m e)
    (he : e ≤ 971) : (Float.Model.pack (.finite s m e hm)).unpack = .finite s m e hm := by
  have hleast := h.le_exponent
  have hlt := h.lt
  have hbias : ¬2 ^ 11 ≤ (e + 1023 + 52).toNat + 1 := by omega
  have hpack : UnpackedFloat.pack Format.binary64 (.finite s m e hm) =
      if m.log2 + 1 = 53 then
        packComponents Format.binary64 s (BitVec.ofNat 11 (e + 1023 + 52).toNat) (BitVec.ofNat 52 m)
      else packComponents Format.binary64 s 0#11 (BitVec.ofNat 52 m) := if_neg hbias
  rw [unpack_pack, hpack]
  by_cases hnormal : 2 ^ 52 ≤ m
  · have hlog : m.log2 + 1 = 53 := by
      have heq : m.log2 = 52 := (Nat.log2_eq_iff (Nat.ne_of_gt hm)).mpr ⟨hnormal, hlt⟩
      omega
    have hexp : (BitVec.ofNat 11 (e + 1023 + 52).toNat).toNat = (e + 1075).toNat := by
      rw [BitVec.toNat_ofNat]
      omega
    have hmant : (BitVec.ofNat 52 m).toNat = m - 2 ^ 52 := by
      rw [BitVec.toNat_ofNat]
      omega
    have hones : BitVec.ofNat 11 (e + 1023 + 52).toNat ≠ -1#11 := by
      intro heq
      have htop : (e + 1075).toNat = 2047 := by rw [← hexp, heq]; rfl
      omega
    have hleast : BitVec.ofNat 11 (e + 1023 + 52).toNat ≠ 0#11 := by
      intro heq
      have hzero : (e + 1075).toNat = 0 := by rw [← hexp, heq]; rfl
      omega
    rw [if_pos hlog, unpack_packComponents, ofFields, if_neg hones, if_neg hleast]
    refine finite_congr s ?_ ?_
    · rw [hmant]
      omega
    · rw [hexp]
      omega
  · have hexp : e = -1074 := h.normal.resolve_left hnormal
    have hlog : ¬m.log2 + 1 = 53 := by
      have hlog := (Nat.log2_lt (Nat.ne_of_gt hm)).mpr (Nat.lt_of_not_le hnormal)
      omega
    have hmant : (BitVec.ofNat 52 m).toNat = m := by
      rw [BitVec.toNat_ofNat]
      omega
    have hzero : BitVec.ofNat 52 m ≠ 0#52 := by
      intro heq
      have hm0 : m = 0 := by rw [← hmant, heq]; rfl
      omega
    have hones : (0#11 : BitVec 11) ≠ -1#11 := by decide
    rw [if_neg hlog, unpack_packComponents, ofFields, if_neg hones, if_pos rfl, dif_neg hzero]
    exact finite_congr s hmant hexp.symm

/-- **A packed number stands where it was rounded to**, or at infinity. -/
theorem position_pack {s : Sign} {n : Nat} {x : UnpackedFloat} (h : IsAt s n x) :
    position (Float.Model.pack x).unpack = some (s.apply (min n top : Nat)) := by
  cases x with
  | notANumber => exact h.elim
  | infinity _ => exact h.elim
  | zero t =>
    obtain ⟨rfl, rfl⟩ := h
    rw [unpack_pack_zero]
    cases t <;> rfl
  | finite t m e hm =>
    obtain ⟨rfl, hcanonical, rfl⟩ := h
    by_cases he : e ≤ 971
    · have hmin : min (ordinal m e) top = ordinal m e :=
        Nat.min_eq_left (Nat.le_of_lt (ordinal_lt_top hcanonical he))
      rw [unpack_pack_of_le t hm hcanonical he, hmin]
      rfl
    · have hnormal : 2 ^ 52 ≤ m := hcanonical.normal.resolve_right (by omega)
      have hexp : 2046 ≤ (e + 1074).toNat := by omega
      have htop : top ≤ ordinal m e := by
        calc top
            = 2046 * 2 ^ 52 + 2 ^ 52 := by decide
          _ ≤ ordinal m e := Nat.add_le_add (Nat.mul_le_mul_right _ hexp) hnormal
      rw [unpack_pack_of_lt t hm (by omega), Nat.min_eq_right htop]
      rfl

/-- A number that was unpacked is packed without loss. -/
theorem position_pack_of_unpacked {x : UnpackedFloat} (h : Unpacked x) :
    position (Float.Model.pack x).unpack = position x := by
  cases x with
  | notANumber => rfl
  | infinity s => rw [unpack_pack_infinity]
  | zero s => rw [unpack_pack_zero]
  | finite s m e hm => rw [unpack_pack_of_le s hm h.1 h.2]

theorem position_ofFields_positive {e : BitVec 11} (he : e ≠ -1#11) (m : BitVec 52) :
    ∃ k, position (ofFields .positive e m) = some k ∧ 0 ≤ k := by
  rw [ofFields, if_neg he]
  split_ifs
  · exact ⟨0, rfl, Int.le_refl 0⟩
  · exact ⟨_, rfl, Int.natCast_nonneg _⟩
  · exact ⟨_, rfl, Int.natCast_nonneg _⟩

/-- A positive number is not packed to a negative one, whether or not it was rounded. -/
theorem position_pack_positive {m : Nat} (hm : 0 < m) (e : Int) :
    ∃ k, position (Float.Model.pack (.finite .positive m e hm)).unpack = some k ∧ 0 ≤ k := by
  rw [unpack_pack]
  by_cases hbias : 2 ^ 11 ≤ (e + 1023 + 52).toNat + 1
  · have hpack : UnpackedFloat.pack Format.binary64 (.finite .positive m e hm) =
        packedInfinity Format.binary64 .positive := if_pos hbias
    rw [hpack]
    exact ⟨top, congrArg position (unpack_pack_infinity .positive), Int.natCast_nonneg top⟩
  · have hpack : UnpackedFloat.pack Format.binary64 (.finite .positive m e hm) =
        if m.log2 + 1 = 53 then
          packComponents Format.binary64 .positive (BitVec.ofNat 11 (e + 1023 + 52).toNat)
            (BitVec.ofNat 52 m)
        else packComponents Format.binary64 .positive 0#11 (BitVec.ofNat 52 m) := if_neg hbias
    rw [hpack]
    split_ifs
    · have hones : BitVec.ofNat 11 (e + 1023 + 52).toNat ≠ -1#11 := by
        intro h
        have htop := congrArg BitVec.toNat h
        rw [BitVec.toNat_ofNat] at htop
        have hmax : (-1#11).toNat = 2047 := rfl
        omega
      rw [unpack_packComponents]
      exact position_ofFields_positive hones _
    · rw [unpack_packComponents]
      exact position_ofFields_positive (by decide) _

end TextMelody.Binary64
