import TextMelody.Decimal.Binary

/-!
# Fixed places

A number rounded to a given number of decimal places. The value is rounded exactly, and one that
lies in the middle goes to the even neighbour.

* `roundHalfEven_near`: the rounded quotient is at most half a unit away.
-/

namespace TextMelody.Decimal

/-- The whole number nearest to `n / d`; in the middle of two, the even one. -/
def roundHalfEven (n d : Nat) : Nat :=
  if 2 * (n % d) < d then n / d
  else if d < 2 * (n % d) then n / d + 1
  else n / d + n / d % 2

/-- **The rounded quotient is at most half a unit away.** -/
theorem roundHalfEven_near {n d : Nat} (h : 0 < d) :
    2 * n ≤ 2 * (roundHalfEven n d * d) + d ∧ 2 * (roundHalfEven n d * d) ≤ 2 * n + d := by
  have hm := Nat.mod_lt n h
  have e := Nat.div_add_mod n d
  rw [Nat.mul_comm] at e
  have hs : (n / d + 1) * d = n / d * d + d := by rw [Nat.add_mul, Nat.one_mul]
  unfold roundHalfEven
  split
  · omega
  · split
    · omega
    · rcases Nat.mod_two_eq_zero_or_one (n / d) with h2 | h2 <;> rw [h2]
      · rw [Nat.add_zero]
        omega
      · omega

/-- A whole number of hundredths, tenths, …, with its decimal point. -/
def withPoint (places n : Nat) : String :=
  let fraction := Nat.toDigits 10 (n % Nat.pow 10 places)
  toString (n / Nat.pow 10 places) ++ "." ++
    String.ofList (List.replicate (places - fraction.length) '0' ++ fraction)

/-- A binary number with so many decimal places. -/
def Binary.toPlaces (b : Binary) (places : Nat) : String :=
  withPoint places (roundHalfEven (b.numerator * Nat.pow 10 places) b.denominator)

/-- One eighth lies in the middle of two hundredths. -/
example : Binary.toPlaces ⟨1, -3⟩ 2 = "0.12" := by decide +kernel

end TextMelody.Decimal
