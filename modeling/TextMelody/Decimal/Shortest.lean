import TextMelody.Decimal.Binary

/-!
# Shortest decimals

A float is written with the fewest digits that read back as it, and of the decimals with so few
digits with the nearest. The reals that read back as a float form an interval around it; its ends
belong to it when the mantissa is even. A decimal grid that has a point in the interval has one next
to the float, so of each grid only the two neighbours of the float are looked at, from the coarsest
grid on.

* `Grid.hits_of_hit?`: a point that is chosen lies in the interval.
-/

namespace TextMelody.Decimal

/-- The number `coefficient * 10 ^ exponent`. -/
structure Digits where
  coefficient : Nat
  exponent : Int
deriving DecidableEq, Repr

namespace Binary

/-- The lower end of the interval that reads back as the number, in quarters of its last bit. The
    float below is twice as near where the exponent steps down. -/
def low (b : Binary) : Nat :=
  if b.mantissa = fullMantissa ∧ leastExponent < b.exponent then 4 * b.mantissa - 1
  else 4 * b.mantissa - 2

/-- The upper end, in quarters of the last bit. -/
def high (b : Binary) : Nat :=
  4 * b.mantissa + 2

/-- The exponent of ten of the first digit. -/
def leading (b : Binary) : Int :=
  if b.denominator ≤ b.numerator then
    (Nat.toDigits 10 (b.numerator / b.denominator)).length - 1
  else -(Nat.toDigits 10 ((b.denominator - 1) / b.numerator)).length

end Binary

/-- The decimal grid of the multiples of `10 ^ exponent`, on one scale with the quarters of a
    binary number's last bit: a quarter is `quarter` and a step of the grid is `step`. -/
structure Grid where
  quarter : Nat
  step : Nat
deriving DecidableEq, Repr

namespace Grid

/-- The grid of the multiples of `10 ^ e`, beside a binary number. -/
def beside (b : Binary) (e : Int) : Grid where
  quarter := Binary.power 2 (b.exponent - 2) * Binary.power 10 (-e)
  step := Binary.power 2 (2 - b.exponent) * Binary.power 10 e

/-- Whether the point `n` steps up the grid lies in the interval that reads back as `b`. -/
def hits (g : Grid) (b : Binary) (n : Nat) : Bool :=
  if b.mantissa % 2 = 0 then b.low * g.quarter ≤ n * g.step && n * g.step ≤ b.high * g.quarter
  else b.low * g.quarter < n * g.step && n * g.step < b.high * g.quarter

/-- The point at or below `b`. -/
def below (g : Grid) (b : Binary) : Nat :=
  4 * b.mantissa * g.quarter / g.step

/-- Of two neighbouring points the one nearer to `b`, and of two equally near the even one. -/
def nearer (g : Grid) (b : Binary) (n : Nat) : Nat :=
  let down := 4 * b.mantissa * g.quarter - n * g.step
  let up := (n + 1) * g.step - 4 * b.mantissa * g.quarter
  if down < up then n
  else if up < down then n + 1
  else if n % 2 = 0 then n else n + 1

/-- Of the points `n` and `n + 1` the one that stands for `b`, if one reads back as it. -/
def choose (g : Grid) (b : Binary) (n : Nat) : Option Nat :=
  match g.hits b n, g.hits b (n + 1) with
  | true, true => some (g.nearer b n)
  | true, false => some n
  | false, true => some (n + 1)
  | false, false => none

/-- The point of the grid that stands for `b`, if one reads back as it. -/
def hit? (g : Grid) (b : Binary) : Option Nat :=
  g.choose b (g.below b)

theorem nearer_eq (g : Grid) (b : Binary) (n : Nat) : g.nearer b n = n ∨ g.nearer b n = n + 1 := by
  simp only [nearer]
  split
  · exact .inl rfl
  · split
    · exact .inr rfl
    · split
      · exact .inl rfl
      · exact .inr rfl

theorem hits_choose {g : Grid} {b : Binary} {n k : Nat} (h : g.choose b k = some n) :
    g.hits b n := by
  unfold choose at h
  split at h
  · rename_i h0 h1
    rw [Option.some.injEq] at h
    rcases nearer_eq g b k with e | e
    · rwa [← h, e]
    · rwa [← h, e]
  · rename_i h0 _
    rw [Option.some.injEq] at h
    exact h ▸ h0
  · rename_i _ h1
    rw [Option.some.injEq] at h
    exact h ▸ h1
  · cases h

/-- **A point that is chosen lies in the interval.** -/
theorem hits_of_hit? {g : Grid} {b : Binary} {n : Nat} (h : g.hit? b = some n) : g.hits b n :=
  hits_choose h

end Grid

namespace Digits

/-- The same number without zeros at the end of the coefficient. -/
def strip (c : Nat) (e : Int) : Digits :=
  if _h : 0 < c ∧ c % 10 = 0 then strip (c / 10) (e + 1) else ⟨c, e⟩
termination_by c
decreasing_by omega

/-- Seventeen digits always read back. -/
def enough : Nat := 17

/-- **The shortest decimal that reads back as a positive binary number.** -/
def shortest (b : Binary) : Digits :=
  let exponents := (List.range enough).map fun (i : Nat) => b.leading - i
  match exponents.findSome? fun e => ((Grid.beside b e).hit? b).map (·, e) with
  | some (c, e) => strip c e
  | none => ⟨0, 0⟩

/-- The digits of the coefficient. -/
def chars (d : Digits) : List Char :=
  Nat.toDigits 10 d.coefficient

/-- The exponent of ten of the first digit. -/
def leading (d : Digits) : Int :=
  d.chars.length - 1 + d.exponent

/-- The number with a decimal point and no exponent. A whole number ends in `wholeMark`. -/
def positional (d : Digits) (wholeMark : String) : String :=
  let cs := d.chars
  if 0 ≤ d.exponent then
    String.ofList (cs ++ List.replicate d.exponent.toNat '0') ++ wholeMark
  else
    let places := (-d.exponent).toNat
    let padded := List.replicate (places + 1 - cs.length) '0' ++ cs
    String.ofList (padded.take (padded.length - places)) ++ "." ++
      String.ofList (padded.drop (padded.length - places))

/-- The number as one digit, the other digits behind a point, and an exponent of ten. -/
def scientific (d : Digits) : String :=
  let point := match d.chars with
    | [] => []
    | [c] => [c]
    | c :: cs => c :: '.' :: cs
  String.ofList point ++ "e" ++ toString d.leading

end Digits

/-- The smallest float is written with one digit. -/
example : Digits.shortest ⟨1, -1074⟩ = ⟨5, -324⟩ := by decide +kernel
/-- One half. -/
example : (Digits.shortest ⟨Binary.fullMantissa, -53⟩).positional ".0" = "0.5" := by decide +kernel

end TextMelody.Decimal
