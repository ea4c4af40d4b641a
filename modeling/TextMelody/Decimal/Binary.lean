/-!
# Binary numbers

A finite 64-bit float is a whole number times a power of two. This module takes a float apart into
these two, from its bits.
-/

namespace TextMelody.Decimal

/-- The number `mantissa * 2 ^ exponent`. -/
structure Binary where
  mantissa : Nat
  exponent : Int
deriving DecidableEq, Repr

/-- What a float stands for. -/
inductive Reading where
  | finite (negative : Bool) (magnitude : Binary)
  | infinite (negative : Bool)
  | notANumber
deriving DecidableEq, Repr

namespace Binary

/-- The least mantissa of a float that uses all its bits. -/
def fullMantissa : Nat := 0x10000000000000

/-- The least exponent of a float. -/
def leastExponent : Int := -1074

/-- `base` to the positive part of `e`. -/
def power (base : Nat) (e : Int) : Nat :=
  Nat.pow base e.toNat

/-- The number as a quotient of two whole numbers. -/
def numerator (b : Binary) : Nat :=
  b.mantissa * power 2 b.exponent

/-- The divisor that goes with the numerator. -/
def denominator (b : Binary) : Nat :=
  power 2 (-b.exponent)

theorem denominator_pos (b : Binary) : 0 < b.denominator :=
  Nat.pow_pos (by decide)

end Binary

namespace Reading

/-- The value of the sign bit. -/
def signBit : Nat := 0x8000000000000000

/-- The exponent field that stands for infinities and for no number. -/
def topField : Nat := 2047

/-- What the bits of a float stand for: a sign bit, 11 bits of exponent, 52 bits of fraction. -/
def ofBits (bits : Nat) : Reading :=
  let negative := decide (signBit ≤ bits)
  let field := bits / Binary.fullMantissa % 2048
  let fraction := bits % Binary.fullMantissa
  if field = topField then
    if fraction = 0 then infinite negative else notANumber
  else if field = 0 then finite negative ⟨fraction, Binary.leastExponent⟩
  else finite negative ⟨Binary.fullMantissa + fraction, Binary.leastExponent + (field - 1)⟩

/-- What a float stands for. -/
def ofFloat (x : Float) : Reading :=
  ofBits x.toBits.toNat

example : ofBits 0x3FF0000000000000 = finite false ⟨Binary.fullMantissa, -52⟩ := by decide
example : ofBits 0x8000000000000000 = finite true ⟨0, -1074⟩ := by decide
example : ofBits 0x7FF0000000000000 = infinite false := by decide

end Reading

end TextMelody.Decimal
