/-!
# Counting beats

Time is counted in beats, a beat being a quarter note. Lengths, playheads and tempo maps are written
once, over any numbers that can be counted in:

* `Float`, the numbers a run counts in: every step rounds, and a division by zero is infinite;
* `Rat`, where every step is exact.

Both round to a whole number of ticks by the same rule (`nearest`): halves go up, nothing is below
zero, and nothing is above the largest 64-bit word.
-/

namespace TextMelody

/-- Numbers that beats are counted in. -/
class Beat (β : Type) extends Add β, Sub β, Mul β, Div β where
  /-- A whole number of beats. -/
  ofNat : Nat → β
  /-- Whether the first is at or before the second. -/
  le : β → β → Bool
  /-- Whether the two are the same instant. -/
  same : β → β → Bool
  /-- The nearest whole number, as a 64-bit word. -/
  nearest : β → Nat

namespace Beat

/-- The largest 64-bit word. -/
def maxWord : Nat := 0xFFFFFFFFFFFFFFFF

/-- How often the least positive floating-point number goes into one. -/
def leastInOne : Nat := 1 <<< 1074

/-- The nearest whole number to a floating-point number, read off its parts. A finite one is a whole
    multiple of the least. -/
def nearestOfParts : Float.Model.UnpackedFloat → Nat
  | .finite .positive m e _ =>
    min ((m <<< (e + 1074).toNat + leastInOne / 2) / leastInOne) maxWord
  | .infinity .positive => maxWord
  | _ => 0

instance : Beat Float where
  ofNat n := Float.ofNat n
  le a b := a ≤ b
  same a b := a == b
  nearest x := nearestOfParts x.toModel.unpack

instance : Beat Rat where
  ofNat n := n
  le a b := a ≤ b
  same a b := a = b
  nearest x := min (x + 1 / 2).floor.toNat maxWord

end Beat

end TextMelody
