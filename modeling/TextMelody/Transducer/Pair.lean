import TextMelody.Transducer.Voice

/-!
# Pair: one character sings, the next gives the rhythm

The characters of a line are taken two at a time. The second of a pair decides by its code point
modulo eight whether the first is sung, and how long, or whether there is a rest instead. A
character without a partner is sung as a quarter note.
-/

namespace TextMelody.Transducer.Pair

/-- What the second character of a pair asks for. -/
inductive Rhythm where
  | note (length : Length)
  | rest (denominator : UInt32)
deriving DecidableEq, Repr

namespace Rhythm

/-- The rhythm of a character: its code point modulo eight. -/
def of (c : Char) : Rhythm :=
  match c.toNat % 8 with
  | 0 => note ⟨16, 0⟩
  | 1 => note ⟨8, 0⟩
  | 2 => note ⟨8, 0⟩
  | 3 => note ⟨4, 0⟩
  | 4 => note ⟨2, 0⟩
  | 5 => note ⟨8, 1⟩
  | 6 => rest 8
  | _ => rest 4

/-- The tokens of a pair whose first character is `c`. -/
def tokens (c : Char) : Rhythm → List Token
  | note length => sing c length
  | rest denominator => [pause denominator]

end Rhythm

/-- **The tokens of a line.** -/
def line : List Char → List Token
  | [] => []
  | [c] => sing c ⟨4, 0⟩
  | c :: d :: cs => (Rhythm.of d).tokens c ++ line cs

/-- A blank line is a quarter rest. -/
def blankLine : List Token :=
  [pause 4]

/-- **An even number of characters closes its last pair.** -/
theorem line_append : ∀ (a b : List Char), a.length % 2 = 0 → line (a ++ b) = line a ++ line b
  | [], _, _ => rfl
  | [c], _, h => by simp at h
  | c :: d :: a, b, h => by
    have ha : a.length % 2 = 0 := by
      simp only [List.length_cons] at h
      omega
    simp only [List.cons_append, line, line_append a b ha, List.append_assoc]

end TextMelody.Transducer.Pair
