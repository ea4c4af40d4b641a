import TextMelody.Beat

/-!
# Note lengths

A length is written as the denominator of a whole note and augmentation dots: `4` is a quarter note,
`8.` an eighth and a half of it. A whole note lasts four beats.

* `dotted_zero`, `dotted_succ`: each dot adds half of what was added before it.
-/

namespace TextMelody

/-- A written note length. -/
structure Length where
  /-- 1 is a whole note, 4 a quarter note. No note is read with a zero here. -/
  denominator : UInt32
  dots : UInt8 := 0
deriving DecidableEq, Repr

namespace Length

/-- The text of a length: the denominator in decimal, then the dots. -/
def chars (l : Length) : List Char :=
  Nat.toDigits 10 l.denominator.toNat ++ List.replicate l.dots.toNat '.'

/-- The text of a length as a string. -/
def text (l : Length) : String :=
  String.ofList l.chars

variable {β : Type} [Beat β]

/-- What `dots` dots make of a note that has come to `total` by adding `last`. -/
def dotted : Nat → β → β → β
  | 0, total, _ => total
  | dots + 1, total, last => dotted dots (total + last / Beat.ofNat 2) (last / Beat.ofNat 2)

/-- **The beats a note of this length lasts**: four over the denominator, and for each dot half of
    what was added last. -/
def beats (l : Length) : β :=
  let plain : β := Beat.ofNat 4 / Beat.ofNat l.denominator.toNat
  dotted l.dots.toNat plain plain

@[simp] theorem dotted_zero (total last : β) : dotted 0 total last = total := rfl

@[simp] theorem dotted_succ (dots : Nat) (total last : β) :
    dotted (dots + 1) total last =
      dotted dots (total + last / Beat.ofNat 2) (last / Beat.ofNat 2) := rfl

end Length

end TextMelody
