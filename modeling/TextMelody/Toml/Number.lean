import TextMelody.Toml.Quoted

/-!
# Numbers in TOML

Whole numbers in four bases, of 64 bits with a sign; floats, which must not be too large to be
finite; dates and times. A float and a moment are kept as they are written: nothing here counts
with them.

Digits may be set apart by single underscores. A decimal number does not start with an idle zero.
-/

namespace TextMelody.Toml

/-- A value that is written without quotes or brackets. -/
inductive Scalar where
  | integer (n : Int)
  | float (written : String)
  | moment (written : String)
  | boolean (b : Bool)
deriving DecidableEq, Repr

/-! ## 1. Digits -/

/-- The digits after the first one, without underscores. An underscore stands between digits. -/
def moreDigits (isDigit : Char → Bool) : List Char → Option (List Char × List Char)
  | '_' :: d :: cs => if isDigit d then (moreDigits isDigit cs).map (before d) else none
  | ['_'] => none
  | c :: cs => if isDigit c then (moreDigits isDigit cs).map (before c) else some ([], c :: cs)
  | [] => some ([], [])

/-- At least one digit. -/
def digits? (isDigit : Char → Bool) : List Char → Option (List Char × List Char)
  | c :: cs => if isDigit c then (moreDigits isDigit cs).map (before c) else none
  | [] => none

/-- The digits of a decimal number, which is zero or does not start with one. -/
def wholePart? : List Char → Option (List Char × List Char)
  | '0' :: cs => some (['0'], cs)
  | cs => digits? Char.isDigit cs

/-- The sign at the start of a number, and whether it is negative. -/
def sign : List Char → Bool × List Char
  | '-' :: cs => (true, cs)
  | '+' :: cs => (false, cs)
  | cs => (false, cs)

/-- A number with its sign. -/
def signed (negative : Bool) (n : Nat) : Int :=
  if negative then -n else n

/-! ## 2. Whole numbers -/

/-- The numbers of 64 bits with a sign lie below this, and not below its negative. -/
def wordBound : Int := 0x8000000000000000

/-- A number of 64 bits with a sign. -/
def integer? (n : Int) : Option Scalar :=
  if -wordBound ≤ n ∧ n < wordBound then some (.integer n) else none

/-- A whole number in a base that its second character names. -/
def radix? (c : Char) : Option (Nat × (Char → Bool)) :=
  match c with
  | 'x' => some (16, fun d => (hexValue? d).isSome)
  | 'o' => some (8, fun d => '0' ≤ d && d ≤ '7')
  | 'b' => some (2, fun d => d = '0' || d = '1')
  | _ => none

/-- The number that digits write in a base. -/
def valueIn (base : Nat) (digits : List Char) : Nat :=
  digits.foldl (fun n d => base * n + (hexValue? d).getD 0) 0

/-! ## 3. Floats -/

/-- The largest sum of float and half the step there is above it: from here on a decimal does not
    read as finite. -/
def tooLarge : Nat := Nat.pow 2 1024 - Nat.pow 2 970

/-- Whether the decimal `coefficient * 10 ^ exponent` reads as a finite float. The number of its
    digits settles it for all but the largest. -/
def isFinite (coefficient : Nat) (exponent : Int) : Bool :=
  let size := (Nat.toDigits 10 coefficient).length + exponent
  if coefficient = 0 ∨ size ≤ 308 then true
  else if 310 ≤ size then false
  else coefficient * Nat.pow 10 exponent.toNat < tooLarge * Nat.pow 10 (-exponent).toNat

/-- An exponent: `e` or `E`, a sign, digits. Without one the exponent is zero. -/
def exponent? : List Char → Option (Int × List Char)
  | c :: cs =>
    if c = 'e' ∨ c = 'E' then
      let s := sign cs
      (digits? Char.isDigit s.2).map fun d => (signed s.1 (Nat.ofDigitChars 10 d.1 0), d.2)
    else some (0, c :: cs)
  | [] => some (0, [])

/-- The part of `cs` in front of `rest`. -/
def upTo (cs rest : List Char) : String :=
  String.ofList (cs.take (cs.length - rest.length))

/-- A float that was read from `cs` up to `rest`. A number below zero may overflow. -/
def float? (cs rest : List Char) (negative : Bool) (coefficient : Nat) (exponent : Int) :
    Option (Scalar × List Char) :=
  if negative ∨ isFinite coefficient exponent then some (.float (upTo cs rest), rest) else none

/-- The rest after a word at the start of a text. -/
def afterWord? (word cs : List Char) : Option (List Char) :=
  if cs.take word.length = word then some (cs.drop word.length) else none

/-- Infinity and not-a-number, after the sign. -/
def afterSpecial? (cs : List Char) : Option (List Char) :=
  (afterWord? ['i', 'n', 'f'] cs).or (afterWord? ['n', 'a', 'n'] cs)

/-- A decimal number, whole or not. -/
def decimal? (cs : List Char) : Option (Scalar × List Char) :=
  let s := sign cs
  match afterSpecial? s.2 with
  | some rest => some (.float (upTo cs rest), rest)
  | none => do
    let (whole, rest) ← wholePart? s.2
    match rest with
    | '.' :: more =>
      let (fraction, rest) ← digits? Char.isDigit more
      let (e, rest) ← exponent? rest
      float? cs rest s.1 (Nat.ofDigitChars 10 (whole ++ fraction) 0) (e - fraction.length)
    | c :: more =>
      if c = 'e' ∨ c = 'E' then
        let (e, rest) ← exponent? (c :: more)
        float? cs rest s.1 (Nat.ofDigitChars 10 whole 0) e
      else
        let n ← integer? (signed s.1 (Nat.ofDigitChars 10 whole 0))
        return (n, rest)
    | [] =>
      let n ← integer? (signed s.1 (Nat.ofDigitChars 10 whole 0))
      return (n, [])

/-- **A number**, in any base. -/
def number? (cs : List Char) : Option (Scalar × List Char) :=
  match cs with
  | '0' :: c :: more =>
    match radix? c with
    | some (base, isDigit) => do
      let (ds, rest) ← digits? isDigit more
      let n ← integer? (valueIn base ds)
      return (n, rest)
    | none => decimal? cs
  | _ => decimal? cs

end TextMelody.Toml
