import TextMelody.Toml.Number

/-!
# Dates and times in TOML

A date is `1979-05-27`, a time `07:32:00` with or without decimal places, and a date can be joined
to a time by `T` or a space, with or without an offset from universal time. A month, a day of the
month, an hour, a minute and a second must be in their ranges.
-/

namespace TextMelody.Toml

/-- The number of two digits at the start of a text, when it lies between the bounds. -/
def twoDigits? (least most : Nat) : List Char → Option (Nat × List Char)
  | a :: b :: cs =>
    let n := Nat.ofDigitChars 10 [a, b] 0
    if a.isDigit && b.isDigit && least ≤ n && n ≤ most then some (n, cs) else none
  | _ => none

/-- The text after a character it must start with. -/
def after? (c : Char) : List Char → Option (List Char)
  | d :: cs => if d = c then some cs else none
  | [] => none

/-- The days of a month. -/
def daysIn (year month : Nat) : Nat :=
  if month = 2 then
    if year % 4 = 0 ∧ (year % 100 ≠ 0 ∨ year % 400 = 0) then 29 else 28
  else if month ∈ [4, 6, 9, 11] then 30
  else 31

/-- The text after the rest of a date whose year was read. -/
def afterMonthDay? (year : Nat) (cs : List Char) : Option (List Char) := do
  let (month, cs) ← twoDigits? 1 12 cs
  let (_, cs) ← twoDigits? 1 (daysIn year month) (← after? '-' cs)
  return cs

/-- The text after the decimal places of a second. -/
def afterFraction? : List Char → Option (List Char)
  | '.' :: c :: cs => if c.isDigit then some (cs.dropWhile Char.isDigit) else none
  | ['.'] => none
  | cs => some cs

/-- The text after the minutes and seconds of a time. There can be a 60th second. -/
def afterMinute? (cs : List Char) : Option (List Char) := do
  let (_, cs) ← twoDigits? 0 59 cs
  let (_, cs) ← twoDigits? 0 60 (← after? ':' cs)
  afterFraction? cs

/-- The text after an hour and its colon: from here on it is a time. -/
def afterHour? (cs : List Char) : Option (List Char) := do
  let (_, cs) ← twoDigits? 0 23 cs
  after? ':' cs

/-- The text after an offset from universal time, which can be left out. -/
def afterOffset? : List Char → Option (List Char)
  | c :: cs =>
    if c = 'Z' ∨ c = 'z' then some cs
    else if c = '+' ∨ c = '-' then do
      let (_, cs) ← twoDigits? 0 59 (← afterHour? cs)
      return cs
    else some (c :: cs)
  | [] => some []

/-- The text after what may follow a date: a time with its offset. What is no hour is not part of
    the value. -/
def afterDate? (cs : List Char) : Option (List Char) :=
  match cs with
  | c :: more =>
    if c ∈ ['T', 't', ' '] then
      match afterHour? more with
      | some rest => (afterMinute? rest).bind afterOffset?
      | none => some cs
    else some cs
  | [] => some []

/-- The year at the start of a date, and the text after its hyphen. -/
def year? : List Char → Option (Nat × List Char)
  | a :: b :: c :: d :: '-' :: cs =>
    if a.isDigit && b.isDigit && c.isDigit && d.isDigit then
      some (Nat.ofDigitChars 10 [a, b, c, d] 0, cs)
    else none
  | _ => none

/-- **A number or a moment.** Four digits and a hyphen open a date, two digits and a colon a
    time. -/
def numberOrMoment? (cs : List Char) : Option (Scalar × List Char) :=
  match year? cs with
  | some (year, rest) => do
    let rest ← afterDate? (← afterMonthDay? year rest)
    return (.moment (upTo cs rest), rest)
  | none =>
    match afterHour? cs with
    | some rest => do
      let rest ← afterMinute? rest
      return (.moment (upTo cs rest), rest)
    | none => number? cs

/-- **A value without quotes or brackets.** -/
def scalar? (cs : List Char) : Option (Scalar × List Char) :=
  match afterWord? ['t', 'r', 'u', 'e'] cs with
  | some rest => some (.boolean true, rest)
  | none =>
    match afterWord? ['f', 'a', 'l', 's', 'e'] cs with
    | some rest => some (.boolean false, rest)
    | none => numberOrMoment? cs

end TextMelody.Toml
