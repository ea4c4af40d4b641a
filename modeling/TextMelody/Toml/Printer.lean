/-!
# Writing quoted text in TOML

A text is written in the plainest quotes that can hold it: in `"`, else in `'`, else in three `"`,
else in three `'`, and only when none of these can hold it verbatim with escapes.

This stands for how the package `toml` displays a text. TOML 1.0 allows all of these forms; that they
are tried in this order, and that escapes are as short as they can be, is what is assumed of the
package.

* `longestRun_eq_zero`: a text has no run of a character that is not in it.
-/

namespace TextMelody.Toml.Printer

/-- The kinds of quotes. -/
inductive Quotes where
  | basic
  | literal
  | basicLines
  | literalLines
deriving DecidableEq, Repr

/-- A control character that quotes cannot hold as it is. -/
def isControl (c : Char) : Bool :=
  (c.toNat < 0x20 && c ≠ '\t' && c ≠ '\n') || c.toNat = 0x7F

/-- The length of the longest run of `q`, when `current` of them stand in front of the text. -/
def longestRunFrom (q : Char) : Nat → List Char → Nat
  | current, [] => current
  | current, c :: cs =>
    if c = q then longestRunFrom q (current + 1) cs else max current (longestRunFrom q 0 cs)

/-- The length of the longest run of `q`. -/
def longestRun (q : Char) (cs : List Char) : Nat :=
  longestRunFrom q 0 cs

/-- **The quotes that a text is written in.** -/
def quotesFor (cs : List Char) : Quotes :=
  let control := cs.any isControl
  let backslash := cs.contains '\\'
  let newline := cs.contains '\n'
  if !control && !backslash && !newline && longestRun '"' cs = 0 then .basic
  else if !control && !newline && longestRun '\'' cs = 0 then .literal
  else if !control && !backslash && longestRun '"' cs ≤ 2 then .basicLines
  else if !control && longestRun '\'' cs ≤ 2 then .literalLines
  else if newline then .basicLines
  else .basic

/-- A hexadecimal digit with a capital letter. -/
def capitalDigit (n : Nat) : Char :=
  (Nat.digitChar n).toUpper

/-- A character as it is written between `"`. -/
def escape (c : Char) : List Char :=
  match c with
  | '\x08' => ['\\', 'b']
  | '\t' => ['\\', 't']
  | '\n' => ['\\', 'n']
  | '\x0c' => ['\\', 'f']
  | '\r' => ['\\', 'r']
  | '"' => ['\\', '"']
  | '\\' => ['\\', '\\']
  | c =>
    if isControl c then
      ['\\', 'u', '0', '0', capitalDigit (c.toNat / 16), capitalDigit (c.toNat % 16)]
    else [c]

/-- A text between three `"`, behind so many quotes in a row. Newlines stay, and of three quotes in
    a row the third is escaped. -/
def linesFrom : Nat → List Char → List Char
  | _, [] => []
  | run, c :: cs =>
    if c = '"' then
      if run = 2 then '\\' :: '"' :: linesFrom 0 cs else '"' :: linesFrom (run + 1) cs
    else if c = '\n' then '\n' :: linesFrom 0 cs
    else escape c ++ linesFrom 0 cs

/-- The newline after three opening quotes: it is written when the text runs over lines. -/
def opening (cs : List Char) : List Char :=
  if cs.contains '\n' then ['\n'] else []

/-- A text in quotes of a kind. -/
def inQuotes (cs : List Char) : Quotes → List Char
  | .basic => ['"'] ++ cs.flatMap escape ++ ['"']
  | .literal => ['\''] ++ cs ++ ['\'']
  | .basicLines => ['"', '"', '"'] ++ opening cs ++ linesFrom 0 cs ++ ['"', '"', '"']
  | .literalLines => ['\'', '\'', '\''] ++ opening cs ++ cs ++ ['\'', '\'', '\'']

/-- **A text in the quotes that suit it.** -/
def quoted (cs : List Char) : List Char :=
  inQuotes cs (quotesFor cs)

theorem longestRun_eq_zero {q : Char} {cs : List Char} (h : q ∉ cs) : longestRun q cs = 0 := by
  unfold longestRun
  induction cs with
  | nil => rfl
  | cons c cs ih =>
    rw [List.mem_cons, not_or] at h
    rw [longestRunFrom, if_neg (Ne.symm h.1), ih h.2]
    rfl

example : quoted "plain".toList = "\"plain\"".toList := by decide
example : quoted "it's".toList = "\"it's\"".toList := by decide
example : quoted "a\"b".toList = "'a\"b'".toList := by decide

end TextMelody.Toml.Printer
