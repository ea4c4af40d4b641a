import TextMelody.Token
import TextMelody.Token.Error

/-!
# Reading a token

A word is read in two steps. It is cut into a `Lexeme`, which is the longest start of the word that
has the shape

    command [+ # -] digits dots

and the lexeme is then judged: is there such a command, and does it take these parts? What the
lexeme leaves over is reported before anything else that may be wrong.

* `Lexeme.chars_append_rest`: cutting loses no character;
* `read_nil`, `read_cons`: reading is cutting, then judging.
-/

namespace TextMelody

/-- The parts of a word: a command with what may follow it. -/
structure Lexeme where
  command : Char
  modifier : Option Char
  digits : List Char
  dots : Nat
deriving DecidableEq, Repr

namespace Lexeme

/-- A character that may stand between a command and its number. -/
def isModifier (c : Char) : Bool :=
  c = '+' || c = '#' || c = '-'

/-- The modifier at the start of `cs`. -/
def modifier? (cs : List Char) : Option Char :=
  cs.head?.filter isModifier

/-- `cs` without the modifier at its start. -/
def afterModifier : List Char → List Char
  | c :: cs => if isModifier c then cs else c :: cs
  | [] => []

/-- `cs` from its first character on that is no digit. -/
def afterDigits (cs : List Char) : List Char :=
  cs.dropWhile Char.isDigit

/-- The parts at the start of the word `c :: cs`, each as long as it can be. -/
def cut (c : Char) (cs : List Char) : Lexeme where
  command := c
  modifier := modifier? cs
  digits := (afterModifier cs).takeWhile Char.isDigit
  dots := ((afterDigits (afterModifier cs)).takeWhile (· = '.')).length

/-- What the parts leave over of a word whose command is followed by `cs`. -/
def rest (cs : List Char) : List Char :=
  (afterDigits (afterModifier cs)).dropWhile (· = '.')

/-- The text of the parts. -/
def chars (l : Lexeme) : List Char :=
  l.command :: (l.modifier.toList ++ l.digits ++ List.replicate l.dots '.')

theorem modifier?_append_after (cs : List Char) :
    (modifier? cs).toList ++ afterModifier cs = cs := by
  cases cs with
  | nil => rfl
  | cons c cs => by_cases h : isModifier c <;> simp [modifier?, afterModifier, h, Option.filter]

theorem takeWhile_dot (cs : List Char) :
    cs.takeWhile (· = '.') = List.replicate (cs.takeWhile (· = '.')).length '.' := by
  induction cs with
  | nil => rfl
  | cons c cs ih =>
    by_cases h : c = '.'
    · simp only [List.takeWhile_cons, h, decide_true, if_true, List.length_cons,
        List.replicate_succ]
      rw [← ih]
    · simp [h]

/-- **Cutting a word loses nothing**: the parts and the rest are the word. -/
theorem chars_append_rest (c : Char) (cs : List Char) : (cut c cs).chars ++ rest cs = c :: cs := by
  simp only [chars, cut, rest, List.cons_append, List.append_assoc]
  rw [← takeWhile_dot, List.takeWhile_append_dropWhile, afterDigits,
    List.takeWhile_append_dropWhile, modifier?_append_after]

end Lexeme

namespace Token

/-- The number that a run of digits writes, when it is a 32-bit word. -/
def number (digits : List Char) : Except TokenError UInt32 :=
  if h : Nat.ofDigitChars 10 digits 0 < UInt32.size then
    .ok (UInt32.ofNatLT _ h)
  else .error (.numberOutOfRange (String.ofList digits))

/-- The length that digits and dots write. Neither digits nor dots write no length. -/
def length? (digits : List Char) (dots : Nat) : Except TokenError (Option Length) :=
  if digits = [] then
    if dots = 0 then .ok none else .error .dotWithoutLength
  else
    match number digits with
    | .error e => .error e
    | .ok denominator =>
      if denominator = 0 then .error .zeroLength
      else if h : dots < UInt8.size then .ok (some ⟨denominator, UInt8.ofNatLT dots h⟩)
      else .error (.numberOutOfRange (String.ofList (List.replicate dots '.')))

/-- The accidental that a modifier writes. -/
def accidental (modifier : Char) : Accidental :=
  if modifier = '-' then .flat else .sharp

/-- The number that the command `c` needs, with no dots after it. -/
def argument (c : Char) (digits : List Char) (dots : Nat) : Except TokenError UInt32 :=
  if dots ≠ 0 then .error (.unexpectedDots c)
  else if digits = [] then .error (.missingArgument c)
  else number digits

/-- The token of a command that is no note letter and has no modifier. -/
def ofCommand (c : Char) (digits : List Char) (dots : Nat) : Except TokenError Token :=
  match c with
  | 'r' => (length? digits dots).map rest
  | 'l' =>
    match length? digits dots with
    | .error e => .error e
    | .ok none => .error (.missingArgument c)
    | .ok (some length) => .ok (defaultLength length)
  | 't' =>
    match argument c digits dots with
    | .error e => .error e
    | .ok bpm => if bpm = 0 then .error .zeroTempo else .ok (tempo bpm)
  | 'v' => (argument c digits dots).map volume
  | 'o' => (argument c digits dots).map octave
  | '@' => (argument c digits dots).map program
  | _ => .error (.unknownCommand c)

/-- The commands that are no note letters. -/
def isCommand (c : Char) : Bool :=
  c ∈ ['t', 'v', 'o', 'l', 'r', '@']

/-- **The token of a lexeme.** The case of the command does not matter. -/
def ofLexeme (l : Lexeme) : Except TokenError Token :=
  let c := l.command.toLower
  match Letter.ofChar? c with
  | some letter => (length? l.digits l.dots).map (note ⟨letter, l.modifier.map accidental⟩)
  | none =>
    if isCommand c = false then .error (.unknownCommand c)
    else if l.modifier.isSome then .error (.unexpectedAccidental c)
    else ofCommand c l.digits l.dots

/-- **Reads a word as a token.** -/
def read : List Char → Except TokenError Token
  | [] => .error .empty
  | c :: cs =>
    if Lexeme.rest cs = [] then ofLexeme (Lexeme.cut c cs)
    else .error (.trailingInput (String.ofList (Lexeme.rest cs)))

/-- Reads a string as a token. -/
def ofString (s : String) : Except TokenError Token :=
  read s.toList

@[simp] theorem read_nil : read [] = .error .empty := rfl

theorem read_cons (c : Char) (cs : List Char) :
    read (c :: cs) =
      if Lexeme.rest cs = [] then ofLexeme (Lexeme.cut c cs)
      else .error (.trailingInput (String.ofList (Lexeme.rest cs))) := rfl

end Token

end TextMelody
