/-!
# Why a word is no token

The causes for which a word is refused, the message that reports each, and a hint where there is an
obvious way to mend the word.
-/

namespace TextMelody

/-- Why a word is no token. -/
inductive TokenError where
  | empty
  | unknownCommand (command : Char)
  | missingArgument (command : Char)
  /-- A number above the largest 32-bit word, or more than 255 dots. -/
  | numberOutOfRange (written : String)
  | zeroLength
  | zeroTempo
  | unexpectedAccidental (command : Char)
  | unexpectedDots (command : Char)
  | dotWithoutLength
  | trailingInput (rest : String)
deriving DecidableEq, Repr

namespace TokenError

/-- The message that reports a refused word. -/
def message : TokenError → String
  | empty => "empty token"
  | unknownCommand c => "unknown command '" ++ String.singleton c ++ "'"
  | missingArgument c => "'" ++ String.singleton c ++ "' needs a numeric argument"
  | numberOutOfRange s => "number '" ++ s ++ "' is out of range"
  | zeroLength => "length must be greater than zero"
  | zeroTempo => "tempo must be greater than zero"
  | unexpectedAccidental c => "'" ++ String.singleton c ++ "' does not take an accidental"
  | unexpectedDots c => "'" ++ String.singleton c ++ "' does not take dots"
  | dotWithoutLength => "dots need an explicit length"
  | trailingInput s => "unexpected trailing input '" ++ s ++ "'"

/-- How the word could be mended. -/
def suggestion : TokenError → Option String
  | unknownCommand _ => some "Commands are t v o l r @ or a note letter c-b"
  | missingArgument c => some ("Write e.g. '" ++ String.singleton c ++ "4'")
  | zeroLength => some "Use 1 for a whole note, 4 for a quarter"
  | zeroTempo => some "Tempo is in beats per minute, e.g. t120"
  | dotWithoutLength => some "Write the length before the dot, e.g. c8."
  | _ => none

end TokenError

end TextMelody
