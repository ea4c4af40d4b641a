import TextMelody.Settings.Document
import TextMelody.Transducer.Mode
import TextMelody.Instrument

/-!
# Why a run fails

The causes for which the command gives up, and the report it ends with: a message, and below it what
lies behind the message.
-/

namespace TextMelody.Command

/-- Why a run fails. -/
inductive Failure where
  | settings (cause : SettingsError)
  | unknownInstrument (name : String)
  | unknownMode (name : String)
  | fileNotFound (path : String)
  | fileNotText (path : String)
  | fileUnreadable (path : String) (cause : FileError)
  /-- The standard input cannot be read, or is no text. -/
  | inputUnreadable (cause : FileError)
  | midiNotWritten (path : String) (cause : FileError)
  | eventsNotWritten (path : String) (cause : FileError)
deriving DecidableEq, Repr

namespace Failure

/-- The message about a failure. -/
def message : Failure → String
  | settings _ => "loading configuration"
  | unknownInstrument name => Instrument.unknownMessage name
  | unknownMode name => Mode.unknownMessage name
  | fileNotFound path => "File '" ++ path ++ "' not found"
  | fileNotText path => "File '" ++ path ++ "' is not valid UTF-8 text"
  | fileUnreadable path _ => "reading '" ++ path ++ "'"
  | inputUnreadable _ => "reading stdin"
  | midiNotWritten path cause => "failed to write MIDI file " ++ path ++ ": " ++ cause.message
  | eventsNotWritten path _ => "writing events to " ++ path

/-- What lies behind a failure, the nearest first. -/
def causes : Failure → List String
  | settings (.unreadable path cause) =>
    [(SettingsError.unreadable path cause).message, cause.message]
  | settings cause => [cause.message]
  | unknownInstrument _ => []
  | unknownMode _ => []
  | fileNotFound _ => []
  | fileNotText _ => []
  | fileUnreadable _ cause => [cause.message]
  | inputUnreadable cause => [cause.message]
  | midiNotWritten _ cause => [cause.message]
  | eventsNotWritten _ cause => [cause.message]

/-- A text whose lines after the first are indented. -/
def indented (indent : String) (s : String) : String :=
  String.intercalate ("\n" ++ indent) ((s.toList.splitOn '\n').map String.ofList)

/-- A cause with its number. -/
def numbered (index : Nat) (cause : String) : String :=
  let label := toString index
  String.ofList (List.replicate (5 - label.length) ' ') ++ label ++ ": " ++
    indented "       " cause

/-- The causes as they stand in a report, numbered if there are several. -/
def causeLines (causes : List String) : List String :=
  match causes with
  | [cause] => ["    " ++ indented "    " cause]
  | causes => causes.zipIdx.map fun c => numbered c.2 c.1

/-- What stands behind the message in a report. -/
def behind (f : Failure) : String :=
  if f.causes = [] then ""
  else "\n\nCaused by:\n" ++ String.intercalate "\n" (causeLines f.causes)

/-- **The report a failed run ends with.** -/
def report (f : Failure) : String :=
  "Error: " ++ f.message ++ f.behind ++ "\n"

end Failure

end TextMelody.Command
