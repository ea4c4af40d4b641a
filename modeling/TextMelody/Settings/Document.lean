import TextMelody.FileTree
import TextMelody.Settings
import TextMelody.Toml.Document

/-!
# Settings from a TOML document

A document gives settings in three tables. Keys that are not known and values of another type are
passed over; only a document that is no TOML, or a whole number of ticks that no MIDI file can hold,
is an error. What is wrong with a text that is no TOML is said in the words of the reader, which are
given with the text.
-/

namespace TextMelody

/-- Why settings could not be had from the file at a path. -/
inductive SettingsError where
  | unreadable (path : String) (cause : FileError)
  /-- The text is no TOML document, for a reason that its reader gives. -/
  | malformed (path reason : String)
  /-- A MIDI file cannot hold so many ticks. -/
  | badTicks (path : String) (ticks : Int)
deriving DecidableEq, Repr

namespace SettingsError

/-- The message about settings that could not be had. -/
def message : SettingsError → String
  | unreadable path cause => "Failed to read config file " ++ path ++ ": " ++ cause.message
  | malformed path reason => "Failed to parse config file " ++ path ++ ": " ++ reason
  | badTicks path ticks =>
    "Failed to parse config file " ++ path ++ ": midi.ticks_per_beat must be 1-32767, got " ++
      toString ticks

end SettingsError

namespace Settings

/-- The value under a key of a table of a document. -/
def lookup (document : Toml.Entries) (table key : String) : Option Toml.Value :=
  ((document.find? table).bind Toml.Value.entries?).bind (Toml.Entries.find? · key)

/-- The text under a key of a table of a document. -/
def text? (document : Toml.Entries) (table key : String) : Option String :=
  (lookup document table key).bind Toml.Value.text?

/-- The whole number of ticks that a document gives. -/
def givenTicks? (document : Toml.Entries) : Option Int :=
  (lookup document "midi" "ticks_per_beat").bind Toml.Value.integer?

/-- The settings that a document gives, with so many ticks. -/
def ofTables (document : Toml.Entries) (ticksPerBeat : UInt16) : Settings where
  instrument := (text? document "defaults" "instrument").getD standard.instrument
  mode := (text? document "defaults" "mode").getD standard.mode
  ticksPerBeat
  trackName := (text? document "midi" "track_name").getD standard.trackName
  logLevel := (text? document "telemetry" "log_level").getD standard.logLevel

/-- **The settings that the text of the file at `path` gives**, and the standard ones where it gives
    none. -/
def ofDocument (diagnose : Toml.Diagnosis) (path text : String) :
    Except SettingsError Settings :=
  match Toml.read? text with
  | none => .error (.malformed path (diagnose text))
  | some document =>
    match givenTicks? document with
    | none => .ok (ofTables document standard.ticksPerBeat)
    | some n =>
      match ticks? n with
      | some t => .ok (ofTables document t)
      | none => .error (.badTicks path n)

/-- **The settings that the file at a path gives.** -/
def ofFile (diagnose : Toml.Diagnosis) (files : FileTree) (path : String) :
    Except SettingsError Settings :=
  match files.readText path with
  | .error e => .error (.unreadable path e)
  | .ok text => ofDocument diagnose path text

end Settings

end TextMelody
