import TextMelody.Command.Arguments
import TextMelody.Command.Error
import TextMelody.Decimal.Places
import TextMelody.EventsDump
import TextMelody.Interpreter
import TextMelody.Midi.Bytes
import TextMelody.Settings.Layers
import TextMelody.Transducer.Text

/-!
# The command

A run reads its arguments, its settings and its text, in this order, and gives up at the first of
them that it cannot use. It then prints the melody of the text and writes the files that were asked
for. What a run does is a function of its arguments and its surroundings; the outcome holds
everything it leaves behind.
-/

namespace TextMelody.Command

/-- What a run finds, and what will go wrong when it writes. -/
structure Surroundings where
  files : FileTree
  environment : Settings.Environment
  /-- The directory of the user's settings. -/
  userDirectory : String
  /-- The standard input, if it can be read. -/
  input : Except FileError (List UInt8)
  /-- What is said of settings that are no TOML. -/
  diagnose : Toml.Diagnosis
  midiFault : Option FileTree.WriteFault := none
  eventsFault : Option FileTree.WriteFault := none

/-- What a run leaves behind. -/
structure Outcome where
  exitCode : UInt8 := 0
  output : String := ""
  /-- What it told on the standard error. Of the log, which tells the time too, nothing is kept. -/
  errors : String := ""
  files : FileTree
deriving DecidableEq, Repr

namespace Outcome

/-- The outcome when the run fails now. -/
def fail (o : Outcome) (f : Failure) : Outcome :=
  { o with exitCode := 1, errors := o.errors ++ f.report }

/-- Writes a file and tells about it, or fails with what the write left. -/
def save (o : Outcome) (path : String) (bytes : List UInt8) (fault : Option FileTree.WriteFault)
    (note : String) (failure : FileError → Failure) : Except Outcome Outcome :=
  match o.files.write path bytes fault with
  | .ok files => .ok { o with files, errors := o.errors ++ note }
  | .error e => .error (fail { o with files := e.tree } (failure e.cause))

end Outcome

/-- What the command calls itself, and its version. -/
def versionText : String :=
  "mojioto 0.1.0\n"

/-- How the command is used. -/
def usage : String :=
  "Usage: mojioto [OPTIONS] [FILE]\n"

/-- The text of the help. -/
def helpText : String :=
  "Convert text to MML and optionally MIDI\n\n" ++ usage ++ "\n" ++
  "  -m, --midi PATH          Output MIDI file path\n" ++
  "  -i, --instrument NAME    piano, chiptune, strings, flute, guitar, lead\n" ++
  "      --mode NAME          repetition or pair\n" ++
  "      --config PATH        Config file to use instead of ./mojioto.toml\n" ++
  "      --events PATH        Write the interpreted note events as JSON\n" ++
  "      --summary            Print note count and duration to stderr\n" ++
  "      --print-config       Print the effective configuration and exit\n" ++
  "  -h, --help               Print help\n" ++
  "  -V, --version            Print version\n"

/-! ## 1. What to convert -/

/-- The text to convert: that of the file, or of the standard input. -/
def readText (a : Arguments) (w : Surroundings) : Except Failure String :=
  match a.file with
  | some path =>
    match w.files.readText path with
    | .ok text => .ok text
    | .error .notFound => .error (.fileNotFound path)
    | .error .notText => .error (.fileNotText path)
    | .error e => .error (.fileUnreadable path e)
  | none =>
    match w.input.bind FileTree.decode with
    | .ok text => .ok text
    | .error e => .error (.inputUnreadable e)

/-- A text with what it is to be played on and how. -/
structure Job where
  instrument : Instrument
  mode : Mode
  text : String
deriving DecidableEq, Repr

/-- The instrument of the arguments, or else of the settings. -/
def chooseInstrument (a : Arguments) (s : Settings) : Except Failure Instrument :=
  let name := a.instrument.getD s.instrument
  match Instrument.ofName? name with
  | some i => .ok i
  | none => .error (.unknownInstrument name)

/-- The mode of the arguments, or else of the settings. -/
def chooseMode (a : Arguments) (s : Settings) : Except Failure Mode :=
  let name := a.mode.getD s.mode
  match Mode.ofName? name with
  | some m => .ok m
  | none => .error (.unknownMode name)

/-- **What to convert.** Names are checked before the text is read. -/
def prepare (a : Arguments) (s : Settings) (w : Surroundings) : Except Failure Job := do
  let instrument ← chooseInstrument a s
  let mode ← chooseMode a s
  let text ← readText a w
  return ⟨instrument, mode, text⟩

/-! ## 2. Delivery -/

/-- Writes the MIDI file if one was asked for. -/
def saveMidi (a : Arguments) (s : Settings) (p : Performance Float)
    (fault : Option FileTree.WriteFault) (o : Outcome) : Except Outcome Outcome :=
  match a.midi with
  | none => .ok o
  | some path =>
    let params : Midi.Params := { ticksPerBeat := s.ticksPerBeat, trackName := s.trackName }
    o.save path (Midi.Song.ofPerformance p params).bytes fault ("MIDI saved to " ++ path ++ "\n")
      (.midiNotWritten path)

/-- Writes the dump of the performance if one was asked for. -/
def saveEvents (a : Arguments) (j : Job) (melody : String) (p : Performance Float)
    (fault : Option FileTree.WriteFault) (o : Outcome) : Except Outcome Outcome :=
  match a.events with
  | none => .ok o
  | some path =>
    o.save path (Midi.utf8 (EventsDump.ofPerformance j.mode melody p).text) fault ""
      (.eventsNotWritten path)

/-- A number of beats without superfluous digits. -/
def beatsText (x : Float) : String :=
  match Decimal.Reading.ofFloat x with
  | .finite negative b =>
    (if negative then "-" else "") ++
      if b.mantissa = 0 then "0" else (Decimal.Digits.shortest b).positional ""
  | .infinite negative => if negative then "-inf" else "inf"
  | .notANumber => "NaN"

/-- A number of seconds with two decimal places. -/
def secondsText (x : Float) : String :=
  match Decimal.Reading.ofFloat x with
  | .finite negative b => (if negative then "-" else "") ++ b.toPlaces 2
  | .infinite negative => if negative then "-inf" else "inf"
  | .notANumber => "NaN"

/-- How many notes there are and how long they last. -/
def summaryLine (j : Job) (p : Performance Float) : String :=
  toString p.notes.length ++ " notes, " ++ beatsText p.endBeat ++ " beats, " ++
    secondsText p.duration ++ "s (" ++ j.instrument.name ++ ", " ++ j.mode.name ++ ")\n"

/-- Prints the summary if it was asked for. -/
def summarize (a : Arguments) (j : Job) (p : Performance Float) (o : Outcome) : Outcome :=
  if a.summary then { o with errors := o.errors ++ summaryLine j p } else o

/-- **Prints the melody and writes the files that were asked for**, up to the first that cannot be
    written. -/
def deliver (a : Arguments) (s : Settings) (j : Job) (w : Surroundings) : Outcome :=
  let melody := Transducer.transduce j.mode j.text
  let p : Performance Float := (Melody.interpret melody j.instrument).value
  let written := do
    let o ← saveMidi a s p w.midiFault { output := melody ++ "\n", files := w.files }
    let o ← saveEvents a j melody p w.eventsFault o
    return summarize a j p o
  match written with
  | .ok o => o
  | .error o => o

/-! ## 3. The run -/

/-- Converts a text. Of an empty text nothing is printed or written. -/
def convert (a : Arguments) (s : Settings) (w : Surroundings) : Outcome :=
  match prepare a s w with
  | .error f => Outcome.fail { files := w.files } f
  | .ok j => if j.text = "" then { files := w.files } else deliver a s j w

/-- The run of arguments that can be used. -/
def perform (a : Arguments) (w : Surroundings) : Outcome :=
  match Settings.load w.diagnose w.files w.environment w.userDirectory a.config with
  | .error e => Outcome.fail { files := w.files } (.settings e)
  | .ok loaded =>
    if a.printConfig then { output := loaded.settings.toToml, files := w.files }
    else convert a loaded.settings w

/-- **The run of the command.** -/
def run (arguments : List String) (w : Surroundings) : Outcome :=
  match Arguments.read arguments with
  | .ok a => perform a w
  | .error .help => { output := helpText, files := w.files }
  | .error .version => { output := versionText, files := w.files }
  | .error (.misuse why) =>
    { exitCode := 2, errors := "error: " ++ why.message ++ "\n\n" ++ usage, files := w.files }

end TextMelody.Command
