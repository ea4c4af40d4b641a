/-!
# Arguments of the command

The arguments are read from left to right. An option takes its value from the same argument or from
the next one; after `--` every argument is a file. The first argument that cannot be used, or that
asks for help or for the version, ends the reading.

This stands for the package `clap` on the options of this command. What is assumed of it is what it
documents: how an option is told from a file, how it gets its value, that it is given once at most,
and that a path is not empty. Its words about arguments that cannot be used are not among it: shorter
ones stand for them here.

* `read_nil`: without arguments nothing is asked for beyond the standard.
-/

namespace TextMelody.Command

/-- Options with a value. -/
inductive Setting where
  | midi
  | instrument
  | mode
  | config
  | events
deriving DecidableEq, Repr

/-- Options without a value. -/
inductive Switch where
  | summary
  | printConfig
  | help
  | version
deriving DecidableEq, Repr

/-- What the arguments ask for. -/
structure Arguments where
  /-- The text to convert. Without a file it comes from the standard input. -/
  file : Option String := none
  midi : Option String := none
  instrument : Option String := none
  mode : Option String := none
  config : Option String := none
  events : Option String := none
  summary : Bool := false
  printConfig : Bool := false
deriving DecidableEq, Repr

/-- Why the arguments cannot be used. -/
inductive Misuse where
  | unknownOption (argument : String)
  | missingValue (option : Setting)
  | emptyPath
  | repeatedSetting (option : Setting)
  | repeatedSwitch (option : Switch)
  | unwantedValue (option : Switch)
  | secondFile (path : String)
deriving DecidableEq, Repr

/-- Why the reading of arguments ended before their end. -/
inductive Stop where
  | help
  | version
  | misuse (why : Misuse)
deriving DecidableEq, Repr

namespace Setting

/-- The name of an option. -/
def name : Setting → String
  | midi => "midi"
  | instrument => "instrument"
  | mode => "mode"
  | config => "config"
  | events => "events"

/-- The option of a name. -/
def ofName? (s : String) : Option Setting :=
  [midi, instrument, mode, config, events].find? (·.name = s)

/-- The option of a letter. -/
def ofLetter? (c : Char) : Option Setting :=
  match c with
  | 'm' => some midi
  | 'i' => some instrument
  | _ => none

/-- Whether the value is a path, which cannot be empty. -/
def isPath : Setting → Bool
  | midi => true
  | instrument => false
  | mode => false
  | config => true
  | events => true

end Setting

namespace Switch

/-- The name of an option. -/
def name : Switch → String
  | summary => "summary"
  | printConfig => "print-config"
  | help => "help"
  | version => "version"

/-- The option of a name. -/
def ofName? (s : String) : Option Switch :=
  [summary, printConfig, help, version].find? (·.name = s)

/-- The option of a letter. -/
def ofLetter? (c : Char) : Option Switch :=
  match c with
  | 'h' => some help
  | 'V' => some version
  | _ => none

end Switch

namespace Misuse

/-- The message about arguments that cannot be used. -/
def message : Misuse → String
  | unknownOption argument => "unexpected argument '" ++ argument ++ "'"
  | missingValue option => "a value is required for '--" ++ option.name ++ "'"
  | emptyPath => "a path cannot be empty"
  | repeatedSetting option => "'--" ++ option.name ++ "' cannot be used multiple times"
  | repeatedSwitch option => "'--" ++ option.name ++ "' cannot be used multiple times"
  | unwantedValue option => "'--" ++ option.name ++ "' takes no value"
  | secondFile path => "unexpected argument '" ++ path ++ "'"

end Misuse

namespace Arguments

/-- The value that an option was given. -/
def value? (a : Arguments) : Setting → Option String
  | .midi => a.midi
  | .instrument => a.instrument
  | .mode => a.mode
  | .config => a.config
  | .events => a.events

/-- The arguments with a value for an option. -/
def withValue (a : Arguments) (value : String) : Setting → Arguments
  | .midi => { a with midi := some value }
  | .instrument => { a with instrument := some value }
  | .mode => { a with mode := some value }
  | .config => { a with config := some value }
  | .events => { a with events := some value }

/-- Gives an option its value, which can be done once. -/
def give (a : Arguments) (option : Setting) (value : String) : Except Stop Arguments :=
  if option.isPath ∧ value = "" then .error (.misuse .emptyPath)
  else if (a.value? option).isSome then .error (.misuse (.repeatedSetting option))
  else .ok (a.withValue value option)

/-- Turns on an option without a value. -/
def turnOn (a : Arguments) (option : Switch) : Except Stop Arguments :=
  match option with
  | .help => .error .help
  | .version => .error .version
  | .summary =>
    if a.summary then .error (.misuse (.repeatedSwitch option)) else .ok { a with summary := true }
  | .printConfig =>
    if a.printConfig then .error (.misuse (.repeatedSwitch option))
    else .ok { a with printConfig := true }

/-- Names the file to convert. There is one at most. -/
def nameFile (a : Arguments) (path : String) : Except Stop Arguments :=
  if a.file.isSome then .error (.misuse (.secondFile path))
  else if path = "" then .error (.misuse .emptyPath)
  else .ok { a with file := some path }

end Arguments

/-- The arguments read so far. -/
structure Reading where
  arguments : Arguments := {}
  /-- The option that the next argument is the value of. -/
  pending : Option Setting := none
  /-- Whether `--` was passed. -/
  filesOnly : Bool := false

namespace Reading

/-- Whether an argument is an option. A single hyphen is a file. -/
def isOption (argument : String) : Bool :=
  argument.toList.head? = some '-' && argument ≠ "-"

/-- The part of a text before its first equals sign, and the part after it if there is one. -/
def splitValue (cs : List Char) : String × Option String :=
  (String.ofList (cs.takeWhile (· ≠ '=')),
    match cs.dropWhile (· ≠ '=') with
    | _ :: value => some (String.ofList value)
    | [] => none)

/-- An option with two hyphens: `--name`, `--name value` or `--name=value`. -/
def long (r : Reading) (argument : String) (cs : List Char) : Except Stop Reading :=
  let parts := splitValue cs
  match Setting.ofName? parts.1, Switch.ofName? parts.1, parts.2 with
  | some option, _, some value => (r.arguments.give option value).map ({ r with arguments := · })
  | some option, _, none => .ok { r with pending := some option }
  | none, some option, some _ => .error (.misuse (.unwantedValue option))
  | none, some option, none => (r.arguments.turnOn option).map ({ r with arguments := · })
  | none, none, _ => .error (.misuse (.unknownOption argument))

/-- The value behind the letter of an option: an equals sign in front is left out. -/
def attached (cs : List Char) : String :=
  match cs with
  | '=' :: value => String.ofList value
  | value => String.ofList value

/-- An option with one hyphen: `-m value`, `-mvalue` or `-m=value`. -/
def short (r : Reading) (argument : String) (c : Char) (cs : List Char) : Except Stop Reading :=
  match Setting.ofLetter? c, Switch.ofLetter? c with
  | some option, _ =>
    if cs = [] then .ok { r with pending := some option }
    else (r.arguments.give option (attached cs)).map ({ r with arguments := · })
  | none, some option => (r.arguments.turnOn option).map ({ r with arguments := · })
  | none, none => .error (.misuse (.unknownOption argument))

/-- An argument that is no value of an option. -/
def fresh (r : Reading) (argument : String) : Except Stop Reading :=
  if r.filesOnly || !isOption argument then
    (r.arguments.nameFile argument).map ({ r with arguments := · })
  else
    match argument.toList with
    | ['-', '-'] => .ok { r with filesOnly := true }
    | '-' :: '-' :: cs => r.long argument cs
    | '-' :: c :: cs => r.short argument c cs
    | _ => .error (.misuse (.unknownOption argument))

/-- **Reads one argument.** -/
def step (r : Reading) (argument : String) : Except Stop Reading :=
  match r.pending with
  | none => r.fresh argument
  | some option =>
    if isOption argument then .error (.misuse (.missingValue option))
    else (r.arguments.give option argument).map ({ r with arguments := ·, pending := none })

/-- The arguments, when none of them still waits for a value. -/
def finish (r : Reading) : Except Stop Arguments :=
  match r.pending with
  | none => .ok r.arguments
  | some option => .error (.misuse (.missingValue option))

end Reading

namespace Arguments

/-- **Reads the arguments of the command.** -/
def read (arguments : List String) : Except Stop Arguments :=
  match arguments.foldlM Reading.step {} with
  | .ok r => r.finish
  | .error stop => .error stop

@[simp] theorem read_nil : read [] = .ok {} := rfl

end Arguments

end TextMelody.Command
