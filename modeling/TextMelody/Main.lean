import TextMelody.Command.Run

/-!
# The program

The outer layer of the command: it looks up what a run can find, leaves the run to
`TextMelody.Command.run`, and puts the outcome into the world. Of the files only those are looked
up that the arguments and the settings can name.
-/

namespace TextMelody.Main

open TextMelody.Command

/-- The variables of the environment that a run looks at. -/
def environment : IO Settings.Environment :=
  Settings.knownVariables.filterMapM fun v => do
    return (← IO.getEnv v.name).map (v.name, ·)

/-- The directory of the user's settings. -/
def userDirectory : IO String := do
  match ← IO.getEnv "XDG_CONFIG_HOME" with
  | some directory => if directory.startsWith "/" then return directory
  | none => pure ()
  return ((← IO.getEnv "HOME").getD "") ++ "/.config"

/-- The path of a place. -/
def pathOf (p : Place) : String :=
  match p with
  | "/" :: names => "/" ++ String.intercalate "/" names
  | names => String.intercalate "/" names

/-- The code of the system for reading a directory as a file. -/
def directoryCode : UInt32 := 21

/-- What the system has against a use of a file. -/
def reasonOf : IO.Error → String
  | .permissionDenied _ code details => details ++ " (os error " ++ toString code ++ ")"
  | .resourceExhausted _ code details => details ++ " (os error " ++ toString code ++ ")"
  | .hardwareFault code details => details ++ " (os error " ++ toString code ++ ")"
  | e => toString e

/-- What is at a place in the world, if anything. -/
def lookUp (p : Place) : IO (Option Entry) := do
  try
    return some (.file (← IO.FS.readBinFile (pathOf p)).toList)
  catch
    | .inappropriateType _ code _ =>
      return if code = directoryCode then some .directory else none
    | .noFileOrDirectory _ _ _ => return none
    | e => return some (.locked (reasonOf e))

/-- Whether the system can be asked for a place. -/
def canLookUp (p : Place) : Bool :=
  p.all (·.utf8ByteSize ≤ FileTree.longestName) &&
    (pathOf p).utf8ByteSize ≤ FileTree.longestPath

/-- What is at the places that the paths pass. -/
def snapshot (paths : List String) : IO FileTree := do
  let mut files : FileTree := {}
  for p in (paths.flatMap Place.passed).eraseDups do
    if (files.find? p).isNone && canLookUp p then
      match ← lookUp p with
      | some e => files := files.put p e
      | none => pure ()
  return files

/-- The files that a run can look at or write. -/
def pathsOf (a : Arguments) (directory : String) : List String :=
  [Settings.systemFile, Settings.userFile directory, Settings.localFile] ++
    [a.config, a.file, a.midi, a.events].filterMap id

/-- Writes the files that a run put into the tree, in the order in which it did, up to the first that
    the world does not take: its number, and why. -/
def writeNew (before after : FileTree) : IO (Option (Nat × String)) := do
  let new := (after.entries.take (after.entries.length - before.entries.length)).reverse
  for (e, i) in new.zipIdx do
    match e with
    | (p, .file bytes) =>
      try
        IO.FS.writeBinFile (pathOf p) ⟨bytes.toArray⟩
      catch e => return some (i, reasonOf e)
    | _ => pure ()
  return none

/-- The surroundings in which a write fails. The MIDI file is the first to be written if it was asked
    for. -/
def failing (w : Surroundings) (a : Arguments) (index : Nat) (reason : String) : Surroundings :=
  let fault := some ⟨reason, none⟩
  if index = 0 ∧ a.midi.isSome then { w with midiFault := fault }
  else { w with eventsFault := fault }

/-- What is said of settings that are no TOML. -/
def diagnose : Toml.Diagnosis := fun _ => "TOML parse error"

/-- Tells how a run ended. -/
def publish (o : Outcome) : IO UInt32 := do
  IO.eprint o.errors
  return o.exitCode.toUInt32

/-- The run of arguments that can be used. A write shows only in the world whether it fails, so the run
    is told of a failure and gone through again. -/
def perform (arguments : List String) (a : Arguments) : IO UInt32 := do
  let directory ← userDirectory
  let files ← snapshot (pathsOf a directory)
  let stdin ← IO.getStdin
  let needsInput := a.file.isNone && !a.printConfig
  let terminal := needsInput && (← stdin.isTty)
  let input ← if needsInput && !terminal then stdin.readBinToEnd else pure ByteArray.empty
  let w : Surroundings :=
    { files, environment := ← environment, userDirectory := directory, input := .ok input.toList,
      diagnose }
  let o := run arguments w
  -- Nothing is read from a terminal, but settings and names are still checked before it is refused.
  if terminal && o.exitCode = 0 then
    IO.eprint ("error: Please provide a file path or pipe text to stdin.\n\n" ++ usage)
    return 2
  IO.print o.output
  match ← writeNew files o.files with
  | none => publish o
  | some (index, reason) => publish (run arguments (failing w a index reason))

/-- The run of any arguments. -/
def start (arguments : List String) : IO UInt32 :=
  match Arguments.read arguments with
  | .ok a => perform arguments a
  | .error _ => do
    let o := run arguments
      { files := {}, environment := [], userDirectory := "", input := .ok [], diagnose }
    IO.print o.output
    publish o

end TextMelody.Main

/-- The program. -/
def main (arguments : List String) : IO UInt32 :=
  TextMelody.Main.start arguments
