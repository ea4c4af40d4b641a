import TextMelody.Settings.Document
import TextMelody.Text.Blank

/-!
# Layers of settings

Settings come from files and from the environment, each layer over the ones before it. A file does
not tell which of its settings it gave, so a layer counts where it differs from the standard.

* `overlay_standard`, `standard_overlay`: the standard settings change nothing, on either side;
* `overlay_assoc`: layers can be put together in any grouping.
-/

namespace TextMelody

namespace Settings

/-! ## 1. Files -/

/-- The upper value where it differs from the standard one, else the lower value. -/
def prefer {α : Type} [DecidableEq α] (standard lower upper : α) : α :=
  if upper = standard then lower else upper

/-- **Settings under others.** The upper ones count where they differ from the standard. -/
def overlay (lower upper : Settings) : Settings where
  instrument := prefer standard.instrument lower.instrument upper.instrument
  mode := prefer standard.mode lower.mode upper.mode
  ticksPerBeat := prefer standard.ticksPerBeat lower.ticksPerBeat upper.ticksPerBeat
  trackName := prefer standard.trackName lower.trackName upper.trackName
  logLevel := prefer standard.logLevel lower.logLevel upper.logLevel

/-- The file of settings for all users. -/
def systemFile : String :=
  "/etc/mojioto/config.toml"

/-- The file of settings in the directory of a user's settings. -/
def userFile (directory : String) : String :=
  directory ++ "/mojioto/config.toml"

/-- The file of settings in the working directory. -/
def localFile : String :=
  "mojioto.toml"

/-- **The files to load settings from**, the later ones over the earlier ones. A chosen file takes
    the place of the one in the working directory, and it counts even when it is not there. -/
def filesToLoad (files : FileTree) (userDirectory : String) (chosen : Option String) :
    List String :=
  [systemFile, userFile userDirectory].filter files.exists? ++
    match chosen with
    | some path => [path]
    | none => [localFile].filter files.exists?

/-- The settings of a list of files over others, up to the first file that fails. -/
def overlayFiles (diagnose : Toml.Diagnosis) (files : FileTree) (s : Settings)
    (paths : List String) : Except SettingsError Settings :=
  paths.foldlM (fun lower path => (ofFile diagnose files path).map lower.overlay) s

/-! ## 2. Environment -/

/-- The variables of an environment. -/
abbrev Environment := List (String × String)

/-- A whole number in decimal, with a sign or without, of 64 bits. -/
def wholeNumber? (cs : List Char) : Option Int :=
  let s := Toml.sign cs
  let n := Toml.signed s.1 (Nat.ofDigitChars 10 s.2 0)
  if s.2 ≠ [] ∧ s.2.all Char.isDigit ∧ -Toml.wordBound ≤ n ∧ n < Toml.wordBound then some n
  else none

/-- A variable that changes settings: what its value makes of them, if it can be used. -/
structure Variable where
  name : String
  apply : String → Settings → Option Settings

/-- The variables that change settings, in the order in which they do. -/
def knownVariables : List Variable :=
  [⟨"MOJIOTO_INSTRUMENT", fun v s => some { s with instrument := v }⟩,
   ⟨"MOJIOTO_MODE", fun v s => some { s with mode := v }⟩,
   ⟨"MOJIOTO_TICKS_PER_BEAT", fun v s =>
      ((wholeNumber? (Text.trim v.toList)).bind ticks?).map fun t => { s with ticksPerBeat := t }⟩,
   ⟨"MOJIOTO_TRACK_NAME", fun v s => some { s with trackName := v }⟩,
   ⟨"MOJIOTO_LOG_LEVEL", fun v s => some { s with logLevel := v }⟩,
   ⟨"RUST_LOG", fun v s => some { s with logLevel := v }⟩]

/-- Settings with the names of the variables that changed them. -/
structure Overridden where
  settings : Settings
  names : List String
deriving DecidableEq, Repr

/-- Applies one variable if the environment has it. -/
def override (env : Environment) (o : Overridden) (v : Variable) : Overridden :=
  match (env.lookup v.name).bind (v.apply · o.settings) with
  | some settings => ⟨settings, o.names ++ [v.name]⟩
  | none => o

/-- **The settings under an environment.** A variable that cannot be used is passed over. -/
def underEnvironment (env : Environment) (s : Settings) : Overridden :=
  knownVariables.foldl (override env) ⟨s, []⟩

/-! ## 3. All layers -/

/-- Settings, and what they came from. -/
structure Loaded where
  settings : Settings
  /-- The files that were loaded, in order. -/
  files : List String
  /-- The variables that changed something, in order. -/
  overrides : List String
deriving DecidableEq, Repr

/-- **Loads the settings**: the files over the standard, and the environment over the files. -/
def load (diagnose : Toml.Diagnosis) (files : FileTree) (env : Environment)
    (userDirectory : String) (chosen : Option String) : Except SettingsError Loaded :=
  match overlayFiles diagnose files standard (filesToLoad files userDirectory chosen) with
  | .error e => .error e
  | .ok s =>
    let o := underEnvironment env s
    .ok ⟨o.settings, filesToLoad files userDirectory chosen, o.names⟩

@[simp] theorem prefer_standard {α : Type} [DecidableEq α] (d a : α) : prefer d a d = a :=
  if_pos rfl

@[simp] theorem standard_prefer {α : Type} [DecidableEq α] (d a : α) : prefer d d a = a := by
  unfold prefer
  split
  · rename_i h
    exact h.symm
  · rfl

theorem prefer_assoc {α : Type} [DecidableEq α] (d a b c : α) :
    prefer d (prefer d a b) c = prefer d a (prefer d b c) := by
  unfold prefer
  by_cases hc : c = d
  · simp [hc]
  · simp [hc]

theorem overlay_standard (s : Settings) : s.overlay standard = s := by
  simp [overlay]

theorem standard_overlay (s : Settings) : standard.overlay s = s := by
  simp [overlay]

/-- **Layers can be put together in any grouping.** -/
theorem overlay_assoc (a b c : Settings) : (a.overlay b).overlay c = a.overlay (b.overlay c) := by
  simp [overlay, prefer_assoc]

end Settings

end TextMelody
