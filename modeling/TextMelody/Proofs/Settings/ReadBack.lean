import TextMelody.Command.Run
import TextMelody.Proofs.FileTree
import TextMelody.Proofs.Settings.Precedence
import TextMelody.Proofs.Toml.Lines

/-!
# Printed settings read back

The document that settings are printed as gives the same settings when it is read, whatever texts
they hold. Loaded as the only file, it gives them once more: a layer counts only where it differs
from the standard, but below it there is nothing but the standard. So what the command prints as the
settings in force can be handed to it again, and it has the same settings in force.

* `read?_toToml`: the document, read as tables;
* `ofDocument_toToml`: **a document of settings gives the settings**;
* `OnlyFile`, `load_toToml`: and so does loading it, where nothing else is set;
* `hasTicks_load`: whatever is loaded has a number of ticks that a document can give.
-/

namespace TextMelody

namespace Settings

open Toml

/-! ## 1. The document -/

/-- A number of ticks that a MIDI file can hold, and so a document can give. -/
def HasTicks (s : Settings) : Prop :=
  1 ≤ s.ticksPerBeat.toNat ∧ s.ticksPerBeat.toNat ≤ 0x7FFF

/-- The tables that settings are printed as. -/
def tables (s : Settings) : Entries :=
  [("defaults", .table .header
      [("instrument", .text s.instrument.toList), ("mode", .text s.mode.toList)]),
    ("midi", .table .header
      [("ticks_per_beat", .scalar (.integer s.ticksPerBeat.toNat)),
        ("track_name", .text s.trackName.toList)]),
    ("telemetry", .table .header [("log_level", .text s.logLevel.toList)])]

/-- What the lines of the document say. -/
def statements (s : Settings) : List Statement :=
  [.header ⟨[], "defaults"⟩,
    .assignment ⟨[], "instrument"⟩ (.text s.instrument.toList),
    .assignment ⟨[], "mode"⟩ (.text s.mode.toList),
    .header ⟨[], "midi"⟩,
    .assignment ⟨[], "ticks_per_beat"⟩ (.scalar (.integer s.ticksPerBeat.toNat)),
    .assignment ⟨[], "track_name"⟩ (.text s.trackName.toList),
    .header ⟨[], "telemetry"⟩,
    .assignment ⟨[], "log_level"⟩ (.text s.logLevel.toList)]

theorem statements?_assignmentLine {key : String} {c : Char} {name : List Char}
    (hkey : key.toList = c :: name) (hbare : (c :: name).all isBare) (value : String)
    (rest : List Char) :
    statements? ((assignment key value).toList ++ rest) =
      (statements? rest).map (.assignment ⟨[], key⟩ (.text value.toList) :: ·) := by
  have hline : (assignment key value).toList ++ rest =
      c :: name ++ ' ' :: '=' :: ' ' :: (Printer.quoted value.toList ++ '\n' :: rest) := by
    simp [assignment, hkey]
  have hname : String.ofList (c :: name) = key := by rw [← hkey, String.ofList_toList]
  rw [hline, statements?_assignment (List.all_eq_true.mp hbare) (written_quoted value.toList),
    hname]

theorem statements?_headerLine (name : String) {line : String} {c : Char} {ds : List Char}
    (hname : name.toList = c :: ds) (hbare : (c :: ds).all isBare)
    (hline : line.toList = '[' :: (name.toList ++ [']', '\n'])) (rest : List Char) :
    statements? (line.toList ++ rest) = (statements? rest).map (.header ⟨[], name⟩ :: ·) := by
  have hlast : String.ofList (c :: ds) = name := by rw [← hname, String.ofList_toList]
  have hwhole : line.toList ++ rest = '[' :: (c :: ds ++ ']' :: '\n' :: rest) := by
    simp [hline, hname]
  rw [hwhole, statements?_header (List.all_eq_true.mp hbare), hlast]

/-- The header of every table but the first follows an empty line. -/
theorem statements?_nextHeaderLine (name : String) {line : String} {c : Char} {ds : List Char}
    (hname : name.toList = c :: ds) (hbare : (c :: ds).all isBare)
    (hline : line.toList = '\n' :: '[' :: (name.toList ++ [']', '\n'])) (rest : List Char) :
    statements? (line.toList ++ rest) = (statements? rest).map (.header ⟨[], name⟩ :: ·) := by
  rw [hline, List.cons_append, statements?_blank, ← String.toList_ofList (l := '[' :: _)]
  exact statements?_headerLine name hname hbare String.toList_ofList rest

theorem statements?_ticksLine {n : Nat} (hpos : 0 < n) (hword : (n : Int) < wordBound)
    (rest : List Char) :
    statements? ("ticks_per_beat = ".toList ++ ((toString n).toList ++ ("\n".toList ++ rest))) =
      (statements? rest).map (.assignment ⟨[], "ticks_per_beat"⟩ (.scalar (.integer n)) :: ·) := by
  have hdigits : (toString n).toList = Nat.toDigits 10 n := by
    rw [Nat.toString_eq_ofList_toDigits, String.toList_ofList]
  have hline : "ticks_per_beat = ".toList ++ (Nat.toDigits 10 n ++ ("\n".toList ++ rest)) =
      't' :: "icks_per_beat".toList ++ ' ' :: '=' :: ' ' ::
        (Nat.toDigits 10 n ++ '\n' :: rest) := rfl
  rw [hdigits, hline,
    statements?_assignment (List.all_eq_true.mp rfl) (written_toDigits hpos hword)]
  rfl

theorem statements?_titleLine (rest : List Char) :
    statements? ("# mojioto configuration\n\n".toList ++ rest) = statements? rest := by
  have hline : "# mojioto configuration\n\n".toList ++ rest =
      '#' :: (" mojioto configuration".toList ++ '\n' :: '\n' :: rest) := rfl
  rw [hline, statements?_comment (List.all_eq_true.mp rfl), statements?_blank]

/-- **The document says what settings are printed, line by line.** -/
theorem statements?_toToml {s : Settings} (h : s.HasTicks) :
    statements? s.toToml.toList = some s.statements := by
  have hword : ((s.ticksPerBeat.toNat : Nat) : Int) < wordBound := by
    have hle := h.2
    have hbound : (0x7FFF : Int) < wordBound := by decide
    omega
  have hempty : statements? [] = some [] := by
    rw [statements?]
    rfl
  unfold toToml
  simp only [String.toList_append, List.append_assoc]
  rw [← List.append_nil (assignment "log_level" s.logLevel).toList, statements?_titleLine,
    statements?_headerLine "defaults" rfl rfl rfl, statements?_assignmentLine rfl rfl,
    statements?_assignmentLine rfl rfl, statements?_nextHeaderLine "midi" rfl rfl rfl,
    statements?_ticksLine h.1 hword, statements?_assignmentLine rfl rfl,
    statements?_nextHeaderLine "telemetry" rfl rfl rfl, statements?_assignmentLine rfl rfl,
    hempty]
  rfl

theorem read?_toToml {s : Settings} (h : s.HasTicks) : Toml.read? s.toToml = some s.tables := by
  have hmark : withoutByteOrderMark s.toToml.toList = s.toToml.toList := by
    unfold toToml
    simp only [String.toList_append, List.append_assoc]
    rfl
  have hbuilt : s.statements.foldlM Builder.step {} = some ⟨s.tables, ["telemetry"]⟩ := rfl
  have hunwrapped : Value.unwrapEntries? s.tables = some s.tables := rfl
  rw [Toml.read?, hmark, statements?_toToml h, Option.bind_eq_bind, Option.bind_some, hbuilt]
  exact hunwrapped

/-- **A document of settings gives the settings**, whatever texts they hold. -/
theorem ofDocument_toToml {s : Settings} (h : s.HasTicks) (diagnose : Toml.Diagnosis)
    (path : String) : ofDocument diagnose path s.toToml = .ok s := by
  have hticks : ticks? (s.ticksPerBeat.toNat : Int) = some s.ticksPerBeat := by
    obtain ⟨hlow, hhigh⟩ := h
    have hbounds : 1 ≤ (s.ticksPerBeat.toNat : Int) ∧ (s.ticksPerBeat.toNat : Int) ≤ 0x7FFF := by
      omega
    rw [ticks?, if_pos hbounds, Int.toNat_natCast, UInt16.ofNat_toNat]
  have hgiven : givenTicks? s.tables = some (s.ticksPerBeat.toNat : Int) := rfl
  have htables : ofTables s.tables s.ticksPerBeat = s := by
    obtain ⟨instrument, mode, ticks, trackName, logLevel⟩ := s
    show Settings.mk (String.ofList instrument.toList) (String.ofList mode.toList) ticks
      (String.ofList trackName.toList) (String.ofList logLevel.toList) = _
    simp only [String.ofList_toList]
  simp only [ofDocument, read?_toToml h, hgiven, hticks, htables]

/-! ## 2. The only file -/

/-- **Where nothing else is set**: the file at a path holds a text, there are no files of settings
    for the user or for all users, and no variable is set. -/
structure OnlyFile (files : FileTree) (env : Environment) (userDirectory path text : String) :
    Prop where
  holds : files.read path = .ok (Midi.utf8 text)
  noSystemFile : files.exists? systemFile = false
  noUserFile : files.exists? (userFile userDirectory) = false
  noVariable : ∀ v ∈ knownVariables, env.lookup v.name = none

theorem filesToLoad_of_onlyFile {files : FileTree} {env : Environment}
    {userDirectory path text : String} (h : OnlyFile files env userDirectory path text) :
    filesToLoad files userDirectory (some path) = [path] := by
  have hsystem : ¬files.exists? systemFile = true := Bool.not_eq_true _ ▸ h.noSystemFile
  have huser : ¬files.exists? (userFile userDirectory) = true := Bool.not_eq_true _ ▸ h.noUserFile
  rw [filesToLoad, List.filter_cons_of_neg hsystem, List.filter_cons_of_neg huser]
  rfl

/-- **The document of settings, loaded as the only file, gives the settings.** -/
theorem load_toToml {s : Settings} (h : s.HasTicks) (diagnose : Toml.Diagnosis) {files : FileTree}
    {env : Environment} {userDirectory path : String}
    (honly : OnlyFile files env userDirectory path s.toToml) :
    load diagnose files env userDirectory (some path) = .ok ⟨s, [path], []⟩ := by
  have hfile : ofFile diagnose files path = .ok s := by
    simp only [ofFile, FileTree.readText_eq_ok_iff.mpr honly.holds, ofDocument_toToml h]
  have hlayers : overlayFiles diagnose files standard [path] = .ok s := by
    rw [overlayFiles_cons_ok hfile, standard_overlay]
    rfl
  simp only [load, filesToLoad_of_onlyFile honly, hlayers,
    underEnvironment_of_none s honly.noVariable]

/-! ## 3. Settings in force -/

theorem hasTicks_standard : standard.HasTicks := by
  show 1 ≤ (480 : UInt16).toNat ∧ (480 : UInt16).toNat ≤ 0x7FFF
  decide

theorem HasTicks.overlay {s t : Settings} (hs : s.HasTicks) (ht : t.HasTicks) :
    (s.overlay t).HasTicks := by
  have hticks : (s.overlay t).ticksPerBeat = s.ticksPerBeat ∨
      (s.overlay t).ticksPerBeat = t.ticksPerBeat := by
    show prefer _ s.ticksPerBeat t.ticksPerBeat = _ ∨ prefer _ s.ticksPerBeat t.ticksPerBeat = _
    unfold prefer
    split
    · exact .inl rfl
    · exact .inr rfl
  unfold HasTicks
  rcases hticks with e | e
  · rw [e]
    exact hs
  · rw [e]
    exact ht

/-- What a document gives has ticks: its own if it gives any, else the standard ones. -/
theorem hasTicks_ofDocument {diagnose : Toml.Diagnosis} {path text : String} {s : Settings}
    (h : ofDocument diagnose path text = .ok s) : s.HasTicks := by
  unfold ofDocument at h
  split at h
  · cases h
  · split at h
    · cases h
      exact hasTicks_standard
    · split at h
      · rename_i hticks
        cases h
        exact ticks?_bounds hticks
      · cases h

theorem hasTicks_ofFile {diagnose : Toml.Diagnosis} {files : FileTree} {path : String}
    {s : Settings} (h : ofFile diagnose files path = .ok s) : s.HasTicks := by
  unfold ofFile at h
  split at h
  · cases h
  · exact hasTicks_ofDocument h

/-- Files over settings that have ticks leave settings that have ticks. -/
theorem hasTicks_overlayFiles {diagnose : Toml.Diagnosis} {files : FileTree} {paths : List String}
    {s t : Settings} (hs : s.HasTicks) (h : overlayFiles diagnose files s paths = .ok t) :
    t.HasTicks := by
  induction paths generalizing s with
  | nil =>
    cases h
    exact hs
  | cons path paths ih =>
    cases hfile : ofFile diagnose files path with
    | error e =>
      rw [overlayFiles, List.foldlM_cons, hfile] at h
      cases h
    | ok u =>
      rw [overlayFiles_cons_ok hfile] at h
      exact ih (hs.overlay (hasTicks_ofFile hfile)) h

/-- No variable takes the ticks away: the one that sets them is passed over if it sets none. -/
theorem hasTicks_apply {v : Variable} (hv : v ∈ knownVariables) {value : String} {s t : Settings}
    (hs : s.HasTicks) (h : v.apply value s = some t) : t.HasTicks := by
  simp only [knownVariables, List.mem_cons, List.not_mem_nil, or_false] at hv
  rcases hv with rfl | rfl | rfl | rfl | rfl | rfl
  · cases h
    exact hs
  · cases h
    exact hs
  · obtain ⟨ticks, hticks, rfl⟩ := Option.map_eq_some_iff.mp h
    obtain ⟨n, -, hn⟩ := Option.bind_eq_some_iff.mp hticks
    exact ticks?_bounds hn
  · cases h
    exact hs
  · cases h
    exact hs
  · cases h
    exact hs

theorem hasTicks_override {env : Environment} {o : Overridden} {v : Variable}
    (hv : v ∈ knownVariables) (ho : o.settings.HasTicks) :
    (override env o v).settings.HasTicks := by
  unfold override
  split
  · rename_i hsome
    obtain ⟨value, -, happly⟩ := Option.bind_eq_some_iff.mp hsome
    exact hasTicks_apply hv ho happly
  · exact ho

theorem hasTicks_underEnvironment {env : Environment} {s : Settings} (hs : s.HasTicks) :
    (underEnvironment env s).settings.HasTicks := by
  have hall : ∀ (vs : List Variable) (o : Overridden), (∀ v ∈ vs, v ∈ knownVariables) →
      o.settings.HasTicks → (vs.foldl (override env) o).settings.HasTicks := by
    intro vs
    induction vs with
    | nil => exact fun o _ ho => ho
    | cons v vs ih =>
      intro o hvs ho
      exact ih _ (fun w hw => hvs w (List.mem_cons_of_mem v hw))
        (hasTicks_override (hvs v List.mem_cons_self) ho)
  exact hall knownVariables ⟨s, []⟩ (fun v hv => hv) hs

/-- **Whatever is loaded has a number of ticks that a document can give.** -/
theorem hasTicks_load {diagnose : Toml.Diagnosis} {files : FileTree} {env : Environment}
    {userDirectory : String} {chosen : Option String} {loaded : Loaded}
    (h : load diagnose files env userDirectory chosen = .ok loaded) : loaded.settings.HasTicks := by
  unfold load at h
  split at h
  · cases h
  · rename_i hfiles
    cases h
    exact hasTicks_underEnvironment (hasTicks_overlayFiles hasTicks_standard hfiles)

/-! ## 4. Printing and loading -/

theorem output_perform {a : Command.Arguments} {w : Command.Surroundings} {loaded : Loaded}
    (hprint : a.printConfig)
    (h : load w.diagnose w.files w.environment w.userDirectory a.config = .ok loaded) :
    (Command.perform a w).output = loaded.settings.toToml := by
  simp only [Command.perform, h, hprint, if_true]

/-- **Printed settings read back.** The document of settings with a number of ticks from 1 to 32767,
    whatever their texts hold, gives the settings; and loaded as the chosen file, where nothing else
    is set, it gives them too. So it is with what a run prints as the settings in force, whatever it
    had loaded them from: a run that is given this, and nothing else, has the same settings in force
    and prints the same. -/
theorem printed_settings_read_back :
    (∀ s : Settings, 1 ≤ s.ticksPerBeat.toNat → s.ticksPerBeat.toNat ≤ 32767 →
      (∀ diagnose path, ofDocument diagnose path s.toToml = .ok s) ∧
        ∀ diagnose files env userDirectory path, OnlyFile files env userDirectory path s.toToml →
          load diagnose files env userDirectory (some path) = .ok ⟨s, [path], []⟩) ∧
      ∀ (a : Command.Arguments) (w v : Command.Surroundings) (loaded : Loaded) (path : String),
        a.printConfig →
        load w.diagnose w.files w.environment w.userDirectory a.config = .ok loaded →
        OnlyFile v.files v.environment v.userDirectory path (Command.perform a w).output →
        load v.diagnose v.files v.environment v.userDirectory (some path) =
            .ok ⟨loaded.settings, [path], []⟩ ∧
          (Command.perform { a with config := some path } v).output =
            (Command.perform a w).output := by
  constructor
  · intro s hlow hhigh
    exact ⟨ofDocument_toToml ⟨hlow, hhigh⟩, fun diagnose _ _ _ _ => load_toToml ⟨hlow, hhigh⟩ diagnose⟩
  · intro a w v loaded path hprint hload honly
    have hprinted := output_perform hprint hload
    rw [hprinted] at honly ⊢
    have hagain := load_toToml (hasTicks_load hload) v.diagnose honly
    have hprintedAgain : (Command.perform { a with config := some path } v).output =
        (Loaded.mk loaded.settings [path] []).settings.toToml := output_perform hprint hagain
    exact ⟨hagain, hprintedAgain⟩

/-- Settings whose texts take quotes of every kind. -/
def awkward : Settings where
  instrument := "it's \"C:\\\""
  mode := "\"C:\\x\""
  ticksPerBeat := 32767
  trackName := "'''\n\"\"\"\"\r\x07\x7f\"\""
  logLevel := ""

/-- The file that a text was printed to, and no other. -/
def printedTo (text : String) : FileTree where
  entries := [(["printed.toml"], .file (Midi.utf8 text))]

/-- A run that the environment gives a number of ticks and a level that spans two lines. -/
def givenByEnvironment : Command.Surroundings where
  files := {}
  environment := [("MOJIOTO_TICKS_PER_BEAT", " 96"), ("RUST_LOG", "it's\n\"warn\"")]
  userDirectory := "home"
  input := .ok []
  diagnose := fun _ => ""

/-- The run that finds what another run has printed, and nothing else. -/
def givenByFile : Command.Surroundings where
  files := printedTo (Command.perform { printConfig := true } givenByEnvironment).output
  environment := []
  userDirectory := "home"
  input := .ok []
  diagnose := fun _ => ""

/-- The settings are read from their document and loaded from its file; and what one run had from
    its environment, the next one has from what that run printed. -/
theorem printed_settings_read_back_awkward :
    ofDocument (fun _ => "") "printed.toml" awkward.toToml = .ok awkward ∧
      load (fun _ => "") (printedTo awkward.toToml) [] "home" (some "printed.toml") =
        .ok ⟨awkward, ["printed.toml"], []⟩ ∧
      load givenByFile.diagnose givenByFile.files givenByFile.environment givenByFile.userDirectory
          (some "printed.toml") =
        .ok ⟨{ ticksPerBeat := 96, logLevel := "it's\n\"warn\"" }, ["printed.toml"], []⟩ := by
  have hticks : 1 ≤ awkward.ticksPerBeat.toNat ∧ awkward.ticksPerBeat.toNat ≤ 32767 := by decide
  have honly : ∀ text, OnlyFile (printedTo text) [] "home" "printed.toml" text := fun text =>
    ⟨by rfl, by rfl, by rfl, fun _ _ => rfl⟩
  obtain ⟨hdocument, hload⟩ := printed_settings_read_back.1 awkward hticks.1 hticks.2
  have hgiven : load givenByEnvironment.diagnose {} givenByEnvironment.environment "home" none =
      .ok ⟨{ ticksPerBeat := 96, logLevel := "it's\n\"warn\"" }, [],
        ["MOJIOTO_TICKS_PER_BEAT", "RUST_LOG"]⟩ := by rfl
  have hagain := (printed_settings_read_back.2 { printConfig := true } givenByEnvironment
    givenByFile _ "printed.toml" rfl hgiven (honly _)).1
  exact ⟨hdocument _ "printed.toml", hload _ _ _ _ _ (honly _), hagain⟩

end Settings

end TextMelody
