import TextMelody.Midi.Schedule
import TextMelody.Proofs.Settings.ReadBack

/-!
# When settings do not load

A file of settings has a fault when it cannot be read, is no text, is no TOML document, or gives a
number of ticks that no MIDI file can hold. Nothing else about a file is a fault, and nothing in the
environment is. Settings load exactly where no file has one.

* `Fault`, `fault?_eq_some_iff`: why the file at a path gives no settings;
* `load_eq_error_iff_firstFault`: settings fail to load over the first file with a fault;
* `load_congr`: what is loaded hangs on what is found at the paths that settings come from;
* `load_of_elsewhere`: with a chosen file the one in the working directory is not among them;
* `load_fails_at_first_fault`: **loading fails at the first fault, and what is loaded can be
  played**.
-/

namespace TextMelody

namespace Settings

variable {diagnose : Toml.Diagnosis} {files u : FileTree} {env : Environment}
  {userDirectory path : String} {chosen : Option String} {cause : SettingsError}

/-! ## 1. The fault of a file -/

/-- **What can be wrong with the file of settings at a path.** -/
inductive Fault (diagnose : Toml.Diagnosis) (files : FileTree) (path : String) :
    SettingsError → Prop where
  | unreadable {cause : FileError} (failed : files.read path = .error cause) :
      Fault diagnose files path (.unreadable path cause)
  | notText {bytes : List UInt8} (there : files.read path = .ok bytes)
      (garbled : ¬FileTree.IsText bytes) :
      Fault diagnose files path (.unreadable path .notText)
  | malformed {text : String} (there : files.read path = .ok (Midi.utf8 text))
      (noToml : Toml.read? text = none) :
      Fault diagnose files path (.malformed path (diagnose text))
  /-- The table `midi` has a whole number under `ticks_per_beat`, and it is out of range. -/
  | badTicks {text : String} {document : Toml.Entries} {n : Int}
      (there : files.read path = .ok (Midi.utf8 text)) (toml : Toml.read? text = some document)
      (given : lookup document "midi" "ticks_per_beat" = some (.scalar (.integer n)))
      (impossible : n < 1 ∨ 32767 < n) :
      Fault diagnose files path (.badTicks path n)

/-- **The first fault along a list of files**: the fault of one of them, and those before it have
    none. -/
def FirstFault (diagnose : Toml.Diagnosis) (files : FileTree) (paths : List String)
    (cause : SettingsError) : Prop :=
  ∃ front path back, paths = front ++ path :: back ∧ Fault diagnose files path cause ∧
    ∀ earlier ∈ front, ∀ other, ¬Fault diagnose files earlier other

/-- Why the file at a path gives no settings, if it gives none. -/
def fault? (diagnose : Toml.Diagnosis) (files : FileTree) (path : String) :
    Option SettingsError :=
  match ofFile diagnose files path with
  | .ok _ => none
  | .error cause => some cause

theorem ticks?_eq_none_iff {n : Int} : ticks? n = none ↔ n < 1 ∨ 32767 < n := by
  rw [ticks?, ite_eq_right_iff]
  simp only [reduceCtorEq, imp_false]
  omega

theorem givenTicks?_eq_some_iff {document : Toml.Entries} {n : Int} :
    givenTicks? document = some n ↔
      lookup document "midi" "ticks_per_beat" = some (.scalar (.integer n)) := by
  have hinteger : ∀ v : Toml.Value, v.integer? = some n ↔ v = .scalar (.integer n) := by
    intro v
    unfold Toml.Value.integer?
    split
    · simp
    · rename_i hother
      simp only [reduceCtorEq, false_iff]
      exact hother n
  simp only [givenTicks?, Option.bind_eq_some_iff, hinteger, exists_eq_right]

theorem ofDocument_eq_error_iff {text : String} :
    ofDocument diagnose path text = .error cause ↔
      Toml.read? text = none ∧ cause = .malformed path (diagnose text) ∨
        ∃ document n, Toml.read? text = some document ∧ givenTicks? document = some n ∧
          ticks? n = none ∧ cause = .badTicks path n := by
  unfold ofDocument
  split
  · rename_i htoml
    simp [htoml, eq_comm]
  · rename_i document htoml
    split
    · rename_i hgiven
      simp [htoml, hgiven]
    · rename_i n hgiven
      split
      · rename_i ticks hticks
        simp [htoml, hgiven, hticks]
      · rename_i hticks
        simp [htoml, hgiven, hticks, eq_comm]

theorem ofFile_eq_error_iff :
    ofFile diagnose files path = .error cause ↔ Fault diagnose files path cause := by
  constructor
  · intro h
    unfold ofFile at h
    split at h
    · rename_i failure hread
      cases h
      rcases FileTree.readText_eq_error_iff.mp hread with hfailed | ⟨rfl, bytes, hthere, hgarbled⟩
      · exact .unreadable hfailed
      · exact .notText hthere hgarbled
    · rename_i text hread
      have hthere := FileTree.readText_eq_ok_iff.mp hread
      rcases ofDocument_eq_error_iff.mp h with
        ⟨hnone, rfl⟩ | ⟨document, n, htoml, hgiven, hticks, rfl⟩
      · exact .malformed hthere hnone
      · exact .badTicks hthere htoml (givenTicks?_eq_some_iff.mp hgiven)
          (ticks?_eq_none_iff.mp hticks)
  · intro h
    cases h with
    | unreadable failed =>
      simp only [ofFile, FileTree.readText_eq_error_iff.mpr (.inl failed)]
    | notText there garbled =>
      simp only [ofFile, FileTree.readText_eq_error_iff.mpr (.inr ⟨rfl, _, there, garbled⟩)]
    | malformed there noToml =>
      simp only [ofFile, FileTree.readText_eq_ok_iff.mpr there]
      exact ofDocument_eq_error_iff.mpr (.inl ⟨noToml, rfl⟩)
    | badTicks there toml given impossible =>
      simp only [ofFile, FileTree.readText_eq_ok_iff.mpr there]
      exact ofDocument_eq_error_iff.mpr (.inr ⟨_, _, toml, givenTicks?_eq_some_iff.mpr given,
        ticks?_eq_none_iff.mpr impossible, rfl⟩)

/-- **Why the file at a path gives no settings.** -/
theorem fault?_eq_some_iff :
    fault? diagnose files path = some cause ↔ Fault diagnose files path cause := by
  rw [← ofFile_eq_error_iff, fault?]
  split
  · rename_i s hfile
    simp [hfile]
  · rename_i other hfile
    rw [hfile, Option.some.injEq, Except.error.injEq]

theorem fault?_eq_none_iff :
    fault? diagnose files path = none ↔ ∀ cause, ¬Fault diagnose files path cause := by
  simp only [Option.eq_none_iff_forall_ne_some, ne_eq, fault?_eq_some_iff]

/-! ## 2. Settings that do not load -/

theorem overlayFiles_eq_error_iff {s : Settings} {paths : List String} :
    overlayFiles diagnose files s paths = .error cause ↔
      paths.findSome? (fault? diagnose files) = some cause := by
  induction paths generalizing s with
  | nil =>
    show Except.ok s = Except.error cause ↔ none = some cause
    simp
  | cons path paths ih =>
    cases hfile : ofFile diagnose files path with
    | ok t =>
      have hfault : fault? diagnose files path = none := by rw [fault?, hfile]
      -- What the files are laid over does not matter, so the rest fails over the same file.
      rw [overlayFiles_cons_ok hfile, List.findSome?_cons, hfault]
      exact ih
    | error other =>
      have hfault : fault? diagnose files path = some other := by rw [fault?, hfile]
      rw [overlayFiles, List.foldlM_cons, hfile, List.findSome?_cons, hfault]
      show Except.error other = Except.error cause ↔ some other = some cause
      rw [Except.error.injEq, Option.some.injEq]

/-- **Settings fail to load over the first file with a fault.** The environment makes none. -/
theorem load_eq_error_iff :
    load diagnose files env userDirectory chosen = .error cause ↔
      (filesToLoad files userDirectory chosen).findSome? (fault? diagnose files) =
        some cause := by
  rw [← overlayFiles_eq_error_iff (s := standard), load]
  split
  · rename_i other h
    rw [h, Except.error.injEq, Except.error.injEq]
  · rename_i h
    rw [h]
    simp

theorem load_eq_error_iff_firstFault :
    load diagnose files env userDirectory chosen = .error cause ↔
      FirstFault diagnose files (filesToLoad files userDirectory chosen) cause := by
  simp only [load_eq_error_iff, FirstFault, List.findSome?_eq_some_iff, fault?_eq_some_iff,
    fault?_eq_none_iff]

theorem exists_load_eq_error_iff :
    (∃ cause, load diagnose files env userDirectory chosen = .error cause) ↔
      ∃ path ∈ filesToLoad files userDirectory chosen, ∃ cause,
        Fault diagnose files path cause := by
  simp only [load_eq_error_iff, ← fault?_eq_some_iff, ← Option.isSome_iff_exists,
    List.findSome?_isSome_iff]

theorem files_of_load {loaded : Loaded}
    (h : load diagnose files env userDirectory chosen = .ok loaded) :
    loaded.files = filesToLoad files userDirectory chosen := by
  unfold load at h
  split at h
  · cases h
  · cases h
    rfl

/-! ## 3. What is loaded with a chosen file -/

theorem ofFile_congr (h : u.read path = files.read path) :
    ofFile diagnose u path = ofFile diagnose files path := by
  simp only [ofFile, FileTree.readText, h]

theorem overlayFiles_congr {s : Settings} {paths : List String}
    (h : ∀ path ∈ paths, u.read path = files.read path) :
    overlayFiles diagnose u s paths = overlayFiles diagnose files s paths := by
  induction paths generalizing s with
  | nil => rfl
  | cons path paths ih =>
    obtain ⟨hpath, hpaths⟩ := List.forall_mem_cons.mp h
    have hfile : ofFile diagnose u path = ofFile diagnose files path := ofFile_congr hpath
    cases hto : ofFile diagnose files path with
    | ok t =>
      rw [overlayFiles_cons_ok (hfile.trans hto), overlayFiles_cons_ok hto]
      exact ih hpaths
    | error other =>
      rw [overlayFiles, overlayFiles, List.foldlM_cons, List.foldlM_cons, hfile, hto]
      rfl

/-- The files of settings for all users and for the user. -/
def sharedFiles (userDirectory : String) : List String :=
  [systemFile, userFile userDirectory]

theorem filesToLoad_chosen (files : FileTree) (userDirectory path : String) :
    filesToLoad files userDirectory (some path) =
      (sharedFiles userDirectory).filter files.exists? ++ [path] := rfl

/-- **What is loaded with a chosen file hangs on what is found at its path and at the shared
    ones.** -/
theorem load_congr (hshared : ∀ p ∈ sharedFiles userDirectory,
      u.exists? p = files.exists? p ∧ u.read p = files.read p)
    (hpath : u.read path = files.read path) :
    load diagnose u env userDirectory (some path) =
      load diagnose files env userDirectory (some path) := by
  have hpaths : filesToLoad u userDirectory (some path) =
      filesToLoad files userDirectory (some path) := by
    rw [filesToLoad_chosen, filesToLoad_chosen,
      List.filter_congr fun p hp => (hshared p hp).1]
  have hreads : ∀ p ∈ filesToLoad files userDirectory (some path),
      u.read p = files.read p := by
    intro p hp
    rw [filesToLoad_chosen, List.mem_append, List.mem_filter, List.mem_singleton] at hp
    rcases hp with ⟨hp, -⟩ | rfl
    · exact (hshared p hp).2
    · exact hpath
  simp only [load, hpaths, overlayFiles_congr hreads]

/-- The place of the file of settings in the working directory. -/
theorem resolve_localFile (files : FileTree) : files.resolve localFile = .ok [localFile] := rfl

/-- **With a chosen file the one in the working directory has no influence**, unless a path to
    another file of settings passes it. -/
theorem load_of_elsewhere (hsame : ∀ q, files.resolve localFile ≠ .ok q → u.find? q = files.find? q)
    (hpasses : ∀ p ∈ [userFile userDirectory, path], ∀ q ∈ Place.passed p,
      files.resolve localFile ≠ .ok q) :
    load diagnose u env userDirectory (some path) =
      load diagnose files env userDirectory (some path) := by
  have hsystem : ∀ q ∈ Place.passed systemFile, u.find? q = files.find? q := by
    intro q hq
    refine hsame q ?_
    rw [resolve_localFile, ne_eq, Except.ok.injEq]
    rintro rfl
    have hnot : [localFile] ∉ Place.passed systemFile := by decide +kernel
    exact hnot hq
  have hother : ∀ p ∈ [userFile userDirectory, path], ∀ q ∈ Place.passed p,
      u.find? q = files.find? q :=
    fun p hp q hq => hsame q (hpasses p hp q hq)
  refine load_congr ?_ (FileTree.read_congr (hother path (by simp)))
  intro p hp
  have hfinds : ∀ q ∈ Place.passed p, u.find? q = files.find? q := by
    simp only [sharedFiles, List.mem_cons, List.not_mem_nil, or_false] at hp
    rcases hp with rfl | rfl
    · exact hsystem
    · exact hother _ (by simp)
  exact ⟨FileTree.exists?_congr hfinds, FileTree.read_congr hfinds⟩

/-! ## 4. Loading -/

/-- A TOML document without a whole number of ticks that is out of range has no fault, whatever else
    it gives. -/
theorem not_fault_of_document {text : String} {document : Toml.Entries}
    (there : files.read path = .ok (Midi.utf8 text)) (toml : Toml.read? text = some document)
    (hticks : ∀ n, lookup document "midi" "ticks_per_beat" = some (.scalar (.integer n)) →
      1 ≤ n ∧ n ≤ 32767) : ¬Fault diagnose files path cause := by
  have hone : ∀ other, files.read path = .ok (Midi.utf8 other) → other = text :=
    fun other hother => Midi.utf8_injective (Except.ok.inj (hother.symm.trans there))
  intro h
  cases h with
  | unreadable failed => cases failed.symm.trans there
  | notText hbytes garbled =>
    cases hbytes.symm.trans there
    exact garbled ⟨text, rfl⟩
  | malformed hother noToml =>
    rw [hone _ hother, toml] at noToml
    cases noToml
  | badTicks hother htoml given impossible =>
    rw [hone _ hother, toml] at htoml
    cases htoml
    have hrange := hticks _ given
    omega

/-- The ticks of settings that are loaded are those of a MIDI file with these settings. -/
theorem resolution_of_load {loaded : Loaded}
    (h : load diagnose files env userDirectory chosen = .ok loaded) {params : Midi.Params}
    (hparams : params.ticksPerBeat = loaded.settings.ticksPerBeat) :
    params.resolution = loaded.settings.ticksPerBeat := by
  obtain ⟨hlow, hhigh⟩ := hasTicks_load h
  rw [← hparams] at hlow hhigh ⊢
  exact Midi.resolution_eq (UInt16.le_iff_toNat_le.mpr hlow)
    (UInt16.le_iff_toNat_le.mpr hhigh)

/-- **Loading fails at the first fault, and what is loaded can be played.** Settings fail to load
    exactly when one of the files that they come from has a fault, and they fail over the first
    one. The environment changes nothing about that, and neither do other keys or values of another
    type. What is loaded names its files and has a number of ticks that a MIDI file holds as it is.
    With a chosen file only the shared files count beside it, and what is in the working directory
    under the usual name has no influence unless a path to one of them passes it. -/
theorem load_fails_at_first_fault (diagnose : Toml.Diagnosis) (files : FileTree)
    (env : Environment) (userDirectory : String) :
    (∀ chosen,
      (∀ cause, load diagnose files env userDirectory chosen = .error cause ↔
        FirstFault diagnose files (filesToLoad files userDirectory chosen) cause) ∧
      ((∃ cause, load diagnose files env userDirectory chosen = .error cause) ↔
        ∃ path ∈ filesToLoad files userDirectory chosen, ∃ cause,
          Fault diagnose files path cause) ∧
      (∀ other cause, load diagnose files other userDirectory chosen = .error cause ↔
        load diagnose files env userDirectory chosen = .error cause) ∧
      ∀ loaded, load diagnose files env userDirectory chosen = .ok loaded →
        (1 ≤ loaded.settings.ticksPerBeat.toNat ∧
          loaded.settings.ticksPerBeat.toNat ≤ 32767) ∧
        (∀ params : Midi.Params, params.ticksPerBeat = loaded.settings.ticksPerBeat →
          params.resolution = loaded.settings.ticksPerBeat) ∧
        loaded.files = filesToLoad files userDirectory chosen) ∧
    (∀ path text document, files.read path = .ok (Midi.utf8 text) →
      Toml.read? text = some document →
      (∀ n, lookup document "midi" "ticks_per_beat" = some (.scalar (.integer n)) →
        1 ≤ n ∧ n ≤ 32767) → ∀ cause, ¬Fault diagnose files path cause) ∧
    ∀ path,
      filesToLoad files userDirectory (some path) =
        (sharedFiles userDirectory).filter files.exists? ++ [path] ∧
      (∀ u : FileTree, (∀ p ∈ sharedFiles userDirectory,
          u.exists? p = files.exists? p ∧ u.read p = files.read p) →
        u.read path = files.read path →
        load diagnose u env userDirectory (some path) =
          load diagnose files env userDirectory (some path)) ∧
      ∀ u : FileTree, (∀ q, files.resolve localFile ≠ .ok q → u.find? q = files.find? q) →
        (∀ p ∈ [userFile userDirectory, path], ∀ q ∈ Place.passed p,
          files.resolve localFile ≠ .ok q) →
        load diagnose u env userDirectory (some path) =
          load diagnose files env userDirectory (some path) := by
  refine ⟨fun chosen => ⟨?_, exists_load_eq_error_iff, ?_, ?_⟩, ?_, fun path => ⟨?_, ?_, ?_⟩⟩
  · exact fun cause => load_eq_error_iff_firstFault
  · intro other cause
    rw [load_eq_error_iff, load_eq_error_iff]
  · intro loaded hload
    exact ⟨hasTicks_load hload, fun params => resolution_of_load hload, files_of_load hload⟩
  · exact fun path text document there toml hticks cause => not_fault_of_document there toml hticks
  · exact filesToLoad_chosen files userDirectory path
  · exact fun u => load_congr
  · exact fun u => load_of_elsewhere

/-- The files of a user who plays the strings, beside a file with a number of ticks. -/
def finerStrings : FileTree where
  entries :=
    [(["xdg"], .directory), (["xdg", "mojioto"], .directory),
      (["xdg", "mojioto", "config.toml"],
        .file (Midi.utf8 "[defaults]\ninstrument = \"strings\"\nmode = 3\n")),
      (["finer.toml"], .file (Midi.utf8 "[midi]\nticks_per_beat = 960\n"))]

/-- The same with a file in the working directory that is no TOML document. -/
def besideBroken : FileTree :=
  finerStrings.put [localFile] (.file (Midi.utf8 "[midi\n"))

/-- What is said of a line that opens a table and does not end. -/
def openHeader : Toml.Diagnosis := fun text =>
  "TOML parse error at line 1, column 6\n  |\n1 | " ++ text ++
    "  |      ^\ninvalid table header\nexpected `.`, `]`\n"

/-- A number of ticks that is no number. -/
def withoutTicks : Environment :=
  [("MOJIOTO_TICKS_PER_BEAT", "lots")]

/-- Settings fail to load over the broken file, and with another file chosen they load as if it were
    not there. -/
theorem load_fails_at_first_fault_beside_broken :
    load openHeader besideBroken withoutTicks "xdg" none =
        .error (.malformed "mojioto.toml" (openHeader "[midi\n")) ∧
      load openHeader besideBroken withoutTicks "xdg" (some "finer.toml") =
        .ok ⟨{ instrument := "strings", ticksPerBeat := 960 },
          ["xdg/mojioto/config.toml", "finer.toml"], []⟩ ∧
      (Midi.Params.mk 960 0 "").resolution = 960 := by
  have hchosen : load openHeader finerStrings withoutTicks "xdg" (some "finer.toml") =
      .ok ⟨{ instrument := "strings", ticksPerBeat := 960 },
        ["xdg/mojioto/config.toml", "finer.toml"], []⟩ := by
    have hfound : (load openHeader finerStrings withoutTicks "xdg" (some "finer.toml")).toOption =
        some ⟨{ instrument := "strings", ticksPerBeat := 960 },
          ["xdg/mojioto/config.toml", "finer.toml"], []⟩ := by decide +kernel
    cases hload : load openHeader finerStrings withoutTicks "xdg" (some "finer.toml") with
    | error cause =>
      rw [hload] at hfound
      cases hfound
    | ok loaded =>
      rw [hload] at hfound
      exact congrArg Except.ok (Option.some.inj hfound)
  have hpaths : filesToLoad besideBroken "xdg" none =
      ["xdg/mojioto/config.toml"] ++ ["mojioto.toml"] := by decide +kernel
  have hbroken : Fault openHeader besideBroken "mojioto.toml"
      (.malformed "mojioto.toml" (openHeader "[midi\n")) :=
    .malformed rfl (by decide +kernel)
  have hfine : fault? openHeader besideBroken "xdg/mojioto/config.toml" = none := by decide +kernel
  have hsame : ∀ q, finerStrings.resolve localFile ≠ .ok q →
      besideBroken.find? q = finerStrings.find? q := by
    intro q hq
    refine FileTree.find?_put_of_ne ?_
    rintro rfl
    exact hq (resolve_localFile finerStrings)
  have hbeside : ∀ p ∈ [userFile "xdg", "finer.toml"], [localFile] ∉ Place.passed p := by
    decide +kernel
  have hpasses : ∀ p ∈ [userFile "xdg", "finer.toml"], ∀ q ∈ Place.passed p,
      finerStrings.resolve localFile ≠ .ok q := by
    intro p hp q hq hto
    cases (resolve_localFile finerStrings).symm.trans hto
    exact hbeside p hp hq
  refine ⟨?_, ?_, ?_⟩
  · obtain ⟨hfails, -⟩ :=
      (load_fails_at_first_fault openHeader besideBroken withoutTicks "xdg").1 none
    refine (hfails _).mpr ⟨_, _, _, hpaths, hbroken, ?_⟩
    intro earlier hearlier
    rw [List.mem_singleton.mp hearlier]
    exact fault?_eq_none_iff.mp hfine
  · obtain ⟨-, -, hcongr⟩ :=
      (load_fails_at_first_fault openHeader finerStrings withoutTicks "xdg").2.2 "finer.toml"
    rw [hcongr besideBroken hsame hpasses, hchosen]
  · obtain ⟨-, -, -, hloaded⟩ :=
      (load_fails_at_first_fault openHeader finerStrings withoutTicks "xdg").1 (some "finer.toml")
    exact (hloaded _ hchosen).2.1 ⟨960, 0, ""⟩ rfl

end Settings

end TextMelody
