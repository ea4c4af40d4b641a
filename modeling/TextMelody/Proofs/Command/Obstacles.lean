import TextMelody.Proofs.Command.Delivery
import TextMelody.Proofs.Command.Reports
import TextMelody.Proofs.FileTree
import TextMelody.Proofs.Settings.Faults

/-!
# What stops a run before it prints anything

Several things can stand in the way of a run at once: a file of settings that cannot be used, the
name of an instrument or of a mode that is not known, a text that cannot be read. `Obstacle` says
what they are, each from what the run finds and whatever else is wrong: a name that a flag gives can
be unknown where the settings do not even load. A run is stopped by the first of its obstacles, in
the order of `Failure.stage`.

* `load_eq_error_iff`, `chooseInstrument_eq_error_iff`, `chooseMode_eq_error_iff`,
  `readText_eq_error_iff`: each part of a run fails for the obstacle to it;
* `Obstacle.eq_of_stage_eq`: to each part there is one obstacle at most;
* `FailsFrom.bind`: parts that are done in turn fail for the first obstacle to any of them;
* `perform_cases`: a run fails for its first obstacle, or has none and delivers;
* `run_stops_at_first_obstacle`: **the first obstacle is reported, and nothing else happens**.
-/

namespace TextMelody

namespace Command

variable {a : Arguments} {w : Surroundings} {f g : Failure} {loaded : Settings.Loaded}

/-! ## 1. Obstacles -/

/-- The settings that a run finds. -/
def Surroundings.load (w : Surroundings) (a : Arguments) :
    Except SettingsError Settings.Loaded :=
  Settings.load w.diagnose w.files w.environment w.userDirectory a.config

/-- The name that counts: that of the flag, or else that of the settings if they load. -/
def effective? (flag : Option String) (field : Settings → String)
    (found : Except SettingsError Settings.Loaded) : Option String :=
  flag.or (found.toOption.map (field ·.settings))

/-- What a run has to convert, as bytes: those of the file, or of the standard input. -/
def inputBytes (a : Arguments) (w : Surroundings) : Except FileError (List UInt8) :=
  match a.file with
  | some path => w.files.read path
  | none => w.input

/-- **What can stand in the way of a run.** -/
inductive Obstacle (a : Arguments) (w : Surroundings) : Failure → Prop where
  /-- One of the files of settings has a fault, and those before it have none. -/
  | settings {cause : SettingsError}
      (fault : (Settings.filesToLoad w.files w.userDirectory a.config).findSome?
        (Settings.fault? w.diagnose w.files) = some cause) :
      Obstacle a w (.settings cause)
  | unknownInstrument {name : String}
      (named : effective? a.instrument Settings.instrument (w.load a) = some name)
      (unknown : Instrument.ofName? name = none) :
      Obstacle a w (.unknownInstrument name)
  | unknownMode {name : String} (named : effective? a.mode Settings.mode (w.load a) = some name)
      (unknown : Mode.ofName? name = none) :
      Obstacle a w (.unknownMode name)
  | fileNotFound {path : String} (named : a.file = some path)
      (missing : w.files.read path = .error .notFound) :
      Obstacle a w (.fileNotFound path)
  | fileUnreadable {path : String} {cause : FileError} (named : a.file = some path)
      (failed : w.files.read path = .error cause) (other : cause ≠ .notFound) :
      Obstacle a w (.fileUnreadable path cause)
  | fileNotText {path : String} {bytes : List UInt8} (named : a.file = some path)
      (there : w.files.read path = .ok bytes) (garbled : ¬FileTree.IsText bytes) :
      Obstacle a w (.fileNotText path)
  | inputUnreadable {cause : FileError} (unnamed : a.file = none)
      (failed : w.input = .error cause) :
      Obstacle a w (.inputUnreadable cause)
  | inputNotText {bytes : List UInt8} (unnamed : a.file = none) (there : w.input = .ok bytes)
      (garbled : ¬FileTree.IsText bytes) :
      Obstacle a w (.inputUnreadable .notText)

/-- **The first obstacle of a run**: every other one is to a later part. -/
structure IsFirst (a : Arguments) (w : Surroundings) (f : Failure) : Prop where
  stands : Obstacle a w f
  first : ∀ g, Obstacle a w g → f = g ∨ f.stage < g.stage

/-! ## 2. Each part of a run fails for its obstacle -/

theorem load_eq_error_iff {cause : SettingsError} :
    w.load a = .error cause ↔ Obstacle a w (.settings cause) := by
  rw [Surroundings.load, Settings.load_eq_error_iff]
  constructor
  · exact .settings
  · rintro (h : Obstacle a w (.settings cause))
    cases h with
    | settings fault => exact fault

theorem effective?_of_load (h : w.load a = .ok loaded) (flag : Option String)
    (field : Settings → String) :
    effective? flag field (w.load a) = some (flag.getD (field loaded.settings)) := by
  rw [h]
  cases flag with
  | none => rfl
  | some name => rfl

/-- Where a flag gives a name that is known, the name that counts is known. -/
theorem isSome_of_effective? {α : Type} {ofName? : String → Option α} {flag : Option String}
    {field : Settings → String} {found : Except SettingsError Settings.Loaded} {name : String}
    (hknown : (flag.bind ofName?).isSome) (h : effective? flag field found = some name) :
    (ofName? name).isSome := by
  cases flag with
  | none => cases hknown
  | some given =>
    cases h
    exact hknown

/-- What a name stands for, or a failure about the name. -/
def known {α : Type} (ofName? : String → Option α) (failure : String → Failure) (name : String) :
    Except Failure α :=
  match ofName? name with
  | some v => .ok v
  | none => .error (failure name)

theorem chooseInstrument_eq (a : Arguments) (s : Settings) :
    chooseInstrument a s =
      known Instrument.ofName? .unknownInstrument (a.instrument.getD s.instrument) := by
  simp only [chooseInstrument, known]
  cases Instrument.ofName? (a.instrument.getD s.instrument) <;> rfl

theorem chooseMode_eq (a : Arguments) (s : Settings) :
    chooseMode a s = known Mode.ofName? .unknownMode (a.mode.getD s.mode) := by
  simp only [chooseMode, known]
  cases Mode.ofName? (a.mode.getD s.mode) <;> rfl

section Known

variable {α : Type} {ofName? : String → Option α} {failure : String → Failure} {name : String}

theorem known_eq_ok_iff {v : α} : known ofName? failure name = .ok v ↔ ofName? name = some v := by
  unfold known
  split <;> simp [*]

theorem known_eq_error_iff :
    known ofName? failure name = .error f ↔ ofName? name = none ∧ f = failure name := by
  unfold known
  split <;> simp [*, eq_comm]

end Known

theorem chooseInstrument_eq_error_iff (h : w.load a = .ok loaded) :
    chooseInstrument a loaded.settings = .error f ↔ Obstacle a w f ∧ f.stage = 1 := by
  have hname := effective?_of_load h a.instrument Settings.instrument
  rw [chooseInstrument_eq, known_eq_error_iff]
  constructor
  · rintro ⟨hunknown, rfl⟩
    exact ⟨.unknownInstrument hname hunknown, rfl⟩
  · rintro ⟨hstands, hstage⟩
    cases hstands with
    | unknownInstrument named unknown =>
      obtain rfl := Option.some.inj (hname.symm.trans named)
      exact ⟨unknown, rfl⟩
    | _ => cases hstage

theorem chooseMode_eq_error_iff (h : w.load a = .ok loaded) :
    chooseMode a loaded.settings = .error f ↔ Obstacle a w f ∧ f.stage = 2 := by
  have hname := effective?_of_load h a.mode Settings.mode
  rw [chooseMode_eq, known_eq_error_iff]
  constructor
  · rintro ⟨hunknown, rfl⟩
    exact ⟨.unknownMode hname hunknown, rfl⟩
  · rintro ⟨hstands, hstage⟩
    cases hstands with
    | unknownMode named unknown =>
      obtain rfl := Option.some.inj (hname.symm.trans named)
      exact ⟨unknown, rfl⟩
    | _ => cases hstage

/-- What a run fails for when the file at a path gives no text. -/
def fileFailure (path : String) : FileError → Failure
  | .notFound => .fileNotFound path
  | .notText => .fileNotText path
  | cause => .fileUnreadable path cause

theorem fileFailure_of_ne {path : String} {cause : FileError} (hfound : cause ≠ .notFound)
    (htext : cause ≠ .notText) : fileFailure path cause = .fileUnreadable path cause := by
  cases cause with
  | notFound => exact absurd rfl hfound
  | notText => exact absurd rfl htext
  | _ => rfl

theorem readText_of_file {path : String} (h : a.file = some path) :
    readText a w = (w.files.readText path).mapError (fileFailure path) := by
  simp only [readText, h]
  cases w.files.readText path with
  | ok text => rfl
  | error cause => cases cause <;> rfl

theorem readText_of_input (h : a.file = none) :
    readText a w = (w.input.bind FileTree.decode).mapError .inputUnreadable := by
  simp only [readText, h]
  cases w.input.bind FileTree.decode <;> rfl

theorem mapError_eq_ok_iff {ε ε' α : Type} {x : Except ε α} {k : ε → ε'} {v : α} :
    x.mapError k = .ok v ↔ x = .ok v := by
  cases x with
  | ok u =>
    show Except.ok u = Except.ok v ↔ _
    simp
  | error cause =>
    show Except.error (k cause) = Except.ok v ↔ _
    simp

theorem mapError_eq_error_iff {ε ε' α : Type} {x : Except ε α} {k : ε → ε'} {e : ε'} :
    x.mapError k = .error e ↔ ∃ cause, x = .error cause ∧ k cause = e := by
  cases x with
  | ok u =>
    show Except.ok u = Except.error e ↔ _
    simp
  | error cause =>
    show Except.error (k cause) = Except.error e ↔ _
    simp

theorem readText_eq_ok_iff {text : String} :
    readText a w = .ok text ↔ inputBytes a w = .ok (Midi.utf8 text) := by
  unfold inputBytes
  cases hfile : a.file with
  | some path =>
    rw [readText_of_file hfile, mapError_eq_ok_iff]
    exact FileTree.readText_eq_ok_iff
  | none =>
    rw [readText_of_input hfile, mapError_eq_ok_iff, FileTree.bind_decode_eq_ok_iff]

theorem readText_eq_error_iff : readText a w = .error f ↔ Obstacle a w f ∧ f.stage = 3 := by
  constructor
  · intro h
    cases hfile : a.file with
    | some path =>
      rw [readText_of_file hfile, mapError_eq_error_iff] at h
      obtain ⟨cause, hcause, rfl⟩ := h
      rcases FileTree.readText_eq_error_iff.mp hcause with hread | ⟨rfl, bytes, hread, hgarbled⟩
      · -- A read never fails over what a file holds, so nothing else is taken for garbled text.
        by_cases hfound : cause = .notFound
        · subst hfound
          exact ⟨.fileNotFound hfile hread, rfl⟩
        · have htext : cause ≠ .notText := by
            rintro rfl
            exact FileTree.read_ne_notText _ _ hread
          rw [fileFailure_of_ne hfound htext]
          exact ⟨.fileUnreadable hfile hread hfound, rfl⟩
      · exact ⟨.fileNotText hfile hread hgarbled, rfl⟩
    | none =>
      rw [readText_of_input hfile, mapError_eq_error_iff] at h
      obtain ⟨cause, hcause, rfl⟩ := h
      rcases FileTree.bind_decode_eq_error_iff.mp hcause with hinput | ⟨rfl, bytes, hthere, hgarbled⟩
      · exact ⟨.inputUnreadable hfile hinput, rfl⟩
      · exact ⟨.inputNotText hfile hthere hgarbled, rfl⟩
  · rintro ⟨hstands, hstage⟩
    cases hstands with
    | fileNotFound named missing =>
      rw [readText_of_file named, mapError_eq_error_iff]
      exact ⟨_, FileTree.readText_eq_error_iff.mpr (.inl missing), rfl⟩
    | @fileUnreadable path cause named failed other =>
      have htext : cause ≠ .notText := by
        rintro rfl
        exact FileTree.read_ne_notText _ _ failed
      rw [readText_of_file named, mapError_eq_error_iff]
      exact ⟨_, FileTree.readText_eq_error_iff.mpr (.inl failed), fileFailure_of_ne other htext⟩
    | fileNotText named there garbled =>
      rw [readText_of_file named, mapError_eq_error_iff]
      exact ⟨_, FileTree.readText_eq_error_iff.mpr (.inr ⟨rfl, _, there, garbled⟩), rfl⟩
    | inputUnreadable unnamed failed =>
      rw [readText_of_input unnamed, mapError_eq_error_iff]
      exact ⟨_, FileTree.bind_decode_eq_error_iff.mpr (.inl failed), rfl⟩
    | inputNotText unnamed there garbled =>
      rw [readText_of_input unnamed, mapError_eq_error_iff]
      exact ⟨_, FileTree.bind_decode_eq_error_iff.mpr (.inr ⟨rfl, _, there, garbled⟩), rfl⟩
    | _ => cases hstage

/-! ## 3. The first obstacle -/

/-- **To each part of a run there is one obstacle at most.** -/
theorem Obstacle.eq_of_stage_eq (hf : Obstacle a w f) (hg : Obstacle a w g)
    (h : f.stage = g.stage) : f = g := by
  by_cases hinput : g.stage = 3
  · -- A text that cannot be read has several forms of obstacle, but it is read in one way.
    have hfread := readText_eq_error_iff.mpr ⟨hf, h.trans hinput⟩
    have hgread := readText_eq_error_iff.mpr ⟨hg, hinput⟩
    exact Except.error.inj (hfread.symm.trans hgread)
  · cases hf with
    | settings fault =>
      cases hg with
      | settings other => rw [Option.some.inj (fault.symm.trans other)]
      | _ => cases h
    | unknownInstrument named _ =>
      cases hg with
      | unknownInstrument other _ => rw [Option.some.inj (named.symm.trans other)]
      | _ => cases h
    | unknownMode named _ =>
      cases hg with
      | unknownMode other _ => rw [Option.some.inj (named.symm.trans other)]
      | _ => cases h
    | _ => exact absurd h.symm hinput

theorem Obstacle.stage_lt (h : Obstacle a w f) : f.stage < 4 := by
  cases h <;> simp [Failure.stage]

/-- **Fails for the first obstacle from a stage on**, and only if there is one. -/
structure FailsFrom {α : Type} (a : Arguments) (w : Surroundings) (n : Nat)
    (x : Except Failure α) : Prop where
  error : ∀ f, x = .error f → Obstacle a w f ∧ n ≤ f.stage ∧
    ∀ g, Obstacle a w g → n ≤ g.stage → f.stage ≤ g.stage
  ok : ∀ v, x = .ok v → ∀ g, Obstacle a w g → g.stage < n

/-- There are no obstacles after the last part. -/
theorem FailsFrom.done {α : Type} (v : α) : FailsFrom a w 4 (.ok v) where
  error _ h := nomatch h
  ok _ _ _ hg := hg.stage_lt

/-- One part of a run, and what comes after it. -/
theorem FailsFrom.bind {α β : Type} {n : Nat} {x : Except Failure α} {k : α → Except Failure β}
    (hx : ∀ f, x = .error f ↔ Obstacle a w f ∧ f.stage = n)
    (hk : ∀ v, FailsFrom a w (n + 1) (k v)) : FailsFrom a w n (x >>= k) := by
  cases x with
  | error f =>
    obtain ⟨hf, hstage⟩ := (hx f).mp rfl
    constructor
    · rintro _ ⟨⟩
      exact ⟨hf, Nat.le_of_eq hstage.symm, fun g _ hn => hstage ▸ hn⟩
    · exact fun _ h => nomatch h
  | ok v =>
    -- This part is done, so its stage is without an obstacle and the first one comes later.
    have hpassed : ∀ g, Obstacle a w g → g.stage ≠ n := fun g hg hstage =>
      nomatch (hx g).mpr ⟨hg, hstage⟩
    constructor
    · intro f hf
      obtain ⟨hstands, hle, hfirst⟩ := (hk v).error f hf
      refine ⟨hstands, Nat.le_of_succ_le hle, fun g hg hn => hfirst g hg ?_⟩
      exact Nat.lt_of_le_of_ne hn (hpassed g hg).symm
    · intro u hu g hg
      exact Nat.lt_of_le_of_ne (Nat.le_of_lt_succ ((hk v).ok u hu g hg)) (hpassed g hg)

theorem failsFrom_prepare (h : w.load a = .ok loaded) :
    FailsFrom a w 1 (prepare a loaded.settings w) :=
  .bind (fun _ => chooseInstrument_eq_error_iff h) fun _ =>
    .bind (fun _ => chooseMode_eq_error_iff h) fun _ =>
      .bind (fun _ => readText_eq_error_iff) fun _ => .done _

theorem IsFirst.of_le (hf : Obstacle a w f) (h : ∀ g, Obstacle a w g → f.stage ≤ g.stage) :
    IsFirst a w f where
  stands := hf
  first g hg := (Nat.eq_or_lt_of_le (h g hg)).imp_left (hf.eq_of_stage_eq hg)

theorem stage_pos_of_load (h : w.load a = .ok loaded) (hg : Obstacle a w g) : 1 ≤ g.stage := by
  cases hg with
  | settings fault =>
    rw [load_eq_error_iff.mpr (.settings fault)] at h
    cases h
  | _ => exact Nat.succ_pos _

/-- The run of arguments that can be used, from the settings that it finds. -/
theorem perform_eq (a : Arguments) (w : Surroundings) :
    perform a w =
      match w.load a with
      | .error cause => Outcome.fail { files := w.files } (.settings cause)
      | .ok loaded =>
        if a.printConfig then { output := loaded.settings.toToml, files := w.files }
        else convert a loaded.settings w := rfl

/-- **A run fails for its first obstacle, or it has none and delivers** what there is to convert. -/
theorem perform_cases (hprint : a.printConfig = false) :
    (∃ f, IsFirst a w f ∧
        perform a w = { exitCode := 1, errors := f.report, files := w.files }) ∨
      ∃ loaded j, w.load a = .ok loaded ∧ prepare a loaded.settings w = .ok j ∧
        (∀ g, ¬Obstacle a w g) ∧
        perform a w =
          if j.text = "" then { files := w.files } else deliver a loaded.settings j w := by
  cases hload : w.load a with
  | error cause =>
    refine .inl ⟨.settings cause, .of_le (load_eq_error_iff.mp hload) fun g _ => Nat.zero_le _, ?_⟩
    simp only [perform_eq, hload, Outcome.fail, String.empty_append]
  | ok loaded =>
    have hfails := failsFrom_prepare hload
    have hconvert : perform a w = convert a loaded.settings w := by
      simp only [perform_eq, hload, hprint]
      rfl
    cases hprepare : prepare a loaded.settings w with
    | error f =>
      obtain ⟨hf, -, hfirst⟩ := hfails.error f hprepare
      refine .inl ⟨f, .of_le hf fun g hg => hfirst g hg (stage_pos_of_load hload hg), ?_⟩
      simp only [hconvert, convert, hprepare, Outcome.fail, String.empty_append]
    | ok j =>
      have hnone : ∀ g, ¬Obstacle a w g := fun g hg =>
        Nat.not_lt.mpr (stage_pos_of_load hload hg) (hfails.ok j hprepare g hg)
      refine .inr ⟨loaded, j, rfl, hprepare, hnone, ?_⟩
      simp only [hconvert, convert, hprepare]

/-! ## 4. The run -/

theorem exists_of_bind_ok {α β : Type} {x : Except Failure α} {k : α → Except Failure β} {v : β}
    (h : x >>= k = .ok v) : ∃ u, x = .ok u ∧ k u = .ok v := by
  cases x with
  | error f => cases h
  | ok u => exact ⟨u, rfl, h⟩

theorem prepare_eq_ok {s : Settings} {j : Job} (h : prepare a s w = .ok j) :
    chooseInstrument a s = .ok j.instrument ∧ chooseMode a s = .ok j.mode ∧
      readText a w = .ok j.text := by
  obtain ⟨i, hinstrument, h⟩ := exists_of_bind_ok h
  obtain ⟨m, hmode, h⟩ := exists_of_bind_ok h
  obtain ⟨text, htext, h⟩ := exists_of_bind_ok h
  cases h
  exact ⟨hinstrument, hmode, htext⟩

/-- The names of a job that was prepared are known. -/
theorem names_of_prepare {j : Job} (hload : w.load a = .ok loaded)
    (h : prepare a loaded.settings w = .ok j) :
    (effective? a.instrument Settings.instrument (w.load a)).bind Instrument.ofName? =
        some j.instrument ∧
      (effective? a.mode Settings.mode (w.load a)).bind Mode.ofName? = some j.mode := by
  obtain ⟨hinstrument, hmode, -⟩ := prepare_eq_ok h
  rw [chooseInstrument_eq, known_eq_ok_iff] at hinstrument
  rw [chooseMode_eq, known_eq_ok_iff] at hmode
  rw [effective?_of_load hload, effective?_of_load hload]
  exact ⟨hinstrument, hmode⟩

theorem run_of_read {arguments : List String} (h : Arguments.read arguments = .ok a) :
    run arguments w = perform a w := by
  rw [run, h]

/-- **A run stops at its first obstacle.** Whatever else is wrong, the run reports the first of its
    obstacles in the order of settings, instrument, mode and text, so that it cannot be taken for
    another one; it exits with 1, prints nothing and leaves every file as it was. Without an obstacle
    the names are known, the text can be read, and the melody is printed. A name in the settings is
    no obstacle where a flag gives one that is known. -/
theorem run_stops_at_first_obstacle {arguments : List String} {a : Arguments} (w : Surroundings)
    (hread : Arguments.read arguments = .ok a) (hprint : a.printConfig = false) :
    (∀ g, Obstacle a w g → ∃ f, IsFirst a w f ∧ Reports f (run arguments w).errors ∧
        run arguments w =
          { exitCode := 1, output := "", errors := f.report, files := w.files }) ∧
      ((∀ g, ¬Obstacle a w g) → ∃ i m text,
        (effective? a.instrument Settings.instrument (w.load a)).bind Instrument.ofName? =
            some i ∧
          (effective? a.mode Settings.mode (w.load a)).bind Mode.ofName? = some m ∧
          inputBytes a w = .ok (Midi.utf8 text) ∧
          (run arguments w).output =
            if text = "" then "" else Transducer.transduce m text ++ "\n") ∧
      ((a.instrument.bind Instrument.ofName?).isSome →
        ∀ name, ¬Obstacle a w (.unknownInstrument name)) ∧
      ((a.mode.bind Mode.ofName?).isSome → ∀ name, ¬Obstacle a w (.unknownMode name)) := by
  rw [run_of_read hread]
  refine ⟨fun g hg => ?_, fun hnone => ?_, fun hknown name h => ?_, fun hknown name h => ?_⟩
  · rcases perform_cases (w := w) hprint with ⟨f, hf, hrun⟩ | ⟨_, _, _, _, hnone, _⟩
    · exact ⟨f, hf, hrun ▸ f.reports_report, hrun⟩
    · exact absurd hg (hnone g)
  · rcases perform_cases (w := w) hprint with ⟨f, hf, _⟩ | ⟨loaded, j, hload, hprepare, _, hrun⟩
    · exact absurd hf.stands (hnone f)
    · obtain ⟨hinstrument, hmode⟩ := names_of_prepare hload hprepare
      refine ⟨j.instrument, j.mode, j.text, hinstrument, hmode,
        readText_eq_ok_iff.mp (prepare_eq_ok hprepare).2.2, ?_⟩
      rw [hrun]
      split
      · rfl
      · exact (ending_deliver a loaded.settings j w).output_eq
  · cases h with
    | unknownInstrument named unknown =>
      have hsome := isSome_of_effective? hknown named
      rw [unknown] at hsome
      cases hsome
  · cases h with
    | unknownMode named unknown =>
      have hsome := isSome_of_effective? hknown named
      rw [unknown] at hsome
      cases hsome

/-- A directory whose settings name an instrument and a mode that there are not. -/
def misconfigured : Surroundings where
  files :=
    { entries :=
        [(["mojioto.toml"],
          .file (Midi.utf8 "[defaults]\ninstrument = \"kazoo\"\nmode = \"shuffle\"\n"))] }
  environment := []
  userDirectory := "home"
  input := .ok (Midi.utf8 "ああ")
  diagnose := fun _ => ""

/-- Arguments that name an instrument and a file that there are not. -/
def misguided : Arguments where
  file := some "nope.txt"
  midi := some "out.mid"
  instrument := some "ocarina"

/-- Arguments that name both an instrument and a mode. -/
def guided : Arguments where
  instrument := some "flute"
  mode := some "b"

/-- With three things wrong at once the first of them is reported; and flags that are right about
    both names set right what the settings have wrong. -/
theorem run_stops_at_first_obstacle_misconfigured :
    Obstacle misguided misconfigured (.unknownMode "shuffle") ∧
      Obstacle misguided misconfigured (.fileNotFound "nope.txt") ∧
      run ["-i", "ocarina", "--midi", "out.mid", "nope.txt"] misconfigured =
        { exitCode := 1, output := "",
          errors := "Error: unknown instrument 'ocarina' (expected one of: piano, chiptune, " ++
            "strings, flute, guitar, lead)\n",
          files := misconfigured.files } ∧
      (run ["-i", "flute", "--mode=b"] misconfigured).output = "t120 v10 @0 t180 o5 f+8\n" := by
  have hread : Arguments.read ["-i", "ocarina", "--midi", "out.mid", "nope.txt"] =
      .ok misguided := by rfl
  have hguided : Arguments.read ["-i", "flute", "--mode=b"] = .ok guided := by rfl
  have hinstrument : Obstacle misguided misconfigured (.unknownInstrument "ocarina") :=
    .unknownInstrument rfl (by decide)
  have hmode : Obstacle misguided misconfigured (.unknownMode "shuffle") :=
    .unknownMode (by decide +kernel) (by decide +kernel)
  have hfile : Obstacle misguided misconfigured (.fileNotFound "nope.txt") :=
    .fileNotFound rfl rfl
  refine ⟨hmode, hfile, ?_, ?_⟩
  · obtain ⟨f, hf, -, hrun⟩ := (run_stops_at_first_obstacle misconfigured hread rfl).1 _ hfile
    rcases hf.first _ hinstrument with rfl | hearlier
    · exact hrun
    · have hloaded : (misconfigured.load misguided).isOk := by decide +kernel
      cases hload : misconfigured.load misguided with
      | error cause =>
        rw [hload] at hloaded
        cases hloaded
      | ok loaded => exact absurd (stage_pos_of_load hload hf.stands) (Nat.not_le.mpr hearlier)
  · obtain ⟨-, hdelivers, hplays, hconverts⟩ :=
      run_stops_at_first_obstacle misconfigured hguided rfl
    have hnone : ∀ g, ¬Obstacle guided misconfigured g := by
      intro g hg
      cases hg with
      | settings fault =>
        have hfine : (Settings.filesToLoad misconfigured.files misconfigured.userDirectory
            guided.config).findSome? (Settings.fault? misconfigured.diagnose misconfigured.files) =
              none := by decide +kernel
        cases hfine.symm.trans fault
      | unknownInstrument named unknown =>
        exact hplays (by decide) _ (.unknownInstrument named unknown)
      | unknownMode named unknown =>
        exact hconverts (by decide +kernel) _ (.unknownMode named unknown)
      | fileNotFound named _ => cases named
      | fileUnreadable named _ _ => cases named
      | fileNotText named _ _ => cases named
      | inputUnreadable _ failed => cases failed
      | inputNotText _ there garbled =>
        cases there
        exact garbled ⟨"ああ", rfl⟩
    obtain ⟨i, m, text, -, hm, htext, hrun⟩ := hdelivers hnone
    have hpair : Mode.ofName? "b" = some .pair := by decide +kernel
    obtain rfl : Mode.pair = m := Option.some.inj (hpair.symm.trans hm)
    have hdecode : FileTree.decode (Midi.utf8 "ああ") = .ok text :=
      FileTree.decode_eq_ok_iff.mpr (Except.ok.inj htext).symm
    obtain rfl : "ああ" = text := Except.ok.inj ((FileTree.decode_utf8 "ああ").symm.trans hdecode)
    rw [hrun]
    decide +kernel

end Command

end TextMelody
