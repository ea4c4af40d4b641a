import TextMelody.Proofs.Command.Obstacles

/-!
# What a failed run leaves behind

A run that fails for an obstacle leaves nothing. After that the melody is printed first, and the
files are written one after the other; a file that cannot be written ends the run, and what was
delivered before it stays. What is left of the file itself is open: it can be as it was, or not be
there, or hold any part of what it should.

* `cases_of_failed`: how far a run that fails has come;
* `saved_of_saveIfAsked`: a file that was asked for and saved, and what is around it;
* `failed_run_keeps_what_came_before`: **a failed run leaves nothing if an obstacle stopped it, and
  otherwise the melody and the files before the one that could not be written**.
-/

namespace TextMelody.Command

variable {a : Arguments} {w : Surroundings} {loaded : Settings.Loaded}

/-- **A run that fails has an obstacle, or it fails in the delivery.** So it is also where only the
    settings are to be printed: these runs fail for their settings alone. -/
theorem cases_of_failed (hfail : (perform a w).exitCode ≠ 0) :
    (∃ f, Obstacle a w f ∧
        perform a w = { exitCode := 1, errors := f.report, files := w.files }) ∨
      ∃ loaded j, w.load a = .ok loaded ∧ prepare a loaded.settings w = .ok j ∧
        (∀ f, ¬Obstacle a w f) ∧ perform a w = deliver a loaded.settings j w := by
  cases hprint : a.printConfig with
  | false =>
    rcases perform_cases (w := w) hprint with ⟨f, hf, hrun⟩ | ⟨loaded, j, hload, hj, hnone, hrun⟩
    · exact .inl ⟨f, hf.stands, hrun⟩
    · by_cases hempty : j.text = ""
      · rw [hrun, if_pos hempty] at hfail
        exact absurd rfl hfail
      · rw [if_neg hempty] at hrun
        exact .inr ⟨loaded, j, hload, hj, hnone, hrun⟩
  | true =>
    -- Printing the settings cannot fail, so it was loading them that did.
    cases hload : w.load a with
    | error cause =>
      refine .inl ⟨.settings cause, load_eq_error_iff.mp hload, ?_⟩
      simp only [perform_eq, hload, Outcome.fail, String.empty_append]
    | ok loaded =>
      simp only [perform_eq, hload, hprint] at hfail
      exact absurd rfl hfail

/-- **A file that was asked for and saved can be read**, paths lead where they led, and every place
    that the file is not at is as it was. -/
theorem saved_of_saveIfAsked {files mid : FileTree} {path : Option String} {bytes : List UInt8}
    {fault : Option FileTree.WriteFault} (h : saveIfAsked files path bytes fault = .ok mid) :
    (∀ asked, path = some asked → mid.read asked = .ok bytes) ∧
      (∀ other q, mid.resolve other = .ok q ↔ files.resolve other = .ok q) ∧
      ∀ q, (∀ asked, path = some asked → files.resolve asked ≠ .ok q) →
        mid.find? q = files.find? q := by
  cases path with
  | none =>
    cases h
    exact ⟨fun _ hasked => (nomatch hasked), fun _ _ => .rfl, fun _ _ => rfl⟩
  | some asked =>
    have hwrote := FileTree.wrote_of_write h
    refine ⟨?_, fun other q => hwrote.resolve_eq_ok_iff, fun q hq => ?_⟩
    · rintro _ ⟨⟩
      exact FileTree.read_write h
    · exact hwrote.find?_of_ne (hq asked rfl)

/-- **A failed run keeps what came before.** If an obstacle stopped it, it is reported, nothing was
    printed and every file is as it was. Otherwise there was no obstacle, the melody was printed, and
    the write of a file failed and is reported. If it was the MIDI file, every place but its own is as
    it was. If it was the events, every place but those of the two files is as it was, and the MIDI
    file is whole if it was asked for, unless the events were to go to the same place. -/
theorem failed_run_keeps_what_came_before {arguments : List String} {a : Arguments}
    (w : Surroundings) (hread : Arguments.read arguments = .ok a)
    (hfail : (run arguments w).exitCode ≠ 0) :
    (∃ f, Obstacle a w f ∧ Reports f (run arguments w).errors ∧ run arguments w =
        { exitCode := 1, output := "", errors := f.report, files := w.files }) ∨
      (∀ f, ¬Obstacle a w f) ∧ ∃ loaded j, w.load a = .ok loaded ∧
        prepare a loaded.settings w = .ok j ∧ (run arguments w).output = j.melody ++ "\n" ∧
        ((∃ path failed, a.midi = some path ∧
            w.files.write path (j.midiBytes loaded.settings) w.midiFault = .error failed ∧
            (run arguments w).errors = (Failure.midiNotWritten path failed.cause).report ∧
            ∀ q, w.files.resolve path ≠ .ok q →
              (run arguments w).files.find? q = w.files.find? q) ∨
          ∃ mid path failed, a.events = some path ∧
            saveIfAsked w.files a.midi (j.midiBytes loaded.settings) w.midiFault = .ok mid ∧
            mid.write path j.eventsBytes w.eventsFault = .error failed ∧
            (run arguments w).errors =
              midiNote a.midi ++ (Failure.eventsNotWritten path failed.cause).report ∧
            (∀ midi, a.midi = some midi → w.files.resolve path ≠ w.files.resolve midi →
              (run arguments w).files.read midi = .ok (j.midiBytes loaded.settings)) ∧
            ∀ q, (∀ midi, a.midi = some midi → w.files.resolve midi ≠ .ok q) →
              w.files.resolve path ≠ .ok q →
              (run arguments w).files.find? q = w.files.find? q) := by
  rw [run_of_read hread] at hfail ⊢
  rcases cases_of_failed hfail with ⟨f, hf, hrun⟩ | ⟨loaded, j, hload, hj, hnone, hrun⟩
  · exact .inl ⟨f, hf, hrun ▸ f.reports_report, hrun⟩
  · refine .inr ⟨hnone, loaded, j, hload, hj, ?_⟩
    rw [hrun] at hfail ⊢
    have hending := ending_deliver a loaded.settings j w
    refine ⟨hending.output_eq, ?_⟩
    generalize deliver a loaded.settings j w = o at hending hfail ⊢
    cases hending with
    | midiNotWritten asked fails =>
      exact .inl ⟨_, _, asked, fails, rfl, fun q => (FileTree.write_eq_error fails).find?_of_ne⟩
    | @eventsNotWritten mid path failed saved asked fails =>
      obtain ⟨hthere, hleads, hframe⟩ := saved_of_saveIfAsked saved
      have hwrote := FileTree.write_eq_error fails
      refine .inr ⟨mid, _, _, asked, saved, fails, rfl, fun midi hmidi hne => ?_,
        fun q hq hpath => ?_⟩
      · -- Paths lead to the same places after the MIDI file was written as before.
        obtain ⟨p, hp, -⟩ := FileTree.read_eq_ok_iff.mp (hthere midi hmidi)
        have hbefore : w.files.resolve midi = .ok p := (hleads midi p).mp hp
        refine hwrote.read_eq_ok (hthere midi hmidi) fun hsame => hne ?_
        rw [hbefore, (hleads path p).mp (hsame.trans hp)]
      · rw [hwrote.find?_of_ne fun hto => hpath ((hleads path q).mp hto), hframe q hq]
    | done saved dumped => exact absurd rfl hfail

/-- An empty directory, with a text to convert. -/
def emptyDirectory : Surroundings where
  files := {}
  environment := []
  userDirectory := "home"
  input := .ok (Midi.utf8 "ああ")
  diagnose := fun _ => ""

/-- A directory with an old MIDI file and a note, and no space for more. -/
def fullDisk : Surroundings :=
  { emptyDirectory with
    files := { entries := [(["out.mid"], .file [0, 1]), (["note.txt"], .file [2])] }
    midiFault := some ⟨"No space left on device (os error 28)", some []⟩ }

/-- Arguments for a MIDI file. -/
def midiAlone : List String :=
  ["--midi", "out.mid"]

/-- Arguments for a MIDI file, and for events in a directory that is not there. -/
def eventsNowhere : List String :=
  ["--midi", "out.mid", "--events", "missing/e.json"]

/-- Where there is no space, the old MIDI file is gone and the note still there; and the run that has
    no place for its events leaves the whole MIDI file. -/
theorem failed_run_keeps_what_came_before_halfway :
    ((run midiAlone fullDisk).exitCode ≠ 0 ∧
        (run midiAlone fullDisk).files.find? ["out.mid"] = some (.file []) ∧
        (run midiAlone fullDisk).files.find? ["note.txt"] = some (.file [2])) ∧
      (run eventsNowhere emptyDirectory).exitCode ≠ 0 ∧
      ∃ loaded j, prepare {} loaded emptyDirectory = .ok j ∧
        (run eventsNowhere emptyDirectory).files.read "out.mid" = .ok (j.midiBytes loaded) := by
  constructor
  · have hread : Arguments.read midiAlone = .ok { midi := some "out.mid" } := by rfl
    have hfail : (run midiAlone fullDisk).exitCode ≠ 0 := by decide +kernel
    have hleft : (run midiAlone fullDisk).files.find? ["out.mid"] = some (.file []) := by
      decide +kernel
    have hnote : fullDisk.files.resolve "out.mid" ≠ .ok ["note.txt"] := by decide +kernel
    rcases failed_run_keeps_what_came_before fullDisk hread hfail with
      ⟨_, -, -, hrun⟩ | ⟨-, _, _, -, -, -, ⟨_, _, hasked, -, -, hframe⟩ | ⟨_, _, _, hasked, -⟩⟩
    · have hold : fullDisk.files.find? ["out.mid"] = some (.file [0, 1]) := by rfl
      rw [hrun] at hleft
      cases hold.symm.trans hleft
    · cases hasked
      exact ⟨hfail, hleft, (hframe ["note.txt"] hnote).trans rfl⟩
    · cases hasked
  · have hread : Arguments.read eventsNowhere =
        .ok { midi := some "out.mid", events := some "missing/e.json" } := by rfl
    have hfail : (run eventsNowhere emptyDirectory).exitCode ≠ 0 := by decide +kernel
    have hsaved : (run eventsNowhere emptyDirectory).errors.toList.head? = some 'M' := by
      decide +kernel
    have hreport : ∀ f : Failure, f.report.toList.head? = some 'E' := by
      intro f
      rw [Failure.report_eq, String.toList_append, String.toList_append]
      rfl
    have helsewhere : emptyDirectory.files.resolve "missing/e.json" ≠
        emptyDirectory.files.resolve "out.mid" := by decide +kernel
    rcases failed_run_keeps_what_came_before emptyDirectory hread hfail with
      ⟨f, -, -, hrun⟩ |
        ⟨-, loaded, j, -, hj, -, ⟨_, _, -, -, herrors, -⟩ |
          ⟨_, _, _, hasked, -, -, -, hthere, -⟩⟩
    · rw [hrun] at hsaved
      cases (hreport f).symm.trans hsaved
    · rw [herrors] at hsaved
      cases (hreport _).symm.trans hsaved
    · cases hasked
      exact ⟨hfail, loaded.settings, j, hj, hthere "out.mid" rfl helsewhere⟩

/-- **A failed run is not all or nothing**: the events cannot be written, and the melody is printed
    and the MIDI file there, which was not there before. -/
theorem failed_run_prints_and_writes :
    Arguments.read eventsNowhere =
        .ok { midi := some "out.mid", events := some "missing/e.json" } ∧
      (run eventsNowhere emptyDirectory).exitCode = 1 ∧
      (run eventsNowhere emptyDirectory).output = "t120 v10 @0 t180 o5 f+4\n" ∧
      emptyDirectory.files.read "out.mid" = .error .notFound ∧
      ((run eventsNowhere emptyDirectory).files.read "out.mid").isOk := by
  refine ⟨by rfl, ?_, ?_, by rfl, ?_⟩
  · decide +kernel
  · decide +kernel
  · decide +kernel

end TextMelody.Command
