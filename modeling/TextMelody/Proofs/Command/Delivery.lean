import TextMelody.Command.Run

/-!
# How a delivery ends

A delivery prints the melody and then saves the MIDI file and the events, each if it was asked for.
It ends in one of three ways: the MIDI file could not be written, or the events could not, or all was
delivered. `Ending` says for each of them what the outcome is; that a delivery ends like this is all
that the theorems about runs need to know of it.

* `save_cases`: a file is saved, or the run fails with the files as the write left them;
* `ending_deliver`: **every delivery ends in one of the three ways**.
-/

namespace TextMelody.Command

/-! ## 1. What is delivered -/

namespace Job

/-- The melody of a job. -/
def melody (j : Job) : String :=
  Transducer.transduce j.mode j.text

/-- What is to be played. -/
def performance (j : Job) : Performance Float :=
  (Melody.interpret j.melody j.instrument).value

/-- What the MIDI file holds. -/
def midiBytes (j : Job) (s : Settings) : List UInt8 :=
  (Midi.Song.ofPerformance j.performance
    { ticksPerBeat := s.ticksPerBeat, trackName := s.trackName }).bytes

/-- What the file of events holds. -/
def eventsBytes (j : Job) : List UInt8 :=
  Midi.utf8 (EventsDump.ofPerformance j.mode j.melody j.performance).text

end Job

/-- Writes a file if a path was given for it. -/
def saveIfAsked (files : FileTree) (path : Option String) (bytes : List UInt8)
    (fault : Option FileTree.WriteFault) : Except FileTree.FailedWrite FileTree :=
  match path with
  | none => .ok files
  | some path => files.write path bytes fault

/-- What is told about a MIDI file that was written. -/
def midiNote (path : Option String) : String :=
  match path with
  | none => ""
  | some path => "MIDI saved to " ++ path ++ "\n"

/-- What is told at the end, if it was asked for. -/
def summaryNote (a : Arguments) (j : Job) : String :=
  if a.summary then summaryLine j j.performance else ""

/-! ## 2. The ways to end -/

/-- **How a delivery can end**, with the outcome. -/
inductive Ending (a : Arguments) (s : Settings) (j : Job) (w : Surroundings) : Outcome → Prop where
  | midiNotWritten {path : String} {failed : FileTree.FailedWrite} (asked : a.midi = some path)
      (fails : w.files.write path (j.midiBytes s) w.midiFault = .error failed) :
      Ending a s j w
        { exitCode := 1, output := j.melody ++ "\n",
          errors := (Failure.midiNotWritten path failed.cause).report, files := failed.tree }
  /-- The MIDI file was written if it was asked for. -/
  | eventsNotWritten {mid : FileTree} {path : String} {failed : FileTree.FailedWrite}
      (saved : saveIfAsked w.files a.midi (j.midiBytes s) w.midiFault = .ok mid)
      (asked : a.events = some path)
      (fails : mid.write path j.eventsBytes w.eventsFault = .error failed) :
      Ending a s j w
        { exitCode := 1, output := j.melody ++ "\n",
          errors := midiNote a.midi ++ (Failure.eventsNotWritten path failed.cause).report,
          files := failed.tree }
  /-- All that was asked for was written. -/
  | done {mid last : FileTree}
      (saved : saveIfAsked w.files a.midi (j.midiBytes s) w.midiFault = .ok mid)
      (dumped : saveIfAsked mid a.events j.eventsBytes w.eventsFault = .ok last) :
      Ending a s j w
        { output := j.melody ++ "\n", errors := midiNote a.midi ++ summaryNote a j, files := last }

theorem Ending.output_eq {a : Arguments} {s : Settings} {j : Job} {w : Surroundings} {o : Outcome}
    (h : Ending a s j w o) : o.output = j.melody ++ "\n" := by
  cases h <;> rfl

/-- **A file is saved and told about, or the run fails** with the files as the write left them. -/
theorem save_cases (o : Outcome) (path : String) (bytes : List UInt8)
    (fault : Option FileTree.WriteFault) (note : String) (failure : FileError → Failure) :
    (∃ files, o.files.write path bytes fault = .ok files ∧
        o.save path bytes fault note failure =
          .ok { o with files, errors := o.errors ++ note }) ∨
      ∃ failed, o.files.write path bytes fault = .error failed ∧
        o.save path bytes fault note failure =
          .error (Outcome.fail { o with files := failed.tree } (failure failed.cause)) := by
  unfold Outcome.save
  cases hwrite : o.files.write path bytes fault with
  | ok files => exact .inl ⟨files, rfl, rfl⟩
  | error failed => exact .inr ⟨failed, rfl, rfl⟩

/-- Saving the MIDI file goes on with the files after it, or ends the delivery. -/
theorem saveMidi_cases (a : Arguments) (s : Settings) (j : Job)
    (fault : Option FileTree.WriteFault) (o : Outcome) :
    (∃ mid, saveIfAsked o.files a.midi (j.midiBytes s) fault = .ok mid ∧
        saveMidi a s j.performance fault o =
          .ok { o with files := mid, errors := o.errors ++ midiNote a.midi }) ∨
      ∃ path failed, a.midi = some path ∧
        o.files.write path (j.midiBytes s) fault = .error failed ∧
        saveMidi a s j.performance fault o =
          .error (Outcome.fail { o with files := failed.tree }
            (.midiNotWritten path failed.cause)) := by
  unfold saveMidi saveIfAsked midiNote
  cases hasked : a.midi with
  | none =>
    refine .inl ⟨o.files, rfl, ?_⟩
    show Except.ok o = .ok { o with errors := o.errors ++ "" }
    rw [String.append_empty]
  | some path =>
    rcases save_cases o path (j.midiBytes s) fault ("MIDI saved to " ++ path ++ "\n")
      (.midiNotWritten path) with ⟨mid, hwrite, hsave⟩ | ⟨failed, hwrite, hsave⟩
    · exact .inl ⟨mid, hwrite, hsave⟩
    · exact .inr ⟨path, failed, rfl, hwrite, hsave⟩

/-- Saving the events goes on with the files after it, or ends the delivery. -/
theorem saveEvents_cases (a : Arguments) (j : Job) (fault : Option FileTree.WriteFault)
    (o : Outcome) :
    (∃ last, saveIfAsked o.files a.events j.eventsBytes fault = .ok last ∧
        saveEvents a j j.melody j.performance fault o = .ok { o with files := last }) ∨
      ∃ path failed, a.events = some path ∧
        o.files.write path j.eventsBytes fault = .error failed ∧
        saveEvents a j j.melody j.performance fault o =
          .error (Outcome.fail { o with files := failed.tree }
            (.eventsNotWritten path failed.cause)) := by
  unfold saveEvents saveIfAsked
  cases hasked : a.events with
  | none => exact .inl ⟨o.files, rfl, rfl⟩
  | some path =>
    rcases save_cases o path j.eventsBytes fault "" (.eventsNotWritten path) with
      ⟨last, hwrite, hsave⟩ | ⟨failed, hwrite, hsave⟩
    · rw [String.append_empty] at hsave
      exact .inl ⟨last, hwrite, hsave⟩
    · exact .inr ⟨path, failed, rfl, hwrite, hsave⟩

theorem summarize_eq (a : Arguments) (j : Job) (o : Outcome) :
    summarize a j j.performance o = { o with errors := o.errors ++ summaryNote a j } := by
  unfold summarize summaryNote
  split
  · rfl
  · rw [String.append_empty]

/-- The outcome of a delivery, whether it came to its end or not. -/
def settled : Except Outcome Outcome → Outcome
  | .ok o => o
  | .error o => o

theorem deliver_eq (a : Arguments) (s : Settings) (j : Job) (w : Surroundings) :
    deliver a s j w =
      settled do
        let o ← saveMidi a s j.performance w.midiFault
          { output := j.melody ++ "\n", files := w.files }
        let o ← saveEvents a j j.melody j.performance w.eventsFault o
        return summarize a j j.performance o := rfl

/-- **Every delivery ends in one of the three ways.** -/
theorem ending_deliver (a : Arguments) (s : Settings) (j : Job) (w : Surroundings) :
    Ending a s j w (deliver a s j w) := by
  rw [deliver_eq]
  rcases saveMidi_cases a s j w.midiFault { output := j.melody ++ "\n", files := w.files } with
    ⟨mid, hsaved, hmidi⟩ | ⟨path, failed, hasked, hfails, hmidi⟩
  · rw [hmidi, String.empty_append]
    show Ending a s j w (settled (saveEvents a j j.melody j.performance w.eventsFault _ >>= _))
    rcases saveEvents_cases a j w.eventsFault
        { output := j.melody ++ "\n", errors := midiNote a.midi, files := mid } with
      ⟨last, hdumped, hevents⟩ | ⟨path, failed, hasked, hfails, hevents⟩
    · rw [hevents]
      show Ending a s j w (summarize a j j.performance _)
      rw [summarize_eq]
      exact .done hsaved hdumped
    · rw [hevents]
      exact .eventsNotWritten hsaved hasked hfails
  · rw [hmidi, Outcome.fail, String.empty_append]
    exact .midiNotWritten hasked hfails

end TextMelody.Command
