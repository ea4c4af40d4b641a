import TextMelody.Proofs.Transducer.Spans

/-!
# Texts one after the other

Where a text is cut behind a newline, its second part sounds as it would alone, only later. The
player keeps an octave, a volume and a playhead across lines, but the music of a line sets the
octave before each note, gives every length and leaves the volume alone, so nothing is carried over
but the playhead. Beats are exact here.

* `SelfContained`: tokens that need nothing from before;
* `selfContained_ofLines`: **the music of lines is self-contained**;
* `ofLines_append_of_newline`: a text that ends in a newline hands its lines over whole;
* `texts_play_in_turn`: **two texts, one after the other, sound one after the other.**
-/

namespace TextMelody

open Beat

/-- **The same note, so many beats later.** -/
def NoteEvent.later (beats : Rat) (n : NoteEvent Rat) : NoteEvent Rat :=
  { n with start := n.start + beats }

/-! ## 1. Music that needs nothing from before -/

/-- **Tokens that leave the volume as it is, and that sound the same at a later playhead**, only
    later, whatever octave and default length are in force. -/
structure SelfContained (ts : List Token) : Prop where
  velocity : ∀ s : Playback Rat, (s.run ts).velocity = s.velocity
  time : ∀ {s r : Playback Rat} {beats : Rat}, r.time = s.time + beats →
    (r.run ts).time = (s.run ts).time + beats
  notes : ∀ {s r : Playback Rat} {beats : Rat}, r.velocity = s.velocity →
    r.time = s.time + beats → r.notes ts = (s.notes ts).map (NoteEvent.later beats)

namespace SelfContained

theorem nil : SelfContained [] :=
  ⟨fun _ => rfl, fun h => h, fun _ _ => rfl⟩

theorem append {ts us : List Token} (hts : SelfContained ts) (hus : SelfContained us) :
    SelfContained (ts ++ us) where
  velocity s := by rw [Playback.run_append, hus.velocity, hts.velocity]
  time h := by
    rw [Playback.run_append, Playback.run_append]
    exact hus.time (hts.time h)
  notes {s r _} hvelocity htime := by
    have hkept : (r.run ts).velocity = (s.run ts).velocity := by
      rw [hts.velocity, hts.velocity, hvelocity]
    rw [Playback.notes_append, Playback.notes_append, List.map_append, hts.notes hvelocity htime,
      hus.notes hkept (hts.time htime)]

/-- A tempo takes no time and sounds nothing. -/
theorem tempo (bpm : UInt32) : SelfContained [.tempo bpm] :=
  ⟨fun _ => rfl, fun h => h, fun _ _ => rfl⟩

theorem advance {s r : Playback Rat} {beats : Rat} (h : r.time = s.time + beats) (length : Rat) :
    r.time + length = s.time + length + beats := by
  rw [h, add_right_comm]

theorem pause (d : UInt32) : SelfContained [Transducer.pause d] :=
  ⟨fun _ => rfl, fun h => advance h _, fun _ _ => rfl⟩

/-- **A character sets its own octave and gives its own length.** -/
theorem sing (c : Char) (l : Length) : SelfContained (Transducer.sing c l) where
  velocity _ := rfl
  time h := advance h _
  notes {s r beats} hvelocity htime := by
    have hnotes : ∀ q : Playback Rat, q.notes (Transducer.sing c l) =
        ((Pitch.key? (Script.of c).octave (PitchClass.ofChar c).semitone).map
          (⟨·, q.time, l.beats, q.velocity⟩)).toList := fun q => List.append_nil _
    rw [hnotes, hnotes, hvelocity, htime]
    cases Pitch.key? (Script.of c).octave (PitchClass.ofChar c).semitone <;> rfl

end SelfContained

namespace Transducer

theorem piecewise_selfContained : Piecewise SelfContained where
  nil := .nil
  append := .append
  pause _ := .pause _
  sing c _ _ := .sing c _

/-- **The music of lines is self-contained.** -/
theorem selfContained_ofLines (mode : Mode) (cs : List Char) : SelfContained (ofLines mode cs) :=
  piecewise_selfContained.ofLines (fun _ => .tempo _) mode cs

/-! ## 2. Texts cut behind a newline -/

/-- **A text that ends in a newline hands its lines over whole.** -/
theorem ofLines_append_of_newline (mode : Mode) {a : List Char} (h : ∀ c ∈ a.getLast?, c = '\n')
    (b : List Char) : ofLines mode (a ++ b) = ofLines mode a ++ ofLines mode b := by
  rcases List.eq_nil_or_concat' a with rfl | ⟨front, last, rfl⟩
  · rfl
  · obtain rfl : last = '\n' := h last List.getLast?_concat
    rw [List.append_assoc]
    exact ofLines_append mode front b

theorem notes_perform_tokens (mode : Mode) (text : String) (instrument : Instrument) :
    (Melody.perform (tokens mode text) instrument : Performance Rat).notes =
      opened.notes (ofLines mode text.toList) := by
  rw [Melody.notes_perform, tokens, Playback.notes_append]
  rfl

theorem endBeat_perform_tokens (mode : Mode) (text : String) (instrument : Instrument) :
    (Melody.perform (tokens mode text) instrument : Performance Rat).endBeat =
      (opened.run (ofLines mode text.toList)).time := by
  rw [Melody.endBeat_perform, tokens, Playback.run_append]
  rfl

/-- **Two texts, one after the other, sound one after the other.** Where the first is empty or ends
    in a newline, the notes of both together are those of the first and then those of the second,
    which start as much later as the first lasts and are otherwise the same; and both together last
    as long as each for itself. -/
theorem texts_play_in_turn (mode : Mode) (a b : String) (instrument : Instrument)
    (h : ∀ c ∈ a.toList.getLast?, c = '\n') :
    let played (text : String) : Performance Rat :=
      (Melody.interpret (transduce mode text) instrument).value
    (played (a ++ b)).notes =
        (played a).notes ++ (played b).notes.map (NoteEvent.later (played a).endBeat) ∧
      (played (a ++ b)).endBeat = (played a).endBeat + (played b).endBeat := by
  intro played
  have hplayed : ∀ text, played text = Melody.perform (tokens mode text) instrument := fun text =>
    value_interpret_transduce mode text instrument
  have htokens : ofLines mode (a ++ b).toList = ofLines mode a.toList ++ ofLines mode b.toList := by
    rw [String.toList_append, ofLines_append_of_newline mode h]
  have hfirst := selfContained_ofLines mode a.toList
  have hsecond := selfContained_ofLines mode b.toList
  -- The second text is played from where the first one stops.
  have hvelocity := hfirst.velocity opened
  have htime : (opened.run (ofLines mode a.toList)).time =
      opened.time + (opened.run (ofLines mode a.toList)).time := (zero_add _).symm
  rw [hplayed, hplayed, hplayed, notes_perform_tokens, notes_perform_tokens, notes_perform_tokens,
    endBeat_perform_tokens, endBeat_perform_tokens, endBeat_perform_tokens, htokens,
    Playback.notes_append, Playback.run_append, hsecond.notes hvelocity htime, hsecond.time htime]
  exact ⟨rfl, add_comm _ _⟩

/-- The first text leaves the octave of a Japanese letter in force, and the second starts later. -/
theorem texts_play_in_turn_kana :
    let first := "ああ。\n"
    let played (text : String) : Performance Rat :=
      (Melody.interpret (transduce .repetition text) .piano).value
    (∀ c ∈ first.toList.getLast?, c = '\n') ∧ (played first).endBeat = 2 ∧
      (played (first ++ "ab")).notes =
        (played first).notes ++ (played "ab").notes.map (NoteEvent.later (played first).endBeat) ∧
      (played (first ++ "ab")).endBeat = (played first).endBeat + (played "ab").endBeat := by
  intro first played
  have hlast : first.toList.getLast? = some '\n' := by decide
  have hnewline : ∀ c ∈ first.toList.getLast?, c = '\n' := by
    intro c hc
    rw [hlast] at hc
    exact (Option.some.inj hc).symm
  have hend : (played first).endBeat = 2 := by decide +kernel
  exact ⟨hnewline, hend, texts_play_in_turn .repetition first "ab" .piano hnewline⟩

end Transducer

end TextMelody
