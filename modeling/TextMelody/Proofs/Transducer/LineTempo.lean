import TextMelody.Proofs.Melody.Tempo
import TextMelody.Proofs.Transducer.Spans

/-!
# Every line at its own tempo

A line that is not blank opens with a tempo of its own, and its notes are over before the next line
marks another one. So the tempo in force where a note of the line is struck is that of the line,
whatever lines stand around it. Beats are exact here.

* `notesByLine`: the notes of a text, line by line;
* `tempoAt_of_mem_notes`: a line that is played sets the tempo of all its notes;
* `notes_play_at_line_tempo`: **every note of a text plays at the tempo of its line.**
-/

namespace TextMelody.Transducer

open Beat

/-- **The notes of each of some lines**, which are played from a state on. -/
def notesByLine (mode : Mode) : Playback Rat → List (List Char) → List (List (NoteEvent Rat))
  | _, [] => []
  | s, l :: ls => s.notes (ofLine mode l) :: notesByLine mode (s.run (ofLine mode l)) ls

/-- Line by line, these are the notes of all lines. -/
theorem flatten_notesByLine (mode : Mode) (s : Playback Rat) (ls : List (List Char)) :
    (notesByLine mode s ls).flatten = s.notes (ls.flatMap (ofLine mode)) := by
  induction ls generalizing s with
  | nil => rfl
  | cons l ls ih =>
    rw [notesByLine, List.flatten_cons, ih, List.flatMap_cons, Playback.notes_append]

/-! ## 1. One line -/

/-- A line gives no tempo besides the one it opens with. -/
theorem piecewise_tempo? : Piecewise fun ts => ∀ t ∈ ts, t.tempo? = none :=
  piecewise_forall (fun _ => rfl) fun c l _ t ht => by
    rw [sing, List.mem_cons, List.mem_singleton] at ht
    rcases ht with rfl | rfl <;> rfl

/-- A note of sung tokens lies between where the playhead starts and where it stops, and it is
    over only after it was struck. -/
theorem start_bounds {s : Playback Rat} (hs : s.Forward) (hoctave : s.octave ≤ 5) {ts : List Token}
    (hts : ∀ t ∈ ts, t.IsSung) {n : NoteEvent Rat} (hn : n ∈ s.notes ts) :
    s.time ≤ n.start ∧ n.start < (s.run ts).time := by
  have hreadable : ∀ t ∈ ts, t.IsReadable := fun t ht => (hts t ht).isReadable
  have hspan : n.span ∈ Token.spans s.time ts :=
    Playback.map_span_notes hoctave hts ▸ List.mem_map_of_mem hn
  have hquarter : 1 / 4 ≤ n.duration := Token.le_length_of_mem_spans hts hspan
  have hrelease : n.start + n.duration ≤ (s.run ts).time :=
    le_iff.mp (hs.release_le_time_run hreadable hn)
  exact ⟨le_iff.mp (hs.le_start hreadable hn), by linarith⟩

theorem isSung_of_mem_ofLine {mode : Mode} {l : List Char} : ∀ t ∈ ofLine mode l, t.IsSung :=
  piecewise_isSung.ofLine (fun _ => List.forall_mem_singleton.mpr (lineTempo_ne_zero _)) mode l

variable {p : Player Rat} {mode : Mode} {l : List Char} {n : NoteEvent Rat}

/-- **A line that is played sets the tempo of all its notes**, and they are struck before it ends. -/
theorem tempoAt_of_mem_notes (hp : p.Measured) (hoctave : p.playback.octave ≤ 5)
    (hl : Text.trim l ≠ []) (hn : n ∈ p.playback.notes (ofLine mode l)) :
    ((ofLine mode l).foldl Player.play p).tempoAt n.start = lineTempo (Text.trim l).length ∧
      n.start < ((ofLine mode l).foldl Player.play p).playback.time := by
  have hbounds := start_bounds hp.forward hoctave isSung_of_mem_ofLine hn
  rw [Player.playback_foldl_play]
  refine ⟨?_, hbounds.2⟩
  have hline : ∀ t ∈ mode.line (Text.trim l), t.tempo? = none :=
    piecewise_tempo?.line mode (Text.trim l)
  rw [ofLine_of_not_blank mode hl, List.foldl_cons,
    Player.tempoAt_congr (Player.tempoChanges_foldl_play_of_none hline _),
    Player.tempoAt_play_tempo, if_pos hbounds.1]

/-! ## 2. All lines -/

/-- **Every line sets the tempo of its own notes**, whatever comes before and after. -/
theorem forall₂_tempoAt (hp : p.Measured) (hoctave : p.playback.octave ≤ 5) (mode : Mode)
    (ls : List (List Char)) :
    List.Forall₂ (fun l ns => Text.trim l ≠ [] → ∀ n ∈ ns,
        ((ls.flatMap (ofLine mode)).foldl Player.play p).tempoAt n.start =
          lineTempo (Text.trim l).length)
      ls (notesByLine mode p.playback ls) := by
  induction ls generalizing p with
  | nil => exact .nil
  | cons l ls ih =>
    have hsung : ∀ t ∈ ofLine mode l, t.IsSung := isSung_of_mem_ofLine
    have hnext := hp.foldl_play fun t ht => (hsung t ht).isReadable
    have hlines : ∀ t ∈ ls.flatMap (ofLine mode), t.IsSung :=
      piecewise_isSung.flatMap fun _ _ => isSung_of_mem_ofLine
    rw [notesByLine, List.flatMap_cons, List.foldl_append]
    refine .cons (fun hl n hn => ?_) ?_
    · obtain ⟨htempo, hlt⟩ := tempoAt_of_mem_notes hp hoctave hl hn
      rw [Player.tempoAt_foldl_play_of_lt hnext.forward (fun t ht => (hlines t ht).isReadable) hlt,
        htempo]
    · rw [← Player.playback_foldl_play]
      refine ih hnext ?_
      rw [Player.playback_foldl_play]
      exact Playback.octave_run_le hoctave hsung

/-- **Every note of a text plays at the tempo of its line.** The notes of a text are those of its
    lines, one line after the other. Where a note of a line is struck that is not blank, the tempo
    is 100 if the line, without the blanks around it, has more than 20 characters, and else 180. -/
theorem notes_play_at_line_tempo (mode : Mode) (text : String) (instrument : Instrument) :
    let p : Performance Rat := (Melody.interpret (transduce mode text) instrument).value
    let byLine := notesByLine mode opened (Text.lines text.toList)
    p.notes = byLine.flatten ∧
      List.Forall₂ (fun l ns => Text.trim l ≠ [] → ∀ n ∈ ns,
          p.tempoAt n.start = if (Text.trim l).length > 20 then 100 else 180)
        (Text.lines text.toList) byLine := by
  intro p byLine
  have hp : p = Melody.perform (tokens mode text) instrument :=
    value_interpret_transduce mode text instrument
  have hprelude : ∀ t ∈ prelude, t.IsReadable := fun _ ht => (isSung_of_mem_prelude ht).isReadable
  have hopened := (Player.measured_start instrument).foldl_play hprelude
  have hoctave : opened.octave ≤ 5 := by decide
  have hplayback := Player.playback_foldl_play prelude (Player.start instrument : Player Rat)
  have htempos := forall₂_tempoAt hopened (hplayback ▸ hoctave) mode (Text.lines text.toList)
  have hplayer : p.tempoAt = (((Text.lines text.toList).flatMap (ofLine mode)).foldl Player.play
      (prelude.foldl Player.play (Player.start instrument))).tempoAt := by
    rw [← List.foldl_append, hp]
    rfl
  constructor
  · rw [hp, Melody.notes_perform, tokens, Playback.notes_append, flatten_notesByLine]
    rfl
  · rw [hplayer]
    rw [hplayback] at htempos
    exact htempos

example :
    let p : Performance Rat :=
      (Melody.interpret (transduce .pair "ab\n\na line of many characters") .piano).value
    p.notes.map (fun n => p.tempoAt n.start) = 180 :: List.replicate 12 100 := by decide +kernel

end TextMelody.Transducer
