import Mathlib.Algebra.BigOperators.Group.List.Basic
import TextMelody.Proofs.Melody.Notes
import TextMelody.Proofs.Transducer.Tokens

/-!
# Where the notes of a text lie

The tokens of a text say how long they last, so the time line of its melody can be read off them
without playing: a note stands where the lengths of all notes and rests before it add up to. Exact
beats are rational numbers.

* `spans`: the stretches of the notes of a token list;
* `map_span_notes`, `time_run`: **playing sung tokens puts every note on its stretch**;
* `total_tokens_le`: no text lasts longer than a beat for each character.
-/

namespace TextMelody

open Beat

/-! ## 1. Lengths and stretches -/

namespace Token

/-- How long a token holds the playhead: its own length, if it is a note or a rest. -/
def exactBeats : Token → Rat
  | rest length => (length.map Length.beats).getD 0
  | note _ length => (length.map Length.beats).getD 0
  | _ => 0

/-- How long a list of tokens lasts. -/
def total (ts : List Token) : Rat :=
  (ts.map exactBeats).sum

end Token

/-- A stretch of time. -/
structure Span where
  start : Rat
  length : Rat
deriving DecidableEq

/-- The stretch of a sounding note. -/
def NoteEvent.span (n : NoteEvent Rat) : Span :=
  ⟨n.start, n.duration⟩

namespace Token

/-- The stretch of a token that is a note. -/
def span? (position : Rat) : Token → Option Span
  | note pitch length => some ⟨position, exactBeats (.note pitch length)⟩
  | _ => none

/-- **The stretches of the notes of a token list**: each note starts after everything before it. -/
def spans (position : Rat) : List Token → List Span
  | [] => []
  | t :: ts => (t.span? position).toList ++ spans (position + t.exactBeats) ts

theorem total_cons (t : Token) (ts : List Token) : total (t :: ts) = t.exactBeats + total ts := by
  rw [total, List.map_cons, List.sum_cons]
  rfl

theorem total_append (ts us : List Token) : total (ts ++ us) = total ts + total us := by
  rw [total, List.map_append, List.sum_append]
  rfl

theorem total_singleton (t : Token) : total [t] = t.exactBeats :=
  add_zero _

end Token

/-! ## 2. Playing sung tokens -/

/-- Every length that is sung lasts a quarter of a beat at least. -/
theorem Length.le_beats_of_sung {l : Length} (h : l ∈ sung) : 1 / 4 ≤ (l.beats : Rat) := by
  revert l
  decide +kernel

/-- So does every stretch of a sung note. -/
theorem Token.le_length_of_mem_spans {position : Rat} {ts : List Token}
    (hts : ∀ t ∈ ts, t.IsSung) {x : Span} (h : x ∈ spans position ts) : 1 / 4 ≤ x.length := by
  induction ts generalizing position with
  | nil => cases h
  | cons t ts ih =>
    rw [spans, List.mem_append, Option.mem_toList] at h
    rcases h with hx | hx
    · cases t with
      | note pitch length =>
        obtain ⟨_, l, hl, rfl⟩ := hts _ List.mem_cons_self
        cases hx
        exact Length.le_beats_of_sung hl
      | _ => cases hx
    · exact ih (fun u hu => hts u (List.mem_cons_of_mem t hu)) hx

namespace Playback

/-- Up to octave five every pitch has a key. -/
theorem key?_isSome {β : Type} [Beat β] {s : Playback β} (h : s.octave ≤ 5) (pitch : PitchClass) :
    ∃ key, s.key? pitch = some key := by
  have hoctave : s.octave.toNat ≤ 5 := UInt32.le_iff_toNat_le.mp h
  have hsemitone : pitch.semitone.toNat < 12 := UInt8.lt_iff_toNat_lt.mp pitch.semitone_lt
  have hkey : (s.octave.toNat + 1) * 12 + pitch.semitone.toNat ≤ 127 := by omega
  exact ⟨_, if_pos hkey⟩

theorem octave_start_le {β : Type} [Beat β] : (start : Playback β).octave ≤ 5 :=
  (by decide : (4 : UInt32) ≤ 5)

theorem octave_play_le {β : Type} [Beat β] {s : Playback β} (hs : s.octave ≤ 5) {t : Token}
    (ht : t.IsSung) : (s.play t).octave ≤ 5 := by
  cases t with
  | octave n => exact ht
  | _ => exact hs

theorem octave_run_le {β : Type} [Beat β] {s : Playback β} (hs : s.octave ≤ 5) {ts : List Token}
    (hts : ∀ t ∈ ts, t.IsSung) : (s.run ts).octave ≤ 5 := by
  induction ts generalizing s with
  | nil => exact hs
  | cons t ts ih =>
    have hplayed := octave_play_le hs (hts t List.mem_cons_self)
    exact ih hplayed fun u hu => hts u (List.mem_cons_of_mem t hu)

theorem time_play {s : Playback Rat} {t : Token} (ht : t.IsSung) :
    (s.play t).time = s.time + t.exactBeats := by
  cases t with
  | rest length =>
    obtain ⟨l, _, rfl⟩ := ht
    rfl
  | note pitch length =>
    obtain ⟨_, l, _, rfl⟩ := ht
    rfl
  | _ => exact (add_zero s.time).symm

theorem span_note? {s : Playback Rat} (hs : s.octave ≤ 5) {t : Token} (ht : t.IsSung) :
    (s.note? t).map NoteEvent.span = t.span? s.time := by
  cases t with
  | note pitch length =>
    obtain ⟨key, hkey⟩ := key?_isSome hs pitch
    obtain ⟨_, l, _, rfl⟩ := ht
    rw [note?, hkey]
    rfl
  | _ => rfl

/-- **Playing puts every note on its stretch.** -/
theorem map_span_notes {s : Playback Rat} (hs : s.octave ≤ 5) {ts : List Token}
    (hts : ∀ t ∈ ts, t.IsSung) : (s.notes ts).map NoteEvent.span = Token.spans s.time ts := by
  induction ts generalizing s with
  | nil => rfl
  | cons t ts ih =>
    have ht := hts t List.mem_cons_self
    have hrest := ih (octave_play_le hs ht) fun u hu => hts u (List.mem_cons_of_mem t hu)
    have hnote : (s.note? t).toList.map NoteEvent.span = (t.span? s.time).toList := by
      rw [← Option.toList_map, span_note? hs ht]
    rw [notes_cons, List.map_append, hnote, hrest, time_play ht, Token.spans]

/-- **Playing moves the playhead by what the tokens last.** -/
theorem time_run {s : Playback Rat} {ts : List Token} (hts : ∀ t ∈ ts, t.IsSung) :
    (s.run ts).time = s.time + Token.total ts := by
  induction ts generalizing s with
  | nil => exact (add_zero s.time).symm
  | cons t ts ih =>
    have hrest := ih (s := s.play t) fun u hu => hts u (List.mem_cons_of_mem t hu)
    rw [run_cons, hrest, time_play (hts t List.mem_cons_self), Token.total_cons, add_assoc]

end Playback

/-! ## 3. What a text sounds like, and how long it lasts -/

namespace Transducer

open Token

/-- What is in force when the first line of a text starts. -/
def opened : Playback Rat :=
  Playback.start.run prelude

/-- The melody of a text is performed token by token. -/
theorem value_interpret_transduce {β : Type} [Beat β] (mode : Mode) (text : String)
    (instrument : Instrument) :
    (Melody.interpret (transduce mode text) instrument : Reported (Performance β)).value =
      Melody.perform (tokens mode text) instrument := by
  rw [Melody.value_interpret, parse_transduce]

theorem total_sing (c : Char) (l : Length) : total (sing c l) = l.beats := by
  calc total (sing c l)
      = 0 + (l.beats + 0) := rfl
    _ = l.beats := by rw [add_zero, zero_add]

theorem total_pause (d : UInt32) : total [pause d] = Length.beats ⟨d, 0⟩ :=
  total_singleton _

namespace Repetition

/-- A pause lasts a beat at most. -/
theorem beats_pause?_le {c : Char} {d : UInt32} (h : pause? c = some d) :
    (Length.beats ⟨d, 0⟩ : Rat) ≤ 1 := by
  unfold pause? at h
  split at h
  · cases h
    decide +kernel
  · split at h
    · cases h
      decide +kernel
    · cases h

/-- A run is not sung longer than it has characters. -/
theorem beats_denominator_le {n : Nat} (h : 1 ≤ n) :
    (Length.beats ⟨denominator n, 0⟩ : Rat) ≤ n := by
  match n, h with
  | 1, _ => decide +kernel
  | 2, _ => decide +kernel
  | 3, _ => decide +kernel
  | n + 4, _ =>
    have hwhole : (Length.beats ⟨1, 0⟩ : Rat) = 4 := by decide +kernel
    have hone : denominator (n + 4) = 1 := rfl
    rw [hone, hwhole]
    push_cast
    linarith [(Nat.cast_nonneg n : (0 : Rat) ≤ n)]

theorem total_line_le (cs : List Char) : total (line cs) ≤ cs.length := by
  induction cs using line.induct with
  | case1 =>
    rw [line_nil]
    exact le_refl (0 : Rat)
  | case2 c cs d hd ih =>
    have hpause := beats_pause?_le hd
    rw [line_cons_of_pause hd, total_cons, ← total_singleton, total_pause, List.length_cons]
    push_cast
    linarith
  | case3 c cs hc run ih =>
    have hpos : 1 ≤ run := (Nat.le_add_left 1 _).trans_eq (runLength_cons_self c cs).symm
    have hsung := beats_denominator_le hpos
    have hlength : (run : Rat) + ((c :: cs).drop run).length = (c :: cs).length := by
      rw [List.length_drop, ← Nat.cast_add, Nat.add_sub_of_le (runLength_le c (c :: cs))]
    rw [line_cons_of_not_pause hc, total_append, total_sing, ← hlength]
    exact add_le_add hsung ih

end Repetition

namespace Pair

/-- Two characters last two beats at most. -/
theorem total_rhythm_le (c d : Char) : total ((Rhythm.of d).tokens c) ≤ 2 := by
  unfold Rhythm.of
  split
  case h_7 | h_8 =>
    rw [Rhythm.tokens, total_pause]
    decide +kernel
  all_goals
    rw [Rhythm.tokens, total_sing]
    decide +kernel

theorem total_line_le : ∀ cs : List Char, total (line cs) ≤ cs.length
  | [] => le_refl (0 : Rat)
  | [c] => by
    rw [line, total_sing, List.length_singleton]
    decide +kernel
  | c :: d :: cs => by
    have hpair := total_rhythm_le c d
    have hrest := total_line_le cs
    rw [line, total_append, List.length_cons, List.length_cons]
    push_cast
    linarith

end Pair

theorem length_trim_le (cs : List Char) : (Text.trim cs).length ≤ cs.length := by
  have hstart : ∀ ds : List Char, (Text.trimStart ds).length ≤ ds.length := fun ds =>
    (List.dropWhile_suffix _).length_le
  have hend : (Text.trim cs).length ≤ (Text.trimStart cs).length := by
    rw [Text.trim, Text.trimEnd, List.length_reverse]
    exact (hstart _).trans_eq List.length_reverse
  exact hend.trans (hstart cs)

/-- A line and its end last no longer than they have characters. -/
theorem total_ofLine_le (mode : Mode) (cs : List Char) :
    total (ofLine mode cs) ≤ (cs.length + 1 : Nat) := by
  by_cases hblank : Text.trim cs = []
  · have hrest : total mode.blankLine ≤ 1 := by
      cases mode <;> decide +kernel
    rw [ofLine_of_blank mode hblank, Nat.cast_add, Nat.cast_one]
    linarith [(Nat.cast_nonneg cs.length : (0 : Rat) ≤ cs.length)]
  · have hline : total (mode.line (Text.trim cs)) ≤ (Text.trim cs).length := by
      cases mode with
      | repetition => exact Repetition.total_line_le _
      | pair => exact Pair.total_line_le _
    have htrim : ((Text.trim cs).length : Rat) ≤ cs.length := Nat.cast_le.mpr (length_trim_le cs)
    have htempo : exactBeats (.tempo (lineTempo (Text.trim cs).length)) = 0 := rfl
    rw [ofLine_of_not_blank mode hblank, total_cons, htempo, zero_add, Nat.cast_add, Nat.cast_one]
    linarith

/-- The lines of a text, each with its end, are no longer than the text with an end. -/
theorem sum_length_lines_le (cs : List Char) :
    ((Text.lines cs).map fun l => l.length + 1).sum ≤ cs.length + 1 := by
  induction cs with
  | nil => exact Nat.zero_le 1
  | cons c cs ih =>
    rw [Text.lines, List.length_cons]
    split
    · simp only [List.map_cons, List.sum_cons, List.length_nil]
      omega
    · split
      · omega
      · cases hlines : Text.lines cs with
        | nil =>
          simp only [Text.addToFirst, List.map_cons, List.map_nil, List.sum_cons, List.sum_nil,
            List.length_cons, List.length_nil]
          omega
        | cons l ls =>
          rw [hlines] at ih
          simp only [Text.addToFirst, List.map_cons, List.sum_cons, List.length_cons] at ih ⊢
          omega

theorem total_flatMap_ofLine_le (mode : Mode) (ls : List (List Char)) :
    total (ls.flatMap (ofLine mode)) ≤ ((ls.map fun l => l.length + 1).sum : Nat) := by
  induction ls with
  | nil => exact le_refl (0 : Rat)
  | cons l ls ih =>
    have hl := total_ofLine_le mode l
    rw [List.flatMap_cons, total_append, List.map_cons, List.sum_cons, Nat.cast_add]
    exact add_le_add hl ih

/-- **No text lasts longer than a beat for each character, and one more.** -/
theorem total_tokens_le (mode : Mode) (text : String) :
    total (tokens mode text) ≤ (text.length + 1 : Nat) := by
  have hprelude : total prelude = 0 := by decide +kernel
  have hlines := total_flatMap_ofLine_le mode (Text.lines text.toList)
  have hsum := sum_length_lines_le text.toList
  rw [tokens, total_append, hprelude, zero_add, ofLines]
  exact hlines.trans (Nat.cast_le.mpr hsum)

end Transducer

end TextMelody
