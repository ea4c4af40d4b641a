import TextMelody.Proofs.Midi.Strokes
import TextMelody.Proofs.Transducer.Quarters
import TextMelody.Proofs.Transducer.Spans

/-!
# The time line of a text

A text keeps its time line on the way to a track. No note of a text is shorter than a quarter of a
beat, so with four ticks to a beat or more every note is released at the tick of its own end, and
the at least one tick that every note sounds for is never added. Notes never overlap. Nor do
floating-point beats change anything: they hold every quarter of a beat exactly.

* `Resolved`: performances whose notes are wide enough for the ticks they are counted in;
* `Resolved.filter_isNote_absolute`: **such a performance is sounded note by note**;
* `ofPerformance_transduce`: the song of a text is the one in exact beats;
* `track_of_text`: where every note of a text is struck and released, and where the track ends.
-/

namespace TextMelody

open Beat

/-! ## 1. Notes that are wide enough -/

namespace Midi

/-- The strike and the release of a note on the ticks nearest to them, halves going up. -/
def nearestStrokes (params : Params) (n : NoteEvent Rat) : List Scheduled :=
  [⟨(round (params.ticksPerBeat.toNat * n.start)).toNat,
    .noteOn params.wireChannel n.key (sevenBits n.velocity)⟩,
   ⟨(round (params.ticksPerBeat.toNat * (n.start + n.duration))).toNat,
    .noteOff params.wireChannel n.key 0⟩]

/-- **A performance whose notes are wide enough for the ticks they are counted in.** -/
structure Resolved (p : Performance Rat) (params : Params) : Prop where
  inTurn : p.InTurn
  resolution : params.resolution = params.ticksPerBeat
  four_le : 4 ≤ params.ticksPerBeat.toNat
  quarter_le : ∀ n ∈ p.notes, 1 / 4 ≤ n.duration
  /-- A word can hold every tick. -/
  lt_maxWord : params.ticksPerBeat.toNat * p.endBeat < maxWord

namespace Resolved

variable {p : Performance Rat} {params : Params}

theorem ticks_lt (h : Resolved p params) {b : Rat} (hb : b ≤ p.endBeat) :
    b * params.ticksPerBeat.toNat < maxWord := by
  have hle : b * params.ticksPerBeat.toNat ≤ p.endBeat * params.ticksPerBeat.toNat :=
    mul_le_mul_of_nonneg_right hb (Nat.cast_nonneg _)
  have hlt := h.lt_maxWord
  rw [mul_comm] at hlt
  exact lt_of_le_of_lt hle hlt

/-- The tick of a beat is the nearest one. -/
theorem tickOf_eq_round (h : Resolved p params) {b : Rat} (hb : b ≤ p.endBeat) :
    tickOf params.resolution b = (round (params.ticksPerBeat.toNat * b)).toNat := by
  rw [h.resolution, mul_comm]
  exact nearest_eq_round (h.ticks_lt hb)

theorem release_le (h : Resolved p params) {n : NoteEvent Rat} (hn : n ∈ p.notes) :
    n.release ≤ p.endBeat :=
  le_iff.mp (h.inTurn.release_le n hn)

theorem start_le (h : Resolved p params) {n : NoteEvent Rat} (hn : n ∈ p.notes) :
    n.start ≤ p.endBeat :=
  le_trans (le_iff.mp (h.inTurn.le_release n hn)) (h.release_le hn)

/-- **A note ends on a later tick than it starts.** -/
theorem strikeTick_lt (h : Resolved p params) {n : NoteEvent Rat} (hn : n ∈ p.notes) :
    strikeTick params.resolution n < tickOf params.resolution n.release := by
  have hstart : 0 ≤ n.start := le_iff.mp (h.inTurn.zero_le n hn)
  have hfour : (4 : Rat) ≤ params.ticksPerBeat.toNat := by
    exact_mod_cast h.four_le
  have hquarter := h.quarter_le n hn
  have hone : 1 ≤ n.duration * params.ticksPerBeat.toNat := by
    calc (1 : Rat)
        = 1 / 4 * 4 := by norm_num
      _ ≤ n.duration * params.ticksPerBeat.toNat :=
        mul_le_mul hquarter hfour (by norm_num) (by linarith)
  have hstep : n.start * params.ticksPerBeat.toNat + 1 ≤
      n.release * params.ticksPerBeat.toNat := by
    rw [NoteEvent.release, add_mul]
    linarith
  rw [h.resolution]
  exact nearest_lt (mul_nonneg hstart (Nat.cast_nonneg _)) hstep (h.ticks_lt (h.release_le hn))

/-- So the tick that every note sounds for is never added. -/
theorem releaseTick_eq (h : Resolved p params) {n : NoteEvent Rat} (hn : n ∈ p.notes) :
    releaseTick params.resolution n = tickOf params.resolution n.release := by
  have hlt := h.strikeTick_lt hn
  exact Nat.max_eq_left (Nat.le_trans (Nat.min_le_left _ _) hlt)

theorem ofNote_eq (h : Resolved p params) {n : NoteEvent Rat} (hn : n ∈ p.notes) :
    ofNote params n = nearestStrokes params n := by
  have hstrike := h.tickOf_eq_round (h.start_le hn)
  have hrelease := h.tickOf_eq_round (h.release_le hn)
  rw [ofNote, h.releaseTick_eq hn, hrelease, strikeTick, hstrike,
    sevenBits_eq (h.inTurn.key_le n hn)]
  rfl

/-- **The track sounds note by note**, each on its own ticks. -/
theorem filter_isNote_absolute (h : Resolved p params) :
    (absolute 0 (Song.ofPerformance p params).track).filter Scheduled.isNote =
      p.notes.flatMap (nearestStrokes params) := by
  have hheld : ∀ n ∈ p.notes,
      strikeTick params.resolution n < releaseTick params.resolution n := by
    intro n hn
    rw [h.releaseTick_eq hn]
    exact h.strikeTick_lt hn
  have hapart : p.notes.Pairwise fun m n =>
      releaseTick params.resolution m ≤ strikeTick params.resolution n := by
    refine h.inTurn.apart.imp_of_mem fun {m n} hm _ hmn => ?_
    rw [h.releaseTick_eq hm]
    exact tickOf_le hmn
  have hordered := pairwise_flatMap_ofNote hheld hapart
  rw [← filter_isNote_gathered] at hordered
  rw [filter_absolute_of_ordered (fun _ => Scheduled.isHeard_of_isNote)
    (fun _ => Bool.false_ne_true) hordered, filter_isNote_gathered]
  exact List.flatMap_congr fun n hn => h.ofNote_eq hn

/-- **The track ends on the tick where the performance ends.** -/
theorem filter_isEnd_absolute (h : Resolved p params) :
    (absolute 0 (Song.ofPerformance p params).track).filter Scheduled.isEnd =
      [⟨(round (params.ticksPerBeat.toNat * p.endBeat)).toNat, .endOfTrack⟩] := by
  have hgathered : ∀ x ∈ gathered p params, x.tick ≤ tickOf params.resolution p.endBeat := by
    refine forall_mem_gathered (Nat.zero_le _) (Nat.zero_le _) ?_ (Nat.zero_le _) ?_
    · exact fun c hc => tickOf_le (h.inTurn.beat_le c hc)
    · intro n hn x hx
      have hrelease : tickOf params.resolution n.release ≤ tickOf params.resolution p.endBeat :=
        tickOf_le (h.inTurn.release_le n hn)
      rw [ofNote, h.releaseTick_eq hn, List.mem_cons, List.mem_singleton] at hx
      rcases hx with rfl | rfl
      · exact Nat.le_trans (Nat.le_of_lt (h.strikeTick_lt hn)) hrelease
      · exact hrelease
  rw [Midi.filter_isEnd_absolute, endTick_eq hgathered, h.tickOf_eq_round (le_refl _)]

end Resolved

end Midi

/-! ## 2. Texts -/

namespace Transducer

open Midi

/-- **The notes of a text lie where its tokens say.** -/
theorem span_notes_transduce (mode : Mode) (text : String) (instrument : Instrument) :
    (Melody.perform (tokens mode text) instrument : Performance Rat).notes.map NoteEvent.span =
      Token.spans 0 (tokens mode text) := by
  rw [Melody.notes_perform]
  exact Playback.map_span_notes (by decide) fun _ ht => isSung_of_mem_tokens ht

theorem endBeat_transduce (mode : Mode) (text : String) (instrument : Instrument) :
    (Melody.perform (tokens mode text) instrument : Performance Rat).endBeat =
      Token.total (tokens mode text) := by
  rw [Melody.endBeat_perform, Playback.time_run fun _ ht => isSung_of_mem_tokens ht]
  exact zero_add _

/-- No note of a text is shorter than a quarter of a beat. -/
theorem quarter_le_duration {mode : Mode} {text : String} {instrument : Instrument}
    {n : NoteEvent Rat}
    (h : n ∈ (Melody.perform (tokens mode text) instrument : Performance Rat).notes) :
    1 / 4 ≤ n.duration := by
  have hspan := span_notes_transduce mode text instrument
  have hmem : n.span ∈ Token.spans 0 (tokens mode text) := hspan ▸ List.mem_map_of_mem h
  exact Token.le_length_of_mem_spans (fun _ ht => isSung_of_mem_tokens ht) hmem

/-- **The ticks of a file are fine enough for every text.** -/
theorem resolved_transduce (mode : Mode) (text : String) (instrument : Instrument)
    {params : Params} (hlow : 4 ≤ params.ticksPerBeat) (hhigh : params.ticksPerBeat ≤ 32767)
    (hlength : text.length < 2 ^ 32) :
    Resolved (Melody.perform (tokens mode text) instrument) params := by
  have hfour : 4 ≤ params.ticksPerBeat.toNat := UInt16.le_iff_toNat_le.mp hlow
  have hticks : params.ticksPerBeat.toNat ≤ 32767 := UInt16.le_iff_toNat_le.mp hhigh
  have hone : 1 ≤ params.ticksPerBeat := UInt16.le_iff_toNat_le.mpr (Nat.le_trans (by decide) hfour)
  constructor
  case inTurn => exact Melody.inTurn_perform (fun _ ht => isReadable_of_mem_tokens ht) instrument
  case resolution => exact resolution_eq hone hhigh
  case four_le => exact hfour
  case quarter_le => exact fun n hn => quarter_le_duration hn
  case lt_maxWord =>
    have htotal : Token.total (tokens mode text) ≤ (2 ^ 32 : Nat) :=
      (total_tokens_le mode text).trans (Nat.cast_le.mpr hlength)
    have hbound : ((32767 * 2 ^ 32 : Nat) : Rat) < maxWord := Nat.cast_lt.mpr (by decide)
    rw [endBeat_transduce]
    calc (params.ticksPerBeat.toNat : Rat) * Token.total (tokens mode text)
        ≤ params.ticksPerBeat.toNat * (2 ^ 32 : Nat) :=
          mul_le_mul_of_nonneg_left htotal (Nat.cast_nonneg _)
      _ = ((params.ticksPerBeat.toNat * 2 ^ 32 : Nat) : Rat) := (Nat.cast_mul _ _).symm
      _ ≤ ((32767 * 2 ^ 32 : Nat) : Rat) := Nat.cast_le.mpr (Nat.mul_le_mul_right _ hticks)
      _ < maxWord := hbound

/-- A text is short enough for its quarters to be counted exactly. -/
theorem quarters_lt (mode : Mode) (text : String) (instrument : Instrument)
    (hlength : text.length < 2 ^ 32) :
    (Melody.perform (tokens mode text) instrument : Performance Quarters).endBeat.count
      < 2 ^ 38 := by
  have hexact := (Quarters.exact_toRat _).perform_map (fun _ ht => isSung_of_mem_tokens ht)
    instrument (Nat.lt_succ_self
      (Melody.perform (tokens mode text) instrument : Performance Quarters).endBeat.count)
  have hend := endBeat_transduce mode text instrument
  rw [hexact] at hend
  generalize (Melody.perform (tokens mode text) instrument : Performance Quarters) = p at hend ⊢
  have htotal : (p.endBeat.count : Rat) / 4 ≤ (2 ^ 32 : Nat) := by
    calc (p.endBeat.count : Rat) / 4
        = Token.total (tokens mode text) := hend
      _ ≤ (text.length + 1 : Nat) := total_tokens_le mode text
      _ ≤ (2 ^ 32 : Nat) := Nat.cast_le.mpr hlength
  have hcount : (p.endBeat.count : Rat) ≤ (2 ^ 32 * 4 : Nat) := by
    rw [Nat.cast_mul]
    exact (div_le_iff₀ (by norm_num)).mp htotal
  exact Nat.lt_of_le_of_lt (Nat.cast_le.mp hcount) (by decide)

/-- **Floating-point beats are exact on a text**: its song is the one in exact beats. -/
theorem ofPerformance_transduce (mode : Mode) (text : String) (instrument : Instrument)
    (params : Params) (hlength : text.length < 2 ^ 32) :
    Song.ofPerformance (Melody.interpret (transduce mode text) instrument :
        Reported (Performance Float)).value params =
      Song.ofPerformance (Melody.interpret (transduce mode text) instrument :
        Reported (Performance Rat)).value params := by
  have hsung : ∀ t ∈ tokens mode text, t.IsSung := fun _ ht => isSung_of_mem_tokens ht
  have hlimit := quarters_lt mode text instrument hlength
  have hturn : (Melody.perform (tokens mode text) instrument : Performance Quarters).InTurn :=
    Melody.inTurn_perform (fun t ht => (hsung t ht).isReadable) instrument
  rw [Melody.value_interpret, Melody.value_interpret, parse_transduce,
    Quarters.exact_toFloat.perform_map hsung instrument hlimit,
    (Quarters.exact_toRat _).perform_map hsung instrument hlimit,
    Quarters.exact_toFloat.ofPerformance_map hturn hlimit,
    (Quarters.exact_toRat _).ofPerformance_map hturn hlimit]

/-- **The track of a text keeps the time line of its tokens.** Every note token is struck and
    released once, on the key it is struck on, before the next one: at the ticks nearest to where
    all notes and rests before it end, and to where it ends itself. The track ends at the tick
    nearest to the end of all. The track is counted in floating-point beats, the stretches of the
    tokens are exact. -/
theorem track_of_text (mode : Mode) (text : String) (instrument : Instrument) (params : Params)
    (hlow : 4 ≤ params.ticksPerBeat) (hhigh : params.ticksPerBeat ≤ 32767)
    (hlength : text.length < 2 ^ 32) :
    let p : Performance Float := (Melody.interpret (transduce mode text) instrument).value
    let q : Performance Rat := (Melody.interpret (transduce mode text) instrument).value
    let events := absolute 0 (Song.ofPerformance p params).track
    q.notes.map NoteEvent.span = Token.spans 0 (tokens mode text) ∧
      events.filter Scheduled.isNote = q.notes.flatMap (nearestStrokes params) ∧
      events.filter Scheduled.isEnd =
        [⟨(round (params.ticksPerBeat.toNat * Token.total (tokens mode text))).toNat,
          .endOfTrack⟩] := by
  intro p q events
  have hq : q = Melody.perform (tokens mode text) instrument :=
    value_interpret_transduce mode text instrument
  have hevents : events = absolute 0 (Song.ofPerformance q params).track :=
    congrArg (fun s => absolute 0 s.track)
      (ofPerformance_transduce mode text instrument params hlength)
  have hresolved := resolved_transduce mode text instrument hlow hhigh hlength
  have hend := hresolved.filter_isEnd_absolute
  rw [endBeat_transduce] at hend
  rw [hevents, hq]
  exact ⟨span_notes_transduce mode text instrument, hresolved.filter_isNote_absolute, hend⟩

/-- At four ticks to a beat a quarter note takes four ticks and an eighth note two. -/
theorem track_of_text_aab :
    (absolute 0 (Song.ofPerformance
        (Melody.interpret (transduce .repetition "aab") .piano : Reported (Performance Float)).value
        { ticksPerBeat := 4 }).track).filter Scheduled.isNote =
      [⟨0, .noteOn 0 61 85⟩, ⟨4, .noteOff 0 61 0⟩, ⟨4, .noteOn 0 62 85⟩, ⟨6, .noteOff 0 62 0⟩] :=
  (track_of_text .repetition "aab" .piano { ticksPerBeat := 4 } (by decide) (by decide)
    (by decide)).2.1.trans (by decide +kernel)

end Transducer

end TextMelody
