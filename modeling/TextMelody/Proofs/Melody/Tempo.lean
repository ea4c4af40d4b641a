import TextMelody.Proofs.Melody.Notes

/-!
# The tempo in force

A tempo token marks the tempo at the playhead. The marks lie in the order of the beats, one at an
instant, and what is marked later says nothing about what came before. Beats are exact here.

* `toList_mark`: a mark is the last one, and takes the place of one at the same beat only;
* `InOrder`, `inOrder_interpret`: **the tempo changes of every melody are in order**;
* `tempoAt_play_tempo`: a tempo token holds from the playhead on;
* `tempoAt_foldl_play_of_lt`: **no token changes the tempo before the playhead.**
-/

namespace TextMelody

open Beat

/-- The tempo that a token sets. -/
def Token.tempo? : Token → Option UInt32
  | tempo bpm => some bpm
  | _ => none

/-! ## 1. Marks -/

namespace TempoChange

/-- **A mark is the last one.** Of those before, only one at the same beat is taken away. -/
theorem toList_mark (changes : Array (TempoChange Rat)) (beat : Rat) (bpm : UInt32) :
    ∃ kept, (mark changes beat bpm).toList = kept ++ [⟨beat, bpm⟩] ∧
      ((∀ c ∈ kept.getLast?, c.beat ≠ beat) ∧ changes.toList = kept ∨
        ∃ last, last.beat = beat ∧ changes.toList = kept ++ [last]) := by
  rcases toList_mark_cases changes beat bpm with ⟨hne, e⟩ | ⟨kept, last, hkept, hsame, e⟩
  · exact ⟨changes.toList, e, .inl ⟨fun c hc hbeat => hne c hc (same_iff.mpr hbeat), rfl⟩⟩
  · have hbeat : last.beat = beat := same_iff.mp hsame
    exact ⟨kept, hbeat ▸ e, .inr ⟨last, hbeat, hkept⟩⟩

/-- **Tempo changes in order**: from the start on, each later than the one before, up to `time`. -/
structure InOrder (time : Rat) (changes : List (TempoChange Rat)) : Prop where
  zero_le : ∀ c ∈ changes, 0 ≤ c.beat
  apart : changes.Pairwise fun c d => c.beat < d.beat
  le_time : ∀ c ∈ changes, c.beat ≤ time

/-- Exact beats are in order when they are chronological. -/
theorem inOrder_iff {time : Rat} {changes : List (TempoChange Rat)} :
    InOrder time changes ↔ Chronological time changes := by
  constructor
  · rintro ⟨hzero, hapart, htime⟩
    exact ⟨fun c hc => le_iff.mpr (hzero c hc), hapart.imp before_iff.mpr,
      fun c hc => le_iff.mpr (htime c hc)⟩
  · rintro ⟨hzero, hbefore, htime⟩
    exact ⟨fun c hc => le_iff.mp (hzero c hc), hbefore.imp before_iff.mp,
      fun c hc => le_iff.mp (htime c hc)⟩

end TempoChange

/-! ## 2. The changes of a performance -/

namespace Player

/-- **A player that only moves forward, with its tempo changes in order behind it.** -/
structure Measured (p : Player Rat) : Prop where
  forward : p.playback.Forward
  inOrder : TempoChange.InOrder p.playback.time p.tempoChanges.toList

theorem measured_start (instrument : Instrument) : (start instrument : Player Rat).Measured :=
  ⟨Playback.forward_start, TempoChange.inOrder_iff.mpr .nil⟩

theorem Measured.play {p : Player Rat} (hp : p.Measured) {t : Token} (ht : t.IsTimed) :
    (p.play t).Measured :=
  ⟨hp.forward.play ht, TempoChange.inOrder_iff.mpr
    (chronological_play hp.forward (TempoChange.inOrder_iff.mp hp.inOrder) ht)⟩

theorem Measured.foldl_play {p : Player Rat} (hp : p.Measured) {ts : List Token}
    (hts : ∀ t ∈ ts, t.IsReadable) : (ts.foldl Player.play p).Measured := by
  induction ts generalizing p with
  | nil => exact hp
  | cons t ts ih =>
    exact ih (hp.play (hts t List.mem_cons_self).isTimed) fun u hu =>
      hts u (List.mem_cons_of_mem t hu)

theorem tempoChanges_play_of_none {t : Token} (ht : t.tempo? = none) (p : Player Rat) :
    (p.play t).tempoChanges = p.tempoChanges := by
  cases t with
  | tempo bpm => cases ht
  | _ => rfl

/-- Tokens that are no tempos mark nothing. -/
theorem tempoChanges_foldl_play_of_none {ts : List Token} (hts : ∀ t ∈ ts, t.tempo? = none)
    (p : Player Rat) : (ts.foldl play p).tempoChanges = p.tempoChanges := by
  induction ts generalizing p with
  | nil => rfl
  | cons t ts ih =>
    rw [List.foldl_cons, ih (fun u hu => hts u (List.mem_cons_of_mem t hu)),
      tempoChanges_play_of_none (hts t List.mem_cons_self)]

/-- **Every tempo that is marked comes from a token.** -/
theorem forall_bpm_foldl_play {P : UInt32 → Prop} {ts : List Token}
    (hts : ∀ bpm ∈ ts.filterMap Token.tempo?, P bpm) {p : Player Rat}
    (hp : ∀ c ∈ p.tempoChanges.toList, P c.bpm) :
    ∀ c ∈ (ts.foldl play p).tempoChanges.toList, P c.bpm := by
  induction ts generalizing p with
  | nil => exact hp
  | cons t ts ih =>
    cases t with
    | tempo bpm =>
      obtain ⟨hbpm, hts⟩ := List.forall_mem_cons.mp hts
      obtain ⟨kept, hmark, hkept⟩ := TempoChange.toList_mark p.tempoChanges p.playback.time bpm
      have hold : ∀ c ∈ kept, c ∈ p.tempoChanges.toList := by
        rcases hkept with ⟨_, e⟩ | ⟨last, _, e⟩
        · exact fun c hc => e ▸ hc
        · exact fun c hc => e ▸ List.mem_append_left _ hc
      have hplayed : (p.play (.tempo bpm)).tempoChanges.toList = kept ++ [⟨p.playback.time, bpm⟩] :=
        hmark
      refine ih hts ?_
      rw [hplayed]
      exact List.forall_mem_append.mpr
        ⟨fun c hc => hp c (hold c hc), List.forall_mem_singleton.mpr hbpm⟩
    | _ => exact ih hts hp

end Player

namespace Melody

/-- **The tempo changes of every melody are in order.** -/
theorem inOrder_interpret (melody : String) (instrument : Instrument) :
    let p : Performance Rat := (interpret melody instrument).value
    TempoChange.InOrder p.endBeat p.tempoChanges :=
  TempoChange.inOrder_iff.mpr (chronological_interpret melody instrument)

/-- No token of a melody sets a tempo of nothing. -/
theorem ne_zero_of_tempo? {melody : String} {t : Token} (ht : t ∈ (parse melody).value)
    {bpm : UInt32} (hsets : t.tempo? = some bpm) : bpm ≠ 0 := by
  cases t with
  | tempo n =>
    obtain rfl : n = bpm := Option.some.inj hsets
    exact fun e => (isReadable_of_mem_parse ht).1 (congrArg Token.tempo e)
  | _ => cases hsets

/-- Their tempos are those of its tokens. -/
theorem forall_bpm_interpret {P : UInt32 → Prop} {melody : String}
    (h : ∀ bpm ∈ (parse melody).value.filterMap Token.tempo?, P bpm) (instrument : Instrument) :
    ∀ c ∈ (interpret melody instrument : Reported (Performance Rat)).value.tempoChanges,
      P c.bpm := by
  rw [value_interpret]
  exact Player.forall_bpm_foldl_play h fun _ hc => absurd hc List.not_mem_nil

end Melody

/-! ## 3. The tempo at a beat -/

namespace Performance

/-- The tempo at a beat is told by the last change, if that is not after the beat. -/
theorem tempoAt_concat {p q : Performance Rat} {kept : List (TempoChange Rat)}
    {last : TempoChange Rat} (hp : p.tempoChanges = kept ++ [last]) (hq : q.tempoChanges = kept)
    (beat : Rat) : p.tempoAt beat = if last.beat ≤ beat then last.bpm else q.tempoAt beat := by
  rw [tempoAt, tempoAt, hp, hq, List.reverse_concat, List.find?_cons]
  by_cases h : last.beat ≤ beat
  · rw [if_pos h, le_iff.mpr h]
    rfl
  · rw [if_neg h, Bool.eq_false_iff.mpr (mt le_iff.mp h)]

end Performance

namespace Player

/-- The tempo in force at a beat, as far as a player has come. -/
def tempoAt (p : Player Rat) (beat : Rat) : UInt32 :=
  p.finish.value.tempoAt beat

theorem tempoAt_congr {p q : Player Rat} (h : p.tempoChanges = q.tempoChanges) (beat : Rat) :
    p.tempoAt beat = q.tempoAt beat := by
  rw [tempoAt, tempoAt, Performance.tempoAt, Performance.tempoAt, finish, finish, h]

/-- **A tempo token holds from the playhead on**, and changes nothing before it. -/
theorem tempoAt_play_tempo (p : Player Rat) (bpm : UInt32) (beat : Rat) :
    (p.play (.tempo bpm)).tempoAt beat = if p.playback.time ≤ beat then bpm else p.tempoAt beat := by
  obtain ⟨kept, hmark, hkept⟩ := TempoChange.toList_mark p.tempoChanges p.playback.time bpm
  have hplayed := Performance.tempoAt_concat (p := (p.play (.tempo bpm)).finish.value)
    (q := ⟨p.instrument, kept, [], 0⟩) hmark rfl beat
  rw [tempoAt, hplayed]
  rcases hkept with ⟨_, hkept⟩ | ⟨last, hlast, hkept⟩
  · rw [tempoAt, Performance.tempoAt, Performance.tempoAt, finish, hkept]
  · -- The change that is replaced stands at the playhead, so it does not matter before it either.
    have hreplaced := Performance.tempoAt_concat (p := p.finish.value)
      (q := ⟨p.instrument, kept, [], 0⟩) hkept rfl beat
    rw [tempoAt, hreplaced, hlast]
    split <;> rfl

/-- No token changes the tempo before the playhead. -/
theorem tempoAt_play_of_lt {p : Player Rat} {beat : Rat} (h : beat < p.playback.time) (t : Token) :
    (p.play t).tempoAt beat = p.tempoAt beat := by
  cases ht : t.tempo? with
  | none => exact tempoAt_congr (tempoChanges_play_of_none ht p) beat
  | some bpm =>
    cases t with
    | tempo n => rw [tempoAt_play_tempo, if_neg (not_le.mpr h)]
    | _ => cases ht

/-- **Nor do any tokens that only move forward.** -/
theorem tempoAt_foldl_play_of_lt {p : Player Rat} (hp : p.playback.Forward) {ts : List Token}
    (hts : ∀ t ∈ ts, t.IsReadable) {beat : Rat} (h : beat < p.playback.time) :
    (ts.foldl play p).tempoAt beat = p.tempoAt beat := by
  induction ts generalizing p with
  | nil => rfl
  | cons t ts ih =>
    have ht := (hts t List.mem_cons_self).isTimed
    have hnext : beat < (p.play t).playback.time := h.trans_le (le_iff.mp (hp.le_time_play ht))
    rw [List.foldl_cons,
      ih (p := p.play t) (hp.play ht) (fun u hu => hts u (List.mem_cons_of_mem t hu)) hnext,
      tempoAt_play_of_lt h]

end Player

end TextMelody
