import Mathlib.Data.Nat.Cast.Order.Field
import TextMelody.Proofs.Melody.Extent
import TextMelody.Proofs.Melody.Tempo
import TextMelody.Proofs.Midi.Clock

/-!
# Two clocks

A performance counts its seconds along its tempo changes; a track is played by its tempo events. The
two differ in one thing: a tempo event holds whole microseconds, and what is over is cut off. That
is less than a microsecond for each beat, so however often the tempo changes, a note is struck early
by no more microseconds than beats have passed. Beats are exact here.

* `tempoMicros_le`, `le_tempoMicros`: a tempo event is less than a microsecond short;
* `OnTick`, `Aligned`: beats that fall on ticks, and the way from one to another;
* `Spans.early`, `Aligned.early`: **how early a track is** after one stretch and after all of them;
* `ticks_le_maxWord`: the ticks of a melody fit a word, unless it has 2^46 characters;
* `clocks_agree`: **when the notes of a melody are struck, on both clocks.**
-/

namespace TextMelody.Midi

open Beat

/-! ## 1. Whole microseconds -/

/-- A tempo event can hold every tempo from four beats a minute on. -/
theorem tempoMicros_eq {bpm : UInt32} (h : 4 ≤ bpm.toNat) :
    tempoMicros bpm = 60000000 / bpm.toNat := by
  have hmax : max bpm.toNat 1 = bpm.toNat := Nat.max_eq_left (by omega)
  have hfit : 60000000 / bpm.toNat ≤ 0xFFFFFF := by
    calc 60000000 / bpm.toNat
        ≤ 60000000 / 4 := Nat.div_le_div_left h (by decide)
      _ ≤ 0xFFFFFF := by decide
  rw [tempoMicros, hmax, Nat.min_eq_left hfit]

theorem tempoMicros_le {bpm : UInt32} (h : 4 ≤ bpm.toNat) :
    (tempoMicros bpm : Rat) ≤ 60000000 / bpm.toNat := by
  rw [tempoMicros_eq h]
  have hle : ((60000000 / bpm.toNat : Nat) : Rat) ≤ (60000000 : Nat) / bpm.toNat := Nat.cast_div_le
  exact_mod_cast hle

/-- **A tempo event is less than a microsecond short.** -/
theorem le_tempoMicros {bpm : UInt32} (h : 4 ≤ bpm.toNat) :
    (60000000 : Rat) / bpm.toNat ≤ tempoMicros bpm + 1 := by
  have hpos : 0 < bpm.toNat := by omega
  have hlt : 60000000 < (60000000 / bpm.toNat + 1) * bpm.toNat := by
    rw [Nat.mul_comm]
    exact Nat.lt_mul_div_succ 60000000 hpos
  rw [tempoMicros_eq h, div_le_iff₀ (Nat.cast_pos.mpr hpos)]
  exact_mod_cast hlt.le

/-! ## 2. Beats on ticks -/

/-- Whether a beat falls on a tick. -/
def Params.OnTick (params : Params) (beat : Rat) : Prop :=
  (params.resolution.toNat * beat).isInt

instance (params : Params) (beat : Rat) : Decidable (params.OnTick beat) :=
  inferInstanceAs (Decidable ((params.resolution.toNat * beat).isInt = true))

variable {params : Params}

/-- A beat on a tick has this tick, as far as ticks go. -/
theorem Params.OnTick.tickOf_eq {beat : Rat} (h : params.OnTick beat) (hzero : 0 ≤ beat) :
    ∃ tick : Nat, params.resolution.toNat * beat = tick ∧
      tickOf params.resolution beat = min tick maxWord := by
  have hnonneg : 0 ≤ (params.resolution.toNat * beat).num :=
    Rat.num_nonneg.mpr (mul_nonneg (Nat.cast_nonneg _) hzero)
  obtain ⟨tick, htick⟩ := Int.eq_ofNat_of_zero_le hnonneg
  have hwhole : params.resolution.toNat * beat = tick := by
    rw [Rat.eq_num_of_isInt h, htick, Int.cast_natCast]
  refine ⟨tick, hwhole, ?_⟩
  rw [tickOf, mul_comm, ofNat_eq, hwhole, nearest_natCast]

/-- **A stretch of beats from tick to tick.** -/
structure Params.Spans (params : Params) (a b : Rat) : Prop where
  zero_le : 0 ≤ a
  le : a ≤ b
  start : params.OnTick a
  finish : params.OnTick b

namespace Params.Spans

variable {a b : Rat}

/-- A stretch has no more ticks than its beats have, and less only where ticks come to an end. -/
theorem ticks_le (h : params.Spans a b) :
    ((tickOf params.resolution b - tickOf params.resolution a : Nat) : Rat) ≤
        params.resolution.toNat * (b - a) ∧
      (params.resolution.toNat * b ≤ maxWord →
        ((tickOf params.resolution b - tickOf params.resolution a : Nat) : Rat) =
          params.resolution.toNat * (b - a)) := by
  obtain ⟨first, hfirst, ha⟩ := h.start.tickOf_eq h.zero_le
  obtain ⟨last, hlast, hb⟩ := h.finish.tickOf_eq (h.zero_le.trans h.le)
  have hle : first ≤ last := by
    have hmul := mul_le_mul_of_nonneg_left h.le (Nat.cast_nonneg (α := Rat) params.resolution.toNat)
    rw [hfirst, hlast] at hmul
    exact_mod_cast hmul
  have hticks : params.resolution.toNat * (b - a) = ((last - first : Nat) : Rat) := by
    rw [mul_sub, hfirst, hlast, Nat.cast_sub hle]
  rw [hticks, hlast, ha, hb]
  generalize maxWord = most
  constructor
  · exact Nat.cast_le.mpr (by omega)
  · intro hfit
    have hmost : last ≤ most := Nat.cast_le.mp hfit
    rw [Nat.min_eq_left hmost, Nat.min_eq_left (hle.trans hmost)]

end Params.Spans

/-! ## 3. Falling behind -/

/-- **A track that is early by no more microseconds than beats pass**: it takes `micros`
    microseconds where there are `seconds` seconds. That it is early holds anyway, that it is not
    by more holds if the ticks `fit`. -/
structure Early (fit : Prop) (beats micros seconds : Rat) : Prop where
  le : micros ≤ 1000000 * seconds
  close : fit → 1000000 * seconds ≤ micros + beats

theorem Early.imp {fit fit' : Prop} (h : fit' → fit) {beats micros seconds : Rat}
    (he : Early fit beats micros seconds) : Early fit' beats micros seconds :=
  ⟨he.le, fun hfit => he.close (h hfit)⟩

/-- Stretches add up. -/
theorem Early.add {fit : Prop} {beats micros seconds beats' micros' seconds' : Rat}
    (h : Early fit beats micros seconds) (h' : Early fit beats' micros' seconds') :
    Early fit (beats + beats') (micros + micros') (seconds + seconds') where
  le := by
    have hle := h.le
    have hle' := h'.le
    linarith
  close hfit := by
    have hclose := h.close hfit
    have hclose' := h'.close hfit
    linarith

/-- **One stretch at one tempo.** -/
theorem Params.Spans.early {a b : Rat} (h : params.Spans a b) {bpm : UInt32} (hbpm : 4 ≤ bpm.toNat) :
    Early (params.resolution.toNat * b ≤ maxWord) (b - a)
      (microsOf params.resolution.toNat (tempoMicros bpm)
        (tickOf params.resolution b - tickOf params.resolution a))
      (Performance.span a b bpm) := by
  obtain ⟨hticks, hexact⟩ := h.ticks_le
  have hresolution : (0 : Rat) < params.resolution.toNat := Nat.cast_pos.mpr params.resolution_pos
  have hbeats : 0 ≤ b - a := sub_nonneg.mpr h.le
  have hspan : 1000000 * Performance.span a b bpm = (b - a) * (60000000 / bpm.toNat) := by
    rw [Performance.span, ofNat_eq, ofNat_eq]
    push_cast
    ring
  have hmicros : params.resolution.toNat * (b - a) * (tempoMicros bpm) / params.resolution.toNat =
      (b - a) * tempoMicros bpm := by
    field_simp
  rw [microsOf]
  constructor
  case le =>
    calc _ ≤ params.resolution.toNat * (b - a) * tempoMicros bpm / params.resolution.toNat := by
          gcongr
      _ = (b - a) * tempoMicros bpm := hmicros
      _ ≤ (b - a) * (60000000 / bpm.toNat) :=
        mul_le_mul_of_nonneg_left (tempoMicros_le hbpm) hbeats
      _ = 1000000 * Performance.span a b bpm := hspan.symm
  case close =>
    intro hfit
    rw [hexact hfit, hmicros, hspan]
    calc (b - a) * (60000000 / bpm.toNat)
        ≤ (b - a) * (tempoMicros bpm + 1) :=
          mul_le_mul_of_nonneg_left (le_tempoMicros hbpm) hbeats
      _ = (b - a) * tempoMicros bpm + (b - a) := mul_add_one _ _

/-! ## 4. Many stretches -/

/-- **The way to a beat from `last`, with the tempo changes to come**: they are in order, and up to
    the beat they fall on ticks. -/
structure Aligned (params : Params) (beat last : Rat) (changes : List (TempoChange Rat)) : Prop
    extends params.Spans last beat where
  ascending : (last :: changes.map TempoChange.beat).Pairwise (· ≤ ·)
  onTick : ∀ c ∈ changes, c.beat ≤ beat → params.OnTick c.beat

namespace Aligned

variable {beat last : Rat} {c : TempoChange Rat} {changes : List (TempoChange Rat)}

/-- On the way lies the stretch to the next change. -/
theorem spans_head (h : Aligned params beat last (c :: changes)) (hc : c.beat ≤ beat) :
    params.Spans last c.beat where
  zero_le := h.zero_le
  le := List.rel_of_pairwise_cons h.ascending List.mem_cons_self
  start := h.start
  finish := h.onTick c List.mem_cons_self hc

theorem tail (h : Aligned params beat last (c :: changes)) (hc : c.beat ≤ beat) :
    Aligned params beat c.beat changes where
  zero_le := h.zero_le.trans (h.spans_head hc).le
  le := hc
  start := (h.spans_head hc).finish
  finish := h.finish
  ascending := h.ascending.of_cons
  onTick d hd := h.onTick d (List.mem_cons_of_mem c hd)

/-- The events of changes in order are in order. -/
theorem ascending_map {changes : List (TempoChange Rat)}
    (h : (last :: changes.map TempoChange.beat).Pairwise (· ≤ ·)) :
    Ascending (tickOf params.resolution last) (changes.map (ofTempoChange params)) := by
  have hticks := List.Pairwise.map (tickOf params.resolution)
    (fun (_ _ : Rat) hab => tickOf_le (le_iff.mpr hab)) h
  rw [List.map_cons, List.map_map] at hticks
  rw [Ascending, List.map_map]
  exact hticks

/-- **Over all stretches the track is early by no more microseconds than beats pass.** -/
theorem early (h : Aligned params beat last changes) {bpm : UInt32} (hbpm : 4 ≤ bpm.toNat)
    (hchanges : ∀ c ∈ changes, 4 ≤ c.bpm.toNat) (seconds : Rat) :
    Early (params.resolution.toNat * beat ≤ maxWord) (beat - last)
      (microsTo params.resolution.toNat (tickOf params.resolution beat)
        (tickOf params.resolution last) (tempoMicros bpm) (changes.map (ofTempoChange params)))
      (Performance.secondsFrom beat changes seconds last bpm - seconds) := by
  induction changes generalizing last bpm seconds with
  | nil =>
    rw [Performance.secondsFrom, add_sub_cancel_left]
    exact h.toSpans.early hbpm
  | cons c changes ih =>
    rw [List.map_cons, microsTo, Performance.secondsFrom]
    have hticks : (ofTempoChange params c).tick = tickOf params.resolution c.beat := rfl
    have htempo : (ofTempoChange params c).event.tempo? = some (tempoMicros c.bpm) := rfl
    rw [hticks, htempo, Option.getD_some]
    by_cases hstop : beat ≤ c.beat
    · -- The change is not before the beat: nothing that comes with it or after it counts.
      have hle : tickOf params.resolution beat ≤ tickOf params.resolution c.beat :=
        tickOf_le (le_iff.mpr hstop)
      rw [if_pos (le_iff.mpr hstop), add_sub_cancel_left, Nat.min_eq_left hle,
        microsTo_of_le (ascending_map h.ascending.of_cons) hle, add_zero]
      exact h.toSpans.early hbpm
    · have hc : c.beat ≤ beat := (not_le.mp hstop).le
      have hle : tickOf params.resolution c.beat ≤ tickOf params.resolution beat :=
        tickOf_le (le_iff.mpr hc)
      -- Ticks that do not come to an end before the beat do not before the change either.
      have hfit : params.resolution.toNat * beat ≤ maxWord →
          params.resolution.toNat * c.beat ≤ maxWord := fun hfit =>
        (mul_le_mul_of_nonneg_left hc (Nat.cast_nonneg _)).trans hfit
      have hhead := ((h.spans_head hc).early hbpm).imp hfit
      have hrest := ih (h.tail hc) (hchanges c List.mem_cons_self)
        (fun d hd => hchanges d (List.mem_cons_of_mem c hd))
        (seconds + Performance.span last c.beat bpm)
      have hboth := hhead.add hrest
      rw [if_neg (mt le_iff.mp hstop), Nat.min_eq_right hle]
      convert hboth using 1 <;> ring

end Aligned

/-! ## 5. Performances -/

/-- The tempo that is put at the start says what holds there anyway. -/
theorem microsTo_tempoMap (p : Performance Rat) (resolution tick : Nat) :
    microsTo resolution tick 0 standardTempo (tempoMap p params) =
      microsTo resolution tick 0 standardTempo (p.tempoChanges.map (ofTempoChange params)) := by
  have hdefault : tempoMicros Performance.defaultTempo = standardTempo := by decide
  rcases openingTempo_eq p with h | h
  · rw [tempoMap, h, List.nil_append]
  · rw [tempoMap, h, List.singleton_append, microsTo, Event.tempo?, hdefault, Option.getD_some,
      Nat.sub_zero, Nat.min_zero, microsOf_zero, zero_add]

/-- **A note is struck early by no more microseconds than beats come before it.** -/
theorem early_strike {p : Performance Rat}
    (horder : TempoChange.InOrder p.endBeat p.tempoChanges)
    (hbpm : ∀ c ∈ p.tempoChanges, 4 ≤ c.bpm.toNat) {beat : Rat} (hzero : 0 ≤ beat)
    (hbeat : params.OnTick beat)
    (hchanges : ∀ c ∈ p.tempoChanges, c.beat ≤ beat → params.OnTick c.beat) :
    Early (params.resolution.toNat * beat ≤ maxWord) beat
      (microsTo params.resolution.toNat (tickOf params.resolution beat) 0 standardTempo
        (tempoMap p params))
      (p.secondsAt beat) := by
  have hstart : params.OnTick 0 := by
    rw [Params.OnTick, mul_zero]
    rfl
  have hascending : ((0 : Rat) :: p.tempoChanges.map TempoChange.beat).Pairwise (· ≤ ·) := by
    refine List.pairwise_cons.mpr ⟨fun b hb => ?_, List.pairwise_map.mpr ?_⟩
    · obtain ⟨c, hc, rfl⟩ := List.mem_map.mp hb
      exact horder.zero_le c hc
    · exact horder.apart.imp fun hcd => hcd.le
  have haligned : Aligned params beat 0 p.tempoChanges :=
    ⟨⟨le_refl 0, hzero, hstart, hbeat⟩, hascending, hchanges⟩
  have hdefault : tempoMicros Performance.defaultTempo = standardTempo := by decide
  have hfirst : tickOf params.resolution (0 : Rat) = 0 := by
    have hnone := nearest_natCast 0
    rw [Nat.cast_zero] at hnone
    rw [tickOf, zero_mul, hnone, Nat.zero_min]
  have hslow : 4 ≤ Performance.defaultTempo.toNat := by decide
  have hearly := haligned.early hslow hbpm 0
  rw [hfirst, hdefault, sub_zero, sub_zero] at hearly
  rw [microsTo_tempoMap]
  exact hearly

/-- **The ticks of a melody fit a word**, unless it has 2^46 characters. -/
theorem ticks_le_maxWord {melody : String} (hlength : melody.length < 2 ^ 46)
    (instrument : Instrument) (params : Params) {n : NoteEvent Rat}
    (hn : n ∈ (Melody.interpret melody instrument : Reported (Performance Rat)).value.notes) :
    (params.resolution.toNat * n.start : Rat) ≤ maxWord := by
  have hturn : (Melody.interpret melody instrument : Reported (Performance Rat)).value.InTurn :=
    Melody.inTurn_interpret melody instrument
  have hzero : 0 ≤ n.start := le_iff.mp (hturn.zero_le n hn)
  have hend := (le_iff.mp (hturn.le_release n hn)).trans (le_iff.mp (hturn.release_le n hn))
  have hbeats : n.start ≤ 8 * (2 ^ 46 : Nat) := by
    calc n.start
        ≤ 8 * melody.length := hend.trans (Melody.endBeat_interpret_le melody instrument)
      _ ≤ 8 * (2 ^ 46 : Nat) :=
        mul_le_mul_of_nonneg_left (Nat.cast_le.mpr hlength.le) (by norm_num)
  have hresolution : (params.resolution.toNat : Rat) ≤ (0x7FFF : Nat) :=
    Nat.cast_le.mpr params.resolution_le
  calc (params.resolution.toNat * n.start : Rat)
      ≤ (0x7FFF : Nat) * (8 * (2 ^ 46 : Nat)) :=
        mul_le_mul hresolution hbeats hzero (Nat.cast_nonneg _)
    _ = (0x7FFF * (8 * 2 ^ 46) : Nat) := by push_cast; ring
    _ ≤ maxWord := Nat.cast_le.mpr (by decide)

/-- **The track of a melody and its seconds agree.** The strikes of the track are the notes, one by
    one. Where a note and the tempo changes up to it fall on ticks, the note is struck no later than
    its seconds say, and earlier by no more than a microsecond for each beat before it, however many
    tempo changes there are. The ticks of a beat are those that the file holds (`resolution_eq`).
    Beyond the last tick that a word can hold all notes are struck on it; but no melody of fewer
    than 2^46 characters comes that far. -/
theorem clocks_agree (melody : String) (instrument : Instrument) (params : Params)
    (htempos : ∀ bpm ∈ (Melody.parse melody).value.filterMap Token.tempo?, 4 ≤ bpm) :
    let p : Performance Rat := (Melody.interpret melody instrument).value
    List.Forall₂ (fun n m =>
        m.event = .noteOn params.wireChannel n.key (sevenBits n.velocity) ∧
          (params.OnTick n.start →
            (∀ c ∈ p.tempoChanges, c.beat ≤ n.start → params.OnTick c.beat) →
            0 ≤ p.secondsAt n.start - m.micros / 1000000 ∧
              ((params.resolution.toNat * n.start : Rat) ≤ maxWord →
                p.secondsAt n.start - m.micros / 1000000 ≤ n.start / 1000000)))
      p.notes ((Song.ofPerformance p params).played.filter Moment.isStrike) ∧
      (melody.length < 2 ^ 46 → ∀ n ∈ p.notes,
        (params.resolution.toNat * n.start : Rat) ≤ maxWord) := by
  intro p
  have hturn : p.InTurn := Melody.inTurn_interpret melody instrument
  have horder : TempoChange.InOrder p.endBeat p.tempoChanges :=
    Melody.inOrder_interpret melody instrument
  have hbpm : ∀ c ∈ p.tempoChanges, 4 ≤ c.bpm.toNat := fun c hc =>
    UInt32.le_iff_toNat_le.mp (Melody.forall_bpm_interpret htempos instrument c hc)
  have hapart : p.tempoChanges.Pairwise fun c d => le c.beat d.beat :=
    horder.apart.imp fun hcd => le_iff.mpr hcd.le
  refine ⟨?_, fun hlength n hn => ticks_le_maxWord hlength instrument params hn⟩
  rw [strikes_played hturn hapart, List.forall₂_map_right_iff, List.forall₂_same]
  intro n hn
  refine ⟨?_, fun hstart hchanges => ?_⟩
  · rw [strikeOf, sevenBits_eq (hturn.key_le n hn)]
  · have hzero : 0 ≤ n.start := le_iff.mp (hturn.zero_le n hn)
    obtain ⟨hle, hclose⟩ := early_strike horder hbpm hzero hstart hchanges
    rw [strikeTick]
    refine ⟨by linarith, fun hfit => ?_⟩
    have hclose := hclose hfit
    linarith

/-- At 7 and at 11 beats a minute, two beats last 60/7 + 60/11 seconds. The track cuts the first to
    8571428 microseconds and the second to 5454545. -/
theorem clocks_agree_two_tempos :
    let melody := "t7 c4 t11 d4 e4"
    let p : Performance Rat := (Melody.interpret melody .piano).value
    (∀ bpm ∈ (Melody.parse melody).value.filterMap Token.tempo?, 4 ≤ bpm) ∧
      p.notes[2]? = some ⟨64, 2, 1, 85⟩ ∧ Params.OnTick {} 2 ∧
      (∀ c ∈ p.tempoChanges, c.beat ≤ 2 → Params.OnTick {} c.beat) ∧
      ((Params.resolution {}).toNat * 2 : Rat) ≤ maxWord ∧
      ((Song.ofPerformance p {}).played.filter Moment.isStrike)[2]? =
        some ⟨8571428 + 5454545, .noteOn 0 64 85⟩ ∧
      p.secondsAt 2 = 60 / 7 + 60 / 11 ∧
      0 ≤ p.secondsAt 2 - (8571428 + 5454545) / 1000000 ∧
      p.secondsAt 2 - (8571428 + 5454545) / 1000000 ≤ 2 / 1000000 := by
  intro melody p
  have htempos : ∀ bpm ∈ (Melody.parse melody).value.filterMap Token.tempo?, 4 ≤ bpm := by
    have hread : (Melody.parse melody).value.filterMap Token.tempo? = [7, 11] := by decide +kernel
    rw [hread]
    exact List.forall_mem_cons.mpr ⟨by decide, List.forall_mem_singleton.mpr (by decide)⟩
  have hnote : p.notes[2]? = some ⟨64, 2, 1, 85⟩ := by decide +kernel
  have hbeat : Params.OnTick {} 2 := by decide +kernel
  have hchanges : ∀ c ∈ p.tempoChanges, c.beat ≤ 2 → Params.OnTick {} c.beat := by decide +kernel
  have hfit : ((Params.resolution {}).toNat * 2 : Rat) ≤ maxWord := by decide +kernel
  have hseconds : p.secondsAt 2 = 60 / 7 + 60 / 11 := by decide +kernel
  have hapart : p.tempoChanges.Pairwise fun c d => le c.beat d.beat := by decide +kernel
  have hstrike : ((Song.ofPerformance p {}).played.filter Moment.isStrike)[2]? =
      some ⟨8571428 + 5454545, .noteOn 0 64 85⟩ := by
    rw [strikes_played (Melody.inTurn_interpret melody .piano) hapart]
    decide +kernel
  have hagree := (clocks_agree melody .piano {} htempos).1
  obtain ⟨hn, en⟩ := List.getElem?_eq_some_iff.mp hnote
  obtain ⟨hm, em⟩ := List.getElem?_eq_some_iff.mp hstrike
  obtain ⟨_, hclose⟩ := hagree.get hn hm
  rw [List.get_eq_getElem, List.get_eq_getElem, en, em] at hclose
  obtain ⟨hle, hlt⟩ := hclose hbeat hchanges
  exact ⟨htempos, hnote, hbeat, hchanges, hfit, hstrike, hseconds, hle, hlt hfit⟩

end TextMelody.Midi
