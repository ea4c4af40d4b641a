import Mathlib.Tactic.Ring
import TextMelody.EventsDump
import TextMelody.Proofs.Melody.Tempo

/-!
# Seconds along the tempo changes

Seconds are counted forward, from one tempo change to the next, up to the first change that is not
before the beat. The tempo in force is looked up backward, from the last change on. They go
together: seconds pass at the tempo in force, at every beat, the changes themselves included. Beats
are exact here.

* `TempoChange.Upcoming`: tempo changes in order, none before a beat;
* `secondsFrom_cons_of_le`: **a change that has come is where the count can start**;
* `secondsFrom_sub`: where the tempo stays the same, seconds pass at the tempo in force;
* `secondsFrom_lt`: a later beat is more seconds away;
* `secondsFrom?_eq`: no count divides by a tempo of nothing;
* `seconds_integrate_tempo`: **the seconds of every melody, and of its dump.**
-/

namespace TextMelody

open Beat

/-! ## 1. Changes to come -/

namespace TempoChange

/-- **Tempo changes to come**: in order, and none before `last`. -/
def Upcoming (last : Rat) (changes : List (TempoChange Rat)) : Prop :=
  (last :: changes.map beat).Pairwise (· ≤ ·)

variable {last time : Rat} {c : TempoChange Rat} {changes : List (TempoChange Rat)}

theorem Upcoming.head_le (h : Upcoming last (c :: changes)) : last ≤ c.beat :=
  List.rel_of_pairwise_cons h List.mem_cons_self

theorem Upcoming.tail (h : Upcoming last (c :: changes)) : Upcoming c.beat changes :=
  List.Pairwise.of_cons h

theorem Upcoming.le_of_mem (h : Upcoming last changes) (hc : c ∈ changes) : last ≤ c.beat :=
  List.rel_of_pairwise_cons h (List.mem_map_of_mem hc)

/-- At the start, all changes in order are still to come. -/
theorem InOrder.upcoming (h : InOrder time changes) : Upcoming 0 changes :=
  List.pairwise_cons.mpr ⟨List.forall_mem_map.mpr h.zero_le,
    List.pairwise_map.mpr (h.apart.imp fun hcd => hcd.le)⟩

end TempoChange

namespace Performance

open TempoChange

/-! ## 2. Stretches at one tempo -/

section Span

variable {a b x : Rat} {bpm : UInt32}

theorem span_self : span a a bpm = 0 := by
  rw [span, sub_self, zero_mul, zero_div]

/-- Seconds at one tempo add up. -/
theorem span_sub_span : span x b bpm - span x a bpm = span a b bpm := by
  rw [span, span, span]
  ring

theorem span_lt (hbpm : bpm ≠ 0) (h : a < b) : span x a bpm < span x b bpm := by
  have hpos : (0 : Rat) < bpm.toNat :=
    Nat.cast_pos.mpr (Nat.pos_of_ne_zero fun e => hbpm (UInt32.toNat_inj.mp e))
  have hsixty : (0 : Rat) < (60 : Nat) := by norm_num
  rw [span, span, ofNat_eq, ofNat_eq]
  exact div_lt_div_of_pos_right (mul_lt_mul_of_pos_right (sub_lt_sub_right h x) hsixty) hpos

end Span

/-! ## 3. Counting forward -/

section Count

variable {a b beat last seconds : Rat} {bpm : UInt32} {c : TempoChange Rat}
  {changes : List (TempoChange Rat)}

/-- Where the count starts, no seconds have been added. -/
theorem secondsFrom_last (h : Upcoming last changes) :
    secondsFrom last changes seconds last bpm = seconds := by
  cases changes with
  | nil => rw [secondsFrom, span_self, add_zero]
  | cons c changes => rw [secondsFrom, if_pos (le_iff.mpr h.head_le), span_self, add_zero]

theorem secondsFrom_cons_of_ge (hc : beat ≤ c.beat) :
    secondsFrom beat (c :: changes) seconds last bpm = seconds + span last beat bpm := by
  rw [secondsFrom, if_pos (le_iff.mpr hc)]

/-- **A change that has come is where the count can start**, even if it has come just now. -/
theorem secondsFrom_cons_of_le (h : Upcoming last (c :: changes)) (hc : c.beat ≤ beat) :
    secondsFrom beat (c :: changes) seconds last bpm =
      secondsFrom beat changes (seconds + span last c.beat bpm) c.beat c.bpm := by
  by_cases hstop : beat ≤ c.beat
  · obtain rfl : beat = c.beat := le_antisymm hstop hc
    rw [secondsFrom_cons_of_ge hstop, secondsFrom_last h.tail]
  · rw [secondsFrom, if_neg (mt le_iff.mp hstop)]

/-- The tempo in force at a beat, where it is `bpm` before all changes. -/
def tempoFrom (bpm : UInt32) (changes : List (TempoChange Rat)) (beat : Rat) : UInt32 :=
  ((changes.reverse.find? fun c => le c.beat beat).map TempoChange.bpm).getD bpm

theorem tempoAt_eq (p : Performance Rat) (beat : Rat) :
    p.tempoAt beat = tempoFrom defaultTempo p.tempoChanges beat := rfl

/-- Before all changes the tempo is as it was. -/
theorem tempoFrom_of_lt (h : ∀ c ∈ changes, beat < c.beat) : tempoFrom bpm changes beat = bpm := by
  have hnone : (changes.reverse.find? fun c => le c.beat beat) = none :=
    List.find?_eq_none.mpr fun c hc hle =>
      (h c (List.mem_reverse.mp hc)).not_ge (le_iff.mp hle)
  rw [tempoFrom, hnone]
  rfl

/-- A change that has come is what the tempo was before the others. -/
theorem tempoFrom_cons_of_le (hc : c.beat ≤ beat) :
    tempoFrom bpm (c :: changes) beat = tempoFrom c.bpm changes beat := by
  rw [tempoFrom, tempoFrom, List.reverse_cons, List.find?_append, List.find?_singleton,
    if_pos (le_iff.mpr hc)]
  cases changes.reverse.find? fun c => le c.beat beat <;> rfl

/-- **Where the tempo stays the same, seconds pass at the tempo in force.** -/
theorem secondsFrom_sub (h : Upcoming last changes) (hab : a ≤ b)
    (hsame : ∀ c ∈ changes, ¬(a < c.beat ∧ c.beat < b)) :
    secondsFrom b changes seconds last bpm - secondsFrom a changes seconds last bpm =
      span a b (tempoFrom bpm changes a) := by
  induction changes generalizing last seconds bpm with
  | nil =>
    have htempo : tempoFrom bpm [] a = bpm := rfl
    rw [secondsFrom, secondsFrom, add_sub_add_left_eq_sub, span_sub_span, htempo]
  | cons c changes ih =>
    by_cases hc : c.beat ≤ a
    · rw [secondsFrom_cons_of_le h (hc.trans hab), secondsFrom_cons_of_le h hc,
        tempoFrom_cons_of_le hc]
      exact ih h.tail fun d hd => hsame d (List.mem_cons_of_mem c hd)
    · -- The change has not come at `a`, so it does not come before `b` either.
      have hac : a < c.beat := not_le.mp hc
      have hbc : b ≤ c.beat := not_lt.mp fun hcb => hsame c List.mem_cons_self ⟨hac, hcb⟩
      have hlater : ∀ d ∈ c :: changes, a < d.beat :=
        List.forall_mem_cons.mpr ⟨hac, fun d hd => hac.trans_le (h.tail.le_of_mem hd)⟩
      rw [secondsFrom_cons_of_ge hbc, secondsFrom_cons_of_ge hac.le, add_sub_add_left_eq_sub,
        span_sub_span, tempoFrom_of_lt hlater]

/-- **A later beat is more seconds away.** -/
theorem secondsFrom_lt (h : Upcoming last changes) (hbpm : bpm ≠ 0)
    (hchanges : ∀ c ∈ changes, c.bpm ≠ 0) (hab : a < b) :
    secondsFrom a changes seconds last bpm < secondsFrom b changes seconds last bpm := by
  induction changes generalizing a last seconds bpm with
  | nil =>
    rw [secondsFrom, secondsFrom]
    exact add_lt_add_right (span_lt hbpm hab) seconds
  | cons c changes ih =>
    obtain ⟨hc, hrest⟩ := List.forall_mem_cons.mp hchanges
    rcases le_or_gt b c.beat with hbc | hcb
    · rw [secondsFrom_cons_of_ge hbc, secondsFrom_cons_of_ge (hab.le.trans hbc)]
      exact add_lt_add_right (span_lt hbpm hab) seconds
    · have hafter : ∀ x, c.beat ≤ x → x < b →
          secondsFrom x (c :: changes) seconds last bpm <
            secondsFrom b (c :: changes) seconds last bpm := by
        intro x hcx hxb
        rw [secondsFrom_cons_of_le h hcx, secondsFrom_cons_of_le h hcb.le]
        exact ih h.tail hc hrest hxb
      rcases le_or_gt c.beat a with hca | hac
      · exact hafter a hca hab
      · -- The change lies between the beats: up to it the count goes on, from it on it starts anew.
        calc secondsFrom a (c :: changes) seconds last bpm
            = seconds + span last a bpm := secondsFrom_cons_of_ge hac.le
          _ < seconds + span last c.beat bpm := add_lt_add_right (span_lt hbpm hac) seconds
          _ = secondsFrom c.beat (c :: changes) seconds last bpm :=
            (secondsFrom_cons_of_ge (le_refl _)).symm
          _ < secondsFrom b (c :: changes) seconds last bpm := hafter c.beat (le_refl _) hcb

/-! ## 4. Divisions -/

/-- The seconds from one beat to another, where a tempo of nothing gives none. -/
def span? (start finish : Rat) (bpm : UInt32) : Option Rat :=
  if bpm = 0 then none else some (span start finish bpm)

/-- The seconds to a beat, as they are counted, if no tempo on the way is nothing. -/
def secondsFrom? (beat : Rat) : List (TempoChange Rat) → Rat → Rat → UInt32 → Option Rat
  | [], seconds, last, bpm => (span? last beat bpm).map (seconds + ·)
  | c :: changes, seconds, last, bpm =>
    if le beat c.beat then (span? last beat bpm).map (seconds + ·)
    else (span? last c.beat bpm).bind fun s =>
      secondsFrom? beat changes (seconds + s) c.beat c.bpm

theorem span?_eq (hbpm : bpm ≠ 0) (a b : Rat) : span? a b bpm = some (span a b bpm) :=
  if_neg hbpm

/-- **No count divides by a tempo of nothing**, if no change sets one. -/
theorem secondsFrom?_eq (hbpm : bpm ≠ 0) (hchanges : ∀ c ∈ changes, c.bpm ≠ 0) :
    secondsFrom? beat changes seconds last bpm =
      some (secondsFrom beat changes seconds last bpm) := by
  induction changes generalizing last seconds bpm with
  | nil =>
    rw [secondsFrom?, secondsFrom, span?_eq hbpm]
    rfl
  | cons c changes ih =>
    obtain ⟨hc, hrest⟩ := List.forall_mem_cons.mp hchanges
    rw [secondsFrom?, secondsFrom, span?_eq hbpm, span?_eq hbpm]
    split
    · rfl
    · exact ih hc hrest

end Count

/-- The seconds from the start to a beat, if no tempo on the way is nothing. -/
def secondsAt? (p : Performance Rat) (beat : Rat) : Option Rat :=
  secondsFrom? beat p.tempoChanges 0 0 defaultTempo

/-! ## 5. Performances -/

variable {p : Performance Rat} {time : Rat}

theorem defaultTempo_ne_zero : defaultTempo ≠ 0 := by decide

theorem secondsAt_eq (p : Performance Rat) (beat : Rat) :
    p.secondsAt beat = secondsFrom beat p.tempoChanges 0 0 defaultTempo := rfl

theorem secondsAt_zero (h : InOrder time p.tempoChanges) : p.secondsAt 0 = 0 := by
  rw [secondsAt_eq]
  exact secondsFrom_last h.upcoming

theorem secondsAt_sub (h : InOrder time p.tempoChanges) {a b : Rat} (hab : a ≤ b)
    (hsame : ∀ c ∈ p.tempoChanges, ¬(a < c.beat ∧ c.beat < b)) :
    p.secondsAt b - p.secondsAt a = span a b (p.tempoAt a) := by
  rw [secondsAt_eq, secondsAt_eq, tempoAt_eq]
  exact secondsFrom_sub h.upcoming hab hsame

/-- **A later beat is more seconds away**, if no tempo is nothing. -/
theorem secondsAt_strictMono (h : InOrder time p.tempoChanges)
    (hbpm : ∀ c ∈ p.tempoChanges, c.bpm ≠ 0) : StrictMono p.secondsAt := fun _ _ hab =>
  secondsFrom_lt h.upcoming defaultTempo_ne_zero hbpm hab

/-- Notes that are sounded in turn start in turn. -/
theorem InTurn.pairwise_start (h : p.InTurn) : p.notes.Pairwise fun m n => m.start ≤ n.start :=
  h.apart.imp_of_mem fun {m _} hm _ hmn =>
    (le_iff.mp (h.le_release m hm)).trans (le_iff.mp hmn)

theorem InTurn.start_le (h : p.InTurn) {n : NoteEvent Rat} (hn : n ∈ p.notes) :
    n.start ≤ p.endBeat :=
  (le_iff.mp (h.le_release n hn)).trans (le_iff.mp (h.release_le n hn))

end Performance

namespace Melody

/-- No melody has a tempo of nothing. -/
theorem bpm_ne_zero (melody : String) (instrument : Instrument) :
    ∀ c ∈ (interpret melody instrument : Reported (Performance Rat)).value.tempoChanges,
      c.bpm ≠ 0 := by
  refine forall_bpm_interpret (P := fun bpm => bpm ≠ 0) (fun bpm hbpm => ?_) instrument
  obtain ⟨t, ht, hsets⟩ := List.mem_filterMap.mp hbpm
  exact ne_zero_of_tempo? ht hsets

/-- **The seconds of a melody go with its tempo.** Its tempo changes come one after the other, none
    of them to a tempo of nothing, so the seconds are counted without dividing by zero. They start
    at none; from a beat to another, with no change strictly between, they pass at the tempo in
    force at the first; and a later beat is more seconds away. In a dump of the performance no note
    starts sooner than the one before it, and none after the end. -/
theorem seconds_integrate_tempo (melody : String) (instrument : Instrument) (mode : Mode)
    (text : String) :
    let p : Performance Rat := (interpret melody instrument).value
    let dump := EventsDump.ofPerformance mode text p
    ((p.tempoChanges.Pairwise fun c d => c.beat < d.beat) ∧ ∀ c ∈ p.tempoChanges, 1 ≤ c.bpm.toNat) ∧
      p.secondsAt 0 = 0 ∧
      (∀ a b, a ≤ b → (∀ c ∈ p.tempoChanges, ¬(a < c.beat ∧ c.beat < b)) →
        p.secondsAt b - p.secondsAt a = (b - a) * 60 / (p.tempoAt a).toNat) ∧
      (∀ beat, p.secondsAt? beat = some (p.secondsAt beat)) ∧
      StrictMono p.secondsAt ∧
      ((dump.notes.map NamedNote.startSeconds).Pairwise (· ≤ ·)) ∧
      ∀ s ∈ dump.notes.map NamedNote.startSeconds, s ≤ dump.duration := by
  intro p dump
  have horder : TempoChange.InOrder p.endBeat p.tempoChanges := inOrder_interpret melody instrument
  have hturn : p.InTurn := inTurn_interpret melody instrument
  have hbpm : ∀ c ∈ p.tempoChanges, c.bpm ≠ 0 := bpm_ne_zero melody instrument
  have hmono : StrictMono p.secondsAt := Performance.secondsAt_strictMono horder hbpm
  have hstarts : dump.notes.map NamedNote.startSeconds = p.notes.map fun n => p.secondsAt n.start :=
    List.map_map
  refine ⟨⟨horder.apart, fun c hc => Grammar.one_le_toNat_iff.mpr (hbpm c hc)⟩,
    Performance.secondsAt_zero horder,
    fun a b hab hsame => Performance.secondsAt_sub horder hab hsame,
    fun beat => Performance.secondsFrom?_eq Performance.defaultTempo_ne_zero hbpm, hmono, ?_, ?_⟩
  · rw [hstarts, List.pairwise_map]
    exact hturn.pairwise_start.imp fun hmn => hmono.monotone hmn
  · rw [hstarts, List.forall_mem_map]
    exact fun n hn => hmono.monotone (hturn.start_le hn)

/-- From one change of the tempo to another, and from a beat between two changes to the next. -/
theorem seconds_integrate_tempo_two_changes :
    let p : Performance Rat := (interpret "t60 c4 z99 t90 r1. t120 c8" .piano).value
    (∀ c ∈ p.tempoChanges, ¬(1 < c.beat ∧ c.beat < 7)) ∧ p.tempoAt 1 = 90 ∧
      p.secondsAt 7 - p.secondsAt 1 = 4 ∧
      (∀ c ∈ p.tempoChanges, ¬(1 / 4 < c.beat ∧ c.beat < 1)) ∧ p.tempoAt (1 / 4) = 60 ∧
      p.secondsAt 1 - p.secondsAt (1 / 4) = 3 / 4 := by
  intro p
  obtain ⟨-, -, hsub, -⟩ :=
    seconds_integrate_tempo "t60 c4 z99 t90 r1. t120 c8" .piano .repetition ""
  have hlast : ∀ c ∈ p.tempoChanges, ¬(1 < c.beat ∧ c.beat < 7) := by decide +kernel
  have hfirst : ∀ c ∈ p.tempoChanges, ¬(1 / 4 < c.beat ∧ c.beat < 1) := by decide +kernel
  have hninety : p.tempoAt 1 = 90 := by decide +kernel
  have hsixty : p.tempoAt (1 / 4) = 60 := by decide +kernel
  refine ⟨hlast, hninety, (hsub 1 7 (by norm_num) hlast).trans ?_, hfirst, hsixty,
    (hsub (1 / 4) 1 (by norm_num) hfirst).trans ?_⟩
  · rw [hninety]
    decide +kernel
  · rw [hsixty]
    decide +kernel

end Melody

end TextMelody
