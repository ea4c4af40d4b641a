import Mathlib.Tactic.Linarith
import Mathlib.Tactic.Ring
import TextMelody.Proofs.Melody.BadWords
import TextMelody.Proofs.Melody.LookBack

/-!
# How long a melody lasts

Dots stretch a note, each by less than the one before, and never to twice its plain length. So every
note and rest moves the playhead on, but by less than eight beats, and a melody lasts less than eight
beats for each of its tokens. Beats are exact here.

* `beats_eq`: **the closed form of a dotted length**;
* `plain_le_beats`, `beats_lt_twice_plain`: a dotted length lies between its plain length and twice
  that;
* `beats_lt_of_dots_lt`, `beats_le_of_denominator_le`: it grows with the dots, and not with the
  denominator;
* `time_play_of_timed`: **a note or rest moves the playhead on by less than eight beats**;
* `time_run_le`, `time_run_lt`: so no tokens last eight beats each;
* `endBeat_interpret_le`: nor do the characters of a melody;
* `dots_never_double`: all of this for every length and every melody.
-/

namespace TextMelody

open Beat

/-! ## 1. Lengths -/

namespace Length

/-- Each dot halves what is missing to twice the last addition. -/
theorem dotted_eq (dots : Nat) (total last : Rat) :
    dotted dots total last = total + last * (1 - (1 / 2) ^ dots) := by
  induction dots generalizing total last with
  | zero => rw [dotted_zero, pow_zero, sub_self, mul_zero, add_zero]
  | succ dots ih =>
    rw [dotted_succ, ih, ofNat_eq, pow_succ]
    push_cast
    ring

/-- **The beats of a dotted note**: four over the denominator, times two less a half for each dot. -/
theorem beats_eq (l : Length) :
    (l.beats : Rat) = 4 / l.denominator.toNat * (2 - (1 / 2) ^ l.dots.toNat) := by
  rw [beats, dotted_eq, ofNat_eq, ofNat_eq]
  push_cast
  ring

theorem one_le_denominator {d : UInt32} (h : d ≠ 0) : (1 : Rat) ≤ d.toNat := by
  exact_mod_cast Grammar.one_le_toNat_iff.mpr h

theorem plain_pos {d : UInt32} (h : d ≠ 0) : 0 < 4 / (d.toNat : Rat) :=
  div_pos (by norm_num) (by linarith [one_le_denominator h])

theorem half_pow_le_one (k : Nat) : (1 / 2 : Rat) ^ k ≤ 1 :=
  pow_le_one₀ (by norm_num) (by norm_num)

/-- Dots take nothing away. -/
theorem plain_le_beats {l : Length} (h : l.denominator ≠ 0) :
    4 / (l.denominator.toNat : Rat) ≤ l.beats := by
  have hdots := half_pow_le_one l.dots.toNat
  rw [beats_eq]
  exact le_mul_of_one_le_right (plain_pos h).le (by linarith)

/-- **Dots never double a length.** -/
theorem beats_lt_twice_plain {l : Length} (h : l.denominator ≠ 0) :
    (l.beats : Rat) < 8 / l.denominator.toNat := by
  have hdots : 0 < (1 / 2 : Rat) ^ l.dots.toNat := by positivity
  rw [beats_eq]
  calc 4 / (l.denominator.toNat : Rat) * (2 - (1 / 2) ^ l.dots.toNat)
      < 4 / l.denominator.toNat * 2 := mul_lt_mul_of_pos_left (by linarith) (plain_pos h)
    _ = 8 / l.denominator.toNat := by ring

/-- **Every dot adds something.** -/
theorem beats_lt_of_dots_lt {d : UInt32} {j k : UInt8} (h : d ≠ 0) (hjk : j < k) :
    (beats ⟨d, j⟩ : Rat) < beats ⟨d, k⟩ := by
  have hdots : (1 / 2 : Rat) ^ k.toNat < (1 / 2) ^ j.toNat :=
    pow_lt_pow_right_of_lt_one₀ (by norm_num) (by norm_num) (UInt8.lt_iff_toNat_lt.mp hjk)
  rw [beats_eq, beats_eq]
  exact mul_lt_mul_of_pos_left (by linarith) (plain_pos h)

/-- **A greater denominator makes a note no longer.** -/
theorem beats_le_of_denominator_le {c d : UInt32} (h : c ≠ 0) (hcd : c ≤ d) (k : UInt8) :
    (beats ⟨d, k⟩ : Rat) ≤ beats ⟨c, k⟩ := by
  have hdots := half_pow_le_one k.toNat
  have hle : (c.toNat : Rat) ≤ d.toNat := Nat.cast_le.mpr (UInt32.le_iff_toNat_le.mp hcd)
  have hplain : 4 / (d.toNat : Rat) ≤ 4 / c.toNat :=
    div_le_div_of_nonneg_left (by norm_num) (by linarith [one_le_denominator h]) hle
  rw [beats_eq, beats_eq]
  exact mul_le_mul_of_nonneg_right hplain (by linarith)

/-- **No note lasts eight beats.** -/
theorem beats_lt_eight {l : Length} (h : l.denominator ≠ 0) : (l.beats : Rat) < 8 :=
  (beats_lt_twice_plain h).trans_le (div_le_self (by norm_num) (one_le_denominator h))

theorem beats_pos {l : Length} (h : l.denominator ≠ 0) : 0 < (l.beats : Rat) :=
  (plain_pos h).trans_le (plain_le_beats h)

end Length

/-! ## 2. Tokens one after the other -/

namespace Playback

variable {s : Playback Rat}

/-- What a note or rest lasts, with a length of its own or without. -/
theorem Forward.beats_bounds (hs : s.Forward) {own : Option Length}
    (h : ∀ l ∈ own, l.denominator ≠ 0) : 0 < s.beats own ∧ s.beats own < 8 := by
  have hl : (own.getD s.length).denominator ≠ 0 := by
    cases own with
    | none => exact hs.length
    | some l => exact h l rfl
  exact ⟨Length.beats_pos hl, Length.beats_lt_eight hl⟩

/-- **A note or rest moves the playhead on, by less than eight beats.** -/
theorem Forward.time_play_of_timed (hs : s.Forward) {t : Token} (ht : t.IsTimed)
    (htimed : t.timed?.isSome) :
    s.time < (s.play t).time ∧ (s.play t).time < s.time + 8 := by
  have hmove : ∀ own : Option Length, (∀ l ∈ own, l.denominator ≠ 0) →
      s.time < s.time + s.beats own ∧ s.time + s.beats own < s.time + 8 := by
    intro own h
    obtain ⟨hpos, hlt⟩ := hs.beats_bounds h
    exact ⟨by linarith, by linarith⟩
  cases t with
  | rest own => exact hmove own ht
  | note pitch own => exact hmove own ht
  | _ => cases htimed

/-- No token lasts eight beats. -/
theorem Forward.time_play_lt (hs : s.Forward) {t : Token} (ht : t.IsTimed) :
    (s.play t).time < s.time + 8 := by
  cases htimed : t.timed? with
  | some own => exact (hs.time_play_of_timed ht (by rw [htimed]; rfl)).2
  | none =>
    rw [playhead_play, htimed]
    linarith

theorem Forward.time_run_le (hs : s.Forward) {ts : List Token} (hts : ∀ t ∈ ts, t.IsReadable) :
    (s.run ts).time ≤ s.time + 8 * ts.length := by
  induction ts generalizing s with
  | nil =>
    rw [run_nil, List.length_nil, Nat.cast_zero, mul_zero, add_zero]
  | cons t ts ih =>
    have ht := (hts t List.mem_cons_self).isTimed
    have hstep := hs.time_play_lt ht
    have hrest := ih (hs.play ht) fun u hu => hts u (List.mem_cons_of_mem t hu)
    rw [run_cons, List.length_cons, Nat.cast_succ]
    linarith

/-- **Tokens, be there any, last less than eight beats each.** -/
theorem Forward.time_run_lt (hs : s.Forward) {ts : List Token} (hts : ∀ t ∈ ts, t.IsReadable)
    (hne : ts ≠ []) : (s.run ts).time < s.time + 8 * ts.length := by
  obtain ⟨t, ts, rfl⟩ := List.exists_cons_of_ne_nil hne
  have ht := (hts t List.mem_cons_self).isTimed
  have hstep := hs.time_play_lt ht
  have hrest := (hs.play ht).time_run_le fun u hu => hts u (List.mem_cons_of_mem t hu)
  rw [run_cons, List.length_cons, Nat.cast_succ]
  linarith

end Playback

/-! ## 3. Melodies -/

namespace Melody

/-- A melody has no more tokens than characters. -/
theorem length_value_parse_le (melody : String) :
    (parse melody).value.length ≤ melody.length := by
  obtain ⟨ws, hws⟩ := Text.exists_spaced melody.toList
  calc (parse melody).value.length
      = (tokensOf ws).length := by rw [value_parse_of_spaced hws]
    _ ≤ ws.length := List.length_filterMap_le _ ws
    _ ≤ melody.toList.length := hws.length_le
    _ = melody.length := String.length_toList

/-- **No melody lasts longer than eight beats for each character.** -/
theorem endBeat_interpret_le (melody : String) (instrument : Instrument) :
    (interpret melody instrument : Reported (Performance Rat)).value.endBeat ≤
      8 * melody.length := by
  have htokens : ∀ t ∈ (parse melody).value, t.IsReadable := fun t ht => isReadable_of_mem_parse ht
  rw [value_interpret, endBeat_perform]
  calc (Playback.start.run (parse melody).value).time
      ≤ 0 + 8 * ((parse melody).value.length : Rat) := Playback.forward_start.time_run_le htokens
    _ ≤ 8 * melody.length := by
      rw [zero_add]
      exact mul_le_mul_of_nonneg_left (Nat.cast_le.mpr (length_value_parse_le melody))
        (by norm_num)

/-- A melody that has tokens lasts less than eight beats for each of them. -/
theorem endBeat_interpret_lt {melody : String} (h : (parse melody).value ≠ [])
    (instrument : Instrument) :
    (interpret melody instrument : Reported (Performance Rat)).value.endBeat <
      8 * (parse melody).value.length := by
  have htokens : ∀ t ∈ (parse melody).value, t.IsReadable := fun t ht => isReadable_of_mem_parse ht
  rw [value_interpret, endBeat_perform]
  calc (Playback.start.run (parse melody).value).time
      < 0 + 8 * ((parse melody).value.length : Rat) := Playback.forward_start.time_run_lt htokens h
    _ = 8 * (parse melody).value.length := zero_add _

/-- **A word that is a note or rest moves the playhead on**, by less than eight beats, wherever in a
    melody it stands. -/
theorem time_feed {melody : String} {front back : List Source} {s : Source}
    (hs : sources melody = front ++ s :: back) {t : Token} (ht : s.token = .ok t)
    (htimed : t.timed?.isSome) (instrument : Instrument) :
    let p : Player Rat := front.foldl Player.feed (Player.start instrument)
    p.playback.time < (p.feed s).playback.time ∧
      (p.feed s).playback.time < p.playback.time + 8 := by
  intro p
  have htokens : (parse melody).value = tokensAmong front ++ t :: tokensAmong back := by
    rw [← tokensAmong_sources, hs, tokensAmong_append, tokensAmong_cons_ok ht]
  have hreadable : ∀ u ∈ tokensAmong front ++ t :: tokensAmong back, u.IsReadable :=
    htokens ▸ fun u hu => isReadable_of_mem_parse hu
  have hforward : p.playback.Forward := by
    rw [Player.playback_foldl_feed]
    exact Playback.forward_start.run fun u hu => hreadable u (List.mem_append_left _ hu)
  have hfeed : (p.feed s).playback = p.playback.play t := by
    rw [Player.feed, ht]
    rfl
  rw [hfeed]
  exact hforward.time_play_of_timed
    (hreadable t (List.mem_append_right _ List.mem_cons_self)).isTimed htimed

/-- **Dots never double a length, and a melody lasts less than eight beats for each token.** The
    beats of a length have a closed form. They lie between those of the plain length and twice as
    many, grow with every dot, and do not grow with the denominator. So a note or rest of a melody,
    whether it gives its length or not, moves the playhead on by less than the eight beats of a
    doubled whole note, and all tokens together do not come to eight beats each. -/
theorem dots_never_double (instrument : Instrument) :
    (∀ l : Length, l.denominator ≠ 0 →
      (l.beats : Rat) = 4 / l.denominator.toNat * (2 - (1 / 2) ^ l.dots.toNat) ∧
        4 / l.denominator.toNat ≤ (l.beats : Rat) ∧ (l.beats : Rat) < 8 / l.denominator.toNat) ∧
    (∀ (d : UInt32) (j k : UInt8), d ≠ 0 → j < k →
      (Length.beats ⟨d, j⟩ : Rat) < Length.beats ⟨d, k⟩) ∧
    (∀ (c d : UInt32) (k : UInt8), c ≠ 0 → c ≤ d →
      (Length.beats ⟨d, k⟩ : Rat) ≤ Length.beats ⟨c, k⟩) ∧
    ∀ melody : String,
      (∀ (front back : List Source) (s : Source) (t : Token),
        sources melody = front ++ s :: back → s.token = .ok t → t.timed?.isSome →
          let p : Player Rat := front.foldl Player.feed (Player.start instrument)
          p.playback.time < (p.feed s).playback.time ∧
            (p.feed s).playback.time < p.playback.time + 8) ∧
      ((parse melody).value ≠ [] →
        (interpret melody instrument : Reported (Performance Rat)).value.endBeat <
          8 * (parse melody).value.length) := by
  refine ⟨fun l h => ?_, fun d j k h hjk => Length.beats_lt_of_dots_lt h hjk,
    fun c d k h hcd => Length.beats_le_of_denominator_le h hcd k, fun melody => ⟨?_, ?_⟩⟩
  · exact ⟨Length.beats_eq l, Length.plain_le_beats h, Length.beats_lt_twice_plain h⟩
  · exact fun front back s t hs ht htimed => time_feed hs ht htimed instrument
  · exact fun h => endBeat_interpret_lt h instrument

/-- A whole note with 255 dots lasts a trace less than eight beats. A note above the highest key,
    with a bad word before it, moves the playhead on by the default length all the same. -/
theorem dots_never_double_above_keys :
    let long : Length := ⟨1, 255⟩
    let melody := "l1... o10 zz c r8"
    let p : Player Rat := ((sources melody).take 3).foldl Player.feed (Player.start .piano)
    (long.denominator ≠ 0 ∧ (long.beats : Rat) = 4 / 1 * (2 - (1 / 2) ^ 255) ∧
      (long.beats : Rat) < 8 / 1) ∧
    ((7 : UInt32) ≠ 0 ∧ (254 : UInt8) < 255 ∧
      (Length.beats ⟨7, 254⟩ : Rat) < Length.beats ⟨7, 255⟩) ∧
    ((1 : UInt32) ≠ 0 ∧ (1 : UInt32) ≤ 4294967295 ∧
      (Length.beats ⟨4294967295, 3⟩ : Rat) ≤ Length.beats ⟨1, 3⟩) ∧
    (∃ s ∈ (sources melody)[3]?, s.token = .ok (.note ⟨.c, none⟩ none) ∧
      p.playback.time < (p.feed s).playback.time ∧
        (p.feed s).playback.time < p.playback.time + 8) ∧
    (parse melody).value ≠ [] ∧
      (interpret melody .piano : Reported (Performance Rat)).value.endBeat <
        8 * (parse melody).value.length := by
  intro long melody p
  obtain ⟨hlength, hdots, hdenominator, hmelody⟩ := dots_never_double .piano
  obtain ⟨hmove, hend⟩ := hmelody melody
  have hlong : long.denominator ≠ 0 := by decide
  obtain ⟨hclosed, -, hlt⟩ := hlength long hlong
  have hword : (sources melody)[3]?.map Source.token = some (.ok (.note ⟨.c, none⟩ none)) := by
    decide +kernel
  obtain ⟨s, hs, htoken⟩ := Option.map_eq_some_iff.mp hword
  have hcut : sources melody = (sources melody).take 3 ++ s :: (sources melody).drop 4 := by
    obtain ⟨_, rfl⟩ := List.getElem?_eq_some_iff.mp hs
    rw [List.getElem_cons_drop, List.take_append_drop]
  have hne : (parse melody).value ≠ [] := by decide +kernel
  exact ⟨⟨hlong, hclosed, hlt⟩, ⟨by decide, by decide, hdots 7 254 255 (by decide) (by decide)⟩,
    ⟨by decide, by decide, hdenominator 1 4294967295 3 (by decide) (by decide)⟩,
    ⟨s, hs, htoken, hmove _ _ s _ hcut htoken rfl⟩, hne, hend hne⟩

end Melody

end TextMelody
