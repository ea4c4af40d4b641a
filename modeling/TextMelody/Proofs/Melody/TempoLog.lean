import TextMelody.Proofs.Melody.LookBack
import TextMelody.Proofs.Melody.Seconds

/-!
# Every tempo written down

A player keeps one tempo change at an instant: a later one takes the place of an earlier one. It
could as well write every tempo down behind the others and take nothing back. Such a log is longer,
but it tells the same tempo at every beat, and the same seconds. Beats are exact here.

* `Melody.interpretLogged`: **a player that takes no tempo back**;
* `TempoChange.lastAtEach`: of the changes at one beat only the last;
* `tempoFrom_lastAtEach`, `secondsFrom_lastAtEach`: **what is dropped was never in force**;
* `Player.Logs`: what a player and a log have in common, word after word;
* `tempo_log_tells_the_same`: the tempo changes of a melody against its log.
-/

namespace TextMelody

open Beat

/-! ## 1. Logs -/

namespace Player

variable {β : Type} [Beat β]

/-- The tempo changes after a token, where none is taken back. -/
def logTempo (s : Playback β) (log : Array (TempoChange β)) : Token → Array (TempoChange β)
  | .tempo bpm => log.push ⟨s.time, bpm⟩
  | _ => log

/-- Plays one token, and writes its tempo down if it sets one. -/
def playLogged (p : Player β) (t : Token) : Player β :=
  { p.play t with tempoChanges := logTempo p.playback p.tempoChanges t }

/-- Takes in one word of a melody, and writes its tempo down if it sets one. -/
def feedLogged (p : Player β) (s : Melody.Source) : Player β :=
  let p := { p with collector := p.collector.moveTo s.position }
  match s.token with
  | .ok t => p.playLogged t
  | .error e => { p with collector := Melody.refuse p.collector e }

end Player

/-- **The performance of a melody with every tempo written down.** -/
def Melody.interpretLogged {β : Type} [Beat β] (melody : String) (instrument : Instrument) :
    Reported (Performance β) :=
  ((sources melody).foldl Player.feedLogged (Player.start instrument)).finish

/-- The tempo change that a token after some tokens asks for: at the beat where they lead to. -/
def LookBack.tempoChange (before : List Token) (t : Token) : Option (TempoChange Rat) :=
  t.tempo?.map fun bpm => ⟨elapsed before, bpm⟩

/-! ## 2. The last change at each beat -/

namespace TempoChange

/-- **Of the changes at one beat only the last**, in the order in which they stand. -/
def lastAtEach : List (TempoChange Rat) → List (TempoChange Rat)
  | [] => []
  | c :: cs => if ∃ d ∈ cs, d.beat = c.beat then lastAtEach cs else c :: lastAtEach cs

example : lastAtEach [⟨0, 120⟩, ⟨0, 180⟩, ⟨1, 100⟩] = [⟨0, 180⟩, ⟨1, 100⟩] := by decide

variable {c : TempoChange Rat} {cs : List (TempoChange Rat)}

theorem lastAtEach_cons_of_mem {d : TempoChange Rat} (hd : d ∈ cs) (h : d.beat = c.beat) :
    lastAtEach (c :: cs) = lastAtEach cs :=
  if_pos ⟨d, hd, h⟩

theorem lastAtEach_cons_of_forall (h : ∀ d ∈ cs, d.beat ≠ c.beat) :
    lastAtEach (c :: cs) = c :: lastAtEach cs :=
  if_neg fun ⟨d, hd, e⟩ => h d hd e

/-- **A change that is put behind the others drops those at its beat.** -/
theorem lastAtEach_concat (cs : List (TempoChange Rat)) (c : TempoChange Rat) :
    lastAtEach (cs ++ [c]) = (lastAtEach cs).filter (fun d => d.beat ≠ c.beat) ++ [c] := by
  induction cs with
  | nil => simp [lastAtEach]
  | cons d cs ih =>
    rw [List.cons_append]
    by_cases h : ∃ e ∈ cs, e.beat = d.beat
    · obtain ⟨e, he, hbeat⟩ := h
      rw [lastAtEach_cons_of_mem he hbeat,
        lastAtEach_cons_of_mem (List.mem_append_left _ he) hbeat, ih]
    · have hlast : ∀ e ∈ cs, e.beat ≠ d.beat := fun e he hbeat => h ⟨e, he, hbeat⟩
      rw [lastAtEach_cons_of_forall hlast]
      by_cases hc : c.beat = d.beat
      · rw [lastAtEach_cons_of_mem (List.mem_append_right _ List.mem_cons_self) hc, ih]
        simp [hc]
      · have hboth : ∀ e ∈ cs ++ [c], e.beat ≠ d.beat :=
          List.forall_mem_append.mpr ⟨hlast, List.forall_mem_singleton.mpr hc⟩
        rw [lastAtEach_cons_of_forall hboth, ih]
        simp [Ne.symm hc]

/-- A change no earlier than the others can be put behind them. -/
theorem Upcoming.concat {last : Rat} (h : Upcoming last cs) (hlast : last ≤ c.beat)
    (hcs : ∀ d ∈ cs, d.beat ≤ c.beat) : Upcoming last (cs ++ [c]) := by
  show (last :: (cs ++ [c]).map beat).Pairwise (· ≤ ·)
  rw [List.map_append, ← List.cons_append, List.pairwise_append]
  refine ⟨h, List.pairwise_singleton _ _, fun a ha => List.forall_mem_singleton.mpr ?_⟩
  rcases List.mem_cons.mp ha with rfl | ha
  · exact hlast
  · obtain ⟨d, hd, rfl⟩ := List.mem_map.mp ha
    exact hcs d hd

/-- **A mark takes the place of whatever stood at the playhead.** -/
theorem toList_mark_of_inOrder {changes : Array (TempoChange Rat)} {time : Rat}
    (h : InOrder time changes.toList) (bpm : UInt32) :
    (mark changes time bpm).toList =
      changes.toList.filter (fun d => d.beat ≠ time) ++ [⟨time, bpm⟩] := by
  obtain ⟨kept, hmark, hkept⟩ := toList_mark changes time bpm
  have hbefore : ∀ c ∈ kept, c.beat ≠ time := by
    rcases hkept with ⟨hlast, e⟩ | ⟨last, rfl, e⟩
    · intro c hc
      obtain ⟨front, last, rfl⟩ := List.eq_nil_or_concat' kept |>.resolve_left
        (List.ne_nil_of_mem hc)
      rw [e] at h
      rcases List.mem_append.mp hc with hfront | hend
      · have hlt := (List.pairwise_append.mp h.apart).2.2 c hfront last List.mem_cons_self
        have hle := h.le_time last (List.mem_append_right _ List.mem_cons_self)
        exact (hlt.trans_le hle).ne
      · rw [List.mem_singleton.mp hend]
        exact hlast last List.getLast?_concat
    · rw [e] at h
      exact fun c hc => ((List.pairwise_append.mp h.apart).2.2 c hc last List.mem_cons_self).ne
  have hfilter : kept.filter (fun d => d.beat ≠ time) = kept :=
    List.filter_eq_self.mpr fun c hc => decide_eq_true (hbefore c hc)
  rcases hkept with ⟨-, e⟩ | ⟨last, hlast, e⟩
  · rw [hmark, e, hfilter]
  · rw [hmark, e, List.filter_append, hfilter]
    simp [hlast]

end TempoChange

/-! ## 3. What is dropped was never in force -/

namespace Performance

open TempoChange

variable {beat last seconds : Rat} {bpm : UInt32} {c : TempoChange Rat}
  {changes : List (TempoChange Rat)}

/-- A change that has not come says nothing. -/
theorem tempoFrom_cons_of_lt (hc : beat < c.beat) :
    tempoFrom bpm (c :: changes) beat = tempoFrom bpm changes beat := by
  rw [tempoFrom, tempoFrom, List.reverse_cons, List.find?_append, List.find?_singleton,
    if_neg (mt le_iff.mp hc.not_ge), Option.or_none]

/-- Once a change has come, it does not matter what the tempo was before. -/
theorem tempoFrom_of_mem {d : TempoChange Rat} (hd : d ∈ changes) (h : d.beat ≤ beat)
    (a b : UInt32) : tempoFrom a changes beat = tempoFrom b changes beat := by
  have hfound : (changes.reverse.find? fun c => le c.beat beat).isSome :=
    List.find?_isSome.mpr ⟨d, List.mem_reverse.mpr hd, le_iff.mpr h⟩
  obtain ⟨e, he⟩ := Option.isSome_iff_exists.mp hfound
  rw [tempoFrom, tempoFrom, he]
  rfl

/-- **No tempo that is dropped was in force**, at any beat. -/
theorem tempoFrom_lastAtEach (bpm : UInt32) (changes : List (TempoChange Rat)) (beat : Rat) :
    tempoFrom bpm (lastAtEach changes) beat = tempoFrom bpm changes beat := by
  induction changes generalizing bpm with
  | nil => rfl
  | cons c changes ih =>
    by_cases h : ∃ d ∈ changes, d.beat = c.beat
    · obtain ⟨d, hd, hbeat⟩ := h
      rw [lastAtEach_cons_of_mem hd hbeat, ih]
      rcases le_or_gt c.beat beat with hc | hc
      · rw [tempoFrom_cons_of_le hc]
        exact tempoFrom_of_mem hd (hbeat.trans_le hc) bpm c.bpm
      · rw [tempoFrom_cons_of_lt hc]
    · rw [lastAtEach_cons_of_forall fun d hd hbeat => h ⟨d, hd, hbeat⟩]
      rcases le_or_gt c.beat beat with hc | hc
      · rw [tempoFrom_cons_of_le hc, tempoFrom_cons_of_le hc, ih]
      · rw [tempoFrom_cons_of_lt hc, tempoFrom_cons_of_lt hc, ih]

/-- Of two changes at one beat, one right behind the other, the first takes no time. -/
theorem secondsFrom_cons_cons_of_eq {d : TempoChange Rat} (h : c.beat = d.beat) :
    secondsFrom beat (c :: d :: changes) seconds last bpm =
      secondsFrom beat (d :: changes) seconds last bpm := by
  rcases le_or_gt beat d.beat with hstop | hgo
  · rw [secondsFrom_cons_of_ge (h ▸ hstop), secondsFrom_cons_of_ge hstop]
  · have hd : ¬le beat d.beat := mt le_iff.mp hgo.not_ge
    rw [secondsFrom, secondsFrom, secondsFrom, h, if_neg hd, if_neg hd, if_neg hd, span_self,
      add_zero]

/-- **No seconds pass at a tempo that is dropped**, if the changes are in order. -/
theorem secondsFrom_lastAtEach (h : Upcoming last changes) :
    secondsFrom beat (lastAtEach changes) seconds last bpm =
      secondsFrom beat changes seconds last bpm := by
  induction changes generalizing last seconds bpm with
  | nil => rfl
  | cons c changes ih =>
    by_cases hdrop : ∃ d ∈ changes, d.beat = c.beat
    · obtain ⟨d, hd, hbeat⟩ := hdrop
      cases changes with
      | nil => cases hd
      | cons e changes =>
        -- The changes are in order, so the one right behind stands at the same beat, too.
        have hnext : c.beat = e.beat := by
          refine le_antisymm h.tail.head_le ?_
          rcases List.mem_cons.mp hd with rfl | hd
          · exact hbeat.le
          · exact (h.tail.tail.le_of_mem hd).trans hbeat.le
        have hrest : Upcoming last (e :: changes) :=
          List.Pairwise.sublist (.cons_cons last (List.sublist_cons_self _ _)) h
        rw [lastAtEach_cons_of_mem hd hbeat, secondsFrom_cons_cons_of_eq hnext]
        exact ih hrest
    · rw [lastAtEach_cons_of_forall fun d hd hbeat => hdrop ⟨d, hd, hbeat⟩, secondsFrom,
        secondsFrom, ih h.tail]

end Performance

/-! ## 4. Word after word -/

namespace Player

open TempoChange

/-- A player whose tempo changes are forgotten. -/
def untimed (p : Player Rat) : Player Rat :=
  { p with tempoChanges := #[] }

theorem untimed_playLogged {p q : Player Rat} (h : q.untimed = p.untimed) (t : Token) :
    (q.playLogged t).untimed = (p.play t).untimed := by
  calc (q.playLogged t).untimed
      = (q.untimed.play t).untimed := rfl
    _ = (p.untimed.play t).untimed := by rw [h]
    _ = (p.play t).untimed := rfl

/-- **What a player and a log have in common** after some tokens: all but the tempo changes. Those of
    the log stand in order, one for each tempo token, and the player has the last at each beat. -/
structure Logs (before : List Token) (p q : Player Rat) : Prop where
  untimed : q.untimed = p.untimed
  measured : p.Measured
  looksBack : p.playback.LooksBack before
  log : q.tempoChanges.toList = LookBack.atEach LookBack.tempoChange before
  kept : p.tempoChanges.toList = lastAtEach q.tempoChanges.toList
  upcoming : Upcoming 0 q.tempoChanges.toList
  le_time : ∀ c ∈ q.tempoChanges.toList, c.beat ≤ p.playback.time

theorem logs_start (instrument : Instrument) : Logs [] (start instrument) (start instrument) where
  untimed := rfl
  measured := measured_start instrument
  looksBack := Playback.looksBack_start
  log := rfl
  kept := rfl
  upcoming := List.pairwise_singleton _ _
  le_time _ hc := absurd hc List.not_mem_nil

namespace Logs

variable {before : List Token} {p q : Player Rat}

theorem playback_eq (h : Logs before p q) : q.playback = p.playback := by
  show q.untimed.playback = p.untimed.playback
  rw [h.untimed]

theorem collector_eq (h : Logs before p q) : q.collector = p.collector := by
  show q.untimed.collector = p.untimed.collector
  rw [h.untimed]

/-- Feedback does not matter to the log. -/
theorem report (h : Logs before p q) (c : Collector) :
    Logs before { p with collector := c } { q with collector := c } where
  untimed := congrArg (fun r : Player Rat => { r with collector := c }) h.untimed
  measured := ⟨h.measured.forward, h.measured.inOrder⟩
  looksBack := h.looksBack
  log := h.log
  kept := h.kept
  upcoming := h.upcoming
  le_time := h.le_time

/-- **A tempo goes down in the log behind all others**, and takes the place of what the player has
    at the playhead. -/
theorem tempo (h : Logs before p q) (bpm : UInt32) :
    Logs (before ++ [.tempo bpm]) (p.play (.tempo bpm)) (q.playLogged (.tempo bpm)) := by
  have hlog : (q.playLogged (.tempo bpm)).tempoChanges.toList =
      q.tempoChanges.toList ++ [⟨p.playback.time, bpm⟩] := by
    show (q.tempoChanges.push ⟨q.playback.time, bpm⟩).toList = _
    rw [Array.toList_push, h.playback_eq]
  constructor
  case untimed => exact untimed_playLogged h.untimed _
  case measured => exact h.measured.play fun _ hl => absurd hl (Option.not_mem_none _)
  case looksBack => exact h.looksBack.play (.tempo bpm)
  case log =>
    rw [hlog, h.log, LookBack.atEach_concat, h.looksBack.time]
    rfl
  case kept =>
    show (mark p.tempoChanges p.playback.time bpm).toList = _
    rw [hlog, lastAtEach_concat, toList_mark_of_inOrder h.measured.inOrder, h.kept]
  case upcoming =>
    rw [hlog]
    exact h.upcoming.concat (le_iff.mp h.measured.forward.time) h.le_time
  case le_time =>
    rw [hlog]
    exact List.forall_mem_append.mpr ⟨h.le_time, List.forall_mem_singleton.mpr (le_refl _)⟩

/-- Any other token leaves the log as it is. -/
theorem play_of_none (h : Logs before p q) {t : Token} (ht : t.IsTimed) (hnone : t.tempo? = none) :
    Logs (before ++ [t]) (p.play t) (q.playLogged t) := by
  have hlog : (q.playLogged t).tempoChanges = q.tempoChanges := by
    cases t with
    | tempo bpm => cases hnone
    | _ => rfl
  have hkept : (p.play t).tempoChanges = p.tempoChanges := tempoChanges_play_of_none hnone p
  have hstep : p.playback.time ≤ (p.play t).playback.time :=
    le_iff.mp (h.measured.forward.le_time_play ht)
  constructor
  case untimed => exact untimed_playLogged h.untimed t
  case measured => exact h.measured.play ht
  case looksBack => exact h.looksBack.play t
  case log =>
    rw [hlog, h.log, LookBack.atEach_concat, LookBack.tempoChange, hnone]
    simp
  case kept => rw [hlog, hkept, h.kept]
  case upcoming => rw [hlog]; exact h.upcoming
  case le_time =>
    rw [hlog]
    exact fun c hc => (h.le_time c hc).trans hstep

theorem play (h : Logs before p q) {t : Token} (ht : t.IsTimed) :
    Logs (before ++ [t]) (p.play t) (q.playLogged t) := by
  cases t with
  | tempo bpm => exact h.tempo bpm
  | _ => exact h.play_of_none ht rfl

/-- **A word keeps what they have in common**, be it a token or not. -/
theorem feed (h : Logs before p q) {s : Melody.Source} (hs : ∀ t ∈ s.token.toOption, t.IsTimed) :
    Logs (before ++ s.token.toOption.toList) (p.feed s) (q.feedLogged s) := by
  have hmoved := h.report (p.collector.moveTo s.position)
  rw [Player.feed, feedLogged, h.collector_eq]
  cases e : s.token with
  | ok t =>
    rw [e] at hs
    exact hmoved.play (hs t rfl)
  | error err =>
    have hnone : (Except.error err : Except TokenError Token).toOption.toList = [] := rfl
    rw [hnone, List.append_nil]
    exact h.report _

/-- **So does a melody.** -/
theorem foldl_feed (h : Logs before p q) {ss : List Melody.Source}
    (hss : ∀ t ∈ Melody.tokensAmong ss, t.IsReadable) :
    Logs (before ++ Melody.tokensAmong ss) (ss.foldl Player.feed p) (ss.foldl feedLogged q) := by
  induction ss generalizing before p q with
  | nil => simpa using h
  | cons s ss ih =>
    rw [← List.singleton_append, Melody.tokensAmong_append, Melody.tokensAmong_singleton] at hss ⊢
    obtain ⟨hs, hrest⟩ := List.forall_mem_append.mp hss
    rw [← List.append_assoc]
    exact ih (h.feed fun t ht => (hs t (Option.mem_toList.mpr ht)).isTimed) hrest

end Logs

end Player

/-! ## 5. Melodies -/

namespace Melody

/-- **A log tells the same tempos and the same seconds.** It holds one change for each tempo token,
    at the beat where the tokens before it lead to, and none to a tempo of nothing. The performance
    has of these, for each beat, only the last, and agrees with the log in all else. At every beat
    both are at the same tempo, and both are the same seconds away from the start. -/
theorem tempo_log_tells_the_same (melody : String) (instrument : Instrument) :
    let p : Performance Rat := (interpret melody instrument).value
    let q : Performance Rat := (interpretLogged melody instrument).value
    q = { p with tempoChanges := q.tempoChanges } ∧
      q.tempoChanges = LookBack.atEach LookBack.tempoChange (parse melody).value ∧
      (∀ c ∈ q.tempoChanges, c.bpm ≠ 0) ∧
      p.tempoChanges = TempoChange.lastAtEach q.tempoChanges ∧
      ∀ beat, p.tempoAt beat = q.tempoAt beat ∧ p.secondsAt beat = q.secondsAt beat := by
  intro p q
  have hreadable : ∀ t ∈ tokensAmong (sources melody), t.IsReadable := by
    rw [tokensAmong_sources]
    exact fun t ht => isReadable_of_mem_parse ht
  have hlogs := (Player.logs_start instrument).foldl_feed hreadable
  rw [List.nil_append, tokensAmong_sources] at hlogs
  have hlog : q.tempoChanges = LookBack.atEach LookBack.tempoChange (parse melody).value :=
    hlogs.log
  have hkept : p.tempoChanges = TempoChange.lastAtEach q.tempoChanges := hlogs.kept
  have hupcoming : TempoChange.Upcoming 0 q.tempoChanges := hlogs.upcoming
  refine ⟨?_, hlog, fun c hc => ?_, hkept, fun beat => ⟨?_, ?_⟩⟩
  · exact congrArg (fun r : Player Rat => { r.finish.value with tempoChanges := q.tempoChanges })
      hlogs.untimed
  · obtain ⟨_, t, ht, hchange⟩ := LookBack.exists_of_mem_atEach (hlog ▸ hc)
    obtain ⟨bpm, hsets, rfl⟩ := Option.map_eq_some_iff.mp hchange
    exact ne_zero_of_tempo? ht hsets
  · rw [Performance.tempoAt_eq, Performance.tempoAt_eq, hkept, Performance.tempoFrom_lastAtEach]
  · rw [Performance.secondsAt_eq, Performance.secondsAt_eq, hkept,
      Performance.secondsFrom_lastAtEach hupcoming]

end Melody

end TextMelody
