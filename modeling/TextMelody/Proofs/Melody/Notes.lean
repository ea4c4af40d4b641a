import TextMelody.Interpreter
import TextMelody.Proofs.Beat
import TextMelody.Proofs.Melody.RoundTrip

/-!
# The notes of a melody

What a melody sounds like is told by its tokens alone: the words that are no tokens, and all
feedback, leave no trace in the performance.

* `value_interpret`, `value_interpretTokens`: the performance of a melody is that of its tokens;
* `notes_append`, `run_append`: a melody is played piece by piece;
* `pairwise_notes`: **each note has been released where the next one is struck**;
* `Marked`: every tempo change lies behind the playhead;
* `chronological_play`: and each before the next;
* `inTurn_interpret`: **every melody sounds its notes in turn.**
-/

namespace TextMelody

open Beat

variable {β : Type} [Beat β]

/-! ## 1. Tokens one after the other -/

namespace Playback

/-- What is in force after a list of tokens. -/
def run (s : Playback β) (ts : List Token) : Playback β :=
  ts.foldl play s

/-- The notes that a list of tokens sounds. -/
def notes (s : Playback β) : List Token → List (NoteEvent β)
  | [] => []
  | t :: ts => (s.note? t).toList ++ (s.play t).notes ts

@[simp] theorem run_nil (s : Playback β) : s.run [] = s := rfl

@[simp] theorem run_cons (s : Playback β) (t : Token) (ts : List Token) :
    s.run (t :: ts) = (s.play t).run ts := rfl

theorem run_append (s : Playback β) (ts us : List Token) :
    s.run (ts ++ us) = (s.run ts).run us :=
  List.foldl_append

@[simp] theorem notes_nil (s : Playback β) : s.notes [] = [] := rfl

@[simp] theorem notes_cons (s : Playback β) (t : Token) (ts : List Token) :
    s.notes (t :: ts) = (s.note? t).toList ++ (s.play t).notes ts := rfl

theorem notes_append (s : Playback β) (ts us : List Token) :
    s.notes (ts ++ us) = s.notes ts ++ (s.run ts).notes us := by
  induction ts generalizing s with
  | nil => rfl
  | cons t ts ih => rw [List.cons_append, notes_cons, notes_cons, run_cons, ih, List.append_assoc]

end Playback

/-! ## 2. What a player keeps of a melody -/

namespace Player

/-- A player whose feedback is forgotten. -/
def mute (p : Player β) : Player β :=
  { p with collector := {} }

theorem mute_play {p q : Player β} (h : p.mute = q.mute) (t : Token) :
    (p.play t).mute = (q.play t).mute := by
  calc (p.play t).mute
      = (p.mute.play t).mute := rfl
    _ = (q.mute.play t).mute := by rw [h]
    _ = (q.play t).mute := rfl

theorem mute_foldl_play {p q : Player β} (h : p.mute = q.mute) (ts : List Token) :
    (ts.foldl play p).mute = (ts.foldl play q).mute := by
  induction ts generalizing p q with
  | nil => exact h
  | cons t ts ih => exact ih (mute_play h t)

theorem mute_feed_ok {s : Melody.Source} {t : Token} (h : s.token = .ok t) (p : Player β) :
    (p.feed s).mute = (p.play t).mute := by
  rw [feed, h]
  rfl

theorem mute_feed_error {s : Melody.Source} {e : TokenError} (h : s.token = .error e)
    (p : Player β) : (p.feed s).mute = p.mute := by
  rw [feed, h]
  rfl

theorem mute_feedToken (p : Player β) (t : Token) (n : Nat) :
    (p.feedToken t n).mute = (p.play t).mute := rfl

/-- **Words that are no tokens are not heard.** -/
theorem mute_foldl_feed (ss : List Melody.Source) (p : Player β) :
    (ss.foldl feed p).mute =
      ((ss.filterMap fun s => s.token.toOption).foldl play p).mute := by
  induction ss generalizing p with
  | nil => rfl
  | cons s ss ih =>
    rw [List.foldl_cons, ih, List.filterMap_cons]
    cases h : s.token with
    | ok t => exact mute_foldl_play (mute_feed_ok h p) _
    | error e => exact mute_foldl_play (mute_feed_error h p) _

theorem mute_foldl_feedToken (ts : List Token) (n : Nat) (p : Player β) :
    ((ts.zipIdx n).foldl (fun p t => p.feedToken t.1 t.2) p).mute = (ts.foldl play p).mute := by
  induction ts generalizing n p with
  | nil => rfl
  | cons t ts ih =>
    rw [List.zipIdx_cons, List.foldl_cons, List.foldl_cons, ih]
    exact mute_foldl_play (mute_feedToken p t n) ts

omit [Beat β] in
theorem value_finish_of_mute_eq {p q : Player β} (h : p.mute = q.mute) :
    p.finish.value = q.finish.value := by
  calc p.finish.value
      = p.mute.finish.value := rfl
    _ = q.mute.finish.value := by rw [h]
    _ = q.finish.value := rfl

theorem playback_foldl_play (ts : List Token) (p : Player β) :
    (ts.foldl play p).playback = p.playback.run ts := by
  induction ts generalizing p with
  | nil => rfl
  | cons t ts ih => exact ih (p.play t)

/-- What is in force after some words is what their tokens leave in force. -/
theorem playback_foldl_feed (ss : List Melody.Source) (p : Player β) :
    (ss.foldl feed p).playback = p.playback.run (Melody.tokensAmong ss) := by
  have hheard := congrArg playback (mute_foldl_feed ss p)
  exact hheard.trans (playback_foldl_play _ p)

/-- A note is put behind those before it. -/
theorem toList_notes_play (p : Player β) (t : Token) :
    (p.play t).notes.toList = p.notes.toList ++ (p.playback.note? t).toList := by
  cases h : p.playback.note? t <;> simp [play, h]

theorem notes_foldl_play (ts : List Token) (p : Player β) :
    (ts.foldl play p).notes.toList = p.notes.toList ++ p.playback.notes ts := by
  induction ts generalizing p with
  | nil => exact (List.append_nil _).symm
  | cons t ts ih =>
    rw [List.foldl_cons, ih, toList_notes_play, Playback.notes_cons, List.append_assoc]
    rfl

end Player

namespace Melody

/-- **The performance of a list of tokens**, without feedback. -/
def perform (tokens : List Token) (instrument : Instrument) : Performance β :=
  (tokens.foldl Player.play (Player.start instrument)).finish.value

/-- **The performance of a melody is that of its tokens.** -/
theorem value_interpret (melody : String) (instrument : Instrument) :
    (interpret melody instrument : Reported (Performance β)).value =
      perform (parse melody).value instrument := by
  rw [value_parse]
  exact Player.value_finish_of_mute_eq (Player.mute_foldl_feed _ _)

theorem value_interpretTokens (tokens : List Token) (instrument : Instrument) :
    (interpretTokens tokens instrument : Reported (Performance β)).value =
      perform tokens instrument :=
  Player.value_finish_of_mute_eq (Player.mute_foldl_feedToken tokens 0 _)

theorem notes_perform (tokens : List Token) (instrument : Instrument) :
    (perform tokens instrument : Performance β).notes = Playback.start.notes tokens :=
  Player.notes_foldl_play tokens _

theorem endBeat_perform (tokens : List Token) (instrument : Instrument) :
    (perform tokens instrument : Performance β).endBeat = (Playback.start.run tokens).time :=
  congrArg Playback.time (Player.playback_foldl_play tokens _)

end Melody

/-! ## 3. Notes lie one after the other -/

namespace Playback

/-- The key of every note is one of the 128. -/
theorem key_le_of_mem_notes {s : Playback β} {ts : List Token} {n : NoteEvent β}
    (h : n ∈ s.notes ts) : n.key.toNat ≤ 127 := by
  induction ts generalizing s with
  | nil => cases h
  | cons t ts ih =>
    rw [notes_cons, List.mem_append, Option.mem_toList] at h
    rcases h with hn | hn
    · cases t with
      | note pitch length =>
        obtain ⟨key, hkey, rfl⟩ := Option.map_eq_some_iff.mp hn
        exact (Pitch.key?_eq_some_iff.mp hkey).2
      | _ => cases hn
    · exact ih hn

/-- **A playback that only moves forward**: the playhead is not before the start, and the default
    length takes time. -/
structure Forward (s : Playback β) : Prop where
  length : s.length.denominator ≠ 0
  time : le (ofNat 0) s.time

variable [Advancing β]

theorem forward_start : (start : Playback β).Forward :=
  ⟨(by decide : (8 : UInt32) ≠ 0), Advancing.zero_le_ofNat 0 (by decide)⟩

theorem Forward.zero_le_beats {s : Playback β} (hs : s.Forward) {length : Option Length}
    (h : ∀ l ∈ length, l.denominator ≠ 0) : le (ofNat 0) (s.beats length) := by
  cases length with
  | none => exact Length.zero_le_beats hs.length
  | some l => exact Length.zero_le_beats (h l rfl)

/-- A token that is timed moves the playhead forward, if at all. -/
theorem Forward.le_time_play {s : Playback β} (hs : s.Forward) {t : Token} (ht : t.IsTimed) :
    le s.time (s.play t).time := by
  have hstay := Advancing.le_refl hs.time
  cases t with
  | rest length => exact Advancing.le_add hs.time (hs.zero_le_beats ht)
  | note pitch length => exact Advancing.le_add hs.time (hs.zero_le_beats ht)
  | _ => exact hstay

theorem Forward.play {s : Playback β} (hs : s.Forward) {t : Token} (ht : t.IsTimed) :
    (s.play t).Forward := by
  refine ⟨?_, Advancing.le_trans hs.time (hs.le_time_play ht)⟩
  cases t with
  | defaultLength l => exact ht l rfl
  | _ => exact hs.length

theorem Forward.run {s : Playback β} (hs : s.Forward) {ts : List Token}
    (hts : ∀ t ∈ ts, t.IsReadable) : (s.run ts).Forward := by
  induction ts generalizing s with
  | nil => exact hs
  | cons t ts ih =>
    exact ih (hs.play (hts t List.mem_cons_self).isTimed) fun u hu =>
      hts u (List.mem_cons_of_mem t hu)

theorem Forward.le_time_run {s : Playback β} (hs : s.Forward) {ts : List Token}
    (hts : ∀ t ∈ ts, t.IsReadable) : le s.time (s.run ts).time := by
  induction ts generalizing s with
  | nil => exact Advancing.le_refl hs.time
  | cons t ts ih =>
    have ht := (hts t List.mem_cons_self).isTimed
    have hrest := ih (hs.play ht) fun u hu => hts u (List.mem_cons_of_mem t hu)
    exact Advancing.le_trans (hs.le_time_play ht) hrest

/-- No note is struck before the playhead. -/
theorem Forward.le_start {s : Playback β} (hs : s.Forward) {ts : List Token}
    (hts : ∀ t ∈ ts, t.IsReadable) {n : NoteEvent β} (h : n ∈ s.notes ts) :
    le s.time n.start := by
  induction ts generalizing s with
  | nil => cases h
  | cons t ts ih =>
    have ht := (hts t List.mem_cons_self).isTimed
    rw [notes_cons, List.mem_append, Option.mem_toList] at h
    rcases h with hn | hn
    · cases t with
      | note pitch length =>
        obtain ⟨key, _, rfl⟩ := Option.map_eq_some_iff.mp hn
        exact Advancing.le_refl hs.time
      | _ => cases hn
    · have hrest := ih (hs.play ht) (fun u hu => hts u (List.mem_cons_of_mem t hu)) hn
      exact Advancing.le_trans (hs.le_time_play ht) hrest

/-- A note is released where its token leaves the playhead, and not before it was struck. -/
theorem Forward.release_of_note? {s : Playback β} (hs : s.Forward) {t : Token} (ht : t.IsTimed)
    {n : NoteEvent β} (h : s.note? t = some n) :
    n.release = (s.play t).time ∧ le n.start n.release := by
  cases t with
  | note pitch length =>
    obtain ⟨key, _, rfl⟩ := Option.map_eq_some_iff.mp h
    exact ⟨rfl, Advancing.le_add hs.time (hs.zero_le_beats ht)⟩
  | _ => cases h

theorem Forward.le_release {s : Playback β} (hs : s.Forward) {ts : List Token}
    (hts : ∀ t ∈ ts, t.IsReadable) {n : NoteEvent β} (h : n ∈ s.notes ts) :
    le n.start n.release := by
  induction ts generalizing s with
  | nil => cases h
  | cons t ts ih =>
    have ht := (hts t List.mem_cons_self).isTimed
    rw [notes_cons, List.mem_append, Option.mem_toList] at h
    rcases h with hn | hn
    · exact (hs.release_of_note? ht hn).2
    · exact ih (hs.play ht) (fun u hu => hts u (List.mem_cons_of_mem t hu)) hn

/-- Every note is released before the playhead stops. -/
theorem Forward.release_le_time_run {s : Playback β} (hs : s.Forward) {ts : List Token}
    (hts : ∀ t ∈ ts, t.IsReadable) {n : NoteEvent β} (h : n ∈ s.notes ts) :
    le n.release (s.run ts).time := by
  induction ts generalizing s with
  | nil => cases h
  | cons t ts ih =>
    have ht := (hts t List.mem_cons_self).isTimed
    have hts' : ∀ u ∈ ts, u.IsReadable := fun u hu => hts u (List.mem_cons_of_mem t hu)
    rw [notes_cons, List.mem_append, Option.mem_toList] at h
    rcases h with hn | hn
    · rw [(hs.release_of_note? ht hn).1]
      exact (hs.play ht).le_time_run hts'
    · exact ih (hs.play ht) hts' hn

/-- **Each note has been released where the next one is struck.** -/
theorem Forward.pairwise_notes {s : Playback β} (hs : s.Forward) {ts : List Token}
    (hts : ∀ t ∈ ts, t.IsReadable) :
    (s.notes ts).Pairwise fun m n => le m.release n.start := by
  induction ts generalizing s with
  | nil => exact List.Pairwise.nil
  | cons t ts ih =>
    have ht := (hts t List.mem_cons_self).isTimed
    have hts' : ∀ u ∈ ts, u.IsReadable := fun u hu => hts u (List.mem_cons_of_mem t hu)
    rw [notes_cons]
    cases h : s.note? t with
    | none => exact ih (hs.play ht) hts'
    | some m =>
      refine List.pairwise_cons.mpr ⟨fun n hn => ?_, ih (hs.play ht) hts'⟩
      rw [(hs.release_of_note? ht h).1]
      exact (hs.play ht).le_start hts' hn

end Playback

/-! ## 4. Tempo changes lie behind the playhead -/

namespace TempoChange

theorem mark_of_none {changes : Array (TempoChange β)} (h : changes.back? = none) (beat : β)
    (bpm : UInt32) : mark changes beat bpm = changes.push ⟨beat, bpm⟩ := by
  rw [mark, h]

theorem mark_of_some {changes : Array (TempoChange β)} {last : TempoChange β}
    (h : changes.back? = some last) (beat : β) (bpm : UInt32) :
    mark changes beat bpm =
      if Beat.same last.beat beat then changes.pop.push { last with bpm }
      else changes.push ⟨beat, bpm⟩ := by
  rw [mark, h]

/-- **A mark comes last.** Only a last one at the same instant gives way to it, and leaves it its
    place. -/
theorem toList_mark_cases (changes : Array (TempoChange β)) (beat : β) (bpm : UInt32) :
    ((∀ last ∈ changes.toList.getLast?, ¬Beat.same last.beat beat) ∧
        (mark changes beat bpm).toList = changes.toList ++ [⟨beat, bpm⟩]) ∨
      ∃ kept last, changes.toList = kept ++ [last] ∧ Beat.same last.beat beat ∧
        (mark changes beat bpm).toList = kept ++ [⟨last.beat, bpm⟩] := by
  have hend : changes.toList.getLast? = changes.back? := Array.getLast?_toList _
  cases hlast : changes.back? with
  | none =>
    rw [mark_of_none hlast, Array.toList_push, hend, hlast]
    exact .inl ⟨fun _ h => absurd h (Option.not_mem_none _), rfl⟩
  | some last =>
    rw [mark_of_some hlast]
    by_cases hsame : Beat.same last.beat beat = true
    · obtain ⟨kept, hkept⟩ := List.getLast?_eq_some_iff.mp (hend.trans hlast)
      rw [if_pos hsame, Array.toList_push, Array.toList_pop, hkept, List.dropLast_concat]
      exact .inr ⟨kept, last, rfl, hsame, rfl⟩
    · rw [if_neg hsame, Array.toList_push, hend, hlast]
      refine .inl ⟨fun c hc => ?_, rfl⟩
      rwa [← Option.mem_some.mp hc]

/-- A mark stands where it was made, or where a mark stood before. -/
theorem beat_of_mem_mark {changes : Array (TempoChange β)} {beat : β} {bpm : UInt32}
    {c : TempoChange β} (h : c ∈ mark changes beat bpm) :
    c.beat = beat ∨ ∃ d ∈ changes, c.beat = d.beat := by
  rw [← Array.mem_toList_iff] at h
  rcases toList_mark_cases changes beat bpm with ⟨-, e⟩ | ⟨kept, last, hkept, -, e⟩
  · rw [e, List.mem_append, List.mem_singleton] at h
    rcases h with h | rfl
    · exact .inr ⟨c, Array.mem_toList_iff.mp h, rfl⟩
    · exact .inl rfl
  · have hold : ∀ d ∈ kept ++ [last], d ∈ changes := fun d hd =>
      Array.mem_toList_iff.mp (hkept ▸ hd)
    rw [e, List.mem_append, List.mem_singleton] at h
    rcases h with h | rfl
    · exact .inr ⟨c, hold c (List.mem_append_left _ h), rfl⟩
    · exact .inr ⟨last, hold last (List.mem_append_right _ List.mem_cons_self), rfl⟩

/-- **Tempo changes in the order of time**: from the start on, each before the next, up to
    `time`. -/
structure Chronological (time : β) (changes : List (TempoChange β)) : Prop where
  zero_le : ∀ c ∈ changes, le (ofNat 0) c.beat
  before : changes.Pairwise fun c d => Before c.beat d.beat
  le_time : ∀ c ∈ changes, le c.beat time

namespace Chronological

theorem nil {time : β} : Chronological time [] :=
  ⟨fun _ hc => absurd hc List.not_mem_nil, .nil, fun _ hc => absurd hc List.not_mem_nil⟩

/-- Only the beats matter. -/
theorem of_map_beat_eq {time : β} {changes others : List (TempoChange β)}
    (h : Chronological time changes) (e : others.map beat = changes.map beat) :
    Chronological time others := by
  have hbeats : ∀ P : β → Prop, (∀ c ∈ changes, P c.beat) → ∀ c ∈ others, P c.beat := by
    intro P hP
    rwa [← List.forall_mem_map, e, List.forall_mem_map]
  refine ⟨hbeats (le (ofNat 0) ·) h.zero_le, ?_, hbeats (le · time) h.le_time⟩
  rw [← List.pairwise_map (f := beat) (R := Before), e, List.pairwise_map]
  exact h.before

variable [Advancing β]

theorem mono {time later : β} {changes : List (TempoChange β)} (h : Chronological time changes)
    (hle : le time later) : Chronological later changes :=
  ⟨h.zero_le, h.before, fun c hc => Advancing.le_trans (h.le_time c hc) hle⟩

/-- What is put at the end must lie behind everything else. -/
theorem concat {time : β} {changes : List (TempoChange β)} (h : Chronological time changes)
    (hzero : le (ofNat 0) time) (hbefore : ∀ c ∈ changes, Before c.beat time) (bpm : UInt32) :
    Chronological time (changes ++ [⟨time, bpm⟩]) where
  zero_le := List.forall_mem_append.mpr ⟨h.zero_le, List.forall_mem_singleton.mpr hzero⟩
  before := List.pairwise_append.mpr ⟨h.before, List.pairwise_singleton _ _,
    fun c hc => List.forall_mem_singleton.mpr (hbefore c hc)⟩
  le_time := List.forall_mem_append.mpr
    ⟨h.le_time, List.forall_mem_singleton.mpr (Advancing.le_refl hzero)⟩

omit [Advancing β] in
/-- **A mark at the playhead keeps the order.** -/
theorem mark [Instants β] {time : β} {changes : Array (TempoChange β)}
    (h : Chronological time changes.toList) (hzero : le (ofNat 0) time) (bpm : UInt32) :
    Chronological time (TempoChange.mark changes time bpm).toList := by
  rcases toList_mark_cases changes time bpm with ⟨hne, e⟩ | ⟨kept, last, hkept, -, e⟩
  · rw [e]
    refine h.concat hzero (fun c hc => ?_) bpm
    -- A last change that is not at the playhead lies before it, and so do all others.
    obtain ⟨front, last, hlast⟩ := List.eq_nil_or_concat' changes.toList |>.resolve_left
      (List.ne_nil_of_mem hc)
    rw [hlast] at h hne hc
    have hpassed : Before last.beat time := .of_le_of_not_same
      (h.le_time last (List.mem_append_right _ List.mem_cons_self))
      (hne last List.getLast?_concat)
    rcases List.mem_append.mp hc with hc | hc
    · exact ((List.pairwise_append.mp h.before).2.2 c hc last List.mem_cons_self).trans_le hpassed.1
    · rwa [List.mem_singleton.mp hc]
  · rw [e]
    refine h.of_map_beat_eq ?_
    rw [hkept, List.map_append, List.map_append]
    rfl

end Chronological

end TempoChange

namespace Player

/-- Tempo changes stay in the order of time, whether a token makes one or not. -/
theorem chronological_play [Instants β] {p : Player β} (hp : p.playback.Forward)
    (h : TempoChange.Chronological p.playback.time p.tempoChanges.toList) {t : Token}
    (ht : t.IsTimed) :
    TempoChange.Chronological (p.play t).playback.time (p.play t).tempoChanges.toList := by
  refine .mono ?_ (hp.le_time_play ht)
  cases t with
  | tempo bpm => exact h.mark hp.time bpm
  | _ => exact h

theorem chronological_foldl_play [Instants β] {p : Player β} (hp : p.playback.Forward)
    (h : TempoChange.Chronological p.playback.time p.tempoChanges.toList) {ts : List Token}
    (hts : ∀ t ∈ ts, t.IsReadable) :
    TempoChange.Chronological (ts.foldl play p).playback.time
      (ts.foldl play p).tempoChanges.toList := by
  induction ts generalizing p with
  | nil => exact h
  | cons t ts ih =>
    have ht := (hts t List.mem_cons_self).isTimed
    exact ih (p := p.play t) (hp.play ht) (chronological_play hp h ht) fun u hu =>
      hts u (List.mem_cons_of_mem t hu)

variable [Advancing β]

/-- **A player whose playhead has passed every tempo change.** -/
structure Marked (p : Player β) : Prop where
  forward : p.playback.Forward
  beat_le : ∀ c ∈ p.tempoChanges, le c.beat p.playback.time

theorem marked_start (instrument : Instrument) : (start instrument : Player β).Marked :=
  ⟨Playback.forward_start, fun c hc => absurd hc (Array.not_mem_empty c)⟩

theorem Marked.play {p : Player β} (hp : p.Marked) {t : Token} (ht : t.IsTimed) :
    (p.play t).Marked := by
  refine ⟨hp.forward.play ht, fun c hc => ?_⟩
  have hpassed : le c.beat p.playback.time := by
    cases t with
    | tempo bpm =>
      rcases TempoChange.beat_of_mem_mark hc with e | ⟨d, hd, e⟩
      · rw [e]
        exact Advancing.le_refl hp.forward.time
      · rw [e]
        exact hp.beat_le d hd
    | _ => exact hp.beat_le c hc
  exact Advancing.le_trans hpassed (hp.forward.le_time_play ht)

theorem Marked.foldl_play {p : Player β} (hp : p.Marked) {ts : List Token}
    (hts : ∀ t ∈ ts, t.IsReadable) : (ts.foldl Player.play p).Marked := by
  induction ts generalizing p with
  | nil => exact hp
  | cons t ts ih =>
    exact ih (hp.play (hts t List.mem_cons_self).isTimed) fun u hu =>
      hts u (List.mem_cons_of_mem t hu)

end Player

/-! ## 5. Performances -/

/-- **A performance whose notes are sounded in turn**, on keys that exist, and that ends after
    everything it holds. -/
structure Performance.InTurn (p : Performance β) : Prop where
  key_le : ∀ n ∈ p.notes, n.key.toNat ≤ 127
  zero_le : ∀ n ∈ p.notes, le (ofNat 0) n.start
  le_release : ∀ n ∈ p.notes, le n.start n.release
  apart : p.notes.Pairwise fun m n => le m.release n.start
  release_le : ∀ n ∈ p.notes, le n.release p.endBeat
  beat_le : ∀ c ∈ p.tempoChanges, le c.beat p.endBeat

namespace Melody

variable [Advancing β]

theorem inTurn_perform {ts : List Token} (hts : ∀ t ∈ ts, t.IsReadable) (instrument : Instrument) :
    (perform ts instrument : Performance β).InTurn := by
  have hnotes : (perform ts instrument : Performance β).notes = Playback.start.notes ts :=
    notes_perform ts instrument
  have hend : (perform ts instrument : Performance β).endBeat = (Playback.start.run ts).time :=
    endBeat_perform ts instrument
  have hmarked : (ts.foldl Player.play (Player.start instrument : Player β)).Marked :=
    (Player.marked_start instrument).foldl_play hts
  constructor
  case key_le => exact fun n hn => Playback.key_le_of_mem_notes (hnotes ▸ hn)
  case zero_le => exact fun n hn => Playback.forward_start.le_start hts (hnotes ▸ hn)
  case le_release => exact fun n hn => Playback.forward_start.le_release hts (hnotes ▸ hn)
  case apart => exact hnotes ▸ Playback.forward_start.pairwise_notes hts
  case release_le =>
    intro n hn
    rw [hend]
    exact Playback.forward_start.release_le_time_run hts (hnotes ▸ hn)
  case beat_le => exact fun c hc => hmarked.beat_le c (Array.mem_toList_iff.mp hc)

/-- **Every melody sounds its notes in turn.** -/
theorem inTurn_interpret (melody : String) (instrument : Instrument) :
    (interpret melody instrument : Reported (Performance β)).value.InTurn := by
  rw [value_interpret]
  exact inTurn_perform (fun t ht => isReadable_of_mem_parse ht) instrument

omit [Advancing β] in
/-- **Every melody changes its tempo in the order of time.** -/
theorem chronological_interpret [Instants β] (melody : String) (instrument : Instrument) :
    let p : Performance β := (interpret melody instrument).value
    TempoChange.Chronological p.endBeat p.tempoChanges := by
  rw [value_interpret]
  exact Player.chronological_foldl_play Playback.forward_start .nil
    fun t ht => isReadable_of_mem_parse ht

end Melody

end TextMelody
