import TextMelody.Proofs.Float.Order
import TextMelody.Proofs.Melody.Notes

/-!
# Sessions with a player

A player can be asked for anything in any order: to take in a word, good or bad, or to play a token
that was never written. Whatever it is asked, time goes forward, and what it has gathered stays in
order behind the playhead, as long as no length is a part of nothing. How beats are rounded to
ticks does not matter here.

* `Call`, `Player.session`: what a player is asked, one call after the other;
* `InOrder`: **what holds of a player at any time**;
* `InOrder.play`, `InOrder.call`: no call breaks it;
* `feed_error`: a word that is no token leaves one warning behind, and nothing else;
* `session_stays_in_order`: after each call of a session.
-/

namespace TextMelody

open Beat

variable {β : Type} [Beat β]

/-! ## 1. Calls -/

/-- What a player can be asked: to take in a word, or to play a token. -/
inductive Call where
  | feed (source : Melody.Source)
  | play (token : Token)

namespace Call

/-- The token that a call plays. A word that is no token plays none. -/
def token? : Call → Option Token
  | feed s => s.token.toOption
  | play t => some t

/-- The calls with no length that is a part of nothing. -/
def IsTimed (c : Call) : Prop :=
  ∀ t ∈ c.token?, t.IsTimed

instance (c : Call) : Decidable c.IsTimed :=
  inferInstanceAs (Decidable (∀ t ∈ c.token?, t.IsTimed))

end Call

namespace Player

/-- Does what a call asks for. -/
def call (p : Player β) : Call → Player β
  | .feed s => p.feed s
  | .play t => p.play t

/-- **A player after some calls.** -/
def session (instrument : Instrument) (calls : List Call) : Player β :=
  calls.foldl call (start instrument)

theorem session_concat (instrument : Instrument) (calls : List Call) (c : Call) :
    (session instrument (calls ++ [c]) : Player β) = (session instrument calls).call c :=
  List.foldl_concat _ _ _ _

/-! ## 2. Words that are no tokens -/

/-- **A word that is no token leaves one warning behind, and nothing else.** -/
theorem feed_error {s : Melody.Source} {e : TokenError} (h : s.token = .error e) (p : Player β) :
    (p.feed s).mute = p.mute ∧ (p.feed s).finish.feedback = p.finish.feedback ++
      [⟨.warning, e.message, s.position.index, s.position.offset, some s.position.token,
        e.suggestion⟩] := by
  refine ⟨mute_feed_error h p, ?_⟩
  have hitems : (p.feed s).collector.items = p.collector.items.push ⟨.warning, e.message,
      s.position.index, s.position.offset, some s.position.token, e.suggestion⟩ := by
    rw [feed, h]
    rfl
  rw [finish, finish, hitems, Array.toList_push]

omit [Beat β] in
/-- Players that differ in feedback only agree in all else. -/
theorem eq_of_mute_eq {p q : Player β} (h : p.mute = q.mute) :
    p.playback = q.playback ∧ p.notes = q.notes ∧ p.tempoChanges = q.tempoChanges := by
  rw [mute, mute, Player.mk.injEq] at h
  obtain ⟨-, hplayback, hchanges, hnotes, -⟩ := h
  exact ⟨hplayback, hnotes, hchanges⟩

/-- A call plays its token, if it has one. -/
theorem mute_call (p : Player β) (c : Call) :
    (p.call c).mute = match c.token? with
      | some t => (p.play t).mute
      | none => p.mute := by
  cases c with
  | play t => rfl
  | feed s =>
    cases h : s.token with
    | ok t =>
      rw [Call.token?, h]
      exact mute_feed_ok h p
    | error e =>
      rw [Call.token?, h]
      exact mute_feed_error h p

end Player

/-! ## 3. What holds at any time -/

theorem velocity_le (level : UInt32) : (velocity level).toNat ≤ 127 := by
  rw [velocity, UInt8.toNat_ofNat']
  exact (Nat.mod_le _ _).trans (Nat.min_le_left _ _)

/-- **A note is sounded as things stand**: at the playhead, as loud as the volume says, and on a key
    that exists. -/
theorem Playback.eq_of_note? {s : Playback β} {t : Token} {n : NoteEvent β}
    (h : s.note? t = some n) :
    n.start = s.time ∧ n.velocity = s.velocity ∧ n.key.toNat ≤ 127 := by
  cases t with
  | note pitch length =>
    obtain ⟨key, hkey, rfl⟩ := Option.map_eq_some_iff.mp h
    exact ⟨rfl, rfl, (Pitch.key?_eq_some_iff.mp hkey).2⟩
  | _ => cases h

namespace Player

/-- **A player that has everything in order behind its playhead.** -/
structure InOrder (p : Player β) : Prop where
  forward : p.playback.Forward
  velocity : p.playback.velocity = TextMelody.velocity p.playback.volume
  key_le : ∀ n ∈ p.notes.toList, n.key.toNat ≤ 127
  velocity_le : ∀ n ∈ p.notes.toList, n.velocity.toNat ≤ 127
  apart : p.notes.toList.Pairwise fun m n => le m.release n.start
  release_le : ∀ n ∈ p.notes.toList, le n.release p.playback.time
  changes : TempoChange.Chronological p.playback.time p.tempoChanges.toList

/-- Feedback does not matter to the order. -/
theorem InOrder.of_mute_eq {p q : Player β} (hp : p.InOrder) (h : q.mute = p.mute) :
    q.InOrder := by
  have hmute : p.mute.InOrder := { hp with }
  rw [← h] at hmute
  exact { hmute with }

variable [Instants β]

theorem inOrder_start (instrument : Instrument) : (start instrument : Player β).InOrder where
  forward := Playback.forward_start
  velocity := rfl
  key_le _ h := absurd h List.not_mem_nil
  velocity_le _ h := absurd h List.not_mem_nil
  apart := .nil
  release_le _ h := absurd h List.not_mem_nil
  changes := .nil

namespace InOrder

variable {p : Player β}

omit [Instants β] in
theorem velocity_play (hp : p.InOrder) (t : Token) :
    (p.playback.play t).velocity = TextMelody.velocity (p.playback.play t).volume := by
  cases t with
  | volume level => rfl
  | _ => exact hp.velocity

/-- **A token that is played keeps the order.** -/
theorem play (hp : p.InOrder) {t : Token} (ht : t.IsTimed) : (p.play t).InOrder := by
  have hnew : ∀ n ∈ (p.playback.note? t).toList, n.start = p.playback.time ∧
      n.velocity.toNat ≤ 127 ∧ n.key.toNat ≤ 127 ∧ n.release = (p.play t).playback.time := by
    intro n hn
    rw [Option.mem_toList] at hn
    obtain ⟨hstart, hvelocity, hkey⟩ := Playback.eq_of_note? hn
    refine ⟨hstart, ?_, hkey, (hp.forward.release_of_note? ht hn).1⟩
    rw [hvelocity, hp.velocity]
    exact TextMelody.velocity_le _
  have hnotes := toList_notes_play p t
  have hstep := hp.forward.le_time_play ht
  have hstop : le (p.play t).playback.time (p.play t).playback.time :=
    Advancing.le_refl (hp.forward.play ht).time
  constructor
  case forward => exact hp.forward.play ht
  case velocity => exact hp.velocity_play t
  case key_le =>
    rw [hnotes, List.forall_mem_append]
    exact ⟨hp.key_le, fun n hn => (hnew n hn).2.2.1⟩
  case velocity_le =>
    rw [hnotes, List.forall_mem_append]
    exact ⟨hp.velocity_le, fun n hn => (hnew n hn).2.1⟩
  case apart =>
    rw [hnotes, List.pairwise_append]
    refine ⟨hp.apart, ?_, fun m hm n hn => ?_⟩
    · cases p.playback.note? t with
      | none => exact .nil
      | some n => exact List.pairwise_singleton _ n
    · rw [(hnew n hn).1]
      exact hp.release_le m hm
  case release_le =>
    rw [hnotes, List.forall_mem_append]
    refine ⟨fun n hn => Advancing.le_trans (hp.release_le n hn) hstep, fun n hn => ?_⟩
    rwa [(hnew n hn).2.2.2]
  case changes => exact chronological_play hp.forward hp.changes ht

/-- **So does every call.** -/
theorem call (hp : p.InOrder) {c : Call} (hc : c.IsTimed) : (p.call c).InOrder := by
  have hmute := mute_call p c
  cases ht : c.token? with
  | none =>
    rw [ht] at hmute
    exact hp.of_mute_eq hmute
  | some t =>
    rw [ht] at hmute
    exact (hp.play (hc t ht)).of_mute_eq hmute

/-- No call turns time back. -/
theorem le_time_call (hp : p.InOrder) {c : Call} (hc : c.IsTimed) :
    le p.playback.time (p.call c).playback.time := by
  have hmute := mute_call p c
  cases ht : c.token? with
  | none =>
    rw [ht] at hmute
    rw [(eq_of_mute_eq hmute).1]
    exact Advancing.le_refl hp.forward.time
  | some t =>
    rw [ht] at hmute
    rw [(eq_of_mute_eq hmute).1]
    exact hp.forward.le_time_play (hc t ht)

end InOrder

/-- **A player is in order at any time of a session.** -/
theorem inOrder_session (instrument : Instrument) {calls : List Call}
    (h : ∀ c ∈ calls, c.IsTimed) : (session instrument calls : Player β).InOrder := by
  induction calls using List.reverseRecOn with
  | nil => exact inOrder_start instrument
  | append_singleton calls c ih =>
    rw [session_concat]
    rw [List.forall_mem_append, List.forall_mem_singleton] at h
    exact (ih h.1).call h.2

/-- **After each call of a session**, of which `c` is the last: the velocity is that of the volume,
    time has not gone back, every note is on a key that exists, no louder than there is, and not
    struck before the one before it was released, and the tempo changes lie one after the other
    between the start and the playhead. A word that is no token changes nothing of all this and
    leaves one warning behind. -/
theorem session_stays_in_order (instrument : Instrument) (before : List Call) (c : Call)
    (h : ∀ d ∈ before ++ [c], d.IsTimed) :
    let p : Player β := session instrument before
    let q : Player β := session instrument (before ++ [c])
    (q.playback.velocity = TextMelody.velocity q.playback.volume ∧
        q.playback.velocity.toNat ≤ 127) ∧
      le p.playback.time q.playback.time ∧
      (∀ n ∈ q.notes.toList, n.key.toNat ≤ 127 ∧ n.velocity.toNat ≤ 127) ∧
      (q.notes.toList.Pairwise fun m n => le m.release n.start) ∧
      (q.tempoChanges.toList.Pairwise fun c d => Before c.beat d.beat) ∧
      (∀ c ∈ q.tempoChanges.toList, le (ofNat 0) c.beat ∧ le c.beat q.playback.time) ∧
      ∀ s e, c = .feed s → s.token = .error e →
        q.playback = p.playback ∧ q.notes = p.notes ∧ q.tempoChanges = p.tempoChanges ∧
          q.finish.feedback = p.finish.feedback ++ [⟨.warning, e.message, s.position.index,
            s.position.offset, some s.position.token, e.suggestion⟩] := by
  intro p q
  have hsplit := List.forall_mem_append.mp h
  have hp : p.InOrder := inOrder_session instrument hsplit.1
  have hq : q.InOrder := inOrder_session instrument h
  have hcall : q = p.call c := session_concat instrument before c
  refine ⟨⟨hq.velocity, hq.velocity ▸ TextMelody.velocity_le _⟩, ?_,
    fun n hn => ⟨hq.key_le n hn, hq.velocity_le n hn⟩, hq.apart, hq.changes.before,
    fun c hc => ⟨hq.changes.zero_le c hc, hq.changes.le_time c hc⟩, ?_⟩
  · rw [hcall]
    exact hp.le_time_call (List.forall_mem_singleton.mp hsplit.2)
  · rintro s e rfl herror
    obtain ⟨hmute, hfeedback⟩ := feed_error herror p
    obtain ⟨hplayback, hnotes, hchanges⟩ := eq_of_mute_eq hmute
    rw [hcall]
    exact ⟨hplayback, hnotes, hchanges, hfeedback⟩

/-- Two tempos at one instant, of which the second is zero, a dotted third of a note, a note that is
    too high, and a word that is no token. -/
theorem session_stays_in_order_of_six :
    let before : List Call := [.feed ⟨⟨0, 0, "t90"⟩, .ok (.tempo 90)⟩, .play (.tempo 0),
      .play (.note ⟨.c, none⟩ (some ⟨3, 1⟩)), .play (.octave 20), .play (.note ⟨.c, none⟩ none)]
    let bad : Melody.Source := ⟨⟨1, 4, "zz"⟩, .error (.trailingInput "z")⟩
    let p : Player Float := session .piano before
    let q : Player Float := session .piano (before ++ [.feed bad])
    (∀ d ∈ before ++ [.feed bad], d.IsTimed) ∧
      p.notes.size = 1 ∧ p.tempoChanges.size = 1 ∧ p.finish.feedback.length = 1 ∧
      le p.playback.time q.playback.time ∧ q.playback.velocity.toNat ≤ 127 ∧
      q.notes = p.notes ∧ q.tempoChanges = p.tempoChanges ∧
      q.finish.feedback = p.finish.feedback ++ [⟨.warning,
        (TokenError.trailingInput "z").message, 1, 4, some "zz",
        (TokenError.trailingInput "z").suggestion⟩] := by
  intro before bad p q
  have htimed : ∀ d ∈ before ++ [.feed bad], d.IsTimed := by decide
  obtain ⟨⟨-, hvelocity⟩, hforward, -, -, -, -, hbad⟩ :=
    session_stays_in_order (β := Float) .piano before (.feed bad) htimed
  obtain ⟨-, hnotes, hchanges, hfeedback⟩ := hbad bad (.trailingInput "z") rfl rfl
  exact ⟨htimed, by decide +kernel, by decide +kernel, by decide +kernel, hforward, hvelocity,
    hnotes, hchanges, hfeedback⟩

end Player

end TextMelody
