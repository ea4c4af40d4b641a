import TextMelody.Proofs.Float.Exact
import TextMelody.Proofs.Melody.Notes
import TextMelody.Proofs.Midi.Timeline
import TextMelody.Proofs.Transducer.Tokens

/-!
# Counting in quarters of a beat

The lengths that texts are sung in are whole numbers of quarters of a beat, so their tokens can be
played with whole numbers alone. Numbers of another kind that hold so many quarters exactly play
them alike, and the song is the same.

* `Quarters`: beats as whole numbers of quarters;
* `Exact`: **numbers that hold quarters exactly**, as rational and floating-point numbers do;
* `Exact.ofPerformance_map`: their song is that of the quarters.
-/

namespace TextMelody

open Beat

/-! ## 1. Quarters -/

/-- **A number of quarters of a beat.** -/
structure Quarters where
  count : Nat
deriving DecidableEq, Repr

namespace Quarters

instance : Beat Quarters where
  add a b := ⟨a.count + b.count⟩
  sub a b := ⟨a.count - b.count⟩
  mul a b := ⟨a.count * b.count / 4⟩
  div a b := ⟨4 * a.count / b.count⟩
  ofNat n := ⟨4 * n⟩
  le a b := a.count ≤ b.count
  same a b := a.count = b.count
  nearest a := min ((a.count + 2) / 4) maxWord

theorem count_add (a b : Quarters) : (a + b).count = a.count + b.count := rfl

theorem le_iff {a b : Quarters} : le a b ↔ a.count ≤ b.count :=
  decide_eq_true_iff

theorem mul_ofNat (a : Quarters) (n : Nat) : a * ofNat n = ⟨a.count * n⟩ := by
  have hmul : a * ofNat n = ⟨a.count * (4 * n) / 4⟩ := rfl
  rw [hmul, Nat.mul_left_comm, Nat.mul_div_cancel_left _ (by decide)]

theorem nearest_mul_ofNat (a : Quarters) (n : Nat) :
    nearest (a * ofNat n) = min ((a.count * n + 2) / 4) maxWord := by
  rw [mul_ofNat]
  rfl

instance : Ordered Quarters where
  le_trans hab hbc := le_iff.mpr (Nat.le_trans (le_iff.mp hab) (le_iff.mp hbc))
  le_refl _ := le_iff.mpr (Nat.le_refl _)
  zero_le_ofNat _ _ := le_iff.mpr (Nat.zero_le _)
  le_add _ _ := le_iff.mpr (Nat.le_add_right _ _)
  zero_le_div _ _ _ := le_iff.mpr (Nat.zero_le _)
  nearest_le {a b n} hab _ := by
    have hmul := Nat.mul_le_mul_right n (le_iff.mp hab)
    rw [nearest_mul_ofNat, nearest_mul_ofNat]
    omega
  nearest_le_maxWord _ := Nat.min_le_right _ _

end Quarters

/-- **Numbers that hold quarters exactly**, as long as there are fewer than `limit`. -/
structure Exact {β : Type} [Beat β] (limit : Nat) (f : Quarters → β) : Prop where
  zero : f (ofNat 0) = ofNat 0
  beats : ∀ l ∈ Length.sung, f l.beats = l.beats
  add : ∀ {a b : Quarters}, (a + b).count < limit → f (a + b) = f a + f b
  same : ∀ {a b : Quarters}, a.count < limit → b.count < limit →
    Beat.same (f a) (f b) = Beat.same a b
  nearest : ∀ {a : Quarters} {n : Nat}, a.count < limit → 0 < n → n < 2 ^ 15 →
    Beat.nearest (f a * ofNat n) = Beat.nearest (a * ofNat n)

/-! ## 2. Rational and floating-point quarters -/

namespace Quarters

/-- A number of quarters as a rational number. -/
def toRat (a : Quarters) : Rat :=
  a.count / 4

/-- A number of quarters as a floating-point number. -/
def toFloat (a : Quarters) : Float :=
  Binary64.quarters a.count

theorem exact_toRat (limit : Nat) : Exact limit toRat where
  zero := by decide +kernel
  beats := by decide +kernel
  add _ := by
    rw [toRat, toRat, toRat, count_add, Nat.cast_add, add_div]
  same {a b} _ _ := by
    have hcount : (a.count / 4 : Rat) = b.count / 4 ↔ a.count = b.count := by
      rw [div_left_inj' (by norm_num), Nat.cast_inj]
    exact decide_eq_decide.mpr hcount
  nearest {a n} _ _ _ := by
    have hsum : toRat a * ofNat n + 1 / 2 = ((a.count * n + 2 : Nat) : Rat) / (4 : Nat) := by
      rw [toRat, ofNat_eq]
      push_cast
      ring
    have hfloor : (toRat a * ofNat n + 1 / 2).floor = ((a.count * n + 2) / 4 : Nat) := by
      rw [hsum]
      exact Rat.floor_natCast_div_natCast _ _
    rw [nearest_eq, hfloor, nearest_mul_ofNat, Int.toNat_natCast]

theorem exact_toFloat : Exact (2 ^ 38) toFloat where
  zero := by decide +kernel
  beats := by decide +kernel
  add {a b} h := (Binary64.quarters_add (Nat.lt_trans h (by decide))).symm
  same ha hb := Binary64.same_quarters (Nat.lt_trans ha (by decide)) (Nat.lt_trans hb (by decide))
  nearest {a n} h hpos hn := by
    have hmul : a.count * n < 2 ^ 53 := by
      calc a.count * n
          < 2 ^ 38 * 2 ^ 15 := Nat.mul_lt_mul'' h hn
        _ = 2 ^ 53 := by decide
    rw [toFloat, Binary64.quarters_mul_ofNat hpos (Nat.lt_trans hn (by decide)) hmul,
      Binary64.nearest_quarters hmul, nearest_mul_ofNat]

end Quarters

/-! ## 3. Playing in other numbers -/

variable {β γ : Type}

/-- A note with its beats in other numbers. -/
def NoteEvent.map (f : β → γ) (n : NoteEvent β) : NoteEvent γ :=
  ⟨n.key, f n.start, f n.duration, n.velocity⟩

/-- A tempo change with its beat in other numbers. -/
def TempoChange.map (f : β → γ) (c : TempoChange β) : TempoChange γ :=
  ⟨f c.beat, c.bpm⟩

/-- A playback state with its playhead in other numbers. -/
def Playback.map (f : β → γ) (s : Playback β) : Playback γ :=
  ⟨s.octave, s.length, s.volume, s.velocity, f s.time⟩

/-- A player with its beats in other numbers. -/
def Player.map (f : β → γ) (p : Player β) : Player γ where
  instrument := p.instrument
  playback := p.playback.map f
  tempoChanges := p.tempoChanges.map (TempoChange.map f)
  notes := p.notes.map (NoteEvent.map f)
  collector := p.collector

/-- A performance with its beats in other numbers. -/
def Performance.map (f : β → γ) (p : Performance β) : Performance γ where
  instrument := p.instrument
  tempoChanges := p.tempoChanges.map (TempoChange.map f)
  notes := p.notes.map (NoteEvent.map f)
  endBeat := f p.endBeat

theorem Player.value_finish_map (f : β → γ) (p : Player β) :
    (p.map f).finish.value = p.finish.value.map f := by
  simp only [Player.finish, Player.map, Performance.map, Array.toList_map]
  rfl

namespace Exact

variable [Beat β] {limit : Nat} {f : Quarters → β}

/-- A sung token moves the playhead alike. -/
theorem play_map (hf : Exact limit f) {s : Playback Quarters} {t : Token} (ht : t.IsSung)
    (h : (s.play t).time.count < limit) : (s.map f).play t = (s.play t).map f := by
  have hadvance : ∀ {l : Length}, l ∈ Length.sung → (s.time + l.beats).count < limit →
      (s.map f).advance l.beats = (s.advance l.beats).map f := by
    intro l hl hsum
    have htime : f s.time + l.beats = f (s.time + l.beats) := by
      rw [hf.add hsum, hf.beats l hl]
    exact congrArg (Playback.mk s.octave s.length s.volume s.velocity) htime
  cases t with
  | rest length =>
    obtain ⟨l, hl, rfl⟩ := ht
    exact hadvance hl h
  | note pitch length =>
    obtain ⟨_, l, hl, rfl⟩ := ht
    exact hadvance hl h
  | _ => rfl

/-- It sounds the same note. -/
theorem note?_map (hf : Exact limit f) (s : Playback Quarters) {t : Token} (ht : t.IsSung) :
    (s.map f).note? t = (s.note? t).map (NoteEvent.map f) := by
  cases t with
  | note pitch length =>
    obtain ⟨_, l, hl, rfl⟩ := ht
    have hnote : ∀ key, (⟨key, f s.time, l.beats, s.velocity⟩ : NoteEvent β) =
        NoteEvent.map f ⟨key, s.time, l.beats, s.velocity⟩ := by
      intro key
      rw [NoteEvent.map, hf.beats l hl]
    rw [Playback.note?, Playback.note?, Option.map_map]
    exact congrArg (Option.map · (s.key? pitch)) (funext hnote)
  | _ => rfl

/-- A tempo mark takes the place of the same mark. -/
theorem mark_map (hf : Exact limit f) {changes : Array (TempoChange Quarters)} {beat : Quarters}
    (hbeat : beat.count < limit) (hchanges : ∀ c ∈ changes, c.beat.count < limit) (bpm : UInt32) :
    TempoChange.mark (changes.map (TempoChange.map f)) (f beat) bpm =
      (TempoChange.mark changes beat bpm).map (TempoChange.map f) := by
  have hback : (changes.map (TempoChange.map f)).back? = changes.back?.map (TempoChange.map f) :=
    Array.back?_map
  cases hlast : changes.back? with
  | none =>
    rw [hlast] at hback
    rw [TempoChange.mark_of_none hback, TempoChange.mark_of_none hlast, Array.map_push]
    rfl
  | some last =>
    have hsame : Beat.same (f last.beat) (f beat) = Beat.same last.beat beat :=
      hf.same (hchanges last (Array.mem_of_back? hlast)) hbeat
    rw [hlast] at hback
    rw [TempoChange.mark_of_some hback, TempoChange.mark_of_some hlast, apply_ite (Array.map _),
      Array.map_push, Array.map_push, Array.map_pop, ← hsame]
    rfl

/-- **A player takes a sung token alike.** -/
theorem player_play_map (hf : Exact limit f) {p : Player Quarters} {t : Token} (ht : t.IsSung)
    (htime : p.playback.time.count < limit) (hnext : (p.playback.play t).time.count < limit)
    (hmarks : ∀ c ∈ p.tempoChanges, c.beat.count < limit) :
    (p.map f).play t = (p.play t).map f := by
  have hplayback : (p.map f).playback.play t = (p.playback.play t).map f := hf.play_map ht hnext
  have htempo : Player.markTempo (p.map f).playback (p.map f).tempoChanges t =
      (Player.markTempo p.playback p.tempoChanges t).map (TempoChange.map f) := by
    cases t with
    | tempo bpm => exact hf.mark_map htime hmarks bpm
    | _ => rfl
  have hnotes : ((p.map f).play t).notes = (p.play t).notes.map (NoteEvent.map f) := by
    have hnote : (p.map f).playback.note? t = (p.playback.note? t).map (NoteEvent.map f) :=
      hf.note?_map p.playback ht
    rw [Player.play, Player.play, hnote]
    cases p.playback.note? t with
    | none => rfl
    | some n => exact Array.map_push.symm
  have hremark : Player.remark (p.map f).playback t = Player.remark p.playback t := by
    cases t <;> rfl
  calc (p.map f).play t
      = ⟨p.instrument, (p.map f).playback.play t,
          Player.markTempo (p.map f).playback (p.map f).tempoChanges t,
          ((p.map f).play t).notes, Player.remark (p.map f).playback t p.collector⟩ := rfl
    _ = (p.play t).map f := by
      rw [hplayback, htempo, hnotes, hremark]
      rfl

/-- **So does it take all of them.** -/
theorem foldl_play_map (hf : Exact limit f) {ts : List Token} (hts : ∀ t ∈ ts, t.IsSung)
    {p : Player Quarters} (hp : p.Marked) (hend : (p.playback.run ts).time.count < limit) :
    ts.foldl Player.play (p.map f) = (ts.foldl Player.play p).map f := by
  induction ts generalizing p with
  | nil => rfl
  | cons t ts ih =>
    have ht := hts t List.mem_cons_self
    have hts' : ∀ u ∈ ts, u.IsSung := fun u hu => hts u (List.mem_cons_of_mem t hu)
    have hplayed := hp.play ht.isReadable.isTimed
    have hrest : (p.playback.play t).time.count ≤ ((p.playback.play t).run ts).time.count :=
      Quarters.le_iff.mp (hplayed.forward.le_time_run fun u hu => (hts' u hu).isReadable)
    have hstep : p.playback.time.count ≤ (p.playback.play t).time.count :=
      Quarters.le_iff.mp (hp.forward.le_time_play ht.isReadable.isTimed)
    have hnext : (p.playback.play t).time.count < limit := Nat.lt_of_le_of_lt hrest hend
    have htime : p.playback.time.count < limit := Nat.lt_of_le_of_lt hstep hnext
    have hmarks : ∀ c ∈ p.tempoChanges, c.beat.count < limit := fun c hc =>
      Nat.lt_of_le_of_lt (Quarters.le_iff.mp (hp.beat_le c hc)) htime
    rw [List.foldl_cons, List.foldl_cons, hf.player_play_map ht htime hnext hmarks]
    exact ih hts' hplayed hend

theorem start_map (hf : Exact limit f) (instrument : Instrument) :
    (Player.start instrument).map f = Player.start instrument := by
  have hplayback : (Playback.start : Playback Quarters).map f = Playback.start :=
    congrArg (Playback.mk 4 ⟨8, 0⟩ 10 (velocity 10)) hf.zero
  simp only [Player.map, Player.start, Array.map_empty, hplayback]

/-- **The performance of sung tokens is that of the quarters.** -/
theorem perform_map (hf : Exact limit f) {ts : List Token} (hts : ∀ t ∈ ts, t.IsSung)
    (instrument : Instrument)
    (hend : (Melody.perform ts instrument : Performance Quarters).endBeat.count < limit) :
    Melody.perform ts instrument = (Melody.perform ts instrument : Performance Quarters).map f := by
  rw [Melody.endBeat_perform] at hend
  rw [Melody.perform, ← hf.start_map, hf.foldl_play_map hts (Player.marked_start instrument) hend]
  exact Player.value_finish_map f _

/-! ## 4. Songs -/

theorem tickOf_map (hf : Exact limit f) {a : Quarters} (h : a.count < limit)
    (params : Midi.Params) :
    Midi.tickOf params.resolution (f a) = Midi.tickOf params.resolution a :=
  hf.nearest h params.resolution_pos (Nat.lt_of_le_of_lt params.resolution_le (by decide))

theorem ofNote_map (hf : Exact limit f) {n : NoteEvent Quarters} (hstart : n.start.count < limit)
    (hrelease : n.release.count < limit) (params : Midi.Params) :
    Midi.ofNote params (n.map f) = Midi.ofNote params n := by
  have hend : (n.map f).release = f n.release := (hf.add hrelease).symm
  have hstrike : Midi.strikeTick params.resolution (n.map f) =
      Midi.strikeTick params.resolution n := hf.tickOf_map hstart params
  rw [Midi.ofNote, Midi.ofNote, Midi.releaseTick, Midi.releaseTick, hstrike, hend,
    hf.tickOf_map hrelease params]
  rfl

theorem openingTempo_map (hf : Exact limit f) {p : Performance Quarters}
    (hmarks : ∀ c ∈ p.tempoChanges, c.beat.count < limit) :
    Midi.openingTempo (p.map f) = Midi.openingTempo p := by
  cases hp : p.tempoChanges with
  | nil => simp only [Midi.openingTempo, Performance.map, hp, List.map_nil]
  | cons c cs =>
    have hlow : c.beat.count < limit := hmarks c (hp ▸ List.mem_cons_self)
    have hzero : (ofNat 0 : Quarters).count < limit := Nat.lt_of_le_of_lt (Nat.zero_le _) hlow
    have hsame : Beat.same (f c.beat) (ofNat 0) = Beat.same c.beat (ofNat 0) := by
      rw [← hf.zero]
      exact hf.same hlow hzero
    simp only [Midi.openingTempo, Performance.map, hp, List.map_cons, TempoChange.map, hsame]

/-- **The events of a performance do not depend on the numbers it is counted in.** -/
theorem gathered_map (hf : Exact limit f) {p : Performance Quarters} (hp : p.InTurn)
    (hend : p.endBeat.count < limit) (params : Midi.Params) :
    Midi.gathered (p.map f) params = Midi.gathered p params := by
  have hwithin : ∀ {a : Quarters}, le a p.endBeat → a.count < limit := fun h =>
    Nat.lt_of_le_of_lt (Quarters.le_iff.mp h) hend
  have hmarks : ∀ c ∈ p.tempoChanges, c.beat.count < limit := fun c hc =>
    hwithin (hp.beat_le c hc)
  have htempos : (p.map f).tempoChanges.map (Midi.ofTempoChange params) =
      p.tempoChanges.map (Midi.ofTempoChange params) := by
    refine List.map_map.trans (List.map_congr_left fun c hc => ?_)
    exact congrArg (Midi.Scheduled.mk · _) (hf.tickOf_map (hmarks c hc) params)
  have hnotes : (p.map f).notes.flatMap (Midi.ofNote params) =
      p.notes.flatMap (Midi.ofNote params) := by
    refine (List.flatMap_map ..).trans (List.flatMap_congr fun n hn => ?_)
    have hrelease := hp.release_le n hn
    have hstart := Ordered.le_trans (hp.le_release n hn) hrelease
    exact hf.ofNote_map (hwithin hstart) (hwithin hrelease) params
  rw [Midi.gathered, hf.openingTempo_map hmarks, htempos, hnotes]
  rfl

/-- **Nor does its song.** -/
theorem ofPerformance_map (hf : Exact limit f) {p : Performance Quarters} (hp : p.InTurn)
    (hend : p.endBeat.count < limit) (params : Midi.Params) :
    Midi.Song.ofPerformance (p.map f) params = Midi.Song.ofPerformance p params := by
  have hschedule : Midi.schedule (p.map f) params = Midi.schedule p params := by
    rw [Midi.schedule, hf.gathered_map hp hend]
    rfl
  have hendTick : ∀ s, Midi.Song.endTick (p.map f) params s = Midi.Song.endTick p params s :=
    fun s => congrArg (max · (Midi.lastTick s)) (hf.tickOf_map hend params)
  simp only [Midi.Song.ofPerformance, hschedule, hendTick]

end Exact

end TextMelody
