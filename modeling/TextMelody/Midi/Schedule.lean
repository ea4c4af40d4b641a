import TextMelody.Midi.Event
import TextMelody.Performance

/-!
# Schedules

A schedule places the events of a performance at absolute ticks. Beats are turned into ticks one by
one, each rounded by itself, so rounding never adds up. The events are then put in order of tick
and, at one tick, of rank; events that agree in both keep their order.

* `resolution_eq`: the ticks of a beat, as a file holds them;
* `mem_schedule`: the schedule holds exactly the events that were gathered;
* `pairwise_schedule`: it is in order.
-/

namespace TextMelody.Midi

/-- The settings of a MIDI file. -/
structure Params where
  ticksPerBeat : UInt16 := 480
  channel : UInt8 := 0
  trackName : String := "TextToMML Track"
deriving DecidableEq, Repr

namespace Params

/-- The ticks of a beat as a file holds them: at least 1, and of 15 bits. -/
def resolution (p : Params) : UInt16 :=
  max 1 (min p.ticksPerBeat 0x7FFF)

/-- The channel as an event holds it. -/
def wireChannel (p : Params) : UInt8 :=
  p.channel &&& 0x0F

theorem toNat_resolution (params : Params) :
    params.resolution.toNat = max 1 (min params.ticksPerBeat.toNat 0x7FFF) := by
  have hmin : ∀ a b : UInt16, (min a b).toNat = min a.toNat b.toNat := fun a b =>
    (apply_ite UInt16.toNat (a ≤ b) a b).trans
      (ite_congr (propext UInt16.le_iff_toNat_le) (fun _ => rfl) fun _ => rfl)
  have hmax : ∀ a b : UInt16, (max a b).toNat = max a.toNat b.toNat := fun a b =>
    (apply_ite UInt16.toNat (a ≤ b) b a).trans
      (ite_congr (propext UInt16.le_iff_toNat_le) (fun _ => rfl) fun _ => rfl)
  rw [resolution, hmax, hmin]
  rfl

theorem toNat_wireChannel (params : Params) :
    params.wireChannel.toNat = params.channel.toNat % 16 := by
  rw [wireChannel, UInt8.toNat_and]
  exact Nat.and_two_pow_sub_one_eq_mod _ 4

theorem resolution_pos (params : Params) : 0 < params.resolution.toNat := by
  rw [toNat_resolution]
  exact Nat.le_max_left 1 _

theorem resolution_le (params : Params) : params.resolution.toNat ≤ 0x7FFF := by
  rw [toNat_resolution]
  omega

end Params

/-- A file holds the ticks of a beat as they are set, if they are in bounds. -/
theorem resolution_eq {params : Params} (hlow : 1 ≤ params.ticksPerBeat)
    (hhigh : params.ticksPerBeat ≤ 32767) : params.resolution = params.ticksPerBeat := by
  have hmin : min params.ticksPerBeat 0x7FFF = params.ticksPerBeat := if_pos hhigh
  rw [Params.resolution, hmin]
  exact if_pos hlow

/-- The low seven bits of a byte. -/
def sevenBits (b : UInt8) : UInt8 :=
  b &&& 0x7F

theorem toNat_sevenBits (b : UInt8) : (sevenBits b).toNat = b.toNat % 128 := by
  rw [sevenBits, UInt8.toNat_and]
  exact Nat.and_two_pow_sub_one_eq_mod _ 7

theorem sevenBits_eq {b : UInt8} (h : b.toNat ≤ 127) : sevenBits b = b := by
  apply UInt8.toNat_inj.mp
  rw [toNat_sevenBits, Nat.mod_eq_of_lt (Nat.lt_succ_of_le h)]

/-- The number of an instrument has seven bits. -/
theorem sevenBits_wireProgram (i : Instrument) : sevenBits i.wireProgram = i.wireProgram :=
  sevenBits_eq (by cases i <;> decide)

/-- The microseconds of a quarter note at a tempo, as far as a tempo event can hold them. -/
def tempoMicros (bpm : UInt32) : Nat :=
  min (60000000 / max bpm.toNat 1) 0xFFFFFF

/-- An event at an absolute tick. -/
structure Scheduled where
  tick : Nat
  event : Event
deriving DecidableEq, Repr

namespace Scheduled

/-- The order of a schedule: by tick, then by rank. -/
def le (a b : Scheduled) : Bool :=
  a.tick < b.tick || (a.tick = b.tick && a.event.rank ≤ b.event.rank)

theorem le_trans (a b c : Scheduled) (hab : a.le b) (hbc : b.le c) : a.le c := by
  simp only [le, Bool.or_eq_true, Bool.and_eq_true, decide_eq_true_eq] at *
  omega

theorem le_total (a b : Scheduled) : a.le b || b.le a := by
  simp only [le, Bool.or_eq_true, Bool.and_eq_true, decide_eq_true_eq]
  omega

end Scheduled

variable {β : Type} [Beat β]

/-- The tick of a beat: the nearest one. -/
def tickOf (resolution : UInt16) (beat : β) : Nat :=
  Beat.nearest (beat * Beat.ofNat resolution.toNat)

/-- The tick at which a note is struck. -/
def strikeTick (resolution : UInt16) (n : NoteEvent β) : Nat :=
  tickOf resolution n.start

/-- The tick at which a note is released: every note sounds for a tick at least. -/
def releaseTick (resolution : UInt16) (n : NoteEvent β) : Nat :=
  max (tickOf resolution n.release) (min (strikeTick resolution n + 1) Beat.maxWord)

/-- The two events of a note. -/
def ofNote (params : Params) (n : NoteEvent β) : List Scheduled :=
  [⟨strikeTick params.resolution n,
    .noteOn params.wireChannel (sevenBits n.key) (sevenBits n.velocity)⟩,
   ⟨releaseTick params.resolution n, .noteOff params.wireChannel (sevenBits n.key) 0⟩]

/-- The tempo that holds from the start when the performance sets none there. -/
def openingTempo (p : Performance β) : List Scheduled :=
  match p.tempoChanges with
  | c :: _ =>
    if Beat.same c.beat (Beat.ofNat 0) then []
    else [⟨0, .tempo (tempoMicros Performance.defaultTempo)⟩]
  | [] => [⟨0, .tempo (tempoMicros Performance.defaultTempo)⟩]

/-- The event of a tempo change. -/
def ofTempoChange (params : Params) (c : TempoChange β) : Scheduled :=
  ⟨tickOf params.resolution c.beat, .tempo (tempoMicros c.bpm)⟩

/-- The events of a performance as they are gathered: name, tempos, program, notes. -/
def gathered (p : Performance β) (params : Params) : List Scheduled :=
  ⟨0, .trackName params.trackName⟩ ::
    (openingTempo p ++ p.tempoChanges.map (ofTempoChange params) ++
      ⟨0, .program params.wireChannel (sevenBits p.instrument.wireProgram)⟩ ::
        p.notes.flatMap (ofNote params))

/-- **The events of a performance in order.** -/
def schedule (p : Performance β) (params : Params) : List Scheduled :=
  (gathered p params).mergeSort Scheduled.le

theorem mem_schedule {p : Performance β} {params : Params} {s : Scheduled} :
    s ∈ schedule p params ↔ s ∈ gathered p params :=
  List.mem_mergeSort

theorem pairwise_schedule (p : Performance β) (params : Params) :
    (schedule p params).Pairwise fun a b => a.le b :=
  List.pairwise_mergeSort Scheduled.le_trans Scheduled.le_total _

end TextMelody.Midi
