import Mathlib.Data.Rat.Floor
import TextMelody.Proofs.Midi.Timeline

/-!
# Gaps and the markers that bridge them

However far apart two events of a schedule lie, the track keeps the gap between them: no delta is
larger than one event can hold, and no more markers stand in a gap than it takes.

* `collected`, `gathered_eq_collected`: what a performance asks of its track;
* `IsStableSort`, `isStableSort_schedule`: what a schedule is;
* `stretches`: a track told event by event, with the markers and the ticks before each;
* `stretches_bridge_append`: **a gap takes one marker less than it takes deltas**;
* `track_ofPerformance`: the track is the schedule and its end, one after the other;
* `track_keeps_ticks`: every tick of the schedule is kept, whatever the gaps.
-/

namespace TextMelody.Midi

/-! ## 1. Schedules -/

variable {β : Type} [Beat β]

/-- **What a track is asked to hold**, in the order in which it is collected: the name, the default
    tempo unless the first change is at beat zero, the tempo changes, the program, and each note's
    strike and release. Every beat is rounded on its own, and a note lasts a tick at least. -/
def collected (p : Performance β) (params : Params) : List Scheduled :=
  let tick (beat : β) : Nat :=
    Beat.nearest (beat * Beat.ofNat (max 1 (min params.ticksPerBeat.toNat 0x7FFF)))
  let tempo (bpm : UInt32) : Event := .tempo (min (60000000 / max bpm.toNat 1) 0xFFFFFF)
  let channel := params.channel % 16
  let opens := p.tempoChanges.head?.any fun c => Beat.same c.beat (Beat.ofNat 0)
  [⟨0, .trackName params.trackName⟩] ++
    (if opens then [] else [⟨0, .tempo 500000⟩]) ++
    p.tempoChanges.map (fun c => ⟨tick c.beat, tempo c.bpm⟩) ++
    [⟨0, .program channel (p.instrument.program - 1)⟩] ++
    p.notes.flatMap fun n =>
      [⟨tick n.start, .noteOn channel (n.key % 128) (n.velocity % 128)⟩,
        ⟨max (tick (n.start + n.duration)) (min (tick n.start + 1) (2 ^ 64 - 1)),
          .noteOff channel (n.key % 128) 0⟩]

/-- **All that is collected is gathered, and nothing else.** -/
theorem gathered_eq_collected (p : Performance β) (params : Params) :
    gathered p params = collected p params := by
  have hopening : openingTempo p =
      if p.tempoChanges.head?.any fun c => Beat.same c.beat (Beat.ofNat 0) then []
      else [⟨0, .tempo 500000⟩] := by
    rw [openingTempo]
    cases p.tempoChanges <;> rfl
  have hchannel : params.wireChannel = params.channel % 16 :=
    UInt8.toNat_inj.mp params.toNat_wireChannel
  have hbits : ∀ b : UInt8, sevenBits b = b % 128 := fun b => UInt8.toNat_inj.mp (toNat_sevenBits b)
  simp only [collected, ← hopening, ← Params.toNat_resolution, ← hchannel, ← hbits]
  simp only [gathered, sevenBits_wireProgram, List.append_assoc, List.singleton_append]
  rfl

/-- Whether an event has its place in a schedule by a tick and a rank. -/
def Scheduled.isAt (tick rank : Nat) (x : Scheduled) : Bool :=
  x.tick = tick && x.event.rank = rank

/-- **The stable sort of `xs` by tick and rank**: the same events, in order, and those that agree in
    both as they were. -/
structure IsStableSort (xs ys : List Scheduled) : Prop where
  perm : ys.Perm xs
  ordered : ys.Pairwise fun a b => a.le b
  stable : ∀ tick rank : Nat, ys.filter (Scheduled.isAt tick rank) =
    xs.filter (Scheduled.isAt tick rank)

/-- Events that agree in tick and rank are in order however they stand. -/
theorem pairwise_filter_isAt (tick rank : Nat) (xs : List Scheduled) :
    (xs.filter (Scheduled.isAt tick rank)).Pairwise fun a b => a.le b := by
  have hplace : ∀ x ∈ xs.filter (Scheduled.isAt tick rank),
      x.tick = tick ∧ x.event.rank = rank := by
    intro x hx
    have hat := (List.mem_filter.mp hx).2
    simpa only [Scheduled.isAt, Bool.and_eq_true, decide_eq_true_eq] using hat
  refine List.pairwise_of_forall_mem_list fun a ha b hb => ?_
  obtain ⟨hta, hra⟩ := hplace a ha
  obtain ⟨htb, hrb⟩ := hplace b hb
  rw [Scheduled.le_iff, hta, htb, hra, hrb]
  exact .inr ⟨rfl, Nat.le_refl rank⟩

theorem isStableSort_schedule (p : Performance β) (params : Params) :
    IsStableSort (collected p params) (schedule p params) := by
  rw [← gathered_eq_collected]
  exact {
    perm := List.mergeSort_perm _ _
    ordered := pairwise_schedule p params
    stable tick rank := filter_schedule _ (pairwise_filter_isAt tick rank _) }

/-! ## 2. Tracks told event by event -/

/-- An event that is heard, and what lies between it and the one before. -/
structure Stretch where
  markers : Nat
  ticks : Nat
  event : Event
deriving DecidableEq, Repr

/-- **A track told event by event**, when `markers` markers and `ticks` ticks have gone by since the
    last event that was heard. -/
def stretches (markers ticks : Nat) : List TrackEvent → List Stretch
  | [] => []
  | e :: t =>
    if e.event = .marker "" then stretches (markers + 1) (ticks + e.delta) t
    else ⟨markers, ticks + e.delta, e.event⟩ :: stretches 0 0 t

/-- The stretches of a schedule after the tick `last`: each gap has one marker less than the least
    number of deltas that add up to it, and none if there is no gap. -/
def gaps (last : Nat) : List Scheduled → List Stretch
  | [] => []
  | x :: s => ⟨⌈((x.tick - last : Nat) : Rat) / maxDelta⌉₊ - 1, x.tick - last, x.event⟩ ::
      gaps x.tick s

/-! ## 3. Bridges -/

/-- A gap that fits one delta takes no marker. -/
theorem ceil_sub_one_of_le {gap : Nat} (h : gap ≤ maxDelta) :
    ⌈(gap : Rat) / maxDelta⌉₊ - 1 = 0 := by
  have hpos : (0 : Rat) < maxDelta := Nat.cast_pos.mpr maxDelta_pos
  have hle : (gap : Rat) / maxDelta ≤ (1 : Nat) := by
    rw [Nat.cast_one, div_le_one hpos]
    exact Nat.cast_le.mpr h
  exact Nat.sub_eq_zero_of_le (Nat.ceil_le.mpr hle)

/-- A wider one takes one marker more than what is left of it behind the marker. -/
theorem ceil_sub_one_of_lt {gap : Nat} (h : maxDelta < gap) :
    ⌈(gap : Rat) / maxDelta⌉₊ - 1 = ⌈((gap - maxDelta : Nat) : Rat) / maxDelta⌉₊ - 1 + 1 := by
  have hpos : (0 : Rat) < maxDelta := Nat.cast_pos.mpr maxDelta_pos
  have hmany : 1 < ⌈(gap : Rat) / maxDelta⌉₊ := by
    rw [Nat.lt_ceil, Nat.cast_one, one_lt_div hpos]
    exact Nat.cast_lt.mpr h
  rw [Nat.cast_sub (Nat.le_of_lt h), sub_div, div_self hpos.ne', Nat.ceil_sub_one]
  omega

theorem delta_le_of_mem_bridge {gap : Nat} {e : Event} {x : TrackEvent} (h : x ∈ bridge gap e) :
    x.delta ≤ maxDelta := by
  induction gap using bridge.induct with
  | case1 gap hwide ih =>
    rw [bridge_of_lt hwide] at h
    rcases List.mem_cons.mp h with rfl | h
    · exact Nat.le_of_eq delta_filler
    · exact ih h
  | case2 gap hfits =>
    rw [bridge_of_le (Nat.not_lt.mp hfits)] at h
    rw [List.mem_singleton.mp h]
    exact Nat.not_lt.mp hfits

/-- **A bridge is one stretch, and takes one marker less than it takes deltas.** Markers and ticks that
    have gone by before it are added. -/
theorem stretches_bridge_append {e : Event} (h : e ≠ .marker "") (markers passed gap : Nat)
    (t : List TrackEvent) :
    stretches markers passed (bridge gap e ++ t) =
      ⟨markers + (⌈(gap : Rat) / maxDelta⌉₊ - 1), passed + gap, e⟩ :: stretches 0 0 t := by
  induction gap using bridge.induct generalizing markers passed with
  | case1 gap hwide ih =>
    have hgap : passed + maxDelta + (gap - maxDelta) = passed + gap := by
      rw [Nat.add_assoc, Nat.add_sub_cancel' (Nat.le_of_lt hwide)]
    rw [bridge_of_lt hwide, List.cons_append, stretches, if_pos event_filler, delta_filler, ih, hgap,
      ceil_sub_one_of_lt hwide, Nat.add_right_comm, Nat.add_assoc]
  | case2 gap hfits =>
    have hle := Nat.not_lt.mp hfits
    rw [bridge_of_le hle, List.singleton_append, stretches, if_neg h, ceil_sub_one_of_le hle,
      Nat.add_zero]

/-- The widest gap that one delta holds, and the next one. -/
example (e : Event) : (bridge 0x0FFFFFFF e).length = 1 ∧ (bridge 0x10000000 e).length = 2 :=
  ⟨by rw [bridge_of_le (by decide)]; rfl,
    by rw [bridge_of_lt (by decide), bridge_of_le (by decide)]; rfl⟩

/-! ## 4. Tracks -/

theorem delta_le_of_mem_follow {last : Nat} {s : List Scheduled} {x : TrackEvent}
    (h : x ∈ follow last s) : x.delta ≤ maxDelta := by
  induction s generalizing last with
  | nil => cases h
  | cons y s ih =>
    rw [follow_cons, List.mem_append] at h
    rcases h with h | h
    · exact delta_le_of_mem_bridge h
    · exact ih h

/-- **Events that follow one another are told with their gaps.** -/
theorem stretches_follow {last : Nat} {s : List Scheduled} (h : ∀ x ∈ s, x.isHeard) :
    stretches 0 0 (follow last s) = gaps last s := by
  induction s generalizing last with
  | nil => rfl
  | cons x s ih =>
    have hx : x.event ≠ .marker "" := of_decide_eq_true (h x List.mem_cons_self)
    have hs : ∀ y ∈ s, y.isHeard := fun y hy => h y (List.mem_cons_of_mem x hy)
    rw [follow_cons, stretches_bridge_append hx, ih hs, gaps, Nat.zero_add, Nat.zero_add]

theorem follow_concat (last : Nat) (s : List Scheduled) (x : Scheduled) :
    follow last (s ++ [x]) =
      follow last s ++ bridge (x.tick - (s.getLast?.map Scheduled.tick).getD last) x.event := by
  induction s generalizing last with
  | nil => exact List.append_nil _
  | cons y s ih =>
    rw [List.cons_append, follow_cons, follow_cons, ih, List.getLast?_cons, List.append_assoc]
    cases s.getLast? <;> rfl

/-- What a track tells: the schedule, and where it ends. -/
def told (p : Performance β) (params : Params) : List Scheduled :=
  schedule p params ++ [⟨Song.endTick p params (schedule p params), .endOfTrack⟩]

/-- **A track is what it tells, one event after the other.** -/
theorem track_ofPerformance (p : Performance β) (params : Params) :
    (Song.ofPerformance p params).track = follow 0 (told p params) := by
  rw [told, follow_concat]
  rfl

theorem isHeard_of_mem_told {p : Performance β} {params : Params} {x : Scheduled}
    (h : x ∈ told p params) : x.isHeard := by
  rcases List.mem_append.mp h with h | h
  · exact isHeard_of_mem_gathered x (mem_schedule.mp h)
  · rw [List.mem_singleton.mp h]
    rfl

/-- A schedule in order starts with its first event. -/
theorem Ascending.cons {last : Nat} {x : Scheduled} {s : List Scheduled} (hx : last ≤ x.tick)
    (h : Ascending x.tick s) : Ascending last (x :: s) := by
  refine List.pairwise_cons.mpr ⟨fun n hn => ?_, h⟩
  rcases List.mem_cons.mp hn with rfl | hn
  · exact hx
  · exact Nat.le_trans hx (List.rel_of_pairwise_cons h hn)

/-- An event no earlier than the last one can be put behind it. -/
theorem Ascending.concat {last : Nat} {s : List Scheduled} (h : Ascending last s) {x : Scheduled}
    (hx : (s.getLast?.map Scheduled.tick).getD last ≤ x.tick) : Ascending last (s ++ [x]) := by
  induction s generalizing last with
  | nil => exact .cons hx (List.pairwise_singleton _ _)
  | cons y s ih =>
    refine .cons h.head_le (ih h.tail ?_)
    rw [List.getLast?_cons] at hx
    cases hlast : s.getLast? with
    | none => rwa [hlast] at hx
    | some z => rwa [hlast] at hx

/-- **No event that a track tells comes before the one in front of it.** -/
theorem ascending_told (p : Performance β) (params : Params) : Ascending 0 (told p params) :=
  (ascending_schedule p params).concat (Nat.le_max_right _ _)

/-- **Every tick of the schedule is kept, whatever the gaps.** The schedule is the stable sort of all
    that is collected. No delta is wider than an event can hold. Without the bridges, the track at
    absolute ticks is the schedule and then, once, its end. Ticks only ever go up, so that no gap is
    cut off at zero, and each gap is bridged by one marker less than it takes deltas. -/
theorem track_keeps_ticks (p : Performance β) (params : Params) :
    let track := (Song.ofPerformance p params).track
    let s := schedule p params
    let finish : Scheduled := ⟨max (tickOf params.resolution p.endBeat) (lastTick s), .endOfTrack⟩
    IsStableSort (collected p params) s ∧
      (∀ e ∈ track, e.delta ≤ maxDelta) ∧
      (absolute 0 track).filter Scheduled.isHeard = s ++ [finish] ∧
      (absolute 0 track).filter Scheduled.isEnd = [finish] ∧
      Ascending 0 (s ++ [finish]) ∧
      stretches 0 0 track = gaps 0 (s ++ [finish]) := by
  intro track s finish
  have htrack : track = follow 0 (told p params) := track_ofPerformance p params
  refine ⟨isStableSort_schedule p params, fun e he => ?_, timeline_ofPerformance p params,
    filter_isEnd_absolute p params, ascending_told p params, ?_⟩
  · rw [htrack] at he
    exact delta_le_of_mem_follow he
  · rw [htrack]
    exact stretches_follow fun _ => isHeard_of_mem_told

end TextMelody.Midi
