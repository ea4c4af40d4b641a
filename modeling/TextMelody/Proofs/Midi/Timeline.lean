import TextMelody.Midi.Track

/-!
# Tracks with absolute ticks

A track stores how far each event is from the one before it. Added up, these deltas give the
schedule back: every event stands at its own tick, whatever gaps had to be bridged on the way.

* `absolute`: the events of a track at absolute ticks;
* `timeline_ofPerformance`: **a track tells its schedule and the end of the track**;
* `filter_schedule`, `filter_absolute_of_ordered`: events that were gathered in order are scheduled
  and told as they were gathered.
-/

namespace TextMelody.Midi

/-! ## 1. Adding up the deltas -/

/-- **The events of a track at absolute ticks**, where `passed` ticks have gone by before. -/
def absolute (passed : Nat) : List TrackEvent → List Scheduled
  | [] => []
  | e :: t => ⟨passed + e.delta, e.event⟩ :: absolute (passed + e.delta) t

/-- Whether an event is more than a bridge over a gap. -/
def Scheduled.isHeard (x : Scheduled) : Bool :=
  x.event ≠ .marker ""

/-- What a track tells: its events at absolute ticks, without the bridges. -/
def timeline (track : List TrackEvent) : List Scheduled :=
  (absolute 0 track).filter Scheduled.isHeard

@[simp] theorem absolute_nil (passed : Nat) : absolute passed [] = [] := rfl

@[simp] theorem absolute_cons (passed : Nat) (e : TrackEvent) (t : List TrackEvent) :
    absolute passed (e :: t) =
      ⟨passed + e.delta, e.event⟩ :: absolute (passed + e.delta) t := rfl

theorem absolute_append (passed : Nat) (a b : List TrackEvent) :
    absolute passed (a ++ b) = absolute passed a ++ absolute (passed + ticks a) b := by
  induction a generalizing passed with
  | nil => rfl
  | cons e a ih =>
    rw [List.cons_append, absolute_cons, ih, absolute_cons, ticks, List.cons_append, Nat.add_assoc]

theorem map_event_absolute (passed : Nat) (t : List TrackEvent) :
    (absolute passed t).map Scheduled.event = t.map TrackEvent.event := by
  induction t generalizing passed with
  | nil => rfl
  | cons e t ih => rw [absolute_cons, List.map_cons, List.map_cons, ih]

/-- **Of a bridge only the event is heard, at the far end of the gap.** -/
theorem filter_absolute_bridge (passed gap : Nat) {e : Event} (h : e ≠ .marker "") :
    (absolute passed (bridge gap e)).filter Scheduled.isHeard = [⟨passed + gap, e⟩] := by
  induction gap using bridge.induct generalizing passed with
  | case1 gap hwide ih =>
    have hfiller : Scheduled.isHeard ⟨passed + maxDelta, .marker ""⟩ = false := rfl
    have hgap : passed + maxDelta + (gap - maxDelta) = passed + gap := by
      rw [Nat.add_assoc, Nat.add_sub_cancel' (Nat.le_of_lt hwide)]
    rw [bridge_of_lt hwide, absolute_cons, delta_filler, event_filler,
      List.filter_cons_of_neg (Bool.eq_false_iff.mp hfiller), ih, hgap]
  | case2 gap hfits =>
    have hheard : Scheduled.isHeard ⟨passed + gap, e⟩ = true := decide_eq_true h
    rw [bridge_of_le (Nat.not_lt.mp hfits), absolute_cons, absolute_nil,
      List.filter_cons_of_pos hheard, List.filter_nil]

/-- A schedule in order that starts no earlier than `last`. -/
def Ascending (last : Nat) (s : List Scheduled) : Prop :=
  (last :: s.map Scheduled.tick).Pairwise (· ≤ ·)

theorem Ascending.head_le {last : Nat} {x : Scheduled} {s : List Scheduled}
    (h : Ascending last (x :: s)) : last ≤ x.tick :=
  List.rel_of_pairwise_cons h List.mem_cons_self

theorem Ascending.tail {last : Nat} {x : Scheduled} {s : List Scheduled}
    (h : Ascending last (x :: s)) : Ascending x.tick s :=
  List.Pairwise.of_cons h

/-- What is heard of the events that follow one another are the events, at their ticks. -/
theorem filter_absolute_follow {last : Nat} {s : List Scheduled} (hs : Ascending last s)
    (h : ∀ x ∈ s, x.isHeard) : (absolute last (follow last s)).filter Scheduled.isHeard = s := by
  induction s generalizing last with
  | nil => rfl
  | cons x s ih =>
    have hgap : last + (x.tick - last) = x.tick := Nat.add_sub_cancel' hs.head_le
    have hx : x.event ≠ .marker "" := of_decide_eq_true (h x List.mem_cons_self)
    rw [follow_cons, absolute_append, ticks_bridge, hgap, List.filter_append,
      filter_absolute_bridge _ _ hx, hgap, ih hs.tail fun y hy => h y (List.mem_cons_of_mem x hy)]
    rfl

theorem ticks_follow {last : Nat} {s : List Scheduled} (hs : Ascending last s) :
    last + ticks (follow last s) = (s.getLast?.map Scheduled.tick).getD last := by
  induction s generalizing last with
  | nil => rfl
  | cons x s ih =>
    have hgap : last + (x.tick - last) = x.tick := Nat.add_sub_cancel' hs.head_le
    rw [follow_cons, ticks_append, ticks_bridge, ← Nat.add_assoc, hgap, ih hs.tail,
      List.getLast?_cons]
    cases s.getLast? <;> rfl

/-! ## 2. What a schedule holds -/

/-- Whether an event strikes or releases a key. -/
def Event.isNote : Event → Bool
  | noteOff _ _ _ => true
  | noteOn _ _ _ => true
  | _ => false

/-- Whether an event strikes or releases a key. -/
def Scheduled.isNote (x : Scheduled) : Bool :=
  x.event.isNote

theorem Scheduled.isHeard_of_isNote {x : Scheduled} (h : x.isNote) : x.isHeard := by
  obtain ⟨tick, event⟩ := x
  cases event with
  | noteOff _ _ _ => rfl
  | noteOn _ _ _ => rfl
  | _ => cases h

variable {β : Type} [Beat β]

theorem openingTempo_eq (p : Performance β) :
    openingTempo p = [] ∨
      openingTempo p = [⟨0, .tempo (tempoMicros Performance.defaultTempo)⟩] := by
  unfold openingTempo
  split
  · split
    · exact .inl rfl
    · exact .inr rfl
  · exact .inr rfl

theorem isNote_of_mem_ofNote {params : Params} {n : NoteEvent β} {x : Scheduled}
    (h : x ∈ ofNote params n) : x.isNote := by
  rw [ofNote, List.mem_cons, List.mem_singleton] at h
  rcases h with rfl | rfl <;> rfl

/-- The strikes and releases among what is gathered are those of the notes. -/
theorem filter_isNote_gathered (p : Performance β) (params : Params) :
    (gathered p params).filter Scheduled.isNote = p.notes.flatMap (ofNote params) := by
  have hopening : (openingTempo p).filter Scheduled.isNote = [] := by
    rcases openingTempo_eq p with h | h <;> rw [h] <;> rfl
  have hchanges : (p.tempoChanges.map (ofTempoChange params)).filter Scheduled.isNote = [] := by
    rw [List.filter_eq_nil_iff]
    intro x hx
    obtain ⟨c, _, rfl⟩ := List.mem_map.mp hx
    exact Bool.false_ne_true
  have hnotes : (p.notes.flatMap (ofNote params)).filter Scheduled.isNote =
      p.notes.flatMap (ofNote params) := by
    rw [List.filter_eq_self]
    intro x hx
    obtain ⟨n, _, hn⟩ := List.mem_flatMap.mp hx
    exact isNote_of_mem_ofNote hn
  have hname : Scheduled.isNote ⟨0, .trackName params.trackName⟩ = false := rfl
  have hprogram : Scheduled.isNote
      ⟨0, .program params.wireChannel (sevenBits p.instrument.wireProgram)⟩ = false := rfl
  rw [gathered, List.filter_cons, hname, List.filter_append, List.filter_append, List.filter_cons,
    hprogram, hopening, hchanges, hnotes]
  rfl

/-- **What holds of everything that is gathered**: of the name, the tempos, the program and the
    strokes of every note. -/
theorem forall_mem_gathered {p : Performance β} {params : Params} {P : Scheduled → Prop}
    (hname : P ⟨0, .trackName params.trackName⟩)
    (hopening : P ⟨0, .tempo (tempoMicros Performance.defaultTempo)⟩)
    (hchange : ∀ c ∈ p.tempoChanges, P (ofTempoChange params c))
    (hprogram : P ⟨0, .program params.wireChannel (sevenBits p.instrument.wireProgram)⟩)
    (hnote : ∀ n ∈ p.notes, ∀ x ∈ ofNote params n, P x) :
    ∀ x ∈ gathered p params, P x := by
  intro x hx
  rw [gathered, List.mem_cons, List.mem_append, List.mem_append, List.mem_cons] at hx
  rcases hx with rfl | (hx | hx) | rfl | hx
  · exact hname
  · rcases openingTempo_eq p with e | e
    · rw [e] at hx
      cases hx
    · rw [e, List.mem_singleton] at hx
      rwa [hx]
  · obtain ⟨c, hc, rfl⟩ := List.mem_map.mp hx
    exact hchange c hc
  · exact hprogram
  · obtain ⟨n, hn, hxn⟩ := List.mem_flatMap.mp hx
    exact hnote n hn x hxn

/-- Nothing that is gathered is a bridge. -/
theorem isHeard_of_mem_gathered {p : Performance β} {params : Params} :
    ∀ x ∈ gathered p params, x.isHeard :=
  forall_mem_gathered rfl rfl (fun _ _ => rfl) rfl fun _ _ _ hx =>
    Scheduled.isHeard_of_isNote (isNote_of_mem_ofNote hx)

/-- **Events that were gathered in order are scheduled as they were gathered.** -/
theorem filter_schedule {p : Performance β} {params : Params} (q : Scheduled → Bool)
    (h : ((gathered p params).filter q).Pairwise fun a b => a.le b) :
    (schedule p params).filter q = (gathered p params).filter q := by
  have hsub : List.Sublist ((gathered p params).filter q) (schedule p params) :=
    List.sublist_mergeSort Scheduled.le_trans Scheduled.le_total h List.filter_sublist
  have hfilter : List.Sublist ((gathered p params).filter q) ((schedule p params).filter q) := by
    have htwice : ((gathered p params).filter q).filter q = (gathered p params).filter q :=
      List.filter_eq_self.mpr fun x hx => (List.mem_filter.mp hx).2
    exact htwice ▸ hsub.filter q
  have hperm : List.Perm ((schedule p params).filter q) ((gathered p params).filter q) :=
    (List.mergeSort_perm _ _).filter q
  exact (hfilter.eq_of_length hperm.length_eq.symm).symm

theorem Scheduled.le_iff {a b : Scheduled} :
    a.le b ↔ a.tick < b.tick ∨ a.tick = b.tick ∧ a.event.rank ≤ b.event.rank := by
  simp only [le, Bool.or_eq_true, Bool.and_eq_true, decide_eq_true_eq]

theorem ascending_schedule (p : Performance β) (params : Params) :
    Ascending 0 (schedule p params) := by
  refine List.pairwise_cons.mpr ⟨fun n _ => Nat.zero_le n, List.pairwise_map.mpr ?_⟩
  refine (pairwise_schedule p params).imp fun {a b} hab => ?_
  rw [Scheduled.le_iff] at hab
  omega

/-! ## 3. What the track of a performance tells -/

/-- **A track tells its schedule and the end of the track.** -/
theorem timeline_ofPerformance (p : Performance β) (params : Params) :
    timeline (Song.ofPerformance p params).track =
      schedule p params ++ [⟨Song.endTick p params (schedule p params), .endOfTrack⟩] := by
  have hs := ascending_schedule p params
  have hheard : ∀ x ∈ schedule p params, x.isHeard := fun x hx =>
    isHeard_of_mem_gathered x (mem_schedule.mp hx)
  have hticks : ticks (follow 0 (schedule p params)) = lastTick (schedule p params) := by
    have e := ticks_follow hs
    rwa [Nat.zero_add] at e
  have hend : lastTick (schedule p params) ≤ Song.endTick p params (schedule p params) :=
    Nat.le_max_right _ _
  rw [timeline, Song.ofPerformance, absolute_append, List.filter_append, Nat.zero_add, hticks,
    filter_absolute_follow hs hheard, filter_absolute_bridge _ _ (by decide),
    Nat.add_sub_cancel' hend]

/-- A wider test in front of a narrower one drops nothing more. -/
theorem filter_filter_of_imp {α : Type} {q r : α → Bool} (h : ∀ x, q x → r x) (xs : List α) :
    (xs.filter r).filter q = xs.filter q := by
  rw [List.filter_filter]
  refine List.filter_congr fun x _ => ?_
  cases hx : q x with
  | false => rfl
  | true => exact h x hx

/-- What is heard of a track is what its schedule holds, and the end of the track. -/
theorem filter_absolute_ofPerformance (p : Performance β) (params : Params)
    {q : Scheduled → Bool} (hq : ∀ x, q x → x.isHeard) :
    (absolute 0 (Song.ofPerformance p params).track).filter q =
      (schedule p params).filter q ++
        [⟨Song.endTick p params (schedule p params), .endOfTrack⟩].filter q := by
  calc (absolute 0 (Song.ofPerformance p params).track).filter q
      = (timeline (Song.ofPerformance p params).track).filter q := by
        rw [timeline, filter_filter_of_imp hq]
    _ = _ := by rw [timeline_ofPerformance, List.filter_append]

/-- **Events that were gathered in order are told as they were gathered**, bridges and the end of
    the track apart. -/
theorem filter_absolute_of_ordered {p : Performance β} {params : Params} {q : Scheduled → Bool}
    (hq : ∀ x, q x → x.isHeard) (hend : ∀ tick, ¬q ⟨tick, .endOfTrack⟩)
    (h : ((gathered p params).filter q).Pairwise fun a b => a.le b) :
    (absolute 0 (Song.ofPerformance p params).track).filter q = (gathered p params).filter q := by
  rw [filter_absolute_ofPerformance p params hq, filter_schedule q h,
    List.filter_cons_of_neg (hend _)]
  exact List.append_nil _

/-- The strikes and releases of a track are those of its schedule. -/
theorem filter_isNote_absolute (p : Performance β) (params : Params) :
    (absolute 0 (Song.ofPerformance p params).track).filter Scheduled.isNote =
      (schedule p params).filter Scheduled.isNote := by
  rw [filter_absolute_ofPerformance p params fun _ => Scheduled.isHeard_of_isNote]
  exact List.append_nil _

/-- Whether an event ends the track. -/
def Scheduled.isEnd (x : Scheduled) : Bool :=
  x.event = .endOfTrack

/-- Nothing that is gathered ends the track. -/
theorem isEnd_of_mem_gathered {p : Performance β} {params : Params} :
    ∀ x ∈ gathered p params, ¬x.isEnd := by
  refine forall_mem_gathered Bool.false_ne_true Bool.false_ne_true
    (fun _ _ => Bool.false_ne_true) Bool.false_ne_true fun n _ x hx => ?_
  rw [ofNote, List.mem_cons, List.mem_singleton] at hx
  rcases hx with rfl | rfl <;> exact Bool.false_ne_true

/-- **A track ends once.** -/
theorem filter_isEnd_absolute (p : Performance β) (params : Params) :
    (absolute 0 (Song.ofPerformance p params).track).filter Scheduled.isEnd =
      [⟨Song.endTick p params (schedule p params), .endOfTrack⟩] := by
  have hheard : ∀ x : Scheduled, x.isEnd → x.isHeard := by
    intro x h
    rw [Scheduled.isHeard, of_decide_eq_true h]
    rfl
  have hnone : (schedule p params).filter Scheduled.isEnd = [] :=
    List.filter_eq_nil_iff.mpr fun x hx => isEnd_of_mem_gathered x (mem_schedule.mp hx)
  rw [filter_absolute_ofPerformance p params hheard, hnone]
  rfl

/-- A track ends where its performance ends, if all of it lies before. -/
theorem endTick_eq {p : Performance β} {params : Params}
    (h : ∀ x ∈ gathered p params, x.tick ≤ tickOf params.resolution p.endBeat) :
    Song.endTick p params (schedule p params) = tickOf params.resolution p.endBeat := by
  refine Nat.max_eq_left ?_
  cases hlast : (schedule p params).getLast? with
  | none =>
    rw [lastTick, hlast]
    exact Nat.zero_le _
  | some x =>
    rw [lastTick, hlast]
    exact h x (mem_schedule.mp (List.mem_of_getLast? hlast))

end TextMelody.Midi
