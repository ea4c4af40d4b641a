import Mathlib.Data.Set.List
import TextMelody.Proofs.Midi.Places
import TextMelody.Proofs.Midi.ReadBack
import TextMelody.Proofs.Midi.TempoMap

/-!
# The first tick of a track

A track has its name, a tempo and its instrument before anything is heard. All three stand on the
first tick, and so may much else: notes that start there or before the start, and tempo changes
whose beats are rounded to it. It is the rank of the events that puts them in order, and the tempo
that holds from the start that makes sure of one.

* `follow_append_of_start`: a track of what stands on the first tick, and of what is behind;
* `filter_le_program`: what is scheduled up to the program;
* `isHeading_of_mem_gathered`: nothing behind the program is a heading;
* `setup_precedes_sound`: **a track begins with its name, tempos and program, and has no other name
  and program.**
-/

namespace TextMelody.Midi

open Beat

/-- Whether an event names the track or tells its program. -/
def Event.isHeading : Event → Bool
  | trackName _ => true
  | program _ _ => true
  | _ => false

/-! ## 1. What stands on the first tick -/

/-- Events on the first tick follow one another without a delta or a bridge. -/
theorem follow_append_of_start {s : List Scheduled} (h : ∀ x ∈ s, x.tick = 0) (t : List Scheduled) :
    follow 0 (s ++ t) = s.map (fun x => ⟨0, x.event⟩) ++ follow 0 t := by
  induction s with
  | nil => rfl
  | cons x s ih =>
    have hx : x.tick = 0 := h x List.mem_cons_self
    rw [List.cons_append, follow_cons, hx, Nat.sub_zero, bridge_of_le (Nat.zero_le _),
      ih fun y hy => h y (List.mem_cons_of_mem x hy)]
    rfl

/-- A tempo comes before a program on the first tick exactly if it stands there too. -/
theorem le_program_of_isTempo {x : Scheduled} (h : x.isTempo) (channel number : UInt8) :
    x.le ⟨0, .program channel number⟩ = decide (x.tick ≤ 0) := by
  obtain ⟨tick, micros, rfl⟩ := Scheduled.exists_of_isTempo h
  rw [Bool.eq_iff_iff, Scheduled.le_iff, decide_eq_true_iff]
  show tick < 0 ∨ tick = 0 ∧ 1 ≤ 2 ↔ tick ≤ 0
  omega

/-- Strikes and releases come behind a program on the first tick, even if they stand there too. -/
theorem not_le_program_of_isNote {x : Scheduled} (h : x.isNote) (channel number : UInt8) :
    ¬x.le ⟨0, .program channel number⟩ := by
  rw [Scheduled.le_iff]
  rintro (hlt | ⟨-, hrank⟩)
  · exact Nat.not_lt_zero _ hlt
  · obtain ⟨tick, event⟩ := x
    cases event with
    | noteOff _ _ _ => exact absurd hrank (by decide : ¬3 ≤ 2)
    | noteOn _ _ _ => exact absurd hrank (by decide : ¬4 ≤ 2)
    | _ => cases h

/-! ## 2. What is scheduled up to the program -/

variable {β : Type} [Beat β]

/-- The name, the tempos on the first tick, and the program. -/
def setup (p : Performance β) (params : Params) : List Scheduled :=
  ⟨0, .trackName params.trackName⟩ ::
    ((tempoMap p params).filter (fun x => x.tick ≤ 0) ++ [programOf p params])

theorem filter_le_program_gathered (p : Performance β) (params : Params) :
    (gathered p params).filter (fun x => x.le (programOf p params)) = setup p params := by
  have hnotes : ∀ x : Scheduled, x.isNote → ¬x.le (programOf p params) := fun _ hx =>
    not_le_program_of_isNote hx _ _
  have htempos : (tempoMap p params).filter (fun x => x.le (programOf p params)) =
      (tempoMap p params).filter fun x => x.tick ≤ 0 :=
    List.filter_congr fun x hx => le_program_of_isTempo (isTempo_of_mem_tempoMap hx) _ _
  have hname : Scheduled.le ⟨0, .trackName params.trackName⟩ (programOf p params) := rfl
  rw [filter_gathered_eq_settings p params hnotes, settings, List.filter_cons, if_pos hname,
    List.filter_append, htempos]
  rfl

theorem tick_of_mem_setup {p : Performance β} {params : Params} {x : Scheduled}
    (h : x ∈ setup p params) : x.tick = 0 := by
  rw [setup, List.mem_cons, List.mem_append, List.mem_singleton] at h
  rcases h with rfl | h | rfl
  · rfl
  · exact Nat.le_zero.mp (of_decide_eq_true (List.mem_filter.mp h).2)
  · rfl

theorem pairwise_setup (p : Performance β) (params : Params) :
    (setup p params).Pairwise fun a b => a.le b := by
  have htempo : ∀ x ∈ (tempoMap p params).filter fun x => x.tick ≤ 0, x.event.rank = 1 := by
    intro x hx
    obtain ⟨tick, micros, rfl⟩ :=
      Scheduled.exists_of_isTempo (isTempo_of_mem_tempoMap (List.mem_filter.mp hx).1)
    rfl
  -- All of it is on one tick, so only the ranks count.
  have hranks : (setup p params).Pairwise fun a b => a.event.rank ≤ b.event.rank := by
    refine List.pairwise_cons.mpr ⟨fun x _ => Nat.zero_le _, ?_⟩
    refine List.pairwise_append.mpr ⟨?_, List.pairwise_singleton _ _, fun a ha b hb => ?_⟩
    · refine List.pairwise_of_forall_mem_list fun a ha b hb => ?_
      rw [htempo a ha, htempo b hb]
    · rw [htempo a ha, List.mem_singleton.mp hb]
      exact (by decide : 1 ≤ 2)
  refine hranks.imp_of_mem fun {a b} ha hb hab => le_of_tick_le ?_ hab
  rw [tick_of_mem_setup ha, tick_of_mem_setup hb]

/-- **What is scheduled up to the program**: the name, the tempos on the first tick, and the
    program itself. -/
theorem filter_le_program (p : Performance β) (params : Params) :
    (schedule p params).filter (fun x => x.le (programOf p params)) = setup p params := by
  have hgathered := filter_le_program_gathered p params
  rw [filter_schedule _ (hgathered ▸ pairwise_setup p params), hgathered]

/-- The tempos on the first tick, of which there is at least one. -/
theorem exists_tempos [Metered β] (p : Performance β) (params : Params) :
    ∃ tempos : List Nat, tempos ≠ [] ∧
      (tempoMap p params).filter (fun x => x.tick ≤ 0) =
        tempos.map fun micros => ⟨0, .tempo micros⟩ := by
  have htempos : (tempoMap p params).filter (fun x => x.tick ≤ 0) ∈
      Set.range (List.map fun micros => (⟨0, .tempo micros⟩ : Scheduled)) := by
    rw [Set.range_list_map]
    intro x hx
    obtain ⟨hmem, htick⟩ := List.mem_filter.mp hx
    obtain ⟨tick, micros, rfl⟩ := Scheduled.exists_of_isTempo (isTempo_of_mem_tempoMap hmem)
    obtain rfl : tick = 0 := Nat.le_zero.mp (of_decide_eq_true htick)
    exact ⟨micros, rfl⟩
  obtain ⟨tempos, htempos⟩ := htempos
  refine ⟨tempos, ?_, htempos.symm⟩
  rintro rfl
  have hlast := getLast?_filter_tick_tempoMap p params 0
  rw [← htempos] at hlast
  cases hlast

/-! ## 3. The track -/

/-- **Nothing that is gathered is a heading**, but what comes up to the program. -/
theorem isHeading_of_mem_gathered {p : Performance β} {params : Params} :
    ∀ x ∈ gathered p params, ¬x.le (programOf p params) → ¬x.event.isHeading := by
  refine forall_mem_gathered (fun h => absurd rfl h) (fun _ => Bool.false_ne_true)
    (fun _ _ _ => Bool.false_ne_true) (fun h => absurd rfl h) fun n _ x hx _ => ?_
  rw [ofNote_eq_pair, List.mem_pair] at hx
  rcases hx with rfl | rfl <;> exact Bool.false_ne_true

/-- A track is its setup on the first tick, and what comes behind the program. -/
theorem exists_track_eq (p : Performance β) (params : Params) :
    ∃ rest, (Song.ofPerformance p params).track =
        (setup p params).map (fun x => ⟨0, x.event⟩) ++ rest ∧
      ∀ e ∈ rest, ¬e.event.isHeading := by
  have hsplit := filter_le_append_filter (pairwise_schedule p params) (programOf p params)
  rw [filter_le_program] at hsplit
  have htold : told p params = setup p params ++
      ((schedule p params).filter (fun x => !x.le (programOf p params)) ++
        [⟨Song.endTick p params (schedule p params), .endOfTrack⟩]) := by
    rw [told, ← List.append_assoc, hsplit]
  have htrack := track_ofPerformance p params
  rw [htold, follow_append_of_start fun x hx => tick_of_mem_setup hx] at htrack
  refine ⟨_, htrack, forall_mem_follow (P := fun e => ¬e.isHeading) Bool.false_ne_true ?_⟩
  intro x hx
  rcases List.mem_append.mp hx with hx | hx
  · obtain ⟨hmem, hbehind⟩ := List.mem_filter.mp hx
    refine isHeading_of_mem_gathered x (mem_schedule.mp hmem) fun hle => ?_
    rw [hle] at hbehind
    cases hbehind
  · rw [List.mem_singleton.mp hx]
    exact Bool.false_ne_true

/-- **Setup precedes sound.** The track of any performance begins, before any tick has passed, with
    its name, one tempo or more, and the program, whose number is that of the instrument counted
    from 0. No other name and no other program follow. -/
theorem setup_precedes_sound [Metered β] (p : Performance β) (params : Params) :
    let track := (Song.ofPerformance p params).track
    let name : TrackEvent := ⟨0, .trackName params.trackName⟩
    let program : TrackEvent := ⟨0, .program params.wireChannel p.instrument.wireProgram⟩
    (∃ (tempos : List Nat) (rest : List TrackEvent), tempos ≠ [] ∧
        track = name :: tempos.map (fun micros => ⟨0, .tempo micros⟩) ++ program :: rest) ∧
      p.instrument.wireProgram.toNat + 1 = p.instrument.program.toNat ∧
      track.filter (fun e => e.event.isHeading) = [name, program] := by
  intro track name program
  obtain ⟨rest, htrack, hrest⟩ := exists_track_eq p params
  obtain ⟨tempos, hsome, htempos⟩ := exists_tempos p params
  have hfront : track =
      name :: tempos.map (fun micros => ⟨0, .tempo micros⟩) ++ program :: rest := by
    rw [setup, htempos, List.map_cons, List.map_append, List.map_map, List.cons_append,
      List.append_assoc] at htrack
    exact htrack
  have hnone : (tempos.map fun micros => (⟨0, .tempo micros⟩ : TrackEvent)).filter
      (fun e => e.event.isHeading) = [] := by
    refine List.filter_eq_nil_iff.mpr fun e he => ?_
    obtain ⟨micros, _, rfl⟩ := List.mem_map.mp he
    exact Bool.false_ne_true
  have hheadings : track.filter (fun e => e.event.isHeading) = [name, program] := by
    rw [hfront, List.filter_append, List.filter_cons_of_pos rfl, hnone, List.filter_cons_of_pos rfl,
      List.filter_eq_nil_iff.mpr hrest]
    rfl
  refine ⟨⟨tempos, rest, hsome, hfront⟩, ?_, hheadings⟩
  cases p.instrument <;> rfl

/-- A note before the start and two at the start, and tempo changes out of order, of which one is
    before the start and one is rounded to it. -/
theorem setup_precedes_sound_crowded :
    let p : Performance Float :=
      { instrument := .chiptune
        tempoChanges := [⟨Beat.ofNat 4, 90⟩, ⟨Beat.ofNat 0 - Beat.ofNat 1, 200⟩,
          ⟨Beat.ofNat 1 / Beat.ofNat 4096, 150⟩]
        notes := [⟨60, Beat.ofNat 0, Beat.ofNat 1, 100⟩, ⟨64, Beat.ofNat 0, Beat.ofNat 0, 100⟩,
          ⟨67, Beat.ofNat 0 - Beat.ofNat 2, Beat.ofNat 1, 100⟩]
        endBeat := Beat.ofNat 0 }
    let params : Params := { channel := 9, trackName := "" }
    let track := (Song.ofPerformance p params).track
    (∃ (tempos : List Nat) (rest : List TrackEvent), tempos ≠ [] ∧
        track = ⟨0, .trackName ""⟩ :: tempos.map (fun micros => ⟨0, .tempo micros⟩) ++
          ⟨0, .program 9 80⟩ :: rest) ∧
      track.filter (fun e => e.event.isHeading) = [⟨0, .trackName ""⟩, ⟨0, .program 9 80⟩] := by
  intro p params track
  obtain ⟨hfront, -, hheadings⟩ := setup_precedes_sound p params
  have hwire : params.wireChannel = 9 := by decide
  have hchiptune : p.instrument.wireProgram = 80 := by decide
  rw [hwire, hchiptune] at hfront hheadings
  exact ⟨hfront, hheadings⟩

end TextMelody.Midi
