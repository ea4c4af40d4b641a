import Mathlib.Data.List.Perm.Basic
import TextMelody.Proofs.Midi.Clock

/-!
# The places of the notes in a track

Whatever the notes of a performance are, long or short, in order or not, before the start or after
the end: each of them has a strike and a release of its own in the track, and the track has no other
strikes and releases. The release comes behind the strike, at a later tick, as long as there is a
tick left. How beats are counted does not matter here.

* `exists_forall₂_findIdxs`: the events that a list holds, in any order, each at a place of its own;
* `perm_filter_absolute`: a track tells what was gathered, in some order;
* `Sounds`: **a note has its strike and its release at a place of a track**;
* `every_note_has_its_place`: the strikes and releases of a track are those of its notes.
-/

namespace TextMelody.Midi

open Beat

/-! ## 1. Places in a list -/

section Lists

variable {α : Type} {q : α → Bool} {xs ys : List α}

/-- What a list holds of a kind stands where it is found. -/
theorem forall₂_findIdxs (q : α → Bool) (xs : List α) :
    List.Forall₂ (fun x i => xs[i]? = some x) (xs.filter q) (xs.findIdxs q) := by
  have hlength : (xs.filter q).length = (xs.findIdxs q).length := by
    rw [List.length_findIdxs, List.countP_eq_length_filter]
  refine List.forall₂_iff_get.mpr ⟨hlength, fun i hx hi => ?_⟩
  have hlt : (xs.findIdxs q)[i] < xs.length := by
    obtain ⟨h, -⟩ := List.mem_findIdxs_iff_exists_getElem_pos.mp (List.getElem_mem hi)
    exact h
  show xs[(xs.findIdxs q)[i]]? = some (xs.filter q)[i]
  rw [List.getElem?_eq_getElem hlt, List.getElem_filter_eq_getElem_getElem_findIdxs]

/-- **What a list holds of a kind, in any order, has places of its own**: they are all the places of
    the kind. -/
theorem exists_forall₂_findIdxs (h : (xs.filter q).Perm ys) :
    ∃ is, List.Forall₂ (fun y i => xs[i]? = some y) ys is ∧ is.Perm (xs.findIdxs q) :=
  List.perm_comp_forall₂ h.symm (forall₂_findIdxs q xs)

end Lists

/-- The tick of an event is no earlier than that of an event at an earlier place. -/
theorem tick_le_of_le {xs : List Scheduled} {last i j : Nat} (h : Ascending last xs) (hij : i ≤ j)
    {x y : Scheduled} (hx : xs[i]? = some x) (hy : xs[j]? = some y) : x.tick ≤ y.tick := by
  obtain ⟨hi, rfl⟩ := List.getElem?_eq_some_iff.mp hx
  obtain ⟨hj, rfl⟩ := List.getElem?_eq_some_iff.mp hy
  rcases Nat.lt_or_eq_of_le hij with hlt | rfl
  · have hticks := List.pairwise_map.mp (List.Pairwise.of_cons h)
    exact List.pairwise_iff_getElem.mp hticks i j hi hj hlt
  · exact Nat.le_refl _

/-! ## 2. What a track tells of what was gathered -/

/-- The channel that an event is sent on. -/
def Event.channel? : Event → Option UInt8
  | noteOff channel _ _ => some channel
  | noteOn channel _ _ => some channel
  | program channel _ => some channel
  | _ => none

/-- Whether an event releases a key. -/
def Event.isRelease : Event → Bool
  | noteOff _ _ _ => true
  | _ => false

/-- Whether an event releases a key. -/
def Scheduled.isRelease (x : Scheduled) : Bool :=
  x.event.isRelease

/-- Whether an event is sent on a channel, but neither strikes nor releases a key. -/
def Scheduled.isProgram (x : Scheduled) : Bool :=
  x.event.channel?.isSome && !x.isNote

theorem Scheduled.isHeard_of_channel? {x : Scheduled} (h : x.event.channel?.isSome) : x.isHeard := by
  obtain ⟨tick, event⟩ := x
  cases event with
  | marker text => cases h
  | _ => rfl

theorem Scheduled.isNote_of_isRelease {x : Scheduled} (h : x.isRelease) : x.isNote := by
  obtain ⟨tick, event⟩ := x
  cases event with
  | noteOff _ _ _ => rfl
  | _ => cases h

theorem Scheduled.isHeard_of_isProgram {x : Scheduled} (h : x.isProgram) : x.isHeard :=
  isHeard_of_channel? (Bool.and_eq_true_iff.mp h).1

variable {β : Type} [Beat β]

/-- The release of a note. -/
def releaseOf (params : Params) (n : NoteEvent β) : Scheduled :=
  ⟨releaseTick params.resolution n, .noteOff params.wireChannel (sevenBits n.key) 0⟩

theorem ofNote_eq_pair (params : Params) (n : NoteEvent β) :
    ofNote params n = [strikeOf params n, releaseOf params n] := rfl

/-- **A track tells what was gathered**, in some order, bridges and the end of the track apart. -/
theorem perm_filter_absolute (p : Performance β) (params : Params) {q : Scheduled → Bool}
    (hq : ∀ x, q x → x.isHeard) (hend : ∀ tick, ¬q ⟨tick, .endOfTrack⟩) :
    ((absolute 0 (Song.ofPerformance p params).track).filter q).Perm
      ((gathered p params).filter q) := by
  rw [filter_absolute_ofPerformance p params hq, List.filter_cons_of_neg (hend _), List.filter_nil,
    List.append_nil]
  exact (List.mergeSort_perm _ _).filter q

theorem filter_isRelease_gathered (p : Performance β) (params : Params) :
    (gathered p params).filter Scheduled.isRelease = p.notes.map (releaseOf params) := by
  rw [← filter_filter_of_imp fun _ => Scheduled.isNote_of_isRelease, filter_isNote_gathered,
    List.filter_flatMap, List.map_eq_flatMap]
  rfl

/-- Of all that is gathered, only the program is sent on a channel without being a stroke. -/
theorem filter_isProgram_gathered (p : Performance β) (params : Params) :
    (gathered p params).filter Scheduled.isProgram = [programOf p params] := by
  have hnotes : ∀ x : Scheduled, x.isNote → ¬x.isProgram := by
    intro x hx
    simp [Scheduled.isProgram, hx]
  have htempos : (tempoMap p params).filter Scheduled.isProgram = [] := by
    refine List.filter_eq_nil_iff.mpr fun x hx => ?_
    obtain ⟨tick, micros, rfl⟩ := Scheduled.exists_of_isTempo (isTempo_of_mem_tempoMap hx)
    exact Bool.false_ne_true
  have hname : ¬Scheduled.isProgram ⟨0, .trackName params.trackName⟩ := Bool.false_ne_true
  rw [filter_gathered_eq_settings p params hnotes, settings, List.filter_cons_of_neg hname,
    List.filter_append, htempos]
  rfl

/-- Every event that is sent on a channel is sent on the low four bits of the one that is set. -/
theorem toNat_channel_of_mem_absolute {p : Performance β} {params : Params} {x : Scheduled}
    (hx : x ∈ absolute 0 (Song.ofPerformance p params).track) {channel : UInt8}
    (h : x.event.channel? = some channel) : channel.toNat = params.channel.toNat % 16 := by
  have hsent : x.event.channel?.isSome := Option.isSome_of_eq_some h
  have hmem : x ∈ (gathered p params).filter fun y => y.event.channel?.isSome :=
    (perm_filter_absolute p params (fun _ => Scheduled.isHeard_of_channel?)
      fun _ => Bool.false_ne_true).subset (List.mem_filter.mpr ⟨hx, hsent⟩)
  have hwire : ∀ y ∈ gathered p params,
      y.event.channel? = none ∨ y.event.channel? = some params.wireChannel := by
    refine forall_mem_gathered (.inl rfl) (.inl rfl) (fun _ _ => .inl rfl) (.inr rfl) ?_
    intro n _ y hy
    rw [ofNote_eq_pair, List.mem_pair] at hy
    rcases hy with rfl | rfl <;> exact .inr rfl
  rcases hwire x (List.mem_filter.mp hmem).1 with e | e
  · rw [e] at h
    cases h
  · obtain rfl : params.wireChannel = channel := Option.some.inj (e.symm.trans h)
    exact params.toNat_wireChannel

/-! ## 3. Strikes and releases, note by note -/

/-- The places of a note in a track. -/
structure Place where
  strike : Nat
  release : Nat
deriving DecidableEq, Repr

/-- **A note sounds at its place**: it is struck at the tick of its start, with the low seven bits
    of its key and its velocity, and that key is released behind it, at the tick of its end or, if
    that is not later, at the tick after the strike. -/
structure Sounds (params : Params) (events : List Scheduled) (n : NoteEvent β) (place : Place) :
    Prop where
  strike : events[place.strike]? =
    some ⟨tickOf params.resolution n.start,
      .noteOn params.wireChannel (sevenBits n.key) (sevenBits n.velocity)⟩
  release : events[place.release]? =
    some ⟨max (tickOf params.resolution n.release) (tickOf params.resolution n.start + 1),
      .noteOff params.wireChannel (sevenBits n.key) 0⟩
  before : place.strike < place.release

/-- Where a list has its strikes and its releases at places, it has its notes there. -/
theorem exists_places {α : Type} {strike release : α → Nat → Prop} {xs : List α} {is js : List Nat}
    (hi : List.Forall₂ strike xs is) (hj : List.Forall₂ release xs js) :
    ∃ places : List Place,
      List.Forall₂ (fun x place => strike x place.strike ∧ release x place.release) xs places ∧
        places.map Place.strike = is ∧ places.map Place.release = js := by
  induction hi generalizing js with
  | nil =>
    cases hj
    exact ⟨[], .nil, rfl, rfl⟩
  | @cons x i xs is hx hxs ih =>
    cases hj with
    | @cons _ j _ js hxj hj =>
      obtain ⟨places, hplaces, hstrikes, hreleases⟩ := ih hj
      refine ⟨⟨i, j⟩ :: places, .cons ⟨hx, hxj⟩ hplaces, ?_, ?_⟩
      · rw [List.map_cons, hstrikes]
      · rw [List.map_cons, hreleases]

/-- A note that is struck and released in a track sounds there, if there is a tick left for it. -/
theorem sounds_of_getElem? {params : Params} {events : List Scheduled} {last : Nat}
    (hevents : Ascending last events) {n : NoteEvent β} {place : Place}
    (hn : tickOf params.resolution n.start < maxWord)
    (hstrike : events[place.strike]? = some (strikeOf params n))
    (hrelease : events[place.release]? = some (releaseOf params n)) :
    Sounds params events n place := by
  have hlater : (strikeOf params n).tick < (releaseOf params n).tick := strikeTick_lt_releaseTick hn
  have hheld : releaseTick params.resolution n =
      max (tickOf params.resolution n.release) (tickOf params.resolution n.start + 1) := by
    rw [releaseTick, strikeTick, Nat.min_eq_left hn]
  refine ⟨hstrike, hheld ▸ hrelease, ?_⟩
  -- The ticks of a track never go back, so what comes at a later tick stands behind.
  refine Nat.lt_of_not_le fun hle => ?_
  exact absurd (tick_le_of_le hevents hle hrelease hstrike) (Nat.not_le_of_lt hlater)

/-- **Every note has its place.** If no note starts at the last tick that a word holds, the notes of
    a performance, in whatever order and however long, sound at places of the track that are all its
    strikes and all its releases, each once. Apart from these the program is all that is sent on a
    channel, and the channel is always the low four bits of the one that is set. -/
theorem every_note_has_its_place (p : Performance β) (params : Params)
    (h : ∀ n ∈ p.notes, tickOf params.resolution n.start < maxWord) :
    let events := absolute 0 (Song.ofPerformance p params).track
    (∃ places : List Place, List.Forall₂ (Sounds params events) p.notes places ∧
        (places.map Place.strike).Perm (events.findIdxs Scheduled.isStrike) ∧
        (places.map Place.release).Perm (events.findIdxs Scheduled.isRelease)) ∧
      (∀ x ∈ events, ∀ channel, x.event.channel? = some channel →
        channel.toNat = params.channel.toNat % 16) ∧
      events.filter Scheduled.isProgram =
        [⟨0, .program params.wireChannel p.instrument.wireProgram⟩] := by
  intro events
  have hstrikes : (events.filter Scheduled.isStrike).Perm (p.notes.map (strikeOf params)) := by
    rw [← filter_isStrike_gathered]
    exact perm_filter_absolute p params
      (fun _ hx => Scheduled.isHeard_of_isNote (Scheduled.isNote_of_isStrike hx))
      fun _ => Bool.false_ne_true
  have hreleases : (events.filter Scheduled.isRelease).Perm (p.notes.map (releaseOf params)) := by
    rw [← filter_isRelease_gathered]
    exact perm_filter_absolute p params
      (fun _ hx => Scheduled.isHeard_of_isNote (Scheduled.isNote_of_isRelease hx))
      fun _ => Bool.false_ne_true
  have hprogram : events.filter Scheduled.isProgram = [programOf p params] := by
    rw [← filter_isProgram_gathered]
    refine filter_absolute_of_ordered (fun _ => Scheduled.isHeard_of_isProgram)
      (fun _ => Bool.false_ne_true) ?_
    rw [filter_isProgram_gathered]
    exact List.pairwise_singleton _ _
  obtain ⟨is, his, hpermi⟩ := exists_forall₂_findIdxs hstrikes
  obtain ⟨js, hjs, hpermj⟩ := exists_forall₂_findIdxs hreleases
  obtain ⟨places, hplaces, rfl, rfl⟩ :=
    exists_places (List.forall₂_map_left_iff.mp his) (List.forall₂_map_left_iff.mp hjs)
  have hsounds : List.Forall₂ (Sounds params events) p.notes places := by
    refine List.forall₂_iff_get.mpr ⟨hplaces.length_eq, fun i hi hj => ?_⟩
    obtain ⟨hstrike, hrelease⟩ := (List.forall₂_iff_get.mp hplaces).2 i hi hj
    exact sounds_of_getElem? (ascending_absolute 0 _) (h _ (List.get_mem _ _)) hstrike hrelease
  exact ⟨⟨places, hsounds, hpermi, hpermj⟩, fun x hx channel hc =>
    toNat_channel_of_mem_absolute hx hc, hprogram⟩

/-- The first note is the later one, and ends before it starts. The second starts before the start
    and has no length. -/
theorem every_note_has_its_place_unordered :
    let p : Performance Float :=
      { instrument := .flute, tempoChanges := [],
        notes := [⟨200, Beat.ofNat 2, Beat.ofNat 0 - Beat.ofNat 5, 90⟩,
          ⟨60, Beat.ofNat 0 - Beat.ofNat 1, Beat.ofNat 0, 255⟩],
        endBeat := Beat.ofNat 0 }
    let params : Params := { channel := 19 }
    let events := absolute 0 (Song.ofPerformance p params).track
    (∀ n ∈ p.notes, tickOf params.resolution n.start < maxWord) ∧
      (∃ places : List Place, List.Forall₂ (Sounds params events) p.notes places ∧
        (places.map Place.strike).Perm (events.findIdxs Scheduled.isStrike) ∧
        (places.map Place.release).Perm (events.findIdxs Scheduled.isRelease)) ∧
      (∀ x ∈ events, ∀ channel, x.event.channel? = some channel → channel.toNat = 3) ∧
      events.filter Scheduled.isProgram = [⟨0, .program 3 73⟩] := by
  intro p params events
  have hnotes : ∀ n ∈ p.notes, tickOf params.resolution n.start < maxWord := by decide +kernel
  obtain ⟨hplaces, hchannel, hprogram⟩ := every_note_has_its_place p params hnotes
  have hlow : params.channel.toNat % 16 = 3 := by decide
  have hwire : params.wireChannel = 3 := by decide
  have hflute : p.instrument.wireProgram = 73 := by decide
  rw [hlow] at hchannel
  rw [hwire, hflute] at hprogram
  exact ⟨hnotes, hplaces, hchannel, hprogram⟩

end TextMelody.Midi
