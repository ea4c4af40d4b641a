import TextMelody.Midi.Bytes
import TextMelody.Proofs.Midi.Gaps
import TextMelody.Proofs.Midi.Reader

/-!
# Files read back

The file of a performance, read by a reader of MIDI files, is the song that was written: its one
track with every delta, key, velocity, tempo and text, and nothing behind it. An event leaves out
its status byte only where the reader still has the status in force, and every event that is not on
a channel puts it out of force on both sides.

* `varNumber?_varLength`: a number in groups of seven bits;
* `Event.Fits`, `message?_content`: **one event, whatever status is in force before it**;
* `events?_trackBytes`: from there, by induction, the events of a track;
* `file?_bytes`, `eq_of_bytes_eq`: a file of one track, and that its bytes tell its song;
* `whole_ofPerformance`: the track of a performance is one that a file can hold;
* `performance_reads_back`: **the file of a performance reads back.**
-/

namespace TextMelody.Midi

open Reader

/-! ## 1. Bytes and numbers -/

theorem toNat_byte (n : Nat) : (byte n).toNat = n % 256 :=
  UInt8.toNat_ofNat'

theorem take?_append (front rest : List UInt8) :
    take? front.length (front ++ rest) = some (front, rest) := by
  have hle : front.length ≤ (front ++ rest).length := by
    rw [List.length_append]
    exact Nat.le_add_right _ _
  rw [take?, if_pos hle, List.take_left, List.drop_left]

theorem data?_append {n : Nat} {front : List UInt8} (hlength : front.length = n)
    (hdata : ∀ b ∈ front, b.toNat < 128) (rest : List UInt8) :
    data? n (front ++ rest) = some (front, rest) := by
  have hall : front.all (fun b => b.toNat < 128) = true :=
    List.all_eq_true.mpr fun b hb => decide_eq_true (hdata b hb)
  rw [data?, ← hlength, take?_append, Option.filter_some, if_pos hall]

/-- Two bytes are read as sixteen more bits of a number. -/
theorem number?_twoBytes (n high m : Nat) (rest : List UInt8) :
    number? (n + 2) high (twoBytes m ++ rest) = number? n (high * 65536 + m % 65536) rest := by
  have hvalue : (high * 256 + (byte (m / 256)).toNat) * 256 + (byte m).toNat =
      high * 65536 + m % 65536 := by
    rw [toNat_byte, toNat_byte]
    omega
  rw [← hvalue]
  rfl

theorem number?_two {m : Nat} (h : m < 2 ^ 16) (rest : List UInt8) :
    number? 2 0 (twoBytes m ++ rest) = some (m, rest) := by
  have hvalue : 0 * 65536 + m % 65536 = m := by omega
  rw [number?_twoBytes, hvalue]
  rfl

theorem number?_fourBytes {m : Nat} (h : m < 2 ^ 32) (rest : List UInt8) :
    number? 4 0 (fourBytes m ++ rest) = some (m, rest) := by
  have hvalue : (0 * 65536 + m / 65536 % 65536) * 65536 + m % 65536 = m := by omega
  rw [fourBytes, List.append_assoc, number?_twoBytes, number?_twoBytes, hvalue]
  rfl

/-- The groups of a number before its last one are read as the number, of as many groups as it has.
    The induction is on how many groups it may have; it is the last group that is taken off. -/
theorem exists_varNumber?_leadingGroups (limit : Nat) {m : Nat} (h : m < 128 ^ limit) :
    ∃ groups ≤ limit, ∀ (n : Nat) (rest : List UInt8),
      varNumber? (groups + n) 0 (leadingGroups m ++ rest) = varNumber? n m rest := by
  induction limit generalizing m with
  | zero =>
    have hm : m = 0 := Nat.lt_one_iff.mp h
    refine ⟨0, Nat.le_refl 0, fun n rest => ?_⟩
    rw [hm, leadingGroups, if_pos rfl, Nat.zero_add, List.nil_append]
  | succ limit ih =>
    rcases Nat.eq_zero_or_pos m with hm | hm
    · refine ⟨0, Nat.zero_le _, fun n rest => ?_⟩
      rw [hm, leadingGroups, if_pos rfl, Nat.zero_add, List.nil_append]
    · have hhigh : m / 128 < 128 ^ limit := Nat.div_lt_of_lt_mul (Nat.pow_succ' ▸ h)
      obtain ⟨groups, hle, hread⟩ := ih hhigh
      refine ⟨groups + 1, Nat.succ_le_succ hle, fun n rest => ?_⟩
      have hbyte : (byte (m % 128 + 128)).toNat = m % 128 + 128 := by
        rw [toNat_byte]
        omega
      have hvalue : m / 128 * 128 + (m % 128 + 128 - 128) = m := by omega
      have hmark : ¬m % 128 + 128 < 128 := by omega
      rw [leadingGroups, if_neg hm.ne', List.append_assoc, Nat.add_assoc, hread,
        Nat.add_comm 1 n, List.singleton_append, varNumber?, hbyte, if_neg hmark, hvalue]

/-- **A number in groups of seven bits reads back**, if four groups hold it. -/
theorem varNumber?_varLength {m : Nat} (h : m < 2 ^ 28) (rest : List UInt8) :
    varNumber? 4 0 (varLength m ++ rest) = some (m, rest) := by
  have hhigh : m / 128 < 128 ^ 3 := by omega
  obtain ⟨groups, hle, hread⟩ := exists_varNumber?_leadingGroups 3 hhigh
  have hgroups : groups + (3 - groups + 1) = 4 := by omega
  have hbyte : (byte (m % 128)).toNat = m % 128 := by
    rw [toNat_byte]
    omega
  have hvalue : m / 128 * 128 + m % 128 = m := by omega
  rw [varLength, List.append_assoc, ← hgroups, hread, List.singleton_append, varNumber?, hbyte,
    if_pos (Nat.mod_lt m (by decide)), hvalue]

example : varLength 0x0FFFFFFF = [0xFF, 0xFF, 0xFF, 0x7F] := by decide +kernel

theorem block?_varLength {content : List UInt8} (h : content.length < 2 ^ 28) (rest : List UInt8) :
    block? (varLength content.length ++ content ++ rest) = some (content, rest) := by
  rw [block?, List.append_assoc, varNumber?_varLength h]
  exact take?_append content rest

/-! ## 2. Messages -/

namespace Event

/-- What a reader makes of an event. -/
def seen : Event → Message
  | trackName text => .trackName (utf8 text)
  | tempo micros => .tempo micros
  | program channel number => .voice .program channel [number]
  | noteOff channel key velocity => .voice .noteOff channel [key, velocity]
  | noteOn channel key velocity => .voice .noteOn channel [key, velocity]
  | marker text => .marker (utf8 text)
  | endOfTrack => .endOfTrack

/-- **An event that fits its bytes**: channels have four bits, data seven, tempos three bytes, and
    the length of a text four groups of seven bits. -/
def Fits : Event → Prop
  | trackName text => (utf8 text).length < 2 ^ 28
  | tempo micros => micros < 2 ^ 24
  | program channel number => channel.toNat < 16 ∧ number.toNat < 128
  | noteOff channel key velocity =>
    channel.toNat < 16 ∧ key.toNat < 128 ∧ velocity.toNat < 128
  | noteOn channel key velocity =>
    channel.toNat < 16 ∧ key.toNat < 128 ∧ velocity.toNat < 128
  | marker text => (utf8 text).length < 2 ^ 28
  | endOfTrack => True

end Event

/-- The bytes of a tempo are read as the tempo. -/
theorem ofMeta?_tempo {micros : Nat} (h : micros < 2 ^ 24) :
    ofMeta? (0x51 : UInt8).toNat (byte (micros / 65536) :: twoBytes micros) =
      some (.tempo micros) := by
  have hvalue : micros / 65536 % 256 * 65536 + micros % 65536 = micros := by omega
  have hread : number? 3 0 (byte (micros / 65536) :: twoBytes micros) = some (micros, []) := by
    rw [number?, ← List.append_nil (twoBytes micros), number?_twoBytes 0, toNat_byte,
      Nat.zero_mul, Nat.zero_add, hvalue]
    rfl
  have hkind : (0x51 : UInt8).toNat = 0x51 := rfl
  simp only [hkind, ofMeta?, hread]

/-- An event that is not on a channel has no status to leave out. It is read whatever status is in
    force, and leaves none. -/
theorem message?_metaBytes {kind : UInt8} {content : List UInt8} {m : Message}
    (hlength : content.length < 2 ^ 28) (hmeta : ofMeta? kind.toNat content = some m)
    (running : Option UInt8) (rest : List UInt8) :
    message? running ((if none = running then [] else (none : Option UInt8).toList) ++
      metaBytes kind content ++ rest) = some (m, none, rest) := by
  have hnone : (if none = running then [] else (none : Option UInt8).toList) = [] := ite_self []
  have hstatus : status? running (metaBytes kind content ++ rest) =
      some (0xFF, kind :: (varLength content.length ++ content ++ rest)) := rfl
  have hkind : ∀ bytes, number? 1 0 (kind :: bytes) = some (kind.toNat, bytes) := by
    intro bytes
    rw [number?, Nat.zero_mul, Nat.zero_add]
    rfl
  simp only [message?, hnone, List.nil_append, hstatus, hkind, block?_varLength hlength, hmeta,
    Option.bind_eq_bind, Option.bind_some, if_true]
  rfl

/-- A status byte is its high half and its channel. -/
theorem toNat_or_channel {high channel : UInt8} (hhigh : high.toNat % 16 = 0)
    (hchannel : channel.toNat < 16) : (high ||| channel).toNat = high.toNat + channel.toNat := by
  have hbits : 2 ^ 4 * (high.toNat / 16) + channel.toNat =
      2 ^ 4 * (high.toNat / 16) ||| channel.toNat :=
    Nat.two_pow_add_eq_or_of_lt hchannel _
  have hhalf : 2 ^ 4 * (high.toNat / 16) = high.toNat := by omega
  rw [hhalf] at hbits
  rw [UInt8.toNat_or]
  exact hbits.symm

/-- The low half of a status is its channel. -/
theorem or_channel_mod {high channel : UInt8} (hhigh : high.toNat % 16 = 0)
    (hchannel : channel.toNat < 16) : (high ||| channel) % 16 = channel := by
  apply UInt8.toNat_inj.mp
  rw [UInt8.toNat_mod, toNat_or_channel hhigh hchannel]
  show (high.toNat + channel.toNat) % 16 = channel.toNat
  omega

/-- What a status says is done does not depend on the channel. -/
theorem ofStatus?_or_channel {high channel : UInt8} (hhigh : high.toNat % 16 = 0)
    (hchannel : channel.toNat < 16) :
    Voice.ofStatus? (high ||| channel) = Voice.ofStatus? high := by
  have hhalf : (high ||| channel).toNat / 16 = high.toNat / 16 := by
    rw [toNat_or_channel hhigh hchannel]
    omega
  rw [Voice.ofStatus?, Voice.ofStatus?, hhalf]

/-- **A status is read where it is written and where it is left out**: data cannot be taken for
    one. -/
theorem status?_append {status b : UInt8} (hstatus : 128 ≤ status.toNat) (hb : b.toNat < 128)
    (running : Option UInt8) (bytes : List UInt8) :
    status? running ((if some status = running then [] else [status]) ++ b :: bytes) =
      some (status, b :: bytes) := by
  by_cases hrunning : some status = running
  · rw [if_pos hrunning, ← hrunning, List.nil_append, status?, if_pos hb]
    rfl
  · rw [if_neg hrunning, List.singleton_append, status?, if_neg (Nat.not_lt.mpr hstatus)]

/-- **An event on a channel is read with its status byte, and without it if that status is in
    force.** -/
theorem message?_voice {high channel b : UInt8} {v : Voice} {data : List UInt8}
    (hhigh : high.toNat % 16 = 0) (hmark : 128 ≤ high.toNat)
    (hvoice : Voice.ofStatus? high = some v)
    (hchannel : channel.toNat < 16) (hlength : (b :: data).length = v.size)
    (hdata : ∀ x ∈ b :: data, x.toNat < 128) (running : Option UInt8) (rest : List UInt8) :
    message? running ((if some (high ||| channel) = running then [] else [high ||| channel]) ++
        (b :: data) ++ rest) =
      some (.voice v channel (b :: data), some (high ||| channel), rest) := by
  have hlow := or_channel_mod hhigh hchannel
  have hsays : Voice.ofStatus? (high ||| channel) = some v :=
    (ofStatus?_or_channel hhigh hchannel).trans hvoice
  have hmarked : 128 ≤ (high ||| channel).toNat := by
    rw [toNat_or_channel hhigh hchannel]
    omega
  generalize high ||| channel = status at hlow hsays hmarked ⊢
  have hstatus : status? running
      ((if some status = running then [] else [status]) ++ (b :: data) ++ rest) =
      some (status, b :: data ++ rest) := by
    rw [List.append_assoc]
    exact status?_append hmarked (hdata b List.mem_cons_self) running _
  have hmeta : status ≠ 0xFF := by
    rintro rfl
    cases hsays
  have hexclusive : ¬(status = 0xF0 ∨ status = 0xF7) := by
    rintro (rfl | rfl) <;> cases hsays
  have hread : voice? status (b :: data ++ rest) = some (.voice v channel (b :: data), rest) := by
    rw [voice?, hsays, Option.bind_eq_bind, Option.bind_some, data?_append hlength hdata, hlow]
    rfl
  simp only [message?, hstatus, hread, if_neg hmeta, if_neg hexclusive, Option.bind_eq_bind,
    Option.bind_some]
  rfl

/-- **One event reads back, whatever status is in force before it**, and leaves its own in force. -/
theorem message?_content {e : Event} (h : e.Fits) (running : Option UInt8) (rest : List UInt8) :
    message? running
      ((if e.status? = running then [] else e.status?.toList) ++ e.content ++ rest) =
      some (e.seen, e.status?, rest) := by
  cases e with
  | trackName text => exact message?_metaBytes h rfl running rest
  | tempo micros =>
    have hthree : (byte (micros / 65536) :: twoBytes micros).length < 2 ^ 28 := by
      show 3 < 2 ^ 28
      decide
    exact message?_metaBytes hthree (ofMeta?_tempo h) running rest
  | program channel number =>
    obtain ⟨hchannel, hnumber⟩ := h
    exact message?_voice rfl (by decide) rfl hchannel rfl (by simpa using hnumber) running rest
  | noteOff channel key velocity =>
    obtain ⟨hchannel, hkey, hvelocity⟩ := h
    exact message?_voice rfl (by decide) rfl hchannel rfl (by simp [hkey, hvelocity]) running rest
  | noteOn channel key velocity =>
    obtain ⟨hchannel, hkey, hvelocity⟩ := h
    exact message?_voice rfl (by decide) rfl hchannel rfl (by simp [hkey, hvelocity]) running rest
  | marker text => exact message?_metaBytes h rfl running rest
  | endOfTrack => exact message?_metaBytes (by decide) rfl running rest

/-! ## 3. Tracks -/

/-- What a reader makes of an event of a track. -/
def TrackEvent.seen (e : TrackEvent) : Timed :=
  ⟨e.delta, e.event.seen⟩

/-- An event of a track that fits its bytes, and so does its delta. -/
def TrackEvent.Fits (e : TrackEvent) : Prop :=
  e.delta ≤ maxDelta ∧ e.event.Fits

theorem seen_ne_endOfTrack {e : TrackEvent} (h : e.event ≠ .endOfTrack) :
    e.seen.message ≠ .endOfTrack := by
  intro hseen
  obtain ⟨delta, event⟩ := e
  cases event with
  | endOfTrack => exact h rfl
  | _ => cases hseen

theorem event?_bytes {e : TrackEvent} (h : e.Fits) (running : Option UInt8) (rest : List UInt8) :
    event? running (e.bytes running ++ rest) = some (e.seen, e.event.status?, rest) := by
  obtain ⟨hdelta, hevent⟩ := h
  have hwide : e.delta < 2 ^ 28 := Nat.lt_succ_of_le hdelta
  rw [event?, TrackEvent.bytes, List.append_assoc, List.append_assoc, varNumber?_varLength hwide,
    Option.bind_eq_bind, Option.bind_some, ← List.append_assoc]
  simp only [message?_content hevent, Option.bind_eq_bind, Option.bind_some]
  rfl

/-- **A track as a file holds it**: all of it fits its bytes, and its last event, and no other, is
    its end. -/
inductive Whole : List TrackEvent → Prop
  | finish {e : TrackEvent} (hfits : e.Fits) (hend : e.event = .endOfTrack) : Whole [e]
  | cons {e : TrackEvent} {t : List TrackEvent} (hfits : e.Fits) (hinner : e.event ≠ .endOfTrack)
      (ht : Whole t) : Whole (e :: t)

theorem Whole.append {a b : List TrackEvent}
    (ha : ∀ e ∈ a, e.Fits ∧ e.event ≠ .endOfTrack) (hb : Whole b) : Whole (a ++ b) := by
  induction a with
  | nil => exact hb
  | cons e a ih =>
    obtain ⟨hfits, hinner⟩ := ha e List.mem_cons_self
    exact .cons hfits hinner (ih fun x hx => ha x (List.mem_cons_of_mem e hx))

/-- **The events of a track read back**, each with the status that the one before it has left in
    force. -/
theorem events?_trackBytes {t : List TrackEvent} (h : Whole t) (running : Option UInt8) :
    events? running (trackBytes running t) = some (t.map TrackEvent.seen) := by
  induction h generalizing running with
  | @finish e hfits hend =>
    have hread : event? running (trackBytes running [e]) = some (e.seen, e.event.status?, []) :=
      event?_bytes hfits running []
    have hseen : e.seen.message = .endOfTrack := by
      rw [TrackEvent.seen, hend]
      rfl
    rw [events?_of_event? hread, if_pos hseen]
    rfl
  | @cons e t hfits hinner ht ih =>
    have hread : event? running (trackBytes running (e :: t)) =
        some (e.seen, e.event.status?, trackBytes e.event.status? t) :=
      event?_bytes hfits running _
    rw [events?_of_event? hread, if_neg (seen_ne_endOfTrack hinner), ih]
    rfl

/-! ## 4. Files -/

theorem chunk?_chunk {name : String} {content : List UInt8} (hname : (ascii name).length = 4)
    (hlength : content.length < 2 ^ 32) (rest : List UInt8) :
    chunk? (chunk name content ++ rest) = some (ascii name, content, rest) := by
  have hfour : ∀ bytes, take? 4 (ascii name ++ bytes) = some (ascii name, bytes) := by
    intro bytes
    rw [← hname]
    exact take?_append _ _
  simp only [chunk?, chunk, List.append_assoc, hfour, number?_fourBytes hlength, take?_append,
    Option.bind_eq_bind, Option.bind_some]
  rfl

/-- **A file of one track reads back**, if its bytes can tell its length. -/
theorem file?_bytes {s : Song} (htrack : Whole s.track) (hresolution : s.resolution.toNat < 2 ^ 15)
    (hlength : (trackBytes none s.track).length < 2 ^ 32) (rest : List UInt8) :
    file? (s.bytes ++ rest) =
      some (⟨0, .metrical s.resolution.toNat, [s.track.map TrackEvent.seen]⟩, rest) := by
  have hheader : chunk? (s.bytes ++ rest) =
      some (headerName, twoBytes 0 ++ twoBytes 1 ++ twoBytes s.resolution.toNat,
        chunk "MTrk" (trackBytes none s.track) ++ rest) := by
    rw [Song.bytes, List.append_assoc]
    exact chunk?_chunk (by decide) (by show 6 < 2 ^ 32; decide) _
  have hone : track? (chunk "MTrk" (trackBytes none s.track) ++ rest) =
      some (s.track.map TrackEvent.seen, rest) := by
    have hname : ascii "MTrk" = Reader.trackName := by decide
    rw [track?_of_chunk? (chunk?_chunk (by decide) hlength rest), if_pos hname,
      events?_trackBytes htrack]
    rfl
  have hdivision : number? 2 0 (twoBytes s.resolution.toNat) = some (s.resolution.toNat, []) := by
    have hread := number?_two (Nat.lt_trans hresolution (by decide)) []
    rwa [List.append_nil] at hread
  have hmetrical : Division.ofNat s.resolution.toNat = .metrical s.resolution.toNat :=
    if_pos hresolution
  have hzero : ∀ bytes, number? 2 0 (twoBytes 0 ++ bytes) = some (0, bytes) :=
    number?_two (by decide)
  have hcount : ∀ bytes, number? 2 0 (twoBytes 1 ++ bytes) = some (1, bytes) :=
    number?_two (by decide)
  simp only [file?, hheader, List.append_assoc, hzero, hcount, hdivision, hmetrical, tracks?, hone,
    Option.bind_eq_bind, Option.bind_some]
  rfl

/-- **A reader tells events apart**: nothing of an event is lost. -/
theorem Event.seen_injective : Function.Injective Event.seen := by
  intro a b h
  cases a <;> cases b <;> simp_all [Event.seen, utf8_injective.eq_iff]

theorem TrackEvent.seen_injective : Function.Injective TrackEvent.seen := by
  rintro ⟨delta, event⟩ ⟨delta', event'⟩ h
  obtain ⟨hdelta, hevent⟩ := Timed.mk.inj h
  exact congrArg₂ TrackEvent.mk hdelta (Event.seen_injective hevent)

/-- **Files of the same bytes are of the same song.** -/
theorem eq_of_bytes_eq {s u : Song} (hs : Whole s.track) (hu : Whole u.track)
    (hsr : s.resolution.toNat < 2 ^ 15) (hur : u.resolution.toNat < 2 ^ 15)
    (hsl : (trackBytes none s.track).length < 2 ^ 32)
    (hul : (trackBytes none u.track).length < 2 ^ 32) (h : s.bytes = u.bytes) : s = u := by
  have hread := file?_bytes hs hsr hsl []
  rw [h, file?_bytes hu hur hul] at hread
  simp only [Option.some.injEq, Prod.mk.injEq, File.mk.injEq, Division.metrical.injEq,
    List.cons.injEq, and_true, true_and] at hread
  obtain ⟨hresolution, htrack⟩ := hread
  cases s
  cases u
  rw [Song.mk.injEq]
  exact ⟨UInt16.toNat_inj.mp hresolution.symm,
    (List.map_injective_iff.mpr TrackEvent.seen_injective htrack).symm⟩

/-! ## 5. Performances -/

theorem forall_mem_bridge {P : Event → Prop} {gap : Nat} {e : Event} (hmarker : P (.marker ""))
    (he : P e) : ∀ x ∈ bridge gap e, P x.event := by
  intro x hx
  induction gap using bridge.induct with
  | case1 gap hwide ih =>
    rw [bridge_of_lt hwide] at hx
    rcases List.mem_cons.mp hx with rfl | hx
    · exact hmarker
    · exact ih hx
  | case2 gap hfits =>
    rw [bridge_of_le (Nat.not_lt.mp hfits)] at hx
    rw [List.mem_singleton.mp hx]
    exact he

/-- What holds of the events of a schedule holds of those of its track, if it holds of bridges. -/
theorem forall_mem_follow {P : Event → Prop} {last : Nat} {s : List Scheduled}
    (hmarker : P (.marker "")) (h : ∀ x ∈ s, P x.event) : ∀ x ∈ follow last s, P x.event := by
  induction s generalizing last with
  | nil =>
    intro x hx
    cases hx
  | cons y s ih =>
    intro x hx
    rw [follow_cons, List.mem_append] at hx
    rcases hx with hx | hx
    · exact forall_mem_bridge hmarker (h y List.mem_cons_self) x hx
    · exact ih (fun z hz => h z (List.mem_cons_of_mem y hz)) x hx

/-- A gap and the end of a track behind it. -/
theorem whole_bridge_endOfTrack (gap : Nat) : Whole (bridge gap .endOfTrack) := by
  induction gap using bridge.induct with
  | case1 gap hwide ih =>
    rw [bridge_of_lt hwide]
    refine .cons ⟨Nat.le_refl _, ?_⟩ Event.noConfusion ih
    show (utf8 "").length < 2 ^ 28
    decide
  | case2 gap hfits =>
    rw [bridge_of_le (Nat.not_lt.mp hfits)]
    exact .finish ⟨Nat.not_lt.mp hfits, trivial⟩ rfl

theorem sevenBits_lt (b : UInt8) : (sevenBits b).toNat < 128 := by
  rw [toNat_sevenBits]
  exact Nat.mod_lt _ (by decide)

theorem wireChannel_lt (params : Params) : params.wireChannel.toNat < 16 := by
  rw [Params.toNat_wireChannel]
  exact Nat.mod_lt _ (by decide)

theorem tempoMicros_lt (bpm : UInt32) : tempoMicros bpm < 2 ^ 24 := by
  have hle : tempoMicros bpm ≤ 0xFFFFFF := Nat.min_le_right _ _
  omega

variable {β : Type} [Beat β]

/-- **Every event that is gathered fits its bytes**, if the name of the track does. -/
theorem fits_of_mem_gathered {p : Performance β} {params : Params}
    (hname : (utf8 params.trackName).length < 2 ^ 28) :
    ∀ x ∈ gathered p params, x.event.Fits := by
  have hchannel := wireChannel_lt params
  refine forall_mem_gathered hname (tempoMicros_lt _) (fun c _ => tempoMicros_lt c.bpm)
    ⟨hchannel, sevenBits_lt _⟩ fun n _ x hx => ?_
  rw [ofNote, List.mem_cons, List.mem_singleton] at hx
  rcases hx with rfl | rfl
  · exact ⟨hchannel, sevenBits_lt _, sevenBits_lt _⟩
  · exact ⟨hchannel, sevenBits_lt _, by decide⟩

/-- **The track of a performance can be held by a file.** -/
theorem whole_ofPerformance {p : Performance β} {params : Params}
    (hname : (utf8 params.trackName).length < 2 ^ 28) :
    Whole (Song.ofPerformance p params).track := by
  have hmarker : (Event.marker "").Fits ∧ Event.marker "" ≠ .endOfTrack := by
    refine ⟨?_, Event.noConfusion⟩
    show (utf8 "").length < 2 ^ 28
    decide
  have hevents : ∀ x ∈ schedule p params, x.event.Fits ∧ x.event ≠ .endOfTrack := by
    intro x hx
    have hgathered := mem_schedule.mp hx
    refine ⟨fits_of_mem_gathered hname x hgathered, fun hend => ?_⟩
    exact isEnd_of_mem_gathered x hgathered (decide_eq_true hend)
  have hfollow : ∀ x ∈ follow 0 (schedule p params), x.event.Fits ∧ x.event ≠ .endOfTrack :=
    forall_mem_follow (P := fun e => e.Fits ∧ e ≠ .endOfTrack) hmarker hevents
  refine .append (fun e he => ?_) (whole_bridge_endOfTrack _)
  obtain ⟨hfits, hinner⟩ := hfollow e he
  exact ⟨⟨delta_le_of_mem_follow he, hfits⟩, hinner⟩

/-- **The file of a performance reads back.** A reader takes all of its bytes, and finds a file of
    format 0 with the ticks of a beat as they are set, kept between 1 and 32767, and with one track:
    that of the song, event by event. -/
theorem performance_reads_back (p : Performance β) (params : Params)
    (hname : (utf8 params.trackName).length < 2 ^ 28)
    (hlength : (trackBytes none (Song.ofPerformance p params).track).length < 2 ^ 32) :
    file? (Song.ofPerformance p params).bytes =
      some ({ format := 0
              division := .metrical (max 1 (min params.ticksPerBeat.toNat 32767))
              tracks := [(Song.ofPerformance p params).track.map TrackEvent.seen] }, []) := by
  have hresolution : (Song.ofPerformance p params).resolution.toNat < 2 ^ 15 :=
    Nat.lt_succ_of_le (Params.resolution_le params)
  have hread := file?_bytes (whole_ofPerformance hname) hresolution hlength []
  rw [List.append_nil] at hread
  rw [hread, ← Params.toNat_resolution]
  rfl

/-- Between a strike and its release a tempo puts the status out of force, and the gap takes three
    deltas. -/
theorem performance_reads_back_across_gap :
    let note : NoteEvent Float :=
      { key := 60, start := Beat.ofNat 1, duration := Beat.ofNat 20000, velocity := 100 }
    let p : Performance Float :=
      { instrument := .piano, tempoChanges := [⟨Beat.ofNat 2, 90⟩], notes := [note],
        endBeat := Beat.ofNat 20002 }
    let params : Params := { ticksPerBeat := 65535, trackName := "Ä" }
    (trackBytes none (Song.ofPerformance p params).track).length < 2 ^ 32 ∧
      file? (Song.ofPerformance p params).bytes = some (⟨0, .metrical 32767, [[
        ⟨0, .trackName [0xC3, 0x84]⟩, ⟨0, .tempo 500000⟩, ⟨0, .voice .program 0 [0]⟩,
        ⟨32767, .voice .noteOn 0 [60, 100]⟩, ⟨32767, .tempo 666666⟩, ⟨268435455, .marker []⟩,
        ⟨268435455, .marker []⟩, ⟨118436323, .voice .noteOff 0 [60, 0]⟩,
        ⟨32767, .endOfTrack⟩]]⟩, []) := by
  intro note p params
  have hgathered : gathered p params =
      [⟨0, .trackName "Ä"⟩, ⟨0, .tempo 500000⟩, ⟨65534, .tempo 666666⟩, ⟨0, .program 0 0⟩,
        ⟨32767, .noteOn 0 60 100⟩, ⟨655372767, .noteOff 0 60 0⟩] := by decide +kernel
  have hschedule : schedule p params =
      [⟨0, .trackName "Ä"⟩, ⟨0, .tempo 500000⟩, ⟨0, .program 0 0⟩, ⟨32767, .noteOn 0 60 100⟩,
        ⟨65534, .tempo 666666⟩, ⟨655372767, .noteOff 0 60 0⟩] := by
    rw [schedule, hgathered]
    simp [List.mergeSort, List.MergeSort.Internal.splitInTwo, Scheduled.le, Event.rank]
  have htrack : (Song.ofPerformance p params).track =
      [⟨0, .trackName "Ä"⟩, ⟨0, .tempo 500000⟩, ⟨0, .program 0 0⟩, ⟨32767, .noteOn 0 60 100⟩,
        ⟨32767, .tempo 666666⟩, filler, filler, ⟨118436323, .noteOff 0 60 0⟩,
        ⟨32767, .endOfTrack⟩] := by
    rw [track_ofPerformance, told, hschedule]
    decide +kernel
  have hlength : (trackBytes none (Song.ofPerformance p params).track).length < 2 ^ 32 := by
    rw [htrack]
    decide +kernel
  refine ⟨hlength, (performance_reads_back p params (by decide) hlength).trans ?_⟩
  rw [htrack]
  decide +kernel

end TextMelody.Midi
