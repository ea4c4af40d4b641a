import Mathlib.Tactic.SplitIfs

/-!
# Reading MIDI files

A reader of Standard MIDI Files as such. It knows nothing of how files are written here: it takes
every format, every kind of division and every message, it passes over chunks of other kinds, and it
lets an event on a channel leave out its status byte wherever a file may do so. A track must end
with its end, and be as long as its chunk tells.

* `Message`, `Timed`, `File`: what a file says;
* `event?`, `events?`: the events of a track, with the status in force before each;
* `file?`: **a file, and the bytes behind it**;
* `event?_progress`, `chunk?_progress`: whatever is read takes up bytes, so that reading ends.
-/

namespace TextMelody.Midi.Reader

/-! ## 1. What a file says -/

/-- What is done on a channel. -/
inductive Voice where
  | noteOff
  | noteOn
  | keyPressure
  | control
  | program
  | channelPressure
  | pitchBend
deriving DecidableEq, Repr

namespace Voice

/-- How many bytes of data it takes to say it. -/
def size : Voice → Nat
  | program | channelPressure => 1
  | _ => 2

/-- What a status byte says is done: its high half tells. -/
def ofStatus? (status : UInt8) : Option Voice :=
  match status.toNat / 16 with
  | 0x8 => some noteOff
  | 0x9 => some noteOn
  | 0xA => some keyPressure
  | 0xB => some control
  | 0xC => some program
  | 0xD => some channelPressure
  | 0xE => some pitchBend
  | _ => none

end Voice

/-- What an event of a track says. Texts are bytes, for a file does not tell their encoding. -/
inductive Message where
  | voice (v : Voice) (channel : UInt8) (data : List UInt8)
  /-- A message to one make of device, or a piece of it. -/
  | exclusive (status : UInt8) (content : List UInt8)
  | trackName (text : List UInt8)
  | marker (text : List UInt8)
  /-- Microseconds in a quarter note. -/
  | tempo (micros : Nat)
  | endOfTrack
  /-- Whatever else is said about the track. -/
  | other (kind : Nat) (content : List UInt8)
deriving DecidableEq, Repr

/-- A message and the ticks since the one before it. -/
structure Timed where
  delta : Nat
  message : Message
deriving DecidableEq, Repr

/-- How long a tick is. -/
inductive Division where
  /-- So many ticks are a quarter note. -/
  | metrical (ticks : Nat)
  /-- So many ticks are a frame. -/
  | timecode (framesPerSecond ticks : Nat)
deriving DecidableEq, Repr

/-- What a file holds. -/
structure File where
  format : Nat
  division : Division
  tracks : List (List Timed)
deriving DecidableEq, Repr

/-! ## 2. Bytes and numbers -/

/-- The first `n` bytes, and those behind them. -/
def take? (n : Nat) (bytes : List UInt8) : Option (List UInt8 × List UInt8) :=
  if n ≤ bytes.length then some (bytes.take n, bytes.drop n) else none

/-- The first `n` bytes, if they are data: the highest bit of none of them is set. -/
def data? (n : Nat) (bytes : List UInt8) : Option (List UInt8 × List UInt8) :=
  (take? n bytes).filter fun x => x.1.all fun b => b.toNat < 128

/-- A number of `n` more bytes, the high ones first, of which `high` is read. -/
def number? : (n high : Nat) → List UInt8 → Option (Nat × List UInt8)
  | 0, high, bytes => some (high, bytes)
  | n + 1, high, b :: bytes => number? n (high * 256 + b.toNat) bytes
  | _ + 1, _, [] => none

/-- A number of at most `n` more groups of seven bits, of which `high` is read. All bytes but the
    last are marked by their highest bit. -/
def varNumber? : (n high : Nat) → List UInt8 → Option (Nat × List UInt8)
  | n + 1, high, b :: bytes =>
    if b.toNat < 128 then some (high * 128 + b.toNat, bytes)
    else varNumber? n (high * 128 + (b.toNat - 128)) bytes
  | _, _, _ => none

/-- As many bytes as the number in front of them tells. -/
def block? (bytes : List UInt8) : Option (List UInt8 × List UInt8) := do
  let (n, bytes) ← varNumber? 4 0 bytes
  take? n bytes

theorem take?_progress {n : Nat} {bytes front rest : List UInt8}
    (h : take? n bytes = some (front, rest)) : rest.length + n = bytes.length := by
  unfold take? at h
  split at h
  · obtain ⟨-, rfl⟩ := Prod.mk.inj (Option.some.inj h)
    rw [List.length_drop]
    omega
  · cases h

theorem data?_progress {n : Nat} {bytes front rest : List UInt8}
    (h : data? n bytes = some (front, rest)) : rest.length + n = bytes.length :=
  take?_progress (Option.filter_eq_some_iff.mp h).1

theorem number?_progress {n high value : Nat} {bytes rest : List UInt8}
    (h : number? n high bytes = some (value, rest)) : rest.length + n = bytes.length := by
  induction n generalizing high bytes with
  | zero =>
    obtain ⟨-, rfl⟩ := Prod.mk.inj (Option.some.inj h)
    rfl
  | succ n ih =>
    cases bytes with
    | nil => cases h
    | cons b bytes => exact congrArg Nat.succ (ih h)

theorem varNumber?_progress {n high value : Nat} {bytes rest : List UInt8}
    (h : varNumber? n high bytes = some (value, rest)) : rest.length < bytes.length := by
  induction n generalizing high bytes with
  | zero => cases h
  | succ n ih =>
    cases bytes with
    | nil => cases h
    | cons b bytes =>
      rw [varNumber?] at h
      rw [List.length_cons]
      split at h
      · obtain ⟨-, rfl⟩ := Prod.mk.inj (Option.some.inj h)
        exact Nat.lt_succ_self _
      · exact Nat.lt_succ_of_lt (ih h)

theorem block?_progress {bytes content rest : List UInt8}
    (h : block? bytes = some (content, rest)) : rest.length ≤ bytes.length := by
  simp only [block?, Option.bind_eq_bind, Option.bind_eq_some_iff, Prod.exists] at h
  obtain ⟨n, behind, hnumber, htake⟩ := h
  have hshorter := varNumber?_progress hnumber
  have hrest := take?_progress htake
  omega

/-! ## 3. Events -/

/-- The status of an event: its own, or the one in force if it has none. -/
def status? (running : Option UInt8) : List UInt8 → Option (UInt8 × List UInt8)
  | b :: bytes => if b.toNat < 128 then running.map (·, b :: bytes) else some (b, bytes)
  | [] => none

/-- What an event on a channel says. -/
def voice? (status : UInt8) (bytes : List UInt8) : Option (Message × List UInt8) := do
  let v ← Voice.ofStatus? status
  let (data, bytes) ← data? v.size bytes
  return (.voice v (status % 16) data, bytes)

/-- What is said about the track. -/
def ofMeta? (kind : Nat) (content : List UInt8) : Option Message :=
  match kind with
  | 0x03 => some (.trackName content)
  | 0x06 => some (.marker content)
  | 0x2F => if content = [] then some .endOfTrack else none
  | 0x51 =>
    match number? 3 0 content with
    | some (micros, []) => some (.tempo micros)
    | _ => none
  | _ => some (.other kind content)

/-- A message, and the status that the message after it may leave out: only messages on channels
    have one. -/
def message? (running : Option UInt8) (bytes : List UInt8) :
    Option (Message × Option UInt8 × List UInt8) := do
  let (status, bytes) ← status? running bytes
  if status = 0xFF then
    let (kind, bytes) ← number? 1 0 bytes
    let (content, bytes) ← block? bytes
    return (← ofMeta? kind content, none, bytes)
  else if status = 0xF0 ∨ status = 0xF7 then
    let (content, bytes) ← block? bytes
    return (.exclusive status content, none, bytes)
  else
    let (message, bytes) ← voice? status bytes
    return (message, some status, bytes)

/-- An event, the status in force behind it, and the bytes behind it. -/
def event? (running : Option UInt8) (bytes : List UInt8) :
    Option (Timed × Option UInt8 × List UInt8) := do
  let (delta, bytes) ← varNumber? 4 0 bytes
  let (message, running, bytes) ← message? running bytes
  return (⟨delta, message⟩, running, bytes)

theorem status?_progress {running : Option UInt8} {status : UInt8} {bytes rest : List UInt8}
    (h : status? running bytes = some (status, rest)) : rest.length ≤ bytes.length := by
  cases bytes with
  | nil => cases h
  | cons b bytes =>
    rw [status?] at h
    split at h
    · obtain ⟨s, -, hs⟩ := Option.map_eq_some_iff.mp h
      obtain ⟨-, rfl⟩ := Prod.mk.inj hs
      exact Nat.le_refl _
    · obtain ⟨-, rfl⟩ := Prod.mk.inj (Option.some.inj h)
      exact Nat.le_succ _

theorem voice?_progress {status : UInt8} {m : Message} {bytes rest : List UInt8}
    (h : voice? status bytes = some (m, rest)) : rest.length ≤ bytes.length := by
  simp only [voice?, Option.bind_eq_bind, Option.bind_eq_some_iff, Prod.exists] at h
  obtain ⟨v, -, data, behind, hdata, hm⟩ := h
  obtain ⟨-, rfl⟩ := Prod.mk.inj (Option.some.inj hm)
  have hrest := data?_progress hdata
  omega

theorem message?_progress {running next : Option UInt8} {m : Message} {bytes rest : List UInt8}
    (h : message? running bytes = some (m, next, rest)) : rest.length ≤ bytes.length := by
  simp only [message?, Option.bind_eq_bind, Option.bind_eq_some_iff, Prod.exists] at h
  obtain ⟨status, behind, hstatus, h⟩ := h
  refine Nat.le_trans ?_ (status?_progress hstatus)
  split_ifs at h
  · simp only [Option.bind_eq_some_iff, Prod.exists] at h
    obtain ⟨kind, behind', hkind, content, behind'', hblock, m', -, hm⟩ := h
    obtain ⟨-, hm⟩ := Prod.mk.inj (Option.some.inj hm)
    obtain ⟨-, rfl⟩ := Prod.mk.inj hm
    have hkind := number?_progress hkind
    have hblock := block?_progress hblock
    omega
  · simp only [Option.bind_eq_some_iff, Prod.exists] at h
    obtain ⟨content, behind', hblock, hm⟩ := h
    obtain ⟨-, hm⟩ := Prod.mk.inj (Option.some.inj hm)
    obtain ⟨-, rfl⟩ := Prod.mk.inj hm
    exact block?_progress hblock
  · simp only [Option.bind_eq_some_iff, Prod.exists] at h
    obtain ⟨content, behind', hvoice, hm⟩ := h
    obtain ⟨-, hm⟩ := Prod.mk.inj (Option.some.inj hm)
    obtain ⟨-, rfl⟩ := Prod.mk.inj hm
    exact voice?_progress hvoice

/-- **Every event takes up bytes.** -/
theorem event?_progress {running next : Option UInt8} {e : Timed} {bytes rest : List UInt8}
    (h : event? running bytes = some (e, next, rest)) : rest.length < bytes.length := by
  simp only [event?, Option.bind_eq_bind, Option.bind_eq_some_iff, Prod.exists] at h
  obtain ⟨delta, behind, hdelta, m, next', rest', hmessage, he⟩ := h
  obtain ⟨-, he⟩ := Prod.mk.inj (Option.some.inj he)
  obtain ⟨-, rfl⟩ := Prod.mk.inj he
  exact Nat.lt_of_le_of_lt (message?_progress hmessage) (varNumber?_progress hdelta)

/-- **The events of a track.** The last of them is the end of the track, and nothing lies behind
    it. -/
def events? (running : Option UInt8) (bytes : List UInt8) : Option (List Timed) :=
  match _h : event? running bytes with
  | none => none
  | some (e, next, rest) =>
    if e.message = .endOfTrack then if rest = [] then some [e] else none
    else (events? next rest).map (e :: ·)
termination_by bytes.length
decreasing_by exact event?_progress _h

theorem events?_of_event? {running next : Option UInt8} {e : Timed} {bytes rest : List UInt8}
    (h : event? running bytes = some (e, next, rest)) :
    events? running bytes =
      if e.message = .endOfTrack then if rest = [] then some [e] else none
      else (events? next rest).map (e :: ·) := by
  rw [events?]
  split
  · rename_i hnone
    rw [h] at hnone
    cases hnone
  · rename_i hsome
    rw [h] at hsome
    cases hsome
    rfl

/-! ## 4. Files -/

/-- A chunk: its name and its content, and the bytes behind it. -/
def chunk? (bytes : List UInt8) : Option (List UInt8 × List UInt8 × List UInt8) := do
  let (name, bytes) ← take? 4 bytes
  let (n, bytes) ← number? 4 0 bytes
  let (content, bytes) ← take? n bytes
  return (name, content, bytes)

/-- **Every chunk takes up bytes.** -/
theorem chunk?_progress {bytes name content rest : List UInt8}
    (h : chunk? bytes = some (name, content, rest)) : rest.length < bytes.length := by
  simp only [chunk?, Option.bind_eq_bind, Option.bind_eq_some_iff, Prod.exists] at h
  obtain ⟨name', behind, hname, n, behind', hnumber, content', behind'', hcontent, hchunk⟩ := h
  obtain ⟨-, hchunk⟩ := Prod.mk.inj (Option.some.inj hchunk)
  obtain ⟨-, rfl⟩ := Prod.mk.inj hchunk
  have hname := take?_progress hname
  have hnumber := number?_progress hnumber
  have hcontent := take?_progress hcontent
  omega

/-- The name of the chunk that opens a file. -/
def headerName : List UInt8 := [0x4D, 0x54, 0x68, 0x64]

/-- The name of the chunk of a track. -/
def trackName : List UInt8 := [0x4D, 0x54, 0x72, 0x6B]

/-- The next track, and the bytes behind it. Chunks of other kinds are passed over. -/
def track? (bytes : List UInt8) : Option (List Timed × List UInt8) :=
  match _h : chunk? bytes with
  | none => none
  | some (name, content, rest) =>
    if name = trackName then (events? none content).map (·, rest) else track? rest
termination_by bytes.length
decreasing_by exact chunk?_progress _h

theorem track?_of_chunk? {bytes name content rest : List UInt8}
    (h : chunk? bytes = some (name, content, rest)) :
    track? bytes =
      if name = trackName then (events? none content).map (·, rest) else track? rest := by
  rw [track?]
  split
  · rename_i hnone
    rw [h] at hnone
    cases hnone
  · rename_i hsome
    rw [h] at hsome
    cases hsome
    rfl

/-- The next `n` tracks, and the bytes behind them. -/
def tracks? : (n : Nat) → List UInt8 → Option (List (List Timed) × List UInt8)
  | 0, bytes => some ([], bytes)
  | n + 1, bytes => do
    let (t, bytes) ← track? bytes
    let (ts, bytes) ← tracks? n bytes
    return (t :: ts, bytes)

/-- A division: the highest of its sixteen bits tells whether frames are counted, and then its high
    half is the number of frames, negated. -/
def Division.ofNat (n : Nat) : Division :=
  if n < 32768 then metrical n else timecode (256 - n / 256) (n % 256)

/-- **A file, and the bytes behind it.** It opens with its format, the number of its tracks and its
    division; whatever else its header holds is passed over. A file of format 0 has one track. -/
def file? (bytes : List UInt8) : Option (File × List UInt8) := do
  let (name, header, bytes) ← chunk? bytes
  let (format, header) ← number? 2 0 header
  let (count, header) ← number? 2 0 header
  let (division, _) ← number? 2 0 header
  if name = headerName ∧ format ≤ 2 ∧ (format = 0 → count = 1) then
    let (tracks, bytes) ← tracks? count bytes
    return (⟨format, .ofNat division, tracks⟩, bytes)
  else none

end TextMelody.Midi.Reader
