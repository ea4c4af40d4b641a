import TextMelody.Proofs.Melody.Notes

/-!
# Looking back

What a token sounds like is told by the tokens before it, without any state: the octave is that of
the last octave token before, the volume and the default length likewise, and a note starts where
the lengths of all notes and rests before it add up to.

* `LookBack.note`, `LookBack.elapsed`: the meaning of a token and of a melody by looking back;
* `Playback.LooksBack`: **the invariant**: what is in force is what looking back finds;
* `LooksBack.play`, `LooksBack.run`: a token keeps the invariant, and so does a melody;
* `interpretTokens_looks_back`: **playing a melody finds what looking back finds.**
-/

namespace TextMelody

/-! ## 1. The meaning of a melody without state -/

namespace Token

/-- The octave that a token sets. -/
def octave? : Token → Option UInt32
  | octave n => some n
  | _ => none

/-- The volume that a token sets. -/
def volume? : Token → Option UInt32
  | volume n => some n
  | _ => none

/-- The default length that a token sets. -/
def defaultLength? : Token → Option Length
  | defaultLength l => some l
  | _ => none

/-- The length that a note or rest is written with, or without. Other tokens take no time. -/
def timed? : Token → Option (Option Length)
  | rest l => some l
  | note _ l => some l
  | _ => none

end Token

namespace LookBack

variable {α : Type}

/-- What the last of the tokens that set something has set, or what holds at the start. -/
def last (sets? : Token → Option α) (initial : α) (before : List Token) : α :=
  (before.filterMap sets?).getLast?.getD initial

/-- What is found token by token, each seen together with all tokens before it. -/
def atEach (f : List Token → Token → Option α) (ts : List Token) : List α :=
  (List.range ts.length).filterMap fun k => ts[k]?.bind (f (ts.take k))

/-- The octave in force after some tokens: 4 at the start. -/
def octave (before : List Token) : UInt32 :=
  last Token.octave? 4 before

/-- The volume in force after some tokens: 10 at the start. -/
def volume (before : List Token) : UInt32 :=
  last Token.volume? 10 before

/-- The default length in force after some tokens: an eighth note at the start. -/
def length (before : List Token) : Length :=
  last Token.defaultLength? ⟨8, 0⟩ before

/-- Half tones above C of the natural notes. -/
def natural : Letter → Nat
  | .c => 0
  | .d => 2
  | .e => 4
  | .f => 5
  | .g => 7
  | .a => 9
  | .b => 11

/-- Half tones above C: a sharp is one more, B sharp being C again, and a flat changes nothing. -/
def semitone (pitch : PitchClass) : Nat :=
  if pitch.accidental = some .sharp then (natural pitch.letter + 1) % 12
  else natural pitch.letter

/-- The number of the key of a pitch class after some tokens, be there such a key or not. -/
def key (before : List Token) (pitch : PitchClass) : Nat :=
  ((octave before).toNat + 1) * 12 + semitone pitch

variable {β : Type} [Beat β]

/-- The beats of a token after some tokens: of its own length, or of the default length. -/
def beats (before : List Token) (t : Token) : Option β :=
  t.timed?.map fun own => (own.getD (length before)).beats

/-- **Where some tokens lead to**: the sum of the beats of all notes and rests among them, added up
    from left to right. -/
def elapsed (ts : List Token) : β :=
  (atEach beats ts).foldl (· + ·) (Beat.ofNat 0)

/-- **The note that a token sounds after some tokens**, if its key is one of the 128. -/
def note (before : List Token) : Token → Option (NoteEvent β)
  | .note pitch own =>
    if key before pitch ≤ 127 then
      some {
        key := UInt8.ofNat (key before pitch)
        start := elapsed before
        duration := (own.getD (length before)).beats
        velocity := velocity (volume before) }
    else none
  | _ => none

theorem last_concat (sets? : Token → Option α) (initial : α) (before : List Token) (t : Token) :
    last sets? initial (before ++ [t]) = (sets? t).getD (last sets? initial before) := by
  rw [last, List.filterMap_append]
  cases h : sets? t with
  | none => simp [h, last]
  | some a => simp [h]

/-- **A token is seen with all tokens before it.** -/
theorem atEach_concat (f : List Token → Token → Option α) (ts : List Token) (t : Token) :
    atEach f (ts ++ [t]) = atEach f ts ++ (f ts t).toList := by
  have hbefore : ∀ k ∈ List.range ts.length,
      (ts ++ [t])[k]?.bind (f ((ts ++ [t]).take k)) = ts[k]?.bind (f (ts.take k)) := by
    intro k hk
    have hlt : k < ts.length := List.mem_range.mp hk
    rw [List.getElem?_append_left hlt, List.take_append_of_le_length (Nat.le_of_lt hlt)]
  have hlast : (ts ++ [t])[ts.length]?.bind (f ((ts ++ [t]).take ts.length)) = f ts t := by
    rw [List.getElem?_concat_length, List.take_left]
    rfl
  rw [atEach, List.length_append, List.length_singleton, List.range_succ, List.filterMap_append,
    List.filterMap_congr hbefore, List.filterMap_cons, hlast]
  cases f ts t <;> rfl

/-- What is found is found at one of the tokens. -/
theorem exists_of_mem_atEach {f : List Token → Token → Option α} {ts : List Token} {a : α}
    (h : a ∈ atEach f ts) : ∃ before, ∃ t ∈ ts, f before t = some a := by
  obtain ⟨k, -, hk⟩ := List.mem_filterMap.mp h
  obtain ⟨t, ht, ha⟩ := Option.bind_eq_some_iff.mp hk
  exact ⟨ts.take k, t, List.mem_of_getElem? ht, ha⟩

/-- Only notes and rests take time. -/
theorem elapsed_concat (ts : List Token) (t : Token) :
    (elapsed (ts ++ [t]) : β) = match t.timed? with
      | some own => elapsed ts + (own.getD (length ts)).beats
      | none => elapsed ts := by
  rw [elapsed, atEach_concat, List.foldl_append, beats]
  cases t.timed? <;> rfl

theorem octave_concat (before : List Token) (t : Token) :
    octave (before ++ [t]) = t.octave?.getD (octave before) :=
  last_concat _ _ _ _

theorem volume_concat (before : List Token) (t : Token) :
    volume (before ++ [t]) = t.volume?.getD (volume before) :=
  last_concat _ _ _ _

theorem length_concat (before : List Token) (t : Token) :
    length (before ++ [t]) = t.defaultLength?.getD (length before) :=
  last_concat _ _ _ _

theorem toNat_semitone (pitch : PitchClass) : pitch.semitone.toNat = semitone pitch := by
  obtain ⟨letter, accidental⟩ := pitch
  rcases accidental with _ | (_ | _) <;> cases letter <;> rfl

end LookBack

/-! ## 2. What is in force is what looking back finds -/

namespace Playback

variable {β : Type} [Beat β]

theorem octave_play (s : Playback β) (t : Token) :
    (s.play t).octave = t.octave?.getD s.octave := by
  cases t <;> rfl

theorem volume_play (s : Playback β) (t : Token) :
    (s.play t).volume = t.volume?.getD s.volume := by
  cases t <;> rfl

theorem velocity_play (s : Playback β) (t : Token) :
    (s.play t).velocity = (t.volume?.map TextMelody.velocity).getD s.velocity := by
  cases t <;> rfl

theorem length_play (s : Playback β) (t : Token) :
    (s.play t).length = t.defaultLength?.getD s.length := by
  cases t <;> rfl

/-- Notes and rests move the playhead, and nothing else does. -/
theorem playhead_play (s : Playback β) (t : Token) :
    (s.play t).time = match t.timed? with
      | some own => s.time + s.beats own
      | none => s.time := by
  cases t <;> rfl

/-- **What is in force after some tokens is what looking back finds.** -/
structure LooksBack (s : Playback β) (before : List Token) : Prop where
  octave : s.octave = LookBack.octave before
  length : s.length = LookBack.length before
  volume : s.volume = LookBack.volume before
  velocity : s.velocity = TextMelody.velocity (LookBack.volume before)
  time : s.time = LookBack.elapsed before

theorem looksBack_start : (start : Playback β).LooksBack [] :=
  ⟨rfl, rfl, rfl, rfl, rfl⟩

namespace LooksBack

variable {s : Playback β} {before : List Token}

theorem beats_eq (h : s.LooksBack before) (own : Option Length) :
    s.beats own = (own.getD (LookBack.length before)).beats := by
  rw [Playback.beats, h.length]

/-- **A token keeps the invariant.** -/
theorem play (h : s.LooksBack before) (t : Token) : (s.play t).LooksBack (before ++ [t]) where
  octave := by rw [octave_play, LookBack.octave_concat, h.octave]
  length := by rw [length_play, LookBack.length_concat, h.length]
  volume := by rw [volume_play, LookBack.volume_concat, h.volume]
  velocity := by
    rw [velocity_play, LookBack.volume_concat, h.velocity]
    cases t.volume? <;> rfl
  time := by
    rw [playhead_play, LookBack.elapsed_concat, h.time]
    cases t.timed? with
    | none => rfl
    | some own => exact congrArg (LookBack.elapsed before + ·) (h.beats_eq own)

/-- The number of a key is found in the octave in force. -/
theorem key?_eq (h : s.LooksBack before) (pitch : PitchClass) :
    s.key? pitch = if LookBack.key before pitch ≤ 127 then
      some (UInt8.ofNat (LookBack.key before pitch)) else none := by
  rw [Playback.key?, Pitch.key?, h.octave, LookBack.toNat_semitone]
  rfl

/-- **The note that a token sounds is the one that looking back finds.** -/
theorem note?_eq (h : s.LooksBack before) (t : Token) : s.note? t = LookBack.note before t := by
  cases t with
  | note pitch own =>
    rw [note?, LookBack.note, h.key?_eq, h.beats_eq, h.time, h.velocity]
    split <;> rfl
  | _ => rfl

/-- So does a melody. -/
theorem run (h : s.LooksBack before) (ts : List Token) :
    (s.run ts).LooksBack (before ++ ts) := by
  induction ts generalizing s before with
  | nil =>
    rw [List.append_nil]
    exact h
  | cons t ts ih =>
    rw [List.append_cons]
    exact ih (h.play t)

/-- **The notes of a melody are found token by token**, behind those of the tokens before. -/
theorem notes_eq (h : s.LooksBack before) (ts : List Token) :
    LookBack.atEach LookBack.note before ++ s.notes ts =
      LookBack.atEach LookBack.note (before ++ ts) := by
  induction ts generalizing s before with
  | nil => rw [notes_nil, List.append_nil, List.append_nil]
  | cons t ts ih =>
    rw [List.append_cons before t ts, ← ih (h.play t), LookBack.atEach_concat, notes_cons,
      h.note?_eq, List.append_assoc]

end LooksBack

end Playback

/-! ## 3. Performances -/

namespace Melody

variable {β : Type} [Beat β]

/-- **Playing a melody finds what looking back finds.** Its notes are, token by token, those that
    looking back from the token finds, and it ends where the beats of all its notes and rests lead
    to. One more token moves the end by its beats, if it is a note or a rest, and leaves it in place
    if it is anything else. -/
theorem interpretTokens_looks_back (ts : List Token) (instrument : Instrument) :
    let p : Performance β := (interpretTokens ts instrument).value
    p.notes = (List.range ts.length).filterMap
        (fun k => ts[k]?.bind (LookBack.note (ts.take k))) ∧
      p.endBeat = LookBack.elapsed ts ∧
      ∀ t : Token, (interpretTokens (ts ++ [t]) instrument : Reported (Performance β)).value.endBeat =
        match t with
        | .rest own | .note _ own => p.endBeat + (own.getD (LookBack.length ts)).beats
        | .tempo _ | .volume _ | .octave _ | .defaultLength _ | .program _ => p.endBeat := by
  intro p
  have hend : ∀ us : List Token,
      (interpretTokens us instrument : Reported (Performance β)).value.endBeat =
        LookBack.elapsed us := by
    intro us
    rw [value_interpretTokens, endBeat_perform]
    exact (Playback.looksBack_start.run us).time
  refine ⟨?_, hend ts, fun t => ?_⟩
  · have hnotes := Playback.looksBack_start.notes_eq (β := β) ts
    rw [← notes_perform ts instrument, ← value_interpretTokens] at hnotes
    exact hnotes
  · rw [hend, LookBack.elapsed_concat, ← hend ts]
    cases t <;> rfl

end Melody

end TextMelody
