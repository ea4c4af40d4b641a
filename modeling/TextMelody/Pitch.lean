/-!
# Pitches

Note letters, accidentals and the twelve pitch classes, and the arithmetic that leads from them to
MIDI keys: C of octave 4 is key 60.

* `semitone_lt`: a semitone lies within its octave;
* `key?_eq_some_iff`: an octave and a semitone have a key exactly when it is at most 127.
-/

namespace TextMelody

/-- The letter of a note. -/
inductive Letter where
  | c
  | d
  | e
  | f
  | g
  | a
  | b
deriving DecidableEq, Repr

/-- What may follow the letter of a note. -/
inductive Accidental where
  /-- Half a tone up. -/
  | sharp
  /-- Written, but played as the natural note. -/
  | flat
deriving DecidableEq, Repr

namespace Letter

/-- Half tones above C. -/
def semitone : Letter → UInt8
  | c => 0
  | d => 2
  | e => 4
  | f => 5
  | g => 7
  | a => 9
  | b => 11

/-- The letter as it is written in a melody. -/
def char : Letter → Char
  | c => 'c'
  | d => 'd'
  | e => 'e'
  | f => 'f'
  | g => 'g'
  | a => 'a'
  | b => 'b'

/-- The letter that a character writes, in either case. -/
def ofChar? (ch : Char) : Option Letter :=
  match ch.toLower with
  | 'c' => some c
  | 'd' => some d
  | 'e' => some e
  | 'f' => some f
  | 'g' => some g
  | 'a' => some a
  | 'b' => some b
  | _ => none

@[simp] theorem ofChar?_char (l : Letter) : ofChar? l.char = some l := by
  cases l <;> rfl

end Letter

/-- A letter with its accidental: one spelling of a pitch class. -/
structure PitchClass where
  letter : Letter
  accidental : Option Accidental
deriving DecidableEq, Repr

namespace PitchClass

/-- The twelve pitch classes from C upwards, spelled with sharps. -/
def chromatic (n : Fin 12) : PitchClass :=
  match n with
  | 0 => ⟨.c, none⟩
  | 1 => ⟨.c, some .sharp⟩
  | 2 => ⟨.d, none⟩
  | 3 => ⟨.d, some .sharp⟩
  | 4 => ⟨.e, none⟩
  | 5 => ⟨.f, none⟩
  | 6 => ⟨.f, some .sharp⟩
  | 7 => ⟨.g, none⟩
  | 8 => ⟨.g, some .sharp⟩
  | 9 => ⟨.a, none⟩
  | 10 => ⟨.a, some .sharp⟩
  | 11 => ⟨.b, none⟩

/-- The pitch class of a character: its code point modulo twelve. -/
def ofChar (ch : Char) : PitchClass :=
  chromatic ⟨ch.toNat % 12, Nat.mod_lt _ (by decide)⟩

/-- Half tones above the C of the same octave. A sharp B is that C again, and a flat changes
    nothing. -/
def semitone (p : PitchClass) : UInt8 :=
  match p.accidental with
  | some .sharp => (p.letter.semitone + 1) % 12
  | some .flat => p.letter.semitone
  | none => p.letter.semitone

theorem semitone_lt (p : PitchClass) : p.semitone < 12 := by
  obtain ⟨l, a⟩ := p
  rcases a with _ | (_ | _) <;> cases l <;> decide

/-- The chromatic scale counts half tones. -/
theorem semitone_chromatic (n : Fin 12) : (chromatic n).semitone.toNat = n := by
  revert n
  decide

end PitchClass

namespace Pitch

/-- The MIDI key of a semitone in an octave, when it is one of the 128 keys. -/
def key? (octave : UInt32) (semitone : UInt8) : Option UInt8 :=
  if (octave.toNat + 1) * 12 + semitone.toNat ≤ 127 then
    some (UInt8.ofNat ((octave.toNat + 1) * 12 + semitone.toNat))
  else none

theorem key?_eq_some_iff {octave : UInt32} {semitone key : UInt8} :
    key? octave semitone = some key ↔
      (octave.toNat + 1) * 12 + semitone.toNat = key.toNat ∧ key.toNat ≤ 127 := by
  unfold key?
  split
  · rename_i h
    rw [Option.some.injEq]
    constructor
    · intro e
      have ht : key.toNat = (octave.toNat + 1) * 12 + semitone.toNat := by
        rw [← e, UInt8.toNat_ofNat']
        exact Nat.mod_eq_of_lt (by omega)
      omega
    · intro ⟨e, _⟩
      rw [e]
      exact UInt8.ofNat_toNat
  · rename_i h
    constructor
    · intro e
      cases e
    · intro ⟨e, hk⟩
      omega

/-- The name of a key: its pitch class and its octave, as in `C#4` for key 61. -/
def spell (key : UInt8) : String :=
  let p := PitchClass.chromatic ⟨key.toNat % 12, Nat.mod_lt _ (by decide)⟩
  let sharp := if p.accidental = none then "" else "#"
  let octave := if key < 12 then "-1" else toString (key.toNat / 12 - 1)
  String.singleton p.letter.char.toUpper ++ sharp ++ octave

end Pitch

end TextMelody
