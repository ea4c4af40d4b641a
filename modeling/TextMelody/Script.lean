/-!
# Scripts

Every character belongs to one script class, and the class says in which octave the character is
sung.
-/

namespace TextMelody

/-- The classes of characters that are sung in octaves of their own. -/
inductive Script where
  | hiragana
  | katakana
  | kanji
  | other
deriving DecidableEq, Repr

namespace Script

/-- The class of a character: by the code blocks U+3040 to U+309F, U+30A0 to U+30FF and U+4E00 to
    U+9FFF. -/
def of (c : Char) : Script :=
  if 0x3040 ≤ c.toNat ∧ c.toNat ≤ 0x309F then .hiragana
  else if 0x30A0 ≤ c.toNat ∧ c.toNat ≤ 0x30FF then .katakana
  else if 0x4E00 ≤ c.toNat ∧ c.toNat ≤ 0x9FFF then .kanji
  else .other

/-- The octave a character of the class is sung in. -/
def octave : Script → UInt32
  | hiragana => 5
  | katakana => 4
  | kanji => 3
  | other => 4

/-- The name of the class. -/
def name : Script → String
  | hiragana => "hiragana"
  | katakana => "katakana"
  | kanji => "kanji"
  | other => "other"

theorem octave_bounds (s : Script) : 3 ≤ s.octave ∧ s.octave ≤ 5 := by
  cases s <;> decide

end Script

end TextMelody
