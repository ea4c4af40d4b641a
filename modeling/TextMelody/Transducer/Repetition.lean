import TextMelody.Transducer.Voice

/-!
# Repetition: a run is one note

A run of one character is sung as one note, the longer the run the longer the note. A comma is a
short rest and the end of a sentence a long one, each character for itself.

* `line_cons_of_pause`, `line_cons_of_not_pause`: what is taken first, and how the line goes on.
-/

namespace TextMelody.Transducer.Repetition

/-- Commas, a short breath each. -/
def shortPauses : List Char :=
  ['、', '，', ',']

/-- Ends of sentences, a beat of silence each. -/
def longPauses : List Char :=
  ['。', '．', '.', '！', '!', '？', '?']

/-- The denominator of the rest that a character stands for. -/
def pause? (c : Char) : Option UInt32 :=
  if c ∈ shortPauses then some 16
  else if c ∈ longPauses then some 4
  else none

/-- The denominator of the note for a run of `n` equal characters. -/
def denominator : Nat → UInt32
  | 0 | 1 => 8
  | 2 => 4
  | 3 => 2
  | _ => 1

/-- How often a character stands in a row at the start of a text. -/
def runLength (c : Char) (cs : List Char) : Nat :=
  (cs.takeWhile (· = c)).length

/-- A run goes on for as long as its character comes again. -/
theorem runLength_cons_self (c : Char) (cs : List Char) :
    runLength c (c :: cs) = runLength c cs + 1 := by
  simp [runLength]

theorem runLength_le (c : Char) (cs : List Char) : runLength c cs ≤ cs.length :=
  (List.takeWhile_prefix _).length_le

/-- **The tokens of a line**, from the first character on that is not taken yet. A pause is taken
    alone, and any other character with the whole run that it starts. -/
def line (cs : List Char) : List Token :=
  match cs with
  | [] => []
  | c :: rest =>
    match pause? c with
    | some d => pause d :: line rest
    | none =>
      let run := runLength c (c :: rest)
      sing c ⟨denominator run, 0⟩ ++ line ((c :: rest).drop run)
termination_by cs.length
decreasing_by
  · exact Nat.lt_succ_self _
  · rw [runLength_cons_self, List.drop_succ_cons, List.length_drop, List.length_cons]
    omega

/-- A blank line is skipped. -/
def blankLine : List Token :=
  []

@[simp] theorem line_nil : line [] = [] := by
  rw [line]

/-- **A pause stands for itself**, also among others of its kind. -/
theorem line_cons_of_pause {c : Char} {d : UInt32} (h : pause? c = some d) (cs : List Char) :
    line (c :: cs) = pause d :: line cs := by
  rw [line, h]

/-- **A run is sung once**, and the line goes on behind it. -/
theorem line_cons_of_not_pause {c : Char} (h : pause? c = none) (cs : List Char) :
    line (c :: cs) = sing c ⟨denominator (runLength c (c :: cs)), 0⟩ ++
      line ((c :: cs).drop (runLength c (c :: cs))) := by
  rw [line, h]

end TextMelody.Transducer.Repetition
