/-!
# Blank characters

The blanks are the characters of the Unicode property White_Space. They separate the words of a
melody, and `trim` takes them off both ends of a line or a name.

* `isBlank_of_isWhitespace`: every ASCII blank of the core library is a blank here;
* `trim_blank`: a text of blanks only trims to nothing.
-/

namespace TextMelody.Text

/-- The code point ranges of the property White_Space, ends included. -/
def blankRanges : List (Nat × Nat) :=
  [(0x09, 0x0D), (0x20, 0x20), (0x85, 0x85), (0xA0, 0xA0), (0x1680, 0x1680), (0x2000, 0x200A),
   (0x2028, 0x2029), (0x202F, 0x202F), (0x205F, 0x205F), (0x3000, 0x3000)]

/-- A character with the property White_Space. -/
def isBlank (c : Char) : Bool :=
  blankRanges.any fun r => r.1 ≤ c.toNat && c.toNat ≤ r.2

/-- `cs` without the blanks at its start. -/
def trimStart (cs : List Char) : List Char :=
  cs.dropWhile isBlank

/-- `cs` without the blanks at its end. -/
def trimEnd (cs : List Char) : List Char :=
  (trimStart cs.reverse).reverse

/-- `cs` without the blanks at either end. -/
def trim (cs : List Char) : List Char :=
  trimEnd (trimStart cs)

theorem isBlank_of_isWhitespace {c : Char} (h : c.isWhitespace) : isBlank c := by
  simp only [Char.isWhitespace, Bool.or_eq_true, decide_eq_true_eq] at h
  rcases h with ((rfl | rfl) | rfl) | rfl <;> decide

@[simp] theorem trim_nil : trim [] = [] := rfl

@[simp] theorem trimStart_nil : trimStart [] = [] := rfl

theorem trimStart_cons_of_blank {c : Char} (h : isBlank c) (cs : List Char) :
    trimStart (c :: cs) = trimStart cs := by
  simp [trimStart, h]

theorem trimStart_cons_of_not_blank {c : Char} (h : ¬ isBlank c) (cs : List Char) :
    trimStart (c :: cs) = c :: cs := by
  simp [trimStart, h]

theorem trimStart_blank {cs : List Char} (h : ∀ c ∈ cs, isBlank c) : trimStart cs = [] := by
  induction cs with
  | nil => rfl
  | cons c cs ih =>
    rw [trimStart_cons_of_blank (h c List.mem_cons_self)]
    exact ih fun d hd => h d (List.mem_cons_of_mem c hd)

theorem trim_blank {cs : List Char} (h : ∀ c ∈ cs, isBlank c) : trim cs = [] := by
  rw [trim, trimStart_blank h]
  rfl

/-- A text that ends in no blank has none to lose there. -/
theorem trimEnd_of_getLast {cs : List Char} (h : ∀ c ∈ cs.getLast?, ¬isBlank c) :
    trimEnd cs = cs := by
  rw [trimEnd]
  rw [← List.head?_reverse] at h
  cases hcs : cs.reverse with
  | nil => rw [trimStart_nil, ← hcs, List.reverse_reverse]
  | cons c rest =>
    rw [hcs] at h
    rw [trimStart_cons_of_not_blank (h c rfl), ← hcs, List.reverse_reverse]

/-- There are 25 blanks. -/
example : blankRanges.foldl (fun n r => n + (r.2 + 1 - r.1)) 0 = 25 := by decide

end TextMelody.Text
