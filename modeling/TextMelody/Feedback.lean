/-!
# Feedback

Nothing that a melody holds stops its reading. What is skipped or played otherwise than written is
reported as feedback, each item with the place of the word it is about.
-/

namespace TextMelody

/-- How serious an item of feedback is. -/
inductive Level where
  /-- The word was skipped, or only partly honoured. -/
  | warning
  /-- The word was accepted, but part of it has no effect. -/
  | info
deriving DecidableEq, Repr

/-- One observation about a word of a melody. -/
structure Feedback where
  level : Level
  message : String
  /-- How many words come before. -/
  index : Nat
  /-- How many bytes of text come before. -/
  offset : Nat
  token : Option String := none
  suggestion : Option String := none
deriving DecidableEq, Repr

/-- The place of the word being read. -/
structure Position where
  index : Nat := 0
  offset : Nat := 0
  token : String := ""
deriving DecidableEq, Repr

/-- Gathers feedback while the words of a melody pass. -/
structure Collector where
  position : Position := {}
  items : Array Feedback := #[]
deriving DecidableEq, Repr

namespace Collector

/-- Moves to another word. -/
def moveTo (c : Collector) (position : Position) : Collector :=
  { c with position }

/-- Reports on the word at the position. -/
def report (c : Collector) (level : Level) (message : String) (suggestion : Option String) :
    Collector :=
  { c with
    items := c.items.push
      ⟨level, message, c.position.index, c.position.offset, some c.position.token, suggestion⟩ }

/-- Reports a warning, with a hint if there is one. -/
def warn (c : Collector) (message : String) (suggestion : Option String) : Collector :=
  c.report .warning message suggestion

/-- Reports that part of a word has no effect. -/
def inform (c : Collector) (message : String) : Collector :=
  c.report .info message none

@[simp] theorem items_moveTo (c : Collector) (p : Position) : (c.moveTo p).items = c.items := rfl

@[simp] theorem position_report (c : Collector) (l : Level) (m : String) (s : Option String) :
    (c.report l m s).position = c.position := rfl

end Collector

/-- A value, with the feedback that arose while it was made. -/
structure Reported (α : Type) where
  value : α
  feedback : List Feedback
deriving DecidableEq, Repr

namespace Reported

/-- The warnings among the feedback. -/
def warnings {α : Type} (r : Reported α) : List Feedback :=
  r.feedback.filter (·.level = .warning)

/-- Whether there is a warning. -/
def hasWarnings {α : Type} (r : Reported α) : Bool :=
  r.feedback.any (·.level = .warning)

theorem hasWarnings_iff {α : Type} (r : Reported α) : r.hasWarnings ↔ r.warnings ≠ [] := by
  simp [hasWarnings, warnings, List.any_eq_true]

end Reported

end TextMelody
