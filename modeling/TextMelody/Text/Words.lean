import TextMelody.Text.Blank

/-!
# Words

A word is a longest run of characters that are not blank. Each word comes with its offset, counted
in the bytes of the text's UTF-8 form.

The text is first cut into `pieces`, which are alternately blank and not; the words are the pieces
that are not blank. Main statements:

* `flatten_pieces`: the pieces are the whole text, in order;
* `words_nil`: a text of no pieces has no words.
-/

namespace TextMelody.Text

/-- A word and where it starts. -/
structure Word where
  /-- Bytes before the word. -/
  offset : Nat
  chars : List Char
deriving DecidableEq, Repr

namespace Word

/-- The word as a string. -/
def text (w : Word) : String :=
  String.ofList w.chars

end Word

/-- The bytes that `cs` takes in UTF-8. -/
def byteCount (cs : List Char) : Nat :=
  cs.foldr (fun c n => c.utf8Size + n) 0

@[simp] theorem byteCount_nil : byteCount [] = 0 := rfl

@[simp] theorem byteCount_cons (c : Char) (cs : List Char) :
    byteCount (c :: cs) = c.utf8Size + byteCount cs := rfl

@[simp] theorem byteCount_append (a b : List Char) :
    byteCount (a ++ b) = byteCount a + byteCount b := by
  induction a with
  | nil => simp
  | cons c a ih => simp [ih, Nat.add_assoc]

/-- Puts `c` in front of the text whose pieces are `ps`: it joins the first piece when that piece
    starts with a character of the same kind. -/
def addToPieces (c : Char) : List (List Char) → List (List Char)
  | (d :: p) :: ps => if isBlank c = isBlank d then (c :: d :: p) :: ps else [c] :: (d :: p) :: ps
  | ps => [c] :: ps

/-- The text cut where a blank meets a character that is not blank. -/
def pieces (cs : List Char) : List (List Char) :=
  cs.foldr addToPieces []

@[simp] theorem pieces_nil : pieces [] = [] := rfl

@[simp] theorem pieces_cons (c : Char) (cs : List Char) :
    pieces (c :: cs) = addToPieces c (pieces cs) := rfl

theorem flatten_addToPieces (c : Char) (ps : List (List Char)) :
    (addToPieces c ps).flatten = c :: ps.flatten := by
  unfold addToPieces
  split
  · split <;> simp
  · simp

/-- **Cutting loses nothing.** -/
theorem flatten_pieces (cs : List Char) : (pieces cs).flatten = cs := by
  induction cs with
  | nil => rfl
  | cons c cs ih => rw [pieces_cons, flatten_addToPieces, ih]

/-- The words found so far and the bytes passed. -/
structure Scan where
  offset : Nat := 0
  found : Array Word := #[]

/-- Passes one piece: a piece that starts with no blank is a word. -/
def Scan.pass (s : Scan) (piece : List Char) : Scan where
  offset := s.offset + byteCount piece
  found := if piece.all isBlank then s.found else s.found.push ⟨s.offset, piece⟩

/-- The words of a text, in order. -/
def words (cs : List Char) : List Word :=
  ((pieces cs).foldl Scan.pass {}).found.toList

@[simp] theorem words_nil : words [] = [] := rfl

end TextMelody.Text
