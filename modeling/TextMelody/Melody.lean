import TextMelody.Text.Words
import TextMelody.Token.Reader
import TextMelody.Feedback

/-!
# Melodies as text

A melody in text form is a sequence of words, each read as a token on its own, so that a bad word
never touches its neighbours. `sources` keeps every word with what it reads as; `parse` keeps the
tokens and reports the words that are none.
-/

namespace TextMelody.Melody

/-- A word of a melody, with its place and what it reads as. -/
structure Source where
  position : Position
  token : Except TokenError Token
deriving Repr

namespace Source

/-- The source of the word at an index. -/
def ofWord (index : Nat) (w : Text.Word) : Source where
  position := ⟨index, w.offset, w.text⟩
  token := Token.read w.chars

end Source

/-- **The words of a melody, each read on its own.** -/
def sources (melody : String) : List Source :=
  (Text.words melody.toList).zipIdx.map fun w => Source.ofWord w.2 w.1

/-- Reports a word that is no token. -/
def refuse (c : Collector) (e : TokenError) : Collector :=
  c.warn e.message e.suggestion

/-- The tokens and the feedback gathered so far. -/
structure Parse where
  tokens : Array Token := #[]
  collector : Collector := {}

/-- Takes in one word. -/
def Parse.feed (p : Parse) (s : Source) : Parse :=
  match s.token with
  | .ok t => { p with tokens := p.tokens.push t }
  | .error e => { p with collector := refuse (p.collector.moveTo s.position) e }

/-- **The tokens of a melody**, with a warning for every word that is none. -/
def parse (melody : String) : Reported (List Token) :=
  let p := (sources melody).foldl Parse.feed {}
  ⟨p.tokens.toList, p.collector.items.toList⟩

end TextMelody.Melody
