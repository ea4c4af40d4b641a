import TextMelody.Melody
import TextMelody.Proofs.Text.Words
import TextMelody.Proofs.Token.RoundTrip

/-!
# Reading back a written melody

A melody is written with one space between its tokens and read word by word, so that a written
melody falls into the texts of its tokens again.

* `value_parse`: the tokens of a melody are the words that are tokens, in order;
* `tokens_sources_render`: the words of a written melody are its tokens;
* `parse_render`: **a melody of readable tokens is read back without any feedback**;
* `read_write_inverse`: which tokens are read back, and that this carries over to melodies.
-/

namespace TextMelody.Melody

/-! ## 1. What parsing keeps and reports -/

theorem tokens_foldl_feed (ss : List Source) (p : Parse) :
    (ss.foldl Parse.feed p).tokens.toList =
      p.tokens.toList ++ ss.filterMap fun s => s.token.toOption := by
  induction ss generalizing p with
  | nil => simp
  | cons s ss ih =>
    rw [List.foldl_cons, ih]
    cases h : s.token with
    | ok t => simp [Parse.feed, h, Except.toOption]
    | error e => simp [Parse.feed, h, Except.toOption]

/-- **The tokens of a melody are the words that are tokens.** -/
theorem value_parse (melody : String) :
    (parse melody).value = (sources melody).filterMap fun s => s.token.toOption :=
  tokens_foldl_feed (sources melody) {}

/-- The tokens among some words of a melody, in their order. -/
def tokensAmong (ss : List Source) : List Token :=
  ss.filterMap fun s => s.token.toOption

@[simp] theorem tokensAmong_nil : tokensAmong [] = [] := rfl

theorem tokensAmong_cons_ok {s : Source} {t : Token} (h : s.token = .ok t) (ss : List Source) :
    tokensAmong (s :: ss) = t :: tokensAmong ss := by
  simp [tokensAmong, h, Except.toOption]

theorem tokensAmong_cons_error {s : Source} {e : TokenError} (h : s.token = .error e)
    (ss : List Source) : tokensAmong (s :: ss) = tokensAmong ss := by
  simp [tokensAmong, h, Except.toOption]

theorem tokensAmong_append (ss rest : List Source) :
    tokensAmong (ss ++ rest) = tokensAmong ss ++ tokensAmong rest :=
  List.filterMap_append

theorem tokensAmong_singleton (s : Source) : tokensAmong [s] = s.token.toOption.toList := by
  show List.filterMap (fun s : Source => s.token.toOption) [s] = _
  rw [List.filterMap_cons]
  cases s.token.toOption <;> rfl

theorem tokensAmong_sources (melody : String) :
    tokensAmong (sources melody) = (parse melody).value :=
  (value_parse melody).symm

/-- Words that are tokens are not reported. -/
theorem collector_foldl_feed {ss : List Source} (p : Parse)
    (h : ∀ s ∈ ss, s.token.isOk) : (ss.foldl Parse.feed p).collector = p.collector := by
  induction ss generalizing p with
  | nil => rfl
  | cons s ss ih =>
    have hs := h s List.mem_cons_self
    rw [List.foldl_cons, ih _ fun x hx => h x (List.mem_cons_of_mem s hx)]
    cases e : s.token with
    | ok t => simp [Parse.feed, e]
    | error err => simp [e, Except.isOk, Except.toBool] at hs

theorem feedback_parse {melody : String} (h : ∀ s ∈ sources melody, s.token.isOk) :
    (parse melody).feedback = [] := by
  have hc := collector_foldl_feed {} h
  exact congrArg (fun c : Collector => c.items.toList) hc

/-- What the words of a melody read as. -/
theorem map_token_sources (melody : String) :
    (sources melody).map Source.token =
      ((Text.words melody.toList).map Text.Word.chars).map Token.read := by
  rw [sources, List.map_map, List.map_map]
  have e : ∀ (ws : List Text.Word) (n : Nat),
      (ws.zipIdx n).map (Source.token ∘ fun w => Source.ofWord w.2 w.1) =
        ws.map (Token.read ∘ Text.Word.chars) := by
    intro ws
    induction ws with
    | nil => intro n; rfl
    | cons w ws ih =>
      intro n
      rw [List.zipIdx_cons, List.map_cons, List.map_cons, ih]
      rfl
  exact e _ 0

/-- Every token of a melody was read. -/
theorem isReadable_of_mem_parse {melody : String} {t : Token} (h : t ∈ (parse melody).value) :
    t.IsReadable := by
  rw [value_parse, List.mem_filterMap] at h
  obtain ⟨s, hs, ht⟩ := h
  have hread : s.token ∈ (sources melody).map Source.token := List.mem_map_of_mem hs
  rw [map_token_sources, List.mem_map] at hread
  obtain ⟨cs, _, e⟩ := hread
  cases hst : s.token with
  | ok u =>
    rw [hst] at ht
    cases ht
    exact Token.isReadable_of_read (e.trans hst)
  | error err =>
    rw [hst] at ht
    cases ht

/-! ## 2. Written melodies -/

theorem isWord_chars (t : Token) : Text.IsWord t.chars :=
  ⟨t.chars_ne_nil, fun _ h => (Token.isGraphic_of_mem_chars h).not_isBlank⟩

/-- **The words of a written melody are its tokens.** -/
theorem tokens_sources_render {ts : List Token} (h : ∀ t ∈ ts, t.IsReadable) :
    (sources (Token.render ts)).map Source.token = ts.map .ok := by
  have hwords : (Text.words (Token.render ts).toList).map Text.Word.chars = ts.map Token.chars := by
    rw [Token.render, String.toList_ofList]
    refine Text.words_join fun w hw => ?_
    obtain ⟨t, _, rfl⟩ := List.mem_map.mp hw
    exact isWord_chars t
  rw [map_token_sources, hwords, List.map_map]
  exact List.map_congr_left fun t ht => Token.read_chars (h t ht)

/-- **A melody of readable tokens is read back without any feedback.** -/
theorem parse_render {ts : List Token} (h : ∀ t ∈ ts, t.IsReadable) :
    parse (Token.render ts) = ⟨ts, []⟩ := by
  have htok := tokens_sources_render h
  have hvalue : (parse (Token.render ts)).value = ts := by
    have e : (sources (Token.render ts)).filterMap (fun s => s.token.toOption) =
        ((sources (Token.render ts)).map Source.token).filterMap Except.toOption := by
      rw [List.filterMap_map]
      rfl
    rw [value_parse, e, htok, List.filterMap_map]
    exact List.filterMap_some
  have hfeedback : (parse (Token.render ts)).feedback = [] := by
    refine feedback_parse fun s hs => ?_
    have hmem : s.token ∈ ts.map Except.ok := htok ▸ List.mem_map_of_mem hs
    obtain ⟨t, _, e⟩ := List.mem_map.mp hmem
    rw [← e]
    rfl
  -- The two parts are put together without looking into `parse`.
  generalize parse (Token.render ts) = p at hvalue hfeedback
  obtain ⟨value, feedback⟩ := p
  cases hvalue
  cases hfeedback
  rfl

/-- **Writing and reading are inverse.** A token is read back from its text exactly when it is no
    tempo of zero and holds no length with denominator zero. A melody of such tokens is read back
    whole and without feedback, and so is whatever was read once. -/
theorem read_write_inverse :
    (∀ t : Token, Token.ofString t.text = .ok t ↔
      t ≠ .tempo 0 ∧ ∀ l ∈ t.ownLength, l.denominator ≠ 0) ∧
    (∀ ts : List Token, (∀ t ∈ ts, t ≠ .tempo 0 ∧ ∀ l ∈ t.ownLength, l.denominator ≠ 0) →
      parse (Token.render ts) = ⟨ts, []⟩) ∧
    ∀ melody : String,
      parse (Token.render (parse melody).value) = ⟨(parse melody).value, []⟩ := by
  refine ⟨fun t => ?_, fun ts h => parse_render h, fun melody => ?_⟩
  · rw [Token.ofString, Token.text, String.toList_ofList]
    exact Token.read_chars_iff t
  · exact parse_render fun t ht => isReadable_of_mem_parse ht

/-- The largest numbers, the most dots, and every field that may be left out. -/
theorem read_write_inverse_extremes :
    parse (Token.render [.volume 4294967295, .note ⟨.b, some .flat⟩ (some ⟨4294967295, 255⟩),
        .rest none, .program 0]) =
      ⟨[.volume 4294967295, .note ⟨.b, some .flat⟩ (some ⟨4294967295, 255⟩),
        .rest none, .program 0], []⟩ :=
  read_write_inverse.2.1 _ (by decide)

end TextMelody.Melody
