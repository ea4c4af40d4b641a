import TextMelody.Proofs.Melody.Notes

/-!
# Words that are no tokens

A word that is no token is reported and otherwise passed over: it is not heard, wherever it stands.
Nor are the blanks between words, however many there are and of whatever kind.

* `tokensOf`: the tokens among some words;
* `value_parse_of_spaced`: the tokens of a melody are those among the words it is made of;
* `bad_words_are_inert`: **a performance depends on the tokens alone.**
-/

namespace TextMelody.Melody

/-- **The tokens among some words**, in their order. -/
def tokensOf (ws : List (List Char)) : List Token :=
  ws.filterMap fun w => (Token.read w).toOption

theorem tokensOf_append (ws vs : List (List Char)) :
    tokensOf (ws ++ vs) = tokensOf ws ++ tokensOf vs :=
  List.filterMap_append

/-- A word that is no token adds none. -/
theorem tokensOf_cons_error {w : List Char} {e : TokenError} (h : Token.read w = .error e)
    (vs : List (List Char)) : tokensOf (w :: vs) = tokensOf vs :=
  List.filterMap_cons_none (congrArg Except.toOption h)

theorem value_parse_eq_tokensOf (melody : String) :
    (parse melody).value = tokensOf ((Text.words melody.toList).map Text.Word.chars) := by
  calc (parse melody).value
      = ((sources melody).map Source.token).filterMap Except.toOption := by
        rw [value_parse, List.filterMap_map]
        rfl
    _ = tokensOf ((Text.words melody.toList).map Text.Word.chars) := by
        rw [map_token_sources, List.filterMap_map]
        rfl

/-- **The tokens of a melody are those among the words it is made of.** -/
theorem value_parse_of_spaced {melody : String} {ws : List (List Char)}
    (h : Text.Spaced ws melody.toList) : (parse melody).value = tokensOf ws := by
  rw [value_parse_eq_tokensOf, h.map_chars_words]

variable {β : Type} [Beat β]

theorem value_interpret_of_spaced {melody : String} {ws : List (List Char)}
    (h : Text.Spaced ws melody.toList) (instrument : Instrument) :
    (interpret melody instrument : Reported (Performance β)).value =
      perform (tokensOf ws) instrument := by
  rw [value_interpret, value_parse_of_spaced h]

/-- **A performance depends on the tokens alone.** It is that of the tokens of the melody, which are
    those among the words that the melody is made of. So two melodies of the same tokens sound the
    same, whatever other words and whatever blanks they hold, and a word that is no token may be put
    in anywhere. -/
theorem bad_words_are_inert (instrument : Instrument) :
    (∀ melody : String, (interpret melody instrument : Reported (Performance β)).value =
      (interpretTokens (parse melody).value instrument).value) ∧
    (∀ melody : String, ∃ ws, Text.Spaced ws melody.toList ∧ (parse melody).value = tokensOf ws) ∧
    (∀ (a b : String) (ws vs : List (List Char)), Text.Spaced ws a.toList →
      Text.Spaced vs b.toList → tokensOf ws = tokensOf vs →
      (interpret a instrument : Reported (Performance β)).value = (interpret b instrument).value) ∧
    ∀ (a b : String) (ws vs : List (List Char)) (w : List Char) (e : TokenError),
      Token.read w = .error e → Text.Spaced (ws ++ vs) a.toList →
      Text.Spaced (ws ++ w :: vs) b.toList →
      (interpret b instrument : Reported (Performance β)).value = (interpret a instrument).value := by
  have hsame : ∀ (a b : String) (ws vs : List (List Char)), Text.Spaced ws a.toList →
      Text.Spaced vs b.toList → tokensOf ws = tokensOf vs →
      (interpret a instrument : Reported (Performance β)).value =
        (interpret b instrument).value := by
    intro a b ws vs ha hb e
    rw [value_interpret_of_spaced ha, value_interpret_of_spaced hb, e]
  refine ⟨fun melody => ?_, fun melody => ?_, hsame, ?_⟩
  · rw [value_interpret, value_interpretTokens]
  · obtain ⟨ws, h⟩ := Text.exists_spaced melody.toList
    exact ⟨ws, h, value_parse_of_spaced h⟩
  · intro a b ws vs w e hw ha hb
    refine hsame b a _ _ hb ha ?_
    rw [tokensOf_append, tokensOf_append, tokensOf_cons_error hw]

/-- Two quarter notes, with bad words and blanks of several kinds around and between them. -/
theorem bad_words_are_inert_among_quarters :
    let plain := "c4 d4"
    let around := "zz\u2003c4\r\nd4 c0 4"
    let between := "\u3000c4\tzz\u0085\n d4"
    Text.Spaced (["c4".toList] ++ ["d4".toList]) plain.toList ∧
      Text.Spaced ["zz".toList, "c4".toList, "d4".toList, "c0".toList, "4".toList] around.toList ∧
      Text.Spaced (["c4".toList] ++ "zz".toList :: ["d4".toList]) between.toList ∧
      Token.read "zz".toList = .error (.trailingInput "z") ∧
      (interpret around .piano : Reported (Performance Float)).value =
        (interpret plain .piano).value ∧
      (interpret between .piano : Reported (Performance Float)).value =
        (interpret plain .piano).value := by
  intro plain around between
  have hplain : Text.Spaced (["c4".toList] ++ ["d4".toList]) plain.toList :=
    Text.spaced_iff.mpr (by decide +kernel)
  have haround : Text.Spaced ["zz".toList, "c4".toList, "d4".toList, "c0".toList, "4".toList]
      around.toList := Text.spaced_iff.mpr (by decide +kernel)
  have hbetween : Text.Spaced (["c4".toList] ++ "zz".toList :: ["d4".toList]) between.toList :=
    Text.spaced_iff.mpr (by decide +kernel)
  have hbad : Token.read "zz".toList = .error (.trailingInput "z") := by decide +kernel
  have htokens : tokensOf ["zz".toList, "c4".toList, "d4".toList, "c0".toList, "4".toList] =
      tokensOf (["c4".toList] ++ ["d4".toList]) := by decide +kernel
  obtain ⟨_, _, hsame, hinserted⟩ := bad_words_are_inert (β := Float) .piano
  exact ⟨hplain, haround, hbetween, hbad, hsame around plain _ _ haround hplain htokens,
    hinserted plain between _ _ _ _ hbad hplain hbetween⟩

end TextMelody.Melody
