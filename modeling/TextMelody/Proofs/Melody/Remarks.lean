import TextMelody.Proofs.Melody.LookBack

/-!
# What is reported about a melody

What is reported about a word can be told from the word and from the tokens before it: a word that
is no token is reported as such, a note with a flat is remarked upon, and so is a note that the
octave in force puts above the highest key. Nothing else is reported, and every item carries the
place of its word.

* `Source.remarks`, `remarksOf`: **what is reported about a word, and about some words in turn**;
* `items_feed`: a word adds its remarks to the feedback;
* `remarks_foldl_feed`: so does a melody, word after word;
* `items_foldl_parse`: parsing reports the words that are no tokens, in the same words;
* `feedback_word_by_word`: the feedback on every melody, and the places of its words.
-/

namespace TextMelody.Melody

/-! ## 1. The places of the words -/

/-- Words that carry the number of words before them. -/
def IsNumbered (ss : List Source) : Prop :=
  ss.map (fun s => s.position.index) = List.range ss.length

theorem isNumbered_sources (melody : String) : IsNumbered (sources melody) := by
  have hindex : (fun s : Source => s.position.index) ∘ (fun w => Source.ofWord w.2 w.1) =
      Prod.snd (α := Text.Word) := rfl
  rw [IsNumbered, sources, List.map_map, hindex, List.zipIdx_map_snd, List.length_map,
    List.length_zipIdx, List.range_eq_range']

/-- Of numbered words, the last one carries the number of the others, which are numbered, too. -/
theorem isNumbered_concat {ss : List Source} {s : Source} (h : IsNumbered (ss ++ [s])) :
    IsNumbered ss ∧ s.position.index = ss.length := by
  rw [IsNumbered, List.map_append, List.length_append, List.length_singleton, List.range_succ] at h
  obtain ⟨hss, hs⟩ := List.append_inj h (by simp)
  exact ⟨hss, by simpa using hs⟩

/-- The words of a melody are those that it is made of. -/
theorem spaced_sources (melody : String) :
    Text.Spaced ((sources melody).map fun s => s.position.token.toList) melody.toList := by
  have hchars : (fun s : Source => s.position.token.toList) ∘ (fun w => Source.ofWord w.2 w.1) =
      Text.Word.chars ∘ Prod.fst := funext fun _ => String.toList_ofList
  rw [sources, List.map_map, hchars, ← List.map_map, List.zipIdx_map_fst]
  exact Text.spaced_iff.mpr rfl

/-- Each word is read on its own. -/
theorem token_of_mem_sources {melody : String} {s : Source} (h : s ∈ sources melody) :
    s.token = Token.ofString s.position.token := by
  obtain ⟨⟨w, n⟩, -, rfl⟩ := List.mem_map.mp h
  show Token.read w.chars = Token.read (String.ofList w.chars).toList
  rw [String.toList_ofList]

/-- **A word stands in the melody as many bytes in as its offset says.** -/
theorem exists_slice_of_mem_sources {melody : String} {s : Source} (h : s ∈ sources melody) :
    ∃ front back, melody.toList = front ++ s.position.token.toList ++ back ∧
      Text.byteCount front = s.position.offset := by
  obtain ⟨⟨w, n⟩, hw, rfl⟩ := List.mem_map.mp h
  obtain ⟨front, back, hslice, hoffset⟩ :=
    Text.exists_slice_of_mem_words (List.fst_mem_of_mem_zipIdx hw)
  refine ⟨front, back, ?_, hoffset⟩
  show melody.toList = front ++ (String.ofList w.chars).toList ++ back
  rw [String.toList_ofList]
  exact hslice

/-! ## 2. Remarks -/

namespace Source

/-- An item of feedback about a word. It carries the place of the word. -/
def item (s : Source) (level : Level) (message : String) (suggestion : Option String) : Feedback :=
  ⟨level, message, s.position.index, s.position.offset, some s.position.token, suggestion⟩

/-- **What is reported about a word** after some tokens. -/
def remarks (before : List Token) (s : Source) : List Feedback :=
  match s.token with
  | .error e => [s.item .warning e.message e.suggestion]
  | .ok (.note pitch _) =>
    (if pitch.accidental = some .flat then [s.item .info Player.flatMessage none] else []) ++
      if 127 < LookBack.key before pitch then
        [s.item .warning Player.tooHighMessage (some Player.tooHighHint)]
      else []
  | .ok _ => []

/-- **Every remark carries the place of its word.** -/
theorem place_of_mem_remarks {before : List Token} {s : Source} {f : Feedback}
    (h : f ∈ s.remarks before) :
    f.index = s.position.index ∧ f.offset = s.position.offset ∧ f.token = some s.position.token := by
  have hitem : ∃ level message suggestion, f = s.item level message suggestion := by
    unfold remarks at h
    split at h
    · exact ⟨_, _, _, List.mem_singleton.mp h⟩
    · rcases List.mem_append.mp h with hflat | hhigh
      · exact ⟨_, _, _, List.mem_singleton.mp (List.mem_ite_nil_right.mp hflat).2⟩
      · exact ⟨_, _, _, List.mem_singleton.mp (List.mem_ite_nil_right.mp hhigh).2⟩
    · cases h
  obtain ⟨level, message, suggestion, rfl⟩ := hitem
  exact ⟨rfl, rfl, rfl⟩

theorem remarks_error {s : Source} {e : TokenError} (h : s.token = .error e)
    (before : List Token) : s.remarks before = [s.item .warning e.message e.suggestion] := by
  simp only [remarks, h]

end Source

/-- **What is reported about some words in turn**, each after the tokens before it. -/
def remarksOf (ss : List Source) : List Feedback :=
  ss.flatMap fun s => s.remarks (tokensAmong (ss.take s.position.index))

theorem remarksOf_concat {ss : List Source} {s : Source} (h : IsNumbered (ss ++ [s])) :
    remarksOf (ss ++ [s]) = remarksOf ss ++ s.remarks (tokensAmong ss) := by
  obtain ⟨hss, hs⟩ := isNumbered_concat h
  have hbefore : ∀ x ∈ ss, (ss ++ [s]).take x.position.index = ss.take x.position.index := by
    intro x hx
    have hx : x.position.index ∈ List.range ss.length := hss ▸ List.mem_map_of_mem hx
    exact List.take_append_of_le_length (List.mem_range.mp hx).le
  have hfront : (ss.flatMap fun x => x.remarks (tokensAmong ((ss ++ [s]).take x.position.index))) =
      remarksOf ss :=
    List.flatMap_congr fun x hx => by rw [hbefore x hx]
  rw [remarksOf, List.flatMap_append, hfront, List.flatMap_singleton, hs, List.take_left]

end Melody

/-! ## 3. What a player reports -/

theorem Collector.toList_items_report (c : Collector) (level : Level) (message : String)
    (suggestion : Option String) : (c.report level message suggestion).items.toList =
      c.items.toList ++
        [⟨level, message, c.position.index, c.position.offset, some c.position.token, suggestion⟩] :=
  Array.toList_push

variable {β : Type} [Beat β]

namespace Playback

/-- A note is too high if looking back finds no key for it. -/
theorem LooksBack.isTooHigh_note {s : Playback β} {before : List Token} (h : s.LooksBack before)
    (pitch : PitchClass) (own : Option Length) :
    s.isTooHigh (.note pitch own) = decide (127 < LookBack.key before pitch) := by
  show (s.key? pitch).isNone = _
  rw [h.key?_eq]
  by_cases hkey : LookBack.key before pitch ≤ 127
  · simp [hkey]
  · simp [hkey, not_le.mp hkey]

end Playback

namespace Player

open Melody

variable {p : Player β} {before : List Token}

/-- **A word adds its remarks to the feedback.** -/
theorem items_feed (h : p.playback.LooksBack before) (s : Source) :
    (p.feed s).collector.items.toList = p.collector.items.toList ++ s.remarks before := by
  cases e : s.token with
  | error err =>
    rw [feed, e, Source.remarks_error e]
    exact Collector.toList_items_report _ _ _ _
  | ok t =>
    rw [feed, e]
    show (remark p.playback t (p.collector.moveTo s.position)).items.toList = _
    cases t with
    | note pitch own =>
      rw [Source.remarks, e]
      simp only [remark, h.isTooHigh_note, Token.isFlat, Collector.warn, Collector.inform]
      by_cases hflat : pitch.accidental = some .flat <;>
        by_cases hhigh : 127 < LookBack.key before pitch <;>
        simp [hflat, hhigh, Collector.toList_items_report, Collector.moveTo, Source.item]
    | _ => simp [Source.remarks, e, remark, Token.isFlat, Playback.isTooHigh]

/-- A word that is no token leaves what is in force. -/
theorem looksBack_feed (h : p.playback.LooksBack before) (s : Source) :
    (p.feed s).playback.LooksBack (before ++ s.token.toOption.toList) := by
  cases e : s.token with
  | ok t =>
    rw [feed, e]
    exact h.play t
  | error err =>
    have hnone : (Except.error err : Except TokenError Token).toOption.toList = [] := rfl
    rw [feed, e, hnone, List.append_nil]
    exact h

/-- **So do numbered words, one after the other.** -/
theorem remarks_foldl_feed (instrument : Instrument) {ss : List Source} (h : IsNumbered ss) :
    let p : Player β := ss.foldl feed (start instrument)
    p.playback.LooksBack (tokensAmong ss) ∧ p.collector.items.toList = remarksOf ss := by
  induction ss using List.reverseRecOn with
  | nil => exact ⟨Playback.looksBack_start, rfl⟩
  | append_singleton ss s ih =>
    obtain ⟨hlooks, hitems⟩ := ih (isNumbered_concat h).1
    rw [List.foldl_concat, tokensAmong_append, tokensAmong_singleton]
    exact ⟨looksBack_feed hlooks s, by rw [items_feed hlooks, hitems, remarksOf_concat h]⟩

end Player

namespace Melody

/-! ## 4. What parsing reports -/

/-- Whether a word is no token. -/
def Source.isBad (s : Source) : Bool :=
  !s.token.isOk

/-- **Parsing reports the words that are no tokens**, whatever comes before them. -/
theorem items_foldl_parse (before : Source → List Token) (ss : List Source) (p : Parse) :
    (ss.foldl Parse.feed p).collector.items.toList = p.collector.items.toList ++
      (ss.filter Source.isBad).flatMap fun s => s.remarks (before s) := by
  induction ss generalizing p with
  | nil => simp
  | cons s ss ih =>
    rw [List.foldl_cons, ih]
    cases e : s.token with
    | ok t => simp [Parse.feed, Source.isBad, e, Except.isOk, Except.toBool]
    | error err =>
      have hbad : s.isBad := by
        rw [Source.isBad, e]
        rfl
      have hitems : (p.feed s).collector.items.toList =
          p.collector.items.toList ++ s.remarks (before s) := by
        rw [Parse.feed, e, Source.remarks_error e]
        exact Collector.toList_items_report _ _ _ _
      rw [hitems, List.filter_cons_of_pos hbad, List.flatMap_cons, List.append_assoc]

/-! ## 5. Melodies -/

/-- **The feedback on a melody, word by word.** It is what is reported about its words in turn, each
    after the tokens among the words before it, and what parsing reports is the part of it about the
    words that are no tokens. Every item carries the place of its word. The words are those that the
    melody is made of; they are numbered, each is read on its own, and each stands as many bytes in
    as its offset says. -/
theorem feedback_word_by_word (melody : String) (instrument : Instrument) :
    let ss := sources melody
    let remarks (s : Source) := s.remarks (tokensAmong (ss.take s.position.index))
    (interpret melody instrument : Reported (Performance β)).feedback = ss.flatMap remarks ∧
      (parse melody).feedback = (ss.filter Source.isBad).flatMap remarks ∧
      (∀ s ∈ ss, ∀ f ∈ remarks s, f.index = s.position.index ∧ f.offset = s.position.offset ∧
        f.token = some s.position.token) ∧
      Text.Spaced (ss.map fun s => s.position.token.toList) melody.toList ∧
      ss.map (fun s => s.position.index) = List.range ss.length ∧
      ∀ s ∈ ss, s.token = Token.ofString s.position.token ∧
        ∃ front back, melody.toList = front ++ s.position.token.toList ++ back ∧
          Text.byteCount front = s.position.offset := by
  intro ss remarks
  have hnumbered : IsNumbered ss := isNumbered_sources melody
  obtain ⟨-, hitems⟩ := Player.remarks_foldl_feed (β := β) instrument hnumbered
  exact ⟨hitems, items_foldl_parse _ ss {}, fun _ _ _ hf => Source.place_of_mem_remarks hf,
    spaced_sources melody, hnumbered,
    fun s hs => ⟨token_of_mem_sources hs, exists_slice_of_mem_sources hs⟩⟩

/-- A note can be remarked upon twice. -/
example : (interpret "o10\u3000b-4 zz" .piano : Reported (Performance Rat)).feedback =
    [⟨.info, Player.flatMessage, 1, 6, some "b-4", none⟩,
      ⟨.warning, Player.tooHighMessage, 1, 6, some "b-4", some Player.tooHighHint⟩,
      ⟨.warning, "unexpected trailing input 'z'", 2, 10, some "zz", none⟩] := by
  decide +kernel

end Melody

end TextMelody
