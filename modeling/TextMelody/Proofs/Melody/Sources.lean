import TextMelody.Proofs.Melody.Remarks
import TextMelody.Proofs.Text.Offsets

/-!
# What becomes of the words of a melody

Parsing parts the words of a melody in two: the tokens go one way, and what is reported about the
others goes another. A report carries the number of words before its word, and that is enough to put
both in one row again.

* `merge`: tokens and reports put in one row by the numbers of the reports;
* `merge_tokensAmong`: **numbered words that were parted are put together again**;
* `words_account_for_melody`: the words are cut out of the melody whole, and parsing loses none.
-/

namespace TextMelody.Melody

/-! ## 1. Words with their outcome -/

namespace Source

/-- The word of a source, in its place. -/
def word (s : Source) : Text.Word :=
  ⟨s.position.offset, s.position.token.toList⟩

/-- **What becomes of a word when it is parsed**: its token, or what is reported about it. -/
def outcome (s : Source) : Except Feedback Token :=
  match s.token with
  | .ok t => .ok t
  | .error e => .error (s.item .warning e.message e.suggestion)

theorem outcome_ok {s : Source} {t : Token} (h : s.token = .ok t) : s.outcome = .ok t := by
  simp only [outcome, h]

theorem outcome_error {s : Source} {e : TokenError} (h : s.token = .error e) :
    s.outcome = .error (s.item .warning e.message e.suggestion) := by
  simp only [outcome, h]

end Source

/-- Sources hold the words of the melody. -/
theorem map_word_sources (melody : String) :
    (sources melody).map Source.word = Text.words melody.toList := by
  have hword : Source.word ∘ (fun w => Source.ofWord w.2 w.1) = Prod.fst := by
    funext ⟨w, n⟩
    show (⟨w.offset, (String.ofList w.chars).toList⟩ : Text.Word) = w
    rw [String.toList_ofList]
  rw [sources, List.map_map, hword, List.zipIdx_map_fst]

/-! ## 2. Parted and put together -/

/-- **Tokens and reports in one row**, whose first place has the number `i`. A report takes the place
    of its number, and the tokens take those that are left. -/
def merge : Nat → List Token → List Feedback → List (Except Feedback Token)
  | _, ts, [] => ts.map .ok
  | i, ts, f :: fs =>
    (ts.take (f.index - i)).map .ok ++ .error f :: merge (f.index + 1) (ts.drop (f.index - i)) fs

/-- A token comes first unless a report has the first number. -/
theorem merge_ok {i : Nat} {fs : List Feedback} (h : ∀ f ∈ fs, i < f.index) (t : Token)
    (ts : List Token) : merge i (t :: ts) fs = .ok t :: merge (i + 1) ts fs := by
  cases fs with
  | nil => rfl
  | cons f fs =>
    obtain ⟨n, hn⟩ := Nat.exists_eq_add_of_lt (h f List.mem_cons_self)
    have hfirst : f.index - i = n + 1 := by omega
    have hrest : f.index - (i + 1) = n := by omega
    simp only [merge, hfirst, hrest, List.take_succ_cons, List.drop_succ_cons, List.map_cons,
      List.cons_append]

/-- A report with the first number comes first. -/
theorem merge_error {i : Nat} {f : Feedback} (h : f.index = i) (ts : List Token)
    (fs : List Feedback) : merge i ts (f :: fs) = .error f :: merge (i + 1) ts fs := by
  simp [merge, h]

/-- What is reported about the words that are no tokens, in their order. -/
def reportsAmong (ss : List Source) : List Feedback :=
  (ss.filter Source.isBad).flatMap fun s => s.remarks []

theorem reportsAmong_sources (melody : String) :
    reportsAmong (sources melody) = (parse melody).feedback :=
  (items_foldl_parse (fun _ => []) (sources melody) {}).symm

theorem reportsAmong_cons_ok {s : Source} {t : Token} (h : s.token = .ok t) (ss : List Source) :
    reportsAmong (s :: ss) = reportsAmong ss := by
  simp [reportsAmong, Source.isBad, h, Except.isOk, Except.toBool]

theorem reportsAmong_cons_error {s : Source} {e : TokenError} (h : s.token = .error e)
    (ss : List Source) :
    reportsAmong (s :: ss) = s.item .warning e.message e.suggestion :: reportsAmong ss := by
  simp [reportsAmong, Source.isBad, h, Except.isOk, Except.toBool, Source.remarks_error h]

/-- A report carries the number of one of the words. -/
theorem exists_of_mem_reportsAmong {ss : List Source} {f : Feedback} (h : f ∈ reportsAmong ss) :
    ∃ s ∈ ss, f.index = s.position.index := by
  obtain ⟨s, hs, hf⟩ := List.mem_flatMap.mp h
  exact ⟨s, List.mem_of_mem_filter hs, (Source.place_of_mem_remarks hf).1⟩

/-- **Words that are numbered from `i` on and were parted are put together again.** -/
theorem merge_tokensAmong {ss : List Source} {i : Nat}
    (h : ss.map (fun s => s.position.index) = List.range' i ss.length) :
    merge i (tokensAmong ss) (reportsAmong ss) = ss.map Source.outcome := by
  induction ss generalizing i with
  | nil => rfl
  | cons s ss ih =>
    rw [List.map_cons, List.length_cons, List.range'_succ] at h
    obtain ⟨hs, hss⟩ := List.cons.inj h
    rw [List.map_cons, ← ih hss]
    cases e : s.token with
    | ok t =>
      -- The words behind this one have higher numbers, and so have the reports about them.
      have hlater : ∀ f ∈ reportsAmong ss, i < f.index := by
        intro f hf
        obtain ⟨x, hx, hindex⟩ := exists_of_mem_reportsAmong hf
        have hmem : x.position.index ∈ List.range' (i + 1) ss.length := hss ▸ List.mem_map_of_mem hx
        rw [hindex]
        exact (List.mem_range'_1.mp hmem).1
      rw [tokensAmong_cons_ok e, reportsAmong_cons_ok e, Source.outcome_ok e, merge_ok hlater]
    | error err =>
      have hindex : (s.item .warning err.message err.suggestion).index = i := hs
      rw [tokensAmong_cons_error e, reportsAmong_cons_error e, Source.outcome_error e,
        merge_error hindex]

/-! ## 3. Melodies -/

/-- **The words account for a melody, and parsing for its words.** The words are numbered and cut out
    of the melody whole, with nothing but blanks between them, and each is read on its own. The
    tokens and the feedback of parsing, put in one row by the numbers that the feedback carries, are
    what becomes of the words in their order. -/
theorem words_account_for_melody (melody : String) :
    let ss := sources melody
    ss.map (fun s => s.position.index) = List.range ss.length ∧
      Text.CutInto melody (ss.map Source.word) ∧
      (∀ s ∈ ss, s.token = Token.ofString s.position.token) ∧
      merge 0 (parse melody).value (parse melody).feedback = ss.map Source.outcome := by
  intro ss
  have hnumbered : IsNumbered ss := isNumbered_sources melody
  refine ⟨hnumbered, ?_, fun s hs => token_of_mem_sources hs, ?_⟩
  · rw [map_word_sources]
    exact Text.cutInto_words melody
  · rw [← tokensAmong_sources, ← reportsAmong_sources]
    exact merge_tokensAmong (hnumbered.trans List.range_eq_range')

/-- The report about the second word stands between the tokens of the others. -/
example : merge 0 (parse "c4 zz d4").value (parse "c4 zz d4").feedback =
    [.ok (.note ⟨.c, none⟩ (some ⟨4, 0⟩)),
      .error ⟨.warning, "unexpected trailing input 'z'", 1, 3, some "zz", none⟩,
      .ok (.note ⟨.d, none⟩ (some ⟨4, 0⟩))] := by
  decide +kernel

end TextMelody.Melody
