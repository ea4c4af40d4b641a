import TextMelody.Proofs.Transducer.Spans

/-!
# Texts read back cleanly

The melody of a text is written on one line of printable characters, and playing what was written
gives rise to no remark at all: each token is read as it was, none is a note with a flat, and each
note has a key, since the octave of a text is five at most. So every note token is heard.

* `items_foldl_feed`: sung tokens give rise to no feedback;
* `forall₂_soundsAs_notes`: **each note token that is sung is heard as one note**;
* `lines_transduce`, `trimEnd_transduce`: what is written is one line without blanks at its end;
* `transduce_reads_back`: a text is written on one line and read back without a remark.
-/

namespace TextMelody

variable {β : Type} [Beat β]

/-! ## 1. Written melodies -/

namespace Token

/-- **A written melody is one line of printable characters.** -/
theorem printable_of_mem_render {ts : List Token} {c : Char} (h : c ∈ (render ts).toList) :
    ' '.toNat ≤ c.toNat ∧ c.toNat ≤ '~'.toNat := by
  rw [render, String.toList_ofList] at h
  rcases Text.mem_join h with rfl | ⟨w, hw, hc⟩
  · decide
  · obtain ⟨t, _, rfl⟩ := List.mem_map.mp hw
    obtain ⟨hlow, hhigh⟩ := isGraphic_of_mem_chars hc
    exact ⟨Nat.le_trans (by decide) hlow, hhigh⟩

/-- It ends as its last token ends. -/
theorem getLast?_render (ts : List Token) (t : Token) :
    (render (ts ++ [t])).toList.getLast? = t.chars.getLast? := by
  rw [render, String.toList_ofList, List.map_append]
  exact Text.getLast?_join t.chars_ne_nil

end Token

/-! ## 2. Sung tokens are played without a remark -/

namespace Player

theorem items_play {p : Player β} {t : Token} (ht : t.IsSung) (hoctave : p.playback.octave ≤ 5) :
    (p.play t).collector.items = p.collector.items := by
  cases t with
  | note pitch length =>
    have hflat : (Token.note pitch length).isFlat = false := decide_eq_false ht.1
    obtain ⟨key, hkey⟩ := Playback.key?_isSome hoctave pitch
    have hhigh : p.playback.isTooHigh (.note pitch length) = false := by
      rw [Playback.isTooHigh, hkey]
      rfl
    rw [play, remark, hflat, hhigh]
    rfl
  | _ => rfl

/-- **Words that are sung tokens give rise to no feedback.** -/
theorem items_foldl_feed {ss : List Melody.Source} (hss : ∀ s ∈ ss, ∃ t, s.token = .ok t ∧ t.IsSung)
    {p : Player β} (hoctave : p.playback.octave ≤ 5) :
    (ss.foldl feed p).collector.items = p.collector.items := by
  induction ss generalizing p with
  | nil => rfl
  | cons s ss ih =>
    obtain ⟨t, hs, ht⟩ := hss s List.mem_cons_self
    have hfeed : p.feed s = { p with collector := p.collector.moveTo s.position }.play t := by
      rw [feed, hs]
    have hnext : (p.feed s).playback.octave ≤ 5 := by
      rw [hfeed]
      exact Playback.octave_play_le hoctave ht
    have hitems : (p.feed s).collector.items = p.collector.items := by
      rw [hfeed]
      exact items_play (p := { p with collector := p.collector.moveTo s.position }) ht hoctave
    rw [List.foldl_cons, ih (fun x hx => hss x (List.mem_cons_of_mem s hx)) hnext, hitems]

end Player

namespace Token

/-- Whether a token is a note. -/
def isNote : Token → Bool
  | note _ _ => true
  | _ => false

/-- **How a note token is heard**: on one of the 128 keys, of its own pitch class, for its own
    length. -/
def SoundsAs : Token → NoteEvent β → Prop
  | note pitch length, n =>
    n.key.toNat ≤ 127 ∧ n.key.toNat % 12 = pitch.semitone.toNat ∧
      length.map Length.beats = some n.duration
  | _, _ => False

end Token

namespace Playback

/-- **Each note token that is sung is heard as one note**, and nothing else is heard. -/
theorem forall₂_soundsAs_notes {s : Playback β} (hs : s.octave ≤ 5) {ts : List Token}
    (hts : ∀ t ∈ ts, t.IsSung) :
    List.Forall₂ Token.SoundsAs (ts.filter Token.isNote) (s.notes ts) := by
  induction ts generalizing s with
  | nil => exact .nil
  | cons t ts ih =>
    have ht := hts t List.mem_cons_self
    have hrest := ih (octave_play_le hs ht) fun u hu => hts u (List.mem_cons_of_mem t hu)
    rw [notes_cons]
    cases t with
    | note pitch length =>
      obtain ⟨key, hkey⟩ := key?_isSome hs pitch
      obtain ⟨hsum, hle⟩ := Pitch.key?_eq_some_iff.mp hkey
      have hsemitone : pitch.semitone.toNat < 12 := UInt8.lt_iff_toNat_lt.mp pitch.semitone_lt
      obtain ⟨_, l, _, rfl⟩ := ht
      rw [note?, hkey]
      refine .cons ⟨hle, ?_, rfl⟩ hrest
      change key.toNat % 12 = pitch.semitone.toNat
      omega
    | _ => exact hrest

end Playback

/-! ## 3. The written line -/

namespace Transducer

theorem printable_of_mem_transduce {mode : Mode} {text : String} {c : Char}
    (h : c ∈ (transduce mode text).toList) : ' '.toNat ≤ c.toNat ∧ c.toNat ≤ '~'.toNat :=
  Token.printable_of_mem_render h

/-- What is written ends as some token ends. -/
theorem getLast?_transduce (mode : Mode) (text : String) :
    ∃ t : Token, (transduce mode text).toList.getLast? = t.chars.getLast? := by
  rcases List.eq_nil_or_concat' (tokens mode text) with h | ⟨front, last, h⟩
  · exact absurd h (List.cons_ne_nil _ _)
  · refine ⟨last, ?_⟩
    rw [transduce, h]
    exact Token.getLast?_render front last

theorem lines_transduce (mode : Mode) (text : String) :
    Text.lines (transduce mode text).toList = [(transduce mode text).toList] := by
  obtain ⟨t, hlast⟩ := getLast?_transduce mode text
  refine Text.lines_of_not_mem (fun hempty => ?_) fun hnewline => ?_
  · rw [hempty] at hlast
    exact t.chars_ne_nil (List.getLast?_eq_none_iff.mp hlast.symm)
  · exact absurd (printable_of_mem_transduce hnewline).1 (by decide)

theorem trimEnd_transduce (mode : Mode) (text : String) :
    Text.trimEnd (transduce mode text).toList = (transduce mode text).toList := by
  obtain ⟨t, hlast⟩ := getLast?_transduce mode text
  refine Text.trimEnd_of_getLast fun c hc => ?_
  have hgraphic := Token.isGraphic_of_mem_chars (List.mem_of_getLast? (hlast ▸ hc))
  exact Bool.eq_false_iff.mp hgraphic.not_isBlank

/-! ## 4. Reading it back -/

/-- **Playing what was written gives rise to no remark.** -/
theorem feedback_interpret_transduce (mode : Mode) (text : String) (instrument : Instrument) :
    (Melody.interpret (transduce mode text) instrument : Reported (Performance β)).feedback = [] := by
  have hreadable : ∀ t ∈ tokens mode text, t.IsReadable := fun _ ht => isReadable_of_mem_tokens ht
  have hread := Melody.tokens_sources_render hreadable
  have hsources : ∀ s ∈ Melody.sources (transduce mode text), ∃ t, s.token = .ok t ∧ t.IsSung := by
    intro s hs
    have hmem : s.token ∈ (tokens mode text).map Except.ok := hread ▸ List.mem_map_of_mem hs
    obtain ⟨t, ht, e⟩ := List.mem_map.mp hmem
    exact ⟨t, e.symm, isSung_of_mem_tokens ht⟩
  have hitems := Player.items_foldl_feed hsources (p := (Player.start instrument : Player β))
    Playback.octave_start_le
  rw [Melody.interpret, Player.finish, hitems]
  rfl

/-- **A text is written on one line and read back without a remark.** The line has printable ASCII
    characters only, and ends in no blank. Playing it gives no feedback and the performance of the
    tokens themselves, in which each note token is heard as one note, on a key that exists. -/
theorem transduce_reads_back (mode : Mode) (text : String) (instrument : Instrument) :
    let written := transduce mode text
    let ts := tokens mode text
    let read : Reported (Performance β) := Melody.interpret written instrument
    (∀ c ∈ written.toList, ' '.toNat ≤ c.toNat ∧ c.toNat ≤ '~'.toNat) ∧
      Text.lines written.toList = [written.toList] ∧
      Text.trimEnd written.toList = written.toList ∧
      read.feedback = [] ∧
      read.value = (Melody.interpretTokens ts instrument).value ∧
      List.Forall₂ Token.SoundsAs (ts.filter Token.isNote) read.value.notes ∧
      read.value.notes.length = ts.countP Token.isNote := by
  intro written ts read
  have hvalue : read.value = Melody.perform ts instrument :=
    value_interpret_transduce mode text instrument
  have hnotes : List.Forall₂ Token.SoundsAs (ts.filter Token.isNote) read.value.notes := by
    rw [hvalue, Melody.notes_perform]
    exact Playback.forall₂_soundsAs_notes Playback.octave_start_le fun _ ht => isSung_of_mem_tokens ht
  refine ⟨fun _ hc => printable_of_mem_transduce hc, lines_transduce mode text,
    trimEnd_transduce mode text, feedback_interpret_transduce mode text instrument, ?_, hnotes, ?_⟩
  · rw [hvalue, Melody.value_interpretTokens]
  · rw [← hnotes.length_eq, List.countP_eq_length_filter]

end Transducer

end TextMelody
