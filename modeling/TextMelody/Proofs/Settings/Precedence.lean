import TextMelody.Settings.Layers

/-!
# Which file decides a setting

Files are laid over each other, and a file counts where its settings differ from the standard ones.
This module says in terms of the files themselves what comes of that: for each key (`SettingKey`),
what a file gives under it (`givenBy`), and which of several files decides.

* `get_ofFile`: a file's settings are what it gives, and the standard where it gives nothing;
* `get_overlay`: layers are put together key by key;
* `get_overlayFiles`: **the last file that gives a value other than the standard decides**;
* `load_later_wins_iff`: when that is the last file that gives the key at all.
-/

namespace TextMelody

/-! ## 1. Keys -/

/-- The keys that settings are given under. -/
inductive SettingKey where
  | instrument
  | mode
  | ticksPerBeat
  | trackName
  | logLevel
deriving DecidableEq, Repr

namespace SettingKey

/-- The values under a key. -/
abbrev Value : SettingKey → Type
  | ticksPerBeat => UInt16
  | _ => String

instance : (k : SettingKey) → DecidableEq k.Value
  | instrument => inferInstanceAs (DecidableEq String)
  | mode => inferInstanceAs (DecidableEq String)
  | ticksPerBeat => inferInstanceAs (DecidableEq UInt16)
  | trackName => inferInstanceAs (DecidableEq String)
  | logLevel => inferInstanceAs (DecidableEq String)

end SettingKey

namespace Settings

/-- The value under a key. -/
def get (s : Settings) : (k : SettingKey) → k.Value
  | .instrument => s.instrument
  | .mode => s.mode
  | .ticksPerBeat => s.ticksPerBeat
  | .trackName => s.trackName
  | .logLevel => s.logLevel

/-- The value that a document gives under a key, when it is one of the key's type. -/
def given? (document : Toml.Entries) : (k : SettingKey) → Option k.Value
  | .instrument => text? document "defaults" "instrument"
  | .mode => text? document "defaults" "mode"
  | .ticksPerBeat => (givenTicks? document).bind ticks?
  | .trackName => text? document "midi" "track_name"
  | .logLevel => text? document "telemetry" "log_level"

/-- **What the file at a path gives under a key.** -/
def givenBy (files : FileTree) (k : SettingKey) (path : String) : Option k.Value :=
  (files.readText path).toOption.bind fun text => (Toml.read? text).bind (given? · k)

/-- What the file gives under a key when that is not the standard value. -/
def departure (files : FileTree) (k : SettingKey) (path : String) : Option k.Value :=
  (givenBy files k path).filter (· ≠ standard.get k)

/-- The last value that `f` finds along a list of paths. -/
def lastOf {α : Type} (f : String → Option α) (paths : List String) : Option α :=
  paths.reverse.findSome? f

@[simp] theorem lastOf_nil {α : Type} (f : String → Option α) : lastOf f [] = none := rfl

theorem lastOf_cons {α : Type} (f : String → Option α) (path : String) (paths : List String) :
    lastOf f (path :: paths) = (lastOf f paths).or (f path) := by
  rw [lastOf, List.reverse_cons, List.findSome?_append, List.findSome?_singleton]
  rfl

theorem exists_of_lastOf {α : Type} {f : String → Option α} {paths : List String} {v : α}
    (h : lastOf f paths = some v) : ∃ path ∈ paths, f path = some v := by
  obtain ⟨path, hmem, hv⟩ := List.exists_of_findSome?_eq_some h
  exact ⟨path, List.mem_reverse.mp hmem, hv⟩

theorem lastOf_eq_none {α : Type} {f : String → Option α} {paths : List String} :
    lastOf f paths = none ↔ ∀ path ∈ paths, f path = none := by
  simp [lastOf]

/-! ## 2. One file -/

theorem get_ofTables (document : Toml.Entries) (ticks : UInt16) (k : SettingKey)
    (hticks : ticks = (given? document .ticksPerBeat).getD (standard.get .ticksPerBeat)) :
    (ofTables document ticks).get k = (given? document k).getD (standard.get k) := by
  cases k with
  | ticksPerBeat => exact hticks
  | instrument => rfl
  | mode => rfl
  | trackName => rfl
  | logLevel => rfl

theorem get_ofDocument {diagnose : Toml.Diagnosis} {path text : String} {s : Settings}
    (h : ofDocument diagnose path text = .ok s) (k : SettingKey) :
    s.get k = ((Toml.read? text).bind (given? · k)).getD (standard.get k) := by
  unfold ofDocument at h
  cases hread : Toml.read? text with
  | none =>
    rw [hread] at h
    cases h
  | some document =>
    rw [hread] at h
    simp only at h
    cases hticks : givenTicks? document with
    | none =>
      rw [hticks] at h
      cases h
      refine get_ofTables document _ k ?_
      simp only [given?, hticks]
      rfl
    | some n =>
      rw [hticks] at h
      simp only at h
      cases ht : ticks? n with
      | none =>
        rw [ht] at h
        cases h
      | some t =>
        rw [ht] at h
        cases h
        refine get_ofTables document t k ?_
        have hgiven : given? document .ticksPerBeat = some t := by
          rw [given?, hticks]
          exact ht
        rw [hgiven]
        rfl

/-- **A file's settings are what it gives**, and the standard ones where it gives nothing. -/
theorem get_ofFile {diagnose : Toml.Diagnosis} {files : FileTree} {path : String} {s : Settings}
    (h : ofFile diagnose files path = .ok s) (k : SettingKey) :
    s.get k = (givenBy files k path).getD (standard.get k) := by
  unfold ofFile at h
  cases hread : files.readText path with
  | error e =>
    rw [hread] at h
    cases h
  | ok text =>
    rw [hread] at h
    rw [get_ofDocument h k, givenBy, hread]
    rfl

/-! ## 3. Several files -/

/-- **Layers are put together key by key.** -/
theorem get_overlay (a b : Settings) (k : SettingKey) :
    (a.overlay b).get k = prefer (standard.get k) (a.get k) (b.get k) := by
  cases k <;> rfl

/-- A layer that gives `v?` leaves the value below where it gives none or the standard. -/
theorem prefer_getD {α : Type} [DecidableEq α] (d lower : α) (v? : Option α) :
    prefer d lower (v?.getD d) = (v?.filter (· ≠ d)).getD lower := by
  cases v? with
  | none => exact if_pos rfl
  | some v =>
    by_cases h : v = d
    · simp [prefer, h, Option.filter]
    · simp [prefer, h, Option.filter]

theorem get_overlay_ofFile {diagnose : Toml.Diagnosis} {files : FileTree} {path : String}
    {lower s : Settings} (h : ofFile diagnose files path = .ok s) (k : SettingKey) :
    (lower.overlay s).get k = (departure files k path).getD (lower.get k) := by
  rw [get_overlay, get_ofFile h k, prefer_getD, departure]

theorem exists_of_isOk {ε α : Type} {x : Except ε α} (h : x.isOk) : ∃ a, x = .ok a := by
  cases x with
  | error e => cases h
  | ok a => exact ⟨a, rfl⟩

theorem overlayFiles_cons_ok {diagnose : Toml.Diagnosis} {files : FileTree} {path : String}
    {s t : Settings} (h : ofFile diagnose files path = .ok t) (paths : List String) :
    overlayFiles diagnose files s (path :: paths) =
      overlayFiles diagnose files (s.overlay t) paths := by
  rw [overlayFiles, List.foldlM_cons, h]
  rfl

/-- **The last file that gives a value other than the standard decides.** -/
theorem get_overlayFiles {diagnose : Toml.Diagnosis} {files : FileTree} {paths : List String}
    (h : ∀ path ∈ paths, (ofFile diagnose files path).isOk) (s : Settings) :
    ∃ t, overlayFiles diagnose files s paths = .ok t ∧
      ∀ k, t.get k = (lastOf (departure files k) paths).getD (s.get k) := by
  induction paths generalizing s with
  | nil => exact ⟨s, rfl, fun k => rfl⟩
  | cons path paths ih =>
    obtain ⟨u, hu⟩ := exists_of_isOk (h path List.mem_cons_self)
    obtain ⟨t, ht, hget⟩ := ih (fun p hp => h p (List.mem_cons_of_mem path hp)) (s.overlay u)
    refine ⟨t, (overlayFiles_cons_ok hu paths).trans ht, fun k => ?_⟩
    rw [hget k, lastOf_cons, get_overlay_ofFile hu k]
    cases lastOf (departure files k) paths <;> rfl

/-! ## 4. The files that are loaded -/

theorem override_of_lookup_none {env : Environment} {v : Variable} (o : Overridden)
    (h : env.lookup v.name = none) : override env o v = o := by
  rw [override, h]
  rfl

/-- An environment without any of the variables changes nothing. -/
theorem underEnvironment_of_none {env : Environment} (s : Settings)
    (h : ∀ v ∈ knownVariables, env.lookup v.name = none) :
    underEnvironment env s = ⟨s, []⟩ := by
  have e : ∀ (vs : List Variable) (o : Overridden), (∀ v ∈ vs, env.lookup v.name = none) →
      vs.foldl (override env) o = o := by
    intro vs
    induction vs with
    | nil => intro o _; rfl
    | cons v vs ih =>
      intro o hvs
      rw [List.foldl_cons, override_of_lookup_none o (hvs v List.mem_cons_self)]
      exact ih o fun w hw => hvs w (List.mem_cons_of_mem v hw)
  exact e _ _ h

/-- A last value that passes a test is the last one that passes it. -/
theorem lastOf_filter {α : Type} {f : String → Option α} {q : α → Bool} {paths : List String}
    {v : α} (h : lastOf f paths = some v) (hq : q v) :
    lastOf (fun path => (f path).filter q) paths = some v := by
  induction paths with
  | nil => cases h
  | cons path paths ih =>
    rw [lastOf_cons] at h ⊢
    cases hl : lastOf f paths with
    | some w =>
      rw [hl, Option.some_or, Option.some.injEq] at h
      rw [ih (hl.trans (congrArg some h)), Option.some_or]
    | none =>
      rw [hl, Option.none_or] at h
      have hrest : lastOf (fun path => (f path).filter q) paths = none :=
        lastOf_eq_none.mpr fun p hp => by rw [lastOf_eq_none.mp hl p hp]; rfl
      rw [hrest, Option.none_or, h, Option.filter_some_pos hq]

theorem departure_eq_none_iff (files : FileTree) (k : SettingKey) (path : String) :
    departure files k path = none ↔ ∀ v ∈ givenBy files k path, v = standard.get k := by
  simp [departure, Option.filter_eq_none_iff]

/-- No file departs from the standard where none gives the key. -/
theorem lastOf_departure_of_none {files : FileTree} {k : SettingKey} {paths : List String}
    (h : lastOf (givenBy files k) paths = none) : lastOf (departure files k) paths = none := by
  rw [lastOf_eq_none] at h ⊢
  intro path hpath
  rw [departure, h path hpath]
  rfl

theorem ne_of_lastOf_departure {files : FileTree} {k : SettingKey} {paths : List String}
    {v : k.Value} (h : lastOf (departure files k) paths = some v) : v ≠ standard.get k := by
  obtain ⟨path, _, hv⟩ := exists_of_lastOf h
  simpa using (Option.filter_eq_some_iff.mp hv).2

/-- **When the last departure is what the last file gives**: unless the last file that gives the
    key gives the standard value over another one. -/
theorem lastOf_departure_iff (files : FileTree) (k : SettingKey) (paths : List String) :
    (lastOf (departure files k) paths).getD (standard.get k) =
        (lastOf (givenBy files k) paths).getD (standard.get k) ↔
      (lastOf (givenBy files k) paths = some (standard.get k) →
        ∀ path ∈ paths, ∀ v ∈ givenBy files k path, v = standard.get k) := by
  have hall : lastOf (departure files k) paths = none ↔
      ∀ path ∈ paths, ∀ v ∈ givenBy files k path, v = standard.get k := by
    simp only [lastOf_eq_none, departure_eq_none_iff]
  rw [← hall]
  cases hg : lastOf (givenBy files k) paths with
  | none => simp [lastOf_departure_of_none hg]
  | some v =>
    by_cases hv : v = standard.get k
    · subst hv
      cases hd : lastOf (departure files k) paths with
      | none => simp
      | some w => simp [ne_of_lastOf_departure hd]
    · have hd : lastOf (departure files k) paths = some v := lastOf_filter hg (by simpa using hv)
      simp [hd, hv]

/-- **Which file decides, and when that is the last one.** When all files load and no variable is
    set, a key gets the last value that a file gives other than the standard one, and the standard
    value when no file gives another. That is the value of the last file that gives the key, except
    where this file gives the standard value and some file gives another. -/
theorem load_later_wins_iff (diagnose : Toml.Diagnosis) (files : FileTree) (env : Environment)
    (userDirectory : String) (chosen : Option String)
    (hfiles : ∀ path ∈ filesToLoad files userDirectory chosen, (ofFile diagnose files path).isOk)
    (henv : ∀ v ∈ knownVariables, env.lookup v.name = none) :
    ∃ loaded, load diagnose files env userDirectory chosen = .ok loaded ∧ ∀ k : SettingKey,
      loaded.settings.get k =
        (lastOf (departure files k) (filesToLoad files userDirectory chosen)).getD
          (standard.get k) ∧
      (loaded.settings.get k =
          (lastOf (givenBy files k) (filesToLoad files userDirectory chosen)).getD
            (standard.get k) ↔
        (lastOf (givenBy files k) (filesToLoad files userDirectory chosen) =
            some (standard.get k) →
          ∀ path ∈ filesToLoad files userDirectory chosen,
            ∀ v ∈ givenBy files k path, v = standard.get k)) := by
  obtain ⟨s, hs, hget⟩ := get_overlayFiles hfiles standard
  refine ⟨⟨s, filesToLoad files userDirectory chosen, []⟩, ?_, fun k => ?_⟩
  · simp only [load, hs, underEnvironment_of_none s henv]
  · refine ⟨hget k, ?_⟩
    rw [hget k]
    exact lastOf_departure_iff files k _

/-- The files of a user who plays the strings, in a directory where the piano is asked for. -/
def pianoOverStrings : FileTree where
  entries :=
    [(["xdg"], .directory), (["xdg", "mojioto"], .directory),
      (["xdg", "mojioto", "config.toml"],
        .file "[defaults]\ninstrument = \"strings\"\n".toByteArray.data.toList),
      (["mojioto.toml"],
        .file "[defaults]\ninstrument = \"piano\"\nmode = \"pair\"\n".toByteArray.data.toList)]

/-- Both files decide something: the first the instrument, the second the mode. -/
theorem load_later_wins_iff_piano_over_strings :
    ∃ loaded, load (fun _ => "") pianoOverStrings [] "xdg" none = .ok loaded ∧ ∀ k : SettingKey,
      loaded.settings.get k =
        (lastOf (departure pianoOverStrings k) (filesToLoad pianoOverStrings "xdg" none)).getD
          (standard.get k) ∧
      (loaded.settings.get k =
          (lastOf (givenBy pianoOverStrings k) (filesToLoad pianoOverStrings "xdg" none)).getD
            (standard.get k) ↔
        (lastOf (givenBy pianoOverStrings k) (filesToLoad pianoOverStrings "xdg" none) =
            some (standard.get k) →
          ∀ path ∈ filesToLoad pianoOverStrings "xdg" none,
            ∀ v ∈ givenBy pianoOverStrings k path, v = standard.get k)) :=
  load_later_wins_iff _ pianoOverStrings [] "xdg" none (by decide +kernel) (by decide)

/-- **A later file does not always win**: the standard value, given last, is passed over. -/
theorem later_standard_value_loses :
    filesToLoad pianoOverStrings "xdg" none = ["xdg/mojioto/config.toml", "mojioto.toml"] ∧
    givenBy pianoOverStrings .instrument "xdg/mojioto/config.toml" = some "strings" ∧
    givenBy pianoOverStrings .instrument "mojioto.toml" = some "piano" ∧
    (load (fun _ => "") pianoOverStrings [] "xdg" none).toOption.map
        (fun l => l.settings.get .instrument) =
      some "strings" := by
  decide +kernel

end Settings

end TextMelody
