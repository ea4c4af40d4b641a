import TextMelody.FileTree
import TextMelody.Midi.Bytes

/-!
# Reading and writing files

A read fails for want of a file that can be read, never over what the file holds; whether bytes are
a text is asked after they were read. A write changes one place at most, whether it fails or not, and
every path leads to the same place before and after: the steps of a path pass directories only, and
the place that is written neither was nor becomes one.

* `decode_eq_ok_iff`, `decode_eq_error_iff`: bytes are decoded exactly when they are those of a text;
* `readText_eq_error_iff`: why the file at a path gives no text;
* `write_eq_ok`, `write_eq_error`: what a write does, and what it does when it fails;
* `Wrote.resolve_eq_ok_iff`: paths lead to the same places before and after a write;
* `Wrote.find?_of_ne`: **every other place is as it was**;
* `read_write`: **what was written is read back**;
* `exists?_congr`, `read_congr`: what is found at a path hangs on the places that it passes alone.
-/

namespace TextMelody

namespace FileTree

variable {t u : FileTree} {p q r : Place} {path : String} {bytes : List UInt8}

/-! ## 1. Bytes as text -/

/-- The bytes are those of a text in UTF-8. -/
def IsText (bytes : List UInt8) : Prop :=
  ∃ text, Midi.utf8 text = bytes

theorem decode_utf8 (text : String) : decode (Midi.utf8 text) = .ok text := by
  have hbytes : (⟨(Midi.utf8 text).toArray⟩ : ByteArray) = text.toByteArray := by
    rw [Midi.utf8, Array.toArray_toList]
  have htext : String.fromUTF8? text.toByteArray = some text := dif_pos text.isValidUTF8
  simp only [decode, hbytes, htext]

theorem decode_eq_ok_iff {text : String} : decode bytes = .ok text ↔ Midi.utf8 text = bytes := by
  constructor
  · intro h
    unfold decode at h
    split at h
    · rename_i s hs
      cases h
      unfold String.fromUTF8? at hs
      split at hs
      · cases hs
        rfl
      · cases hs
    · cases h
  · rintro rfl
    exact decode_utf8 text

theorem decode_eq_error_iff {cause : FileError} :
    decode bytes = .error cause ↔ cause = .notText ∧ ¬IsText bytes := by
  cases hdecode : decode bytes with
  | ok text =>
    have htext : IsText bytes := ⟨text, decode_eq_ok_iff.mp hdecode⟩
    simp [htext]
  | error other =>
    have hother : other = .notText := by
      unfold decode at hdecode
      split at hdecode
      · cases hdecode
      · cases hdecode
        rfl
    have hno : ¬IsText bytes := by
      rintro ⟨text, htext⟩
      rw [decode_eq_ok_iff.mpr htext] at hdecode
      cases hdecode
    subst hother
    simp [hno, eq_comm]

section Decode

variable {found : Except FileError (List UInt8)}

theorem bind_decode_eq_ok_iff {text : String} :
    found.bind decode = .ok text ↔ found = .ok (Midi.utf8 text) := by
  cases found with
  | error cause => exact ⟨fun h => (nomatch h), fun h => (nomatch h)⟩
  | ok bytes =>
    show decode bytes = .ok text ↔ _
    rw [decode_eq_ok_iff, Except.ok.injEq, eq_comm]

/-- **Why there is no text**: there are no bytes, or they are those of none. -/
theorem bind_decode_eq_error_iff {cause : FileError} :
    found.bind decode = .error cause ↔
      found = .error cause ∨ cause = .notText ∧ ∃ bytes, found = .ok bytes ∧ ¬IsText bytes := by
  cases found with
  | error other =>
    show Except.error other = .error cause ↔ _
    simp
  | ok bytes =>
    show decode bytes = .error cause ↔ _
    simp [decode_eq_error_iff]

end Decode

/-! ## 2. Reading -/

theorem step_ne_notText (t : FileTree) (p : Place) (name : String) :
    t.step p name ≠ .error .notText := by
  unfold step
  split
  · simp
  · simp
  · simp
  · simp
  · split <;> simp

theorem foldlM_step_ne_notText (t : FileTree) (names : List String) (p : Place) :
    names.foldlM t.step p ≠ .error .notText := by
  induction names generalizing p with
  | nil => exact fun h => nomatch h
  | cons name names ih =>
    rw [List.foldlM_cons]
    cases hstep : t.step p name with
    | error cause =>
      intro h
      exact step_ne_notText t p name (hstep.trans h)
    | ok q => exact ih q

theorem resolve_ne_notText (t : FileTree) (path : String) : t.resolve path ≠ .error .notText := by
  unfold resolve follow
  split
  · simp
  · split
    · simp
    · split
      · simp
      · exact foldlM_step_ne_notText t _ _

/-- A read does not fail over what the file holds. -/
theorem read_ne_notText (t : FileTree) (path : String) : t.read path ≠ .error .notText := by
  unfold read
  split
  · rename_i cause h
    intro heq
    cases heq
    exact resolve_ne_notText t path h
  · split <;> simp

theorem readText_eq_ok_iff {text : String} :
    t.readText path = .ok text ↔ t.read path = .ok (Midi.utf8 text) :=
  bind_decode_eq_ok_iff

/-- **Why the file at a path gives no text**: it cannot be read, or its bytes are no text. -/
theorem readText_eq_error_iff {cause : FileError} :
    t.readText path = .error cause ↔
      t.read path = .error cause ∨
        cause = .notText ∧ ∃ bytes, t.read path = .ok bytes ∧ ¬IsText bytes :=
  bind_decode_eq_error_iff

/-! ## 3. Writing -/

/-- **What a write under a path can make of a tree**, whether it fails or not: nothing else, or a file
    with some bytes at the place that the path leads to. -/
inductive Wrote (t : FileTree) (path : String) : FileTree → Prop where
  | nothing : Wrote t path t
  | file {p : Place} (bytes : List UInt8) (leads : t.resolve path = .ok p)
      (free : t.find? p ≠ some .directory) : Wrote t path (t.put p (.file bytes))

/-- A fixed place is a directory in every tree. -/
theorem isFixed_eq_false (h : t.find? p ≠ some .directory) : p.isFixed = false := by
  cases hfixed : p.isFixed with
  | false => rfl
  | true => exact absurd (if_pos hfixed) h

/-- A step is made from a directory. -/
theorem find?_of_step {name : String} (h : t.step q name = .ok r) :
    t.find? q = some .directory := by
  unfold step at h
  split at h
  · cases h
  · cases h
  · cases h
  · cases h
  · assumption

/-- Steps pass directories only, so they lead the same way when a file is put where there was no
    directory. -/
theorem step_put_eq_ok_iff (hp : t.find? p ≠ some .directory) {name : String} :
    (t.put p (.file bytes)).step q name = .ok r ↔ t.step q name = .ok r := by
  by_cases hq : q = p
  · subst hq
    have hfile : (t.put q (.file bytes)).find? q = some (.file bytes) :=
      find?_put_self (isFixed_eq_false hp)
    constructor
    · intro h
      cases hfile.symm.trans (find?_of_step h)
    · intro h
      exact absurd (find?_of_step h) hp
  · rw [step, step, find?_put_of_ne hq]

theorem foldlM_step_put_eq_ok_iff (hp : t.find? p ≠ some .directory) {names : List String} :
    names.foldlM (t.put p (.file bytes)).step q = .ok r ↔ names.foldlM t.step q = .ok r := by
  induction names generalizing q with
  | nil => rfl
  | cons name names ih =>
    have hstep : ∀ s, (t.put p (.file bytes)).step q name = .ok s ↔ t.step q name = .ok s :=
      fun _ => step_put_eq_ok_iff hp
    rw [List.foldlM_cons, List.foldlM_cons]
    cases hto : t.step q name with
    | ok s =>
      rw [(hstep s).mpr hto]
      exact ih
    | error cause =>
      cases hafter : (t.put p (.file bytes)).step q name with
      | ok s => cases hto.symm.trans ((hstep s).mp hafter)
      | error other => exact ⟨fun h => (nomatch h), fun h => (nomatch h)⟩

/-- A path leads to where its steps lead, if the path can be used at all. -/
theorem resolve_eq_ok_iff :
    t.resolve path = .ok r ↔
      ('\x00' ∉ path.toList ∧ path ≠ "" ∧ path.utf8ByteSize ≤ longestPath) ∧
        (Place.steps path).foldlM t.step (Place.start path) = .ok r := by
  unfold resolve follow
  split
  · rename_i hnul
    simp [hnul]
  · rename_i hnul
    split
    · rename_i hempty
      simp [hempty]
    · rename_i hempty
      split
      · rename_i hlong
        simp [Nat.not_le.mpr hlong]
      · rename_i hlong
        simp [hnul, hempty, Nat.not_lt.mp hlong]

namespace Wrote

/-- **Every path leads to the same place before and after a write.** -/
theorem resolve_eq_ok_iff (h : Wrote t path u) {other : String} :
    u.resolve other = .ok r ↔ t.resolve other = .ok r := by
  cases h with
  | nothing => rfl
  | file bytes leads free =>
    rw [FileTree.resolve_eq_ok_iff, FileTree.resolve_eq_ok_iff, foldlM_step_put_eq_ok_iff free]

/-- **Every place but the one that the path leads to is as it was.** -/
theorem find?_of_ne (h : Wrote t path u) (hq : t.resolve path ≠ .ok q) :
    u.find? q = t.find? q := by
  cases h with
  | nothing => rfl
  | file bytes leads free =>
    refine find?_put_of_ne ?_
    rintro rfl
    exact hq leads

end Wrote

/-- Where a file of a path is written, the path leads. -/
theorem resolve_of_target (h : t.target path = .ok p) : t.resolve path = .ok p := by
  unfold target at h
  split at h
  · exact h
  · split at h
    · cases h
    · cases h

/-- **What a write does**: the file is put where the path leads, and no directory was there. -/
theorem write_eq_ok {fault : Option WriteFault} (h : t.write path bytes fault = .ok u) :
    ∃ p, t.resolve path = .ok p ∧ t.find? p ≠ some .directory ∧ u = t.put p (.file bytes) := by
  unfold write at h
  split at h
  · cases h
  · rename_i p htarget
    unfold writeAt at h
    split at h
    · cases h
    · cases h
    · cases h
    · rename_i hp _ _
      split at h
      · cases h
        exact ⟨p, resolve_of_target htarget, hp, rfl⟩
      · cases h

theorem wrote_of_write {fault : Option WriteFault} (h : t.write path bytes fault = .ok u) :
    Wrote t path u := by
  obtain ⟨p, hresolve, hp, rfl⟩ := write_eq_ok h
  exact .file bytes hresolve hp

/-- **What a write does when it fails**: nothing, or it leaves a file where the path leads. -/
theorem write_eq_error {fault : Option WriteFault} {failed : FailedWrite}
    (h : t.write path bytes fault = .error failed) : Wrote t path failed.tree := by
  unfold write at h
  split at h
  · cases h
    exact .nothing
  · rename_i p htarget
    unfold writeAt at h
    split at h
    · cases h
      exact .nothing
    · cases h
      exact .nothing
    · cases h
      exact .nothing
    · rename_i hp _ _
      split at h
      · cases h
      · rename_i f
        cases h
        cases hleft : f.left with
        | none => exact .nothing
        | some bytes => exact .file bytes (resolve_of_target htarget) hp

theorem read_eq_ok_iff :
    t.read path = .ok bytes ↔ ∃ p, t.resolve path = .ok p ∧ t.find? p = some (.file bytes) := by
  unfold read
  cases hto : t.resolve path with
  | error cause => simp
  | ok p =>
    simp only [Except.ok.injEq, exists_eq_left']
    split <;> simp [*]

/-- **What was written is read back.** -/
theorem read_write {fault : Option WriteFault} (h : t.write path bytes fault = .ok u) :
    u.read path = .ok bytes := by
  have hwrote := wrote_of_write h
  obtain ⟨p, hresolve, hp, rfl⟩ := write_eq_ok h
  exact read_eq_ok_iff.mpr
    ⟨p, hwrote.resolve_eq_ok_iff.mpr hresolve, find?_put_self (isFixed_eq_false hp)⟩

/-- What can be read is read as before after a write somewhere else. -/
theorem Wrote.read_eq_ok {other : String} (h : Wrote t path u) (hread : t.read other = .ok bytes)
    (hne : t.resolve path ≠ t.resolve other) : u.read other = .ok bytes := by
  obtain ⟨p, hresolve, hfile⟩ := read_eq_ok_iff.mp hread
  rw [hresolve] at hne
  exact read_eq_ok_iff.mpr ⟨p, h.resolve_eq_ok_iff.mpr hresolve, (h.find?_of_ne hne).trans hfile⟩

/-! ## 4. What is found at a path -/

theorem eq_of_step {name : String} (h : t.step q name = .ok r) : r = q.step name := by
  unfold step at h
  split at h
  · cases h
  · cases h
  · cases h
  · cases h
  · split at h
    · cases h
    · cases h
      rfl

/-- Steps hang on the places that they pass alone. -/
theorem foldlM_step_congr {names : List String}
    (h : ∀ q ∈ Place.along p names, t.find? q = u.find? q) :
    names.foldlM t.step p = names.foldlM u.step p := by
  induction names generalizing p with
  | nil => rfl
  | cons name names ih =>
    obtain ⟨hp, hrest⟩ := List.forall_mem_cons.mp h
    have hstep : t.step p name = u.step p name := by rw [step, step, hp]
    rw [List.foldlM_cons, List.foldlM_cons, hstep]
    cases hto : u.step p name with
    | error cause => rfl
    | ok q =>
      obtain rfl := eq_of_step hto
      exact ih hrest

/-- Steps lead to one of the places that they pass. -/
theorem mem_along_of_foldlM_step {names : List String} (h : names.foldlM t.step p = .ok r) :
    r ∈ Place.along p names := by
  induction names generalizing p with
  | nil =>
    cases h
    exact List.mem_cons_self
  | cons name names ih =>
    rw [List.foldlM_cons] at h
    cases hto : t.step p name with
    | error cause =>
      rw [hto] at h
      cases h
    | ok q =>
      rw [hto] at h
      obtain rfl := eq_of_step hto
      exact List.mem_cons_of_mem p (ih h)

theorem resolve_congr (h : ∀ q ∈ Place.passed path, t.find? q = u.find? q) :
    t.resolve path = u.resolve path := by
  unfold resolve follow
  rw [foldlM_step_congr h]

/-- A path leads to one of the places that it passes. -/
theorem mem_passed_of_resolve (h : t.resolve path = .ok r) : r ∈ Place.passed path :=
  mem_along_of_foldlM_step (resolve_eq_ok_iff.mp h).2

/-- **Whether there is something at a path hangs on the places that it passes alone.** -/
theorem exists?_congr (h : ∀ q ∈ Place.passed path, t.find? q = u.find? q) :
    t.exists? path = u.exists? path := by
  unfold exists?
  rw [← resolve_congr h]
  cases hto : t.resolve path with
  | error cause => rfl
  | ok q => simp only [h q (mem_passed_of_resolve hto)]

/-- **What is read at a path hangs on the places that it passes alone.** -/
theorem read_congr (h : ∀ q ∈ Place.passed path, t.find? q = u.find? q) :
    t.read path = u.read path := by
  unfold read
  rw [← resolve_congr h]
  cases hto : t.resolve path with
  | error cause => rfl
  | ok q => simp only [h q (mem_passed_of_resolve hto)]

end FileTree

end TextMelody
