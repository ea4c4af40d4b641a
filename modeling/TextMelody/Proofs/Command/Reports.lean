import Mathlib.Data.List.Basic
import TextMelody.Command.Error

/-!
# Reports of failures

What a failed run tells is read by someone who wants to know what failed and why. So a report has to
open with the message about its failure and to show, line by line, what lies behind it; and it must
not be the report of a failure in another part of the run, whatever names and paths stand in it.

* `report_eq`: a report opens with the message;
* `infix_report_of_mem_causes`: every line of a cause stands in the report;
* `opening`, `stage_eq_of_report_eq`: the message tells which part of the run has failed;
* `reports_report`: **a report tells its failure from those of other parts**.
-/

namespace TextMelody.Command

/-- The part of a run that a failure ends, counted in the order in which they are done. -/
def Failure.stage : Failure → Nat
  | settings _ => 0
  | unknownInstrument _ => 1
  | unknownMode _ => 2
  | fileNotFound _ => 3
  | fileNotText _ => 3
  | fileUnreadable _ _ => 3
  | inputUnreadable _ => 3
  | midiNotWritten _ _ => 4
  | eventsNotWritten _ _ => 5

/-- **A text that reports a failure.** -/
structure Reports (f : Failure) (report : String) : Prop where
  message : ∃ rest, report = "Error: " ++ f.message ++ rest
  /-- Every line of what lies behind the failure can be read in it. -/
  causes : ∀ cause ∈ f.causes, ∀ line ∈ cause.toList.splitOn '\n', line <:+: report.toList
  /-- It is not the report of a failure in another part of the run. -/
  stage : ∀ g : Failure, g.report = report → g.stage = f.stage

namespace Failure

variable {f g : Failure}

/-! ## 1. Messages -/

/-- **A report opens with the message.** -/
theorem report_eq (f : Failure) : f.report = "Error: " ++ f.message ++ (f.behind ++ "\n") :=
  String.append_assoc

/-- How the message about a failure opens, whatever it is about. -/
def opening : Failure → String
  | settings _ => "loading configuration"
  | unknownInstrument _ => "unknown instrument '"
  | unknownMode _ => "unknown transducer mode '"
  | fileNotFound _ => "File '"
  | fileNotText _ => "File '"
  | fileUnreadable _ _ => "reading '"
  | inputUnreadable _ => "reading stdin"
  | midiNotWritten _ _ => "failed to write MIDI file "
  | eventsNotWritten _ _ => "writing events to "

theorem prefix_toList_append (s t : String) : s.toList <+: (s ++ t).toList := by
  rw [String.toList_append]
  exact List.prefix_append _ _

theorem prefix_message : ∀ f : Failure, f.opening.toList <+: f.message.toList
  | settings _ => List.prefix_refl _
  | unknownInstrument _ => (prefix_toList_append _ _).trans (prefix_toList_append _ _)
  | unknownMode _ => (prefix_toList_append _ _).trans (prefix_toList_append _ _)
  | fileNotFound _ => (prefix_toList_append _ _).trans (prefix_toList_append _ _)
  | fileNotText _ => (prefix_toList_append _ _).trans (prefix_toList_append _ _)
  | fileUnreadable _ _ => (prefix_toList_append _ _).trans (prefix_toList_append _ _)
  | inputUnreadable _ => List.prefix_refl _
  | midiNotWritten _ _ =>
    (prefix_toList_append _ _).trans ((prefix_toList_append _ _).trans (prefix_toList_append _ _))
  | eventsNotWritten _ _ => prefix_toList_append _ _

/-- An opening goes on as another one in the same part of a run alone. -/
theorem stage_eq_of_prefix_opening (f g : Failure) :
    f.opening.toList <+: g.opening.toList → f.stage = g.stage := by
  cases f <;> cases g <;> simp only [opening, stage] <;> decide +kernel

/-- **Reports of failures in different parts of a run differ.** -/
theorem stage_eq_of_report_eq (h : f.report = g.report) : f.stage = g.stage := by
  -- Both messages stand at the same place of the one report, so one opening goes on as the other.
  have hboth : f.message.toList ++ (f.behind ++ "\n").toList =
      g.message.toList ++ (g.behind ++ "\n").toList := by
    have hlist := congrArg String.toList h
    simpa only [report_eq, String.toList_append, List.append_assoc, List.append_cancel_left_eq]
      using hlist
  have hf := f.prefix_message.trans (List.prefix_append _ (f.behind ++ "\n").toList)
  have hg := g.prefix_message.trans (List.prefix_append _ (g.behind ++ "\n").toList)
  rw [← hboth] at hg
  rcases List.prefix_or_prefix_of_prefix hf hg with hgoesOn | hgoesOn
  · exact stage_eq_of_prefix_opening f g hgoesOn
  · exact (stage_eq_of_prefix_opening g f hgoesOn).symm

/-! ## 2. Causes -/

theorem infix_intercalate {α : Type} {l : List α} {ls : List (List α)} (h : l ∈ ls)
    (separator : List α) : l <:+: separator.intercalate ls := by
  induction ls with
  | nil => cases h
  | cons m ls ih =>
    cases ls with
    | nil =>
      obtain rfl := List.mem_singleton.mp h
      exact ⟨[], [], by rw [List.intercalate_singleton, List.nil_append, List.append_nil]⟩
    | cons n ls =>
      rw [List.intercalate_cons_cons]
      rcases List.mem_cons.mp h with rfl | h
      · exact ⟨[], _, by rw [List.nil_append, List.append_assoc]⟩
      · exact (ih h).trans (List.suffix_append _ _).isInfix

/-- An indented text shows every line of the text. -/
theorem infix_indented {s : String} {line : List Char} (h : line ∈ s.toList.splitOn '\n')
    (indent : String) : line <:+: (indented indent s).toList := by
  rw [indented, String.toList_intercalate, List.map_map]
  refine infix_intercalate (List.mem_map.mpr ⟨line, h, ?_⟩) _
  exact String.toList_ofList

/-- Every cause has its place among those of a report, with its lines indented. -/
theorem exists_causeLine {causes : List String} {cause : String} (h : cause ∈ causes) :
    ∃ text ∈ causeLines causes, ∃ indent, (indented indent cause).toList <:+: text.toList := by
  have hsuffix : ∀ s t : String, t.toList <:+: (s ++ t).toList := fun s t => by
    rw [String.toList_append]
    exact (List.suffix_append _ _).isInfix
  unfold causeLines
  split
  · rw [List.mem_singleton.mp h]
    exact ⟨_, List.mem_singleton_self _, "    ", hsuffix _ _⟩
  · rw [← List.zipIdx_map_fst 0 causes] at h
    obtain ⟨c, hc, rfl⟩ := List.mem_map.mp h
    exact ⟨_, List.mem_map_of_mem hc, "       ", hsuffix _ _⟩

/-- **Every line of a cause stands in the report.** -/
theorem infix_report_of_mem_causes {cause : String} (h : cause ∈ f.causes) {line : List Char}
    (hline : line ∈ cause.toList.splitOn '\n') : line <:+: f.report.toList := by
  obtain ⟨text, htext, indent, hindent⟩ := exists_causeLine h
  have hsome : f.causes ≠ [] := List.ne_nil_of_mem h
  have hshown : text.toList <:+: (String.intercalate "\n" (causeLines f.causes)).toList := by
    rw [String.toList_intercalate]
    exact infix_intercalate (List.mem_map_of_mem htext) _
  have hbehind : f.behind.toList <:+: f.report.toList := by
    rw [report, String.toList_append, String.toList_append]
    exact List.infix_append _ _ _
  have hcauses : (String.intercalate "\n" (causeLines f.causes)).toList <:+: f.behind.toList := by
    rw [behind, if_neg hsome, String.toList_append]
    exact (List.suffix_append _ _).isInfix
  have htold : line <:+: text.toList := (infix_indented hline indent).trans hindent
  exact htold.trans (hshown.trans (hcauses.trans hbehind))

/-- **A report tells its failure from those of other parts of the run.** -/
theorem reports_report (f : Failure) : Reports f f.report where
  message := ⟨_, report_eq f⟩
  causes _ hcause _ hline := infix_report_of_mem_causes hcause hline
  stage _ h := stage_eq_of_report_eq h

end Failure

end TextMelody.Command
