import ContractAudit.Proofs.Report
import ContractAudit.Report.Json
import ContractAudit.Report.Markdown

namespace ContractAudit.Report

def Step.enhancement? : Step → Option Enhancement
  | .enhance analysis now => some ⟨analysis, now⟩
  | .fail _ => none

def attached? (steps : List Step) : Option Enhancement :=
  (steps.filterMap Step.enhancement?).getLast?

theorem narrative_apply (r : Report) (step : Step) :
    (step.apply r).narrative = step.enhancement?.or r.narrative := by
  cases step <;> rfl

theorem narrative_foldl_apply (steps : List Step) (r : Report) :
    (steps.foldl Step.apply r).narrative = (attached? steps).or r.narrative := by
  induction steps generalizing r with
  | nil => rfl
  | cons step steps ih =>
    rw [List.foldl_cons, ih, narrative_apply, ← Option.or_assoc]
    congr 1
    cases h : step.enhancement? with
    | none => simp [attached?, h]
    | some e =>
      rw [attached?, attached?, List.filterMap_cons_some h, List.getLast?_cons]
      cases (steps.filterMap Step.enhancement?).getLast? <;> rfl

theorem attached?_eq_none_iff (steps : List Step) :
    attached? steps = none ↔ ∀ analysis now, Step.enhance analysis now ∉ steps := by
  rw [attached?, List.getLast?_eq_none_iff, List.filterMap_eq_nil_iff]
  constructor
  · intro h analysis now hmem
    cases h _ hmem
  · intro h step hmem
    cases step with
    | enhance analysis now => exact absurd hmem (h analysis now)
    | fail message => rfl

theorem foldl_apply_withNarrativeError (path : String) (fs : List Finding) (timestamp : Timestamp)
    (steps : List Step) (message : String) :
    (steps.foldl Step.apply (build path fs timestamp)).withNarrativeError message =
      { build path fs timestamp with
        narrative := attached? steps, narrativeError := some message } := by
  obtain ⟨narrative, narrativeError, h⟩ := foldl_apply_eq steps (build path fs timestamp)
  have hnarrative := narrative_foldl_apply steps (build path fs timestamp)
  rw [h] at hnarrative
  have hattached : narrative = attached? steps := hnarrative.trans Option.or_none
  rw [h, hattached]
  rfl

def failureNote (message : String) : String := "_Narrative analysis unavailable: " ++ message ++ "_"

theorem withNarrativeError_eq_iff (r : Report) (message : String) :
    r.withNarrativeError message =
      { r with narrative := none, narrativeError := some message } ↔ r.narrative = none := by
  constructor
  · intro h
    exact congrArg narrative h
  · intro h
    rw [withNarrativeError, h]

theorem lines_eq_append (r : Report) :
    Markdown.lines r =
      Markdown.lines { r with narrative := none, narrativeError := none } ++
        Markdown.narrative r := by
  simp only [Markdown.lines, Markdown.preamble, Markdown.narrative, List.append_nil]

theorem narrative_eq_failureNote_iff {r : Report} {message : String}
    (h : r.narrativeError = some message) :
    Markdown.narrative r = [failureNote message, ""] ↔ r.narrative = none := by
  rw [Markdown.narrative, h]
  cases r.narrative with
  | none => exact ⟨fun _ ↦ rfl, fun _ ↦ rfl⟩
  | some e =>
    constructor
    · intro heq
      cases congrArg List.length heq
    · intro heq
      cases heq

/-- A failure sets its message and changes nothing else. An analysis attached before it stays in the
report, and then the document is the one without the failure; so the note on the failure is shown
only if there was no analysis. -/
theorem withNarrativeError_shows (path : String) (fs : List Finding) (timestamp : Timestamp)
    (steps : List Step) (message : String) :
    let made := build path fs timestamp
    let r := steps.foldl Step.apply made
    let failed := r.withNarrativeError message
    failed = { r with narrativeError := some message } ∧ failed.narrative = attached? steps ∧
    (failed = { r with narrative := none, narrativeError := some message } ↔
      ∀ analysis now, Step.enhance analysis now ∉ steps) ∧
    (∃ fields, made.toJson = .object fields ∧ failed.toJson = .object
      (fields ++ ((attached? steps).map fun e ↦ ("ai", e.toJson)).toList ++
        [("aiError", .text message)])) ∧
    (Markdown.lines failed = match attached? steps with
      | some e => Markdown.lines (made.enhance e.analysis e.timestamp)
      | none => Markdown.lines made ++ [failureNote message, ""]) ∧
    (Markdown.narrative failed = [failureNote message, ""] ↔
      ∀ analysis now, Step.enhance analysis now ∉ steps) := by
  intro made r failed
  have hfailed : failed =
      { made with narrative := attached? steps, narrativeError := some message } :=
    foldl_apply_withNarrativeError path fs timestamp steps message
  have hnarrative : r.narrative = attached? steps :=
    (narrative_foldl_apply steps made).trans Option.or_none
  have hnone := attached?_eq_none_iff steps
  refine ⟨rfl, hnarrative, ?_, ?_, ?_, ?_⟩
  · rw [← hnone, ← hnarrative]
    exact withNarrativeError_eq_iff r message
  · refine ⟨_, rfl, ?_⟩
    rw [hfailed]
    rfl
  · rw [lines_eq_append failed, hfailed]
    cases attached? steps with
    | none => rfl
    | some e => exact (lines_eq_append (made.enhance e.analysis e.timestamp)).symm
  · rw [← hnone, ← hnarrative]
    exact narrative_eq_failureNote_iff rfl

def analysed : Report := (build "T.sol" [] .epoch).enhance ⟨"No issues.", "mock", 5⟩ .epoch

/-- A report with an analysis still shows it after a failure, and its document hides the failure. -/
theorem withNarrativeError_analysed :
    (analysed.withNarrativeError "timeout").narrative = analysed.narrative ∧
      analysed.withNarrativeError "timeout" ≠
        { analysed with narrative := none, narrativeError := some "timeout" } ∧
      Markdown.lines (analysed.withNarrativeError "timeout") = Markdown.lines analysed ∧
      failureNote "timeout" ∉ Markdown.lines (analysed.withNarrativeError "timeout") := by
  refine ⟨rfl, ?_, rfl, by decide⟩
  intro h
  cases congrArg narrative h

end ContractAudit.Report
