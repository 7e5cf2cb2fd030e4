import ContractAudit.Engine
import Mathlib

namespace ContractAudit

/-- The number of findings that an event of a run tells of. -/
def Event.issues : Event → Nat
  | .finished _ findings => findings
  | .failed _ _ => 1
  | _ => 0

def Detector.Faults (d : Detector) (tree : Node) (source : String) : Prop :=
  ∃ fault, d.detect tree source = .error fault

namespace Engine

def isolating (engine : Engine) (isolate : Bool) : Engine :=
  { engine with config := { engine.config with isolateFaults := isolate } }

def enabled (engine : Engine) : List Detector :=
  engine.registry.detectors.filter fun d ↦ d.id ∈ engine.config.enabledDetectors

/-- What a detector adds to the findings of an isolated run. -/
def contribution (tree : Node) (source : String) (d : Detector) : List Finding :=
  match d.detect tree source with
  | .ok found => found
  | .error fault => [faultFinding d.id fault]

/-- What is observed of a detector while it runs. -/
def detectorEvents (tree : Node) (source : String) (d : Detector) : List Event :=
  match d.detect tree source with
  | .ok found => [.started d.id, .finished d.id found.length]
  | .error fault => [.started d.id, .failed d.id fault]

variable {tree : Node} {source : String}

theorem mem_contribution {d : Detector} {f : Finding} : f ∈ contribution tree source d ↔
    (∃ found, d.detect tree source = Except.ok found ∧ f ∈ found) ∨
      ∃ fault, d.detect tree source = Except.error fault ∧ f = faultFinding d.id fault := by
  cases h : d.detect tree source <;> simp [contribution, h]

theorem runDetectors_isolated (tree : Node) (source : String) (detectors : List Detector) :
    runDetectors true tree source detectors =
      (detectors.flatMap (detectorEvents tree source),
        Except.ok (detectors.flatMap (contribution tree source))) := by
  induction detectors with
  | nil => rfl
  | cons d ds ih =>
    rw [runDetectors, ih, List.flatMap_cons, List.flatMap_cons]
    cases h : d.detect tree source <;> simp [detectorEvents, contribution, h, Except.map]

theorem runDetectors_of_no_fault (isolate : Bool) {detectors : List Detector}
    (h : ∀ d ∈ detectors, ¬ d.Faults tree source) :
    runDetectors isolate tree source detectors = runDetectors true tree source detectors := by
  induction detectors with
  | nil => rfl
  | cons d ds ih =>
    have hds := ih fun e he ↦ h e (List.mem_cons_of_mem _ he)
    cases hd : d.detect tree source with
    | ok found => simp only [runDetectors, hd, hds]
    | error fault => exact absurd ⟨fault, hd⟩ (h d List.mem_cons_self)

theorem runDetectors_first_fault {before : List Detector} {d : Detector} {fault : Fault}
    (hb : ∀ e ∈ before, ¬ e.Faults tree source) (hd : d.detect tree source = Except.error fault)
    (after : List Detector) :
    runDetectors false tree source (before ++ d :: after) =
      (before.flatMap (detectorEvents tree source) ++ [Event.started d.id, .failed d.id fault],
        Except.error (.detector d.id fault)) := by
  induction before with
  | nil => simp [runDetectors, hd]
  | cons e es ih =>
    have hes := ih fun e he ↦ hb e (List.mem_cons_of_mem _ he)
    cases he : e.detect tree source with
    | ok found => simp [runDetectors, he, hes, detectorEvents, Except.map]
    | error fault => exact absurd ⟨fault, he⟩ (hb e List.mem_cons_self)

theorem exists_first_fault {detectors : List Detector}
    (h : ∃ d ∈ detectors, d.Faults tree source) :
    ∃ (before : List Detector) (d : Detector) (after : List Detector) (fault : Fault),
      detectors = before ++ d :: after ∧
      (∀ e ∈ before, ¬ e.Faults tree source) ∧ d.detect tree source = Except.error fault := by
  induction detectors with
  | nil => simp at h
  | cons d ds ih =>
    cases hd : d.detect tree source with
    | error fault => exact ⟨[], d, ds, fault, rfl, by simp, hd⟩
    | ok found =>
      have hok : ¬ d.Faults tree source := by simp [Detector.Faults, hd]
      obtain ⟨before, e, after, fault, rfl, hb, he⟩ := ih (by simpa [hok] using h)
      exact ⟨d :: before, e, after, fault, rfl, List.forall_mem_cons.mpr ⟨hok, hb⟩, he⟩

/-- Each finding of an isolated run is told of by one event. -/
theorem length_contributions (tree : Node) (source : String) (detectors : List Detector) :
    (detectors.flatMap (contribution tree source)).length =
      ((detectors.flatMap (detectorEvents tree source)).map Event.issues).sum := by
  induction detectors with
  | nil => rfl
  | cons d ds ih =>
    rw [List.flatMap_cons, List.flatMap_cons, List.length_append, List.map_append,
      List.sum_append, ih]
    cases h : d.detect tree source <;> simp [detectorEvents, contribution, h, Event.issues]

theorem reportBuilt_not_mem_detectorEvents (path : String) (issueCount : Nat) (d : Detector) :
    .reportBuilt path issueCount ∉ detectorEvents tree source d := by
  cases h : d.detect tree source <;> simp [detectorEvents, h]

theorem run_eq (engine : Engine) (tree : Node) (source : String) :
    engine.run tree source =
      runDetectors engine.config.isolateFaults tree source engine.enabled := by
  simp [run, Registry.selected, enabled]

theorem audit_of_run {engine : Engine} {events : List Event} {findings : List Finding}
    (h : engine.run tree source = (events, Except.ok findings)) (now : Timestamp) (path : String) :
    engine.audit now path tree source = (events ++ [Event.reportBuilt path findings.length],
      Except.ok ⟨findings, Report.build path findings now⟩) := by
  rw [audit, h]
  rfl

theorem audit_snd_eq_map (engine : Engine) (now : Timestamp) (path : String) (tree : Node)
    (source : String) : (engine.audit now path tree source).2 =
      (engine.run tree source).2.map fun findings ↦
        ⟨findings, Report.build path findings now⟩ := by
  rw [audit]
  obtain ⟨events, outcome⟩ := engine.run tree source
  cases outcome <;> rfl

/-- An audit succeeds if it is isolated or no detector faults, and then all enabled detectors have
run. -/
theorem audit_eq_ok_iff {engine : Engine} {now : Timestamp} {path : String} {run : AuditRun} :
    (engine.audit now path tree source).2 = Except.ok run ↔
      (engine.config.isolateFaults = true ∨ ∀ d ∈ engine.enabled, ¬ d.Faults tree source) ∧
      run.findings = engine.enabled.flatMap (contribution tree source) ∧
      run.report = Report.build path run.findings now := by
  rw [audit_snd_eq_map, run_eq]
  by_cases hs : engine.config.isolateFaults = true ∨ ∀ d ∈ engine.enabled, ¬ d.Faults tree source
  · have hrun : runDetectors engine.config.isolateFaults tree source engine.enabled =
        runDetectors true tree source engine.enabled := by
      rcases hs with hi | hf
      · rw [hi]
      · exact runDetectors_of_no_fault _ hf
    rw [hrun, runDetectors_isolated, and_iff_right hs]
    obtain ⟨findings, report⟩ := run
    simp only [Except.map, Except.ok.injEq, AuditRun.mk.injEq]
    constructor
    · rintro ⟨rfl, rfl⟩
      exact ⟨rfl, rfl⟩
    · rintro ⟨rfl, rfl⟩
      exact ⟨rfl, rfl⟩
  · obtain ⟨hi, hf⟩ := not_or.mp hs
    have hfault : ∃ d ∈ engine.enabled, d.Faults tree source := by
      simpa only [not_forall, not_not, exists_prop] using hf
    obtain ⟨before, d, after, fault, he, hb, hd⟩ := exists_first_fault hfault
    have hrun : (runDetectors engine.config.isolateFaults tree source engine.enabled).2 =
        Except.error (.detector d.id fault) := by
      rw [Bool.eq_false_iff.mpr hi, he, runDetectors_first_fault hb hd after]
    rw [hrun]
    exact ⟨nofun, fun h ↦ absurd h.1 hs⟩

/-- An isolated audit runs all enabled detectors and reports their findings, one for each fault. An
audit that is not isolated does the same if no detector faults, and else ends as the isolated one
does up to its first fault. -/
theorem audit_isolating (engine : Engine) (now later : Timestamp) (path : String) (tree : Node)
    (source : String) :
    let events := engine.enabled.flatMap (detectorEvents tree source)
    let findings := engine.enabled.flatMap (contribution tree source)
    let report := Report.build path findings now
    let allEvents := events ++ [Event.reportBuilt path (events.map Event.issues).sum]
    (engine.isolating true).audit now path tree source = (allEvents, Except.ok ⟨findings, report⟩) ∧
    (∀ (d : Detector) fault, d.detect tree source = Except.error fault → ∃ f : Finding,
      contribution tree source d = [f] ∧ f.detector = DetectorId.detectorError ∧
        f.severity = Severity.low ∧ f.line = fault.line ∧ f.details = fault.message) ∧
    ((∀ d ∈ engine.enabled, ¬ d.Faults tree source) →
      (engine.isolating false).audit later path tree source =
        (allEvents, Except.ok ⟨findings, { report with timestamp := later }⟩)) ∧
    ((∃ d ∈ engine.enabled, d.Faults tree source) →
      ∃ (before : List Detector) (d : Detector) (after : List Detector) (fault : Fault),
      engine.enabled = before ++ d :: after ∧ (∀ e ∈ before, ¬ e.Faults tree source) ∧
      d.detect tree source = Except.error fault ∧ ∃ events : List Event,
        (engine.isolating false).audit later path tree source =
          (events, Except.error (.detector d.id fault)) ∧
        events = before.flatMap (detectorEvents tree source) ++
          [Event.started d.id, .failed d.id fault] ∧
        events <+: allEvents ∧ ∀ path issueCount, .reportBuilt path issueCount ∉ events) := by
  intro events findings report allEvents
  have hcount : findings.length = (events.map Event.issues).sum :=
    length_contributions tree source engine.enabled
  have hisolated := runDetectors_isolated tree source engine.enabled
  refine ⟨?_, ?_, ?_, ?_⟩
  · have hrun : (engine.isolating true).run tree source = (events, .ok findings) := by
      rw [run_eq]
      exact hisolated
    rw [audit_of_run hrun, hcount]
  · intro d fault hd
    exact ⟨faultFinding d.id fault, by simp [contribution, hd], rfl, rfl, rfl, rfl⟩
  · intro hok
    have hrun : (engine.isolating false).run tree source = (events, .ok findings) := by
      rw [run_eq]
      exact (runDetectors_of_no_fault false hok).trans hisolated
    rw [audit_of_run hrun, hcount]
    rfl
  · intro hfault
    obtain ⟨before, d, after, fault, he, hb, hd⟩ := exists_first_fault hfault
    refine ⟨before, d, after, fault, he, hb, hd, _, ?_, rfl, ?_, ?_⟩
    · have hrun := runDetectors_first_fault hb hd after
      rw [← he] at hrun
      rw [audit, run_eq]
      exact hrun ▸ rfl
    · -- The isolated run goes through the same detectors first, and then past the fault.
      have hlast : detectorEvents tree source d = [.started d.id, .failed d.id fault] := by
        simp [detectorEvents, hd]
      have hsplit : events = before.flatMap (detectorEvents tree source) ++
          [.started d.id, .failed d.id fault] ++ after.flatMap (detectorEvents tree source) := by
        simp [events, he, hlast]
      exact (hsplit ▸ List.prefix_append _ _).trans (List.prefix_append _ _)
    · intro path issueCount
      simp [reportBuilt_not_mem_detectorEvents]

def constantDetector (id : DetectorId) (answer : Except Fault (List Finding)) : Detector where
  id := id
  name := id.name
  severity := .low
  detect _ _ := answer

def faultyEngine : Engine where
  registry := ⟨[constantDetector .reentrancy (.ok []),
    constantDetector .uncheckedCall (.error ⟨"Block", 3, "odd"⟩),
    constantDetector .accessControl (.error ⟨"Literal", 5, "odd"⟩)]⟩

theorem audit_isolating_faulty : (∃ d ∈ faultyEngine.enabled, d.Faults (.block ⟨1, 0⟩ []) "") ∧
    ((faultyEngine.isolating true).audit .epoch "A.sol" (.block ⟨1, 0⟩ []) "").1 =
      [.started .reentrancy, .finished .reentrancy 0, .started .uncheckedCall,
        .failed .uncheckedCall ⟨"Block", 3, "odd"⟩, .started .accessControl,
        .failed .accessControl ⟨"Literal", 5, "odd"⟩, .reportBuilt "A.sol" 2] ∧
    ∃ (d : Detector) (fault : Fault) (events : List Event),
      (faultyEngine.isolating false).audit .epoch "A.sol" (.block ⟨1, 0⟩ []) "" =
        (events, .error (.detector d.id fault)) := by
  have hf : ∃ d ∈ faultyEngine.enabled, d.Faults (.block ⟨1, 0⟩ []) "" :=
    ⟨constantDetector .uncheckedCall (.error ⟨"Block", 3, "odd"⟩), .tail _ (.head _), _, rfl⟩
  obtain ⟨hall, -, -, hstop⟩ :=
    audit_isolating faultyEngine .epoch .epoch "A.sol" (.block ⟨1, 0⟩ []) ""
  obtain ⟨-, d, -, fault, -, -, -, events, hrun, -, -, -⟩ := hstop hf
  exact ⟨hf, congrArg Prod.fst hall, d, fault, events, hrun⟩

end Engine

end ContractAudit
