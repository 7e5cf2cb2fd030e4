import ContractAudit.Audit
import ContractAudit.Proofs.Engine

namespace ContractAudit

open Narrative

/-- The report without its moment and without what a narrative analysis has added. -/
def Report.bare (r : Report) : Report :=
  { r with timestamp := .epoch, narrative := none, narrativeError := none }

/-- The report shows what an analyzer said: its analysis as it is, or else why there is none, and
not both. -/
def Report.Shows (r : Report) : Except AnalyzerError Analysis → Prop
  | .ok analysis => r.narrative.map (·.analysis) = some analysis ∧ r.narrativeError = none
  | .error e => r.narrative = none ∧ r.narrativeError = some e.message

/-- An audit and one with a narrative analysis fail alike, or both succeed and the second one
differs only in that its report shows what the analyzer said. -/
inductive Agree (said : Except AnalyzerError Analysis) :
    Except AuditError AuditRun → Except AuditError AuditRun → Prop
  | error (e : AuditError) : Agree said (.error e) (.error e)
  | ok {plain narrated : AuditRun} (findings : narrated.findings = plain.findings)
      (report : narrated.report.bare = plain.report.bare)
      (narrative : narrated.report.Shows said) : Agree said (.ok plain) (.ok narrated)

namespace Auditor

def findingsIn (a : Auditor) (source : String) : Except AuditError (List Finding) := do
  (a.engine.run (← a.grammar.parse source) source).2

theorem auditSource_snd_eq_map (a : Auditor) (path source : String) :
    (a.auditSource path source).2 = (a.findingsIn source).map fun findings ↦
      ⟨findings, Report.build path findings a.now⟩ := by
  rw [auditSource, findingsIn]
  cases a.grammar.parse source with
  | error e => rfl
  | ok tree => exact a.engine.audit_snd_eq_map a.now path tree source

theorem auditFile_eq (a : Auditor) (path : String) :
    a.auditFile path = (a.readSource path).bind fun source ↦
      (a.findingsIn source).map fun findings ↦ ⟨findings, Report.build path findings a.now⟩ := by
  rw [auditFile]
  cases a.readSource path with
  | error e => rfl
  | ok source => exact a.auditSource_snd_eq_map path source

theorem auditWithNarrative_eq (a : Auditor) (analyze : String → Except AnalyzerError Analysis)
    (path : String) :
    a.auditWithNarrative analyze path = (a.readSource path).bind fun source ↦
      (a.findingsIn source).map fun findings ↦
        ⟨findings, attach a.now (Report.build path findings a.now) (analyze source)⟩ := by
  rw [auditWithNarrative]
  cases a.readSource path with
  | error e => rfl
  | ok source =>
    simp only [bind, Except.bind, a.auditSource_snd_eq_map path source]
    cases a.findingsIn source with
    | error e => rfl
    | ok findings => rfl

theorem attach_bare (now : Timestamp) (r : Report) (said : Except AnalyzerError Analysis) :
    (attach now r said).bare = r.bare := by
  cases said <;> rfl

theorem attach_shows (now : Timestamp) {r : Report} (hn : r.narrative = none)
    (he : r.narrativeError = none) (said : Except AnalyzerError Analysis) :
    (attach now r said).Shows said := by
  cases said with
  | ok analysis => exact ⟨rfl, he⟩
  | error e => exact ⟨hn, rfl⟩

theorem auditWithNarrative_agree (a : Auditor) (later : Timestamp)
    (said : Except AnalyzerError Analysis) (path : String) :
    Agree said (a.auditFile path)
      (({ a with now := later } : Auditor).auditWithNarrative (fun _ ↦ said) path) := by
  -- The two auditors differ in the moment, which only reports contain.
  have hread : ({ a with now := later } : Auditor).readSource path = a.readSource path := rfl
  have hfindings (source : String) :
      ({ a with now := later } : Auditor).findingsIn source = a.findingsIn source := rfl
  rw [auditFile_eq, auditWithNarrative_eq, hread]
  cases a.readSource path with
  | error e => exact .error e
  | ok source =>
    simp only [Except.bind, hfindings]
    cases a.findingsIn source with
    | error e => exact .error e
    | ok findings => exact .ok rfl (attach_bare _ _ said) (attach_shows _ rfl rfl said)

/-- With a narrative analysis from a file or without one, audits of files give their results in the
order of the paths, and the results for a path agree. -/
theorem auditFilesWithNarrative_agree (a : Auditor) (later : Timestamp) (decode : Decoder)
    (elapsedMs : Nat → Nat) (narrative : String) (paths : List String) :
    let plain := a.auditFiles paths
    let narrated := ({ a with now := later } : Auditor).auditFilesWithNarrative
      (fun i ↦ Analyzer.analyze decode (elapsedMs i) a.disk (.file narrative)) paths
    plain.map Prod.fst = paths ∧ narrated.map Prod.fst = paths ∧
      List.Forall₂ (fun p n ↦ Agree (readFile decode (elapsedMs p.2) a.disk narrative) p.1.2 n.2)
        plain.zipIdx narrated := by
  intro plain narrated
  have hnarrated : narrated = paths.zipIdx.map fun call ↦ (call.1,
      ({ a with now := later } : Auditor).auditWithNarrative
        (Analyzer.analyze decode (elapsedMs call.2) a.disk (.file narrative)) call.1) :=
    List.mapIdx_eq_zipIdx_map
  refine ⟨?_, ?_, ?_⟩
  · simp [plain, auditFiles, Function.comp_def]
  · rw [hnarrated, List.map_map]
    exact List.zipIdx_map_fst 0 paths
  · rw [hnarrated]
    simp only [plain, auditFiles, List.zipIdx_map, List.forall₂_map_left_iff,
      List.forall₂_map_right_iff, List.forall₂_same]
    intro call _
    exact a.auditWithNarrative_agree later _ call.1

end Auditor

end ContractAudit
