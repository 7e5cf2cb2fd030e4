import ContractAudit.Detector.Registry
import ContractAudit.Error
import ContractAudit.Report.Basic

namespace ContractAudit

inductive Event where
  | started (id : DetectorId)
  | finished (id : DetectorId) (findings : Nat)
  | failed (id : DetectorId) (fault : Fault)
  | reportBuilt (path : String) (issueCount : Nat)
  deriving DecidableEq, Repr

def Event.render : Event → String
  | .started id => "start " ++ id.name
  | .finished id findings => "done " ++ id.name ++ " " ++ toString findings
  | .failed id fault => "fail " ++ id.name ++ ": " ++ fault.message
  | .reportBuilt path issueCount => "report " ++ path ++ " " ++ toString issueCount

/-- The outcome of an audit: the findings in the order in which they were produced, and the
report. -/
structure AuditRun where
  findings : List Finding
  report : Report
  deriving DecidableEq

structure Engine where
  registry : Registry := .builtin
  config : Config := {}

namespace Engine

def faultFinding (id : DetectorId) (fault : Fault) : Finding where
  detector := .detectorError
  severity := .low
  description := "Detector " ++ id.name ++ " failed"
  details := fault.message
  line := fault.line

/-- Runs detectors one after another. The findings of each follow those of the ones before it. A
fault becomes a finding if faults are isolated, and else ends the run. -/
def runDetectors (isolate : Bool) (tree : Node) (source : String) :
    List Detector → List Event × Except AuditError (List Finding)
  | [] => ([], .ok [])
  | d :: ds =>
    match d.detect tree source with
    | .ok found =>
      let (events, rest) := runDetectors isolate tree source ds
      (.started d.id :: .finished d.id found.length :: events, rest.map (found ++ ·))
    | .error fault =>
      if isolate then
        let (events, rest) := runDetectors isolate tree source ds
        (.started d.id :: .failed d.id fault :: events, rest.map (faultFinding d.id fault :: ·))
      else ([.started d.id, .failed d.id fault], .error (.detector d.id fault))

def run (engine : Engine) (tree : Node) (source : String) :
    List Event × Except AuditError (List Finding) :=
  runDetectors engine.config.isolateFaults tree source
    (engine.registry.selected engine.config.enabledDetectors)

def audit (engine : Engine) (now : Timestamp) (path : String) (tree : Node) (source : String) :
    List Event × Except AuditError AuditRun :=
  match engine.run tree source with
  | (events, .error e) => (events, .error e)
  | (events, .ok findings) =>
    let report := Report.build path findings now
    (events ++ [.reportBuilt path report.issueCount], .ok ⟨findings, report⟩)

end Engine

end ContractAudit
