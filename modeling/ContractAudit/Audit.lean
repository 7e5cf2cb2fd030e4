import ContractAudit.Engine
import ContractAudit.Narrative.Analyzer

namespace ContractAudit

structure Grammar where
  tree : String → Except String Concrete.Tree

def Grammar.parse (grammar : Grammar) (source : String) : Except AuditError Node :=
  match grammar.tree source with
  | .error reason => .error (.grammar reason)
  | .ok tree => (tree.parse source).mapError .parse

/-- What an audit depends on besides the files that it is told to look at. -/
structure Auditor where
  engine : Engine
  grammar : Grammar
  disk : Disk
  now : Timestamp

namespace Auditor

def auditSource (a : Auditor) (path source : String) : List Event × Except AuditError AuditRun :=
  match a.grammar.parse source with
  | .error e => ([], .error e)
  | .ok tree => a.engine.audit a.now path tree source

def readSource (a : Auditor) (path : String) : Except AuditError String :=
  (a.disk.readText path).mapError (.io path)

def auditFile (a : Auditor) (path : String) : Except AuditError AuditRun := do
  (a.auditSource path (← a.readSource path)).2

def auditFiles (a : Auditor) (paths : List String) :
    List (String × Except AuditError AuditRun) :=
  paths.map fun path ↦ (path, a.auditFile path)

def attach (now : Timestamp) (report : Report) :
    Except Narrative.AnalyzerError Narrative.Analysis → Report
  | .ok analysis => report.enhance analysis now
  | .error e => report.withNarrativeError e.message

/-- Audits a file and attaches a narrative analysis of its source. An analyzer that fails leaves a
note in the report. -/
def auditWithNarrative (a : Auditor)
    (analyze : String → Except Narrative.AnalyzerError Narrative.Analysis) (path : String) :
    Except AuditError AuditRun := do
  let source ← a.readSource path
  let run ← (a.auditSource path source).2
  return { run with report := attach a.now run.report (analyze source) }

/-- Audits files one after another, each with a narrative analysis of its source. What the analyzer
says can differ from one time that it is asked to the next. -/
def auditFilesWithNarrative (a : Auditor)
    (analyze : Nat → String → Except Narrative.AnalyzerError Narrative.Analysis)
    (paths : List String) : List (String × Except AuditError AuditRun) :=
  paths.mapIdx fun i path ↦ (path, a.auditWithNarrative (analyze i) path)

end Auditor

end ContractAudit
