import ContractAudit.Report.Basic

namespace ContractAudit.Console

def findingLines (f : Finding) : List String :=
  ["", "[" ++ f.severity.shout ++ "] " ++ f.description, "  Line: " ++ toString f.line] ++
    (f.function.map ("  Function: " ++ ·)).toList ++
    ["  Detector: " ++ f.detector.name, "  Details: " ++ f.details] ++
    (f.stateChanges.map fun locs ↦
      "  State changes: " ++ String.intercalate ", " (locs.map Location.render)).toList

def severityLines (severity : Severity) : List Finding → List String
  | [] => ["✅ No " ++ severity.name ++ " severity issues found"]
  | findings =>
    (severity.emoji ++ " " ++ severity.shout ++ " SEVERITY ISSUES: " ++ toString findings.length) ::
      findings.flatMap findingLines

def summaryLines (summary : Summary) : List String :=
  ["", "====== SUMMARY ======", "Issues by Severity:"] ++
    Severity.all.map (fun s ↦
      "  " ++ s.title ++ ": " ++ toString (summary.severityCounts.get s)) ++
    match summary.detectorCounts.toList with
    | [] => []
    | entries =>
      "Issues by Detector:" :: entries.map fun (id, n) ↦ "  " ++ id.name ++ ": " ++ toString n

def narrativeLines (r : Report) : List String :=
  match r.narrative, r.narrativeError with
  | some e, _ =>
    ["", "====== NARRATIVE ANALYSIS ======", "Model: " ++ e.analysis.model, e.analysis.analysis]
  | none, some message => ["", "⚠️  Narrative analysis unavailable: " ++ message]
  | none, none => []

def lines (r : Report) : List String :=
  ["", "====== SMART CONTRACT AUDIT REPORT ======", "Contract: " ++ r.contractPath,
    "Date: " ++ r.timestamp.renderPlain, "Total Issues: " ++ toString r.issueCount, ""] ++
    Severity.all.flatMap (fun s ↦ severityLines s (r.issues.get s)) ++ summaryLines r.summary ++
    narrativeLines r

end ContractAudit.Console
