import ContractAudit.Report.Basic

namespace ContractAudit.Markdown

/-- At most `limit` characters, of which the last three are dots where the text is longer. -/
def truncate (limit : Nat) (cs : List Char) : List Char :=
  if cs.length ≤ limit then cs else cs.take (limit - 3) ++ ['.', '.', '.']

/-- A text as a cell of a table holds it: bars are escaped and line feeds are blanks. -/
def escapeCell (cs : List Char) : List Char :=
  cs.flatMap fun c ↦ if c = '|' then ['\\', '|'] else if c = '\n' then [' '] else [c]

def cell (details : String) : String :=
  String.ofList (escapeCell (truncate 120 details.toList))

def row (index : Nat) (f : Finding) : String :=
  "| " ++ toString index ++ " | " ++ toString f.line ++ " | " ++ f.function.getD "-" ++ " | " ++
    f.detector.name ++ " | " ++ cell f.details ++ " |"

def rows (index : Nat) : List Finding → List String
  | [] => []
  | f :: fs => row index f :: rows (index + 1) fs

def tableHead : List String :=
  ["| # | Line | Function | Detector | Finding |", "|---|------|----------|----------|---------|"]

def findingsSection (severity : Severity) : List Finding → List String
  | [] => []
  | findings =>
    ["## " ++ severity.title ++ " Severity Issues", ""] ++ tableHead ++ rows 1 findings ++ [""]

def severityTable (counts : SeverityCounts) : List String :=
  ["| Severity | Count |", "|----------|-------|"] ++
    Severity.all.map (fun s ↦
      "| " ++ s.emoji ++ " " ++ s.title ++ " | " ++ toString (counts.get s) ++ " |") ++ [""]

def detectorTable (counts : DetectorCounts) : List String :=
  match counts.toList with
  | [] => []
  | entries =>
    ["| Detector | Count |", "|----------|-------|"] ++
      entries.map (fun (id, n) ↦ "| " ++ id.name ++ " | " ++ toString n ++ " |") ++ [""]

def narrative (r : Report) : List String :=
  match r.narrative, r.narrativeError with
  | some e, _ =>
    ["## Narrative Analysis", "",
      "> Model `" ++ e.analysis.model ++ "`, " ++ toString e.analysis.elapsedMs ++ " ms", "",
      e.analysis.analysis, ""]
  | none, some message => ["_Narrative analysis unavailable: " ++ message ++ "_", ""]
  | none, none => []

def preamble (r : Report) : List String :=
  ["# Smart Contract Audit Report", "", "**Contract**: `" ++ r.contractPath ++ "`",
    "**Generated**: " ++ r.timestamp.renderPlain, "**Total Issues**: " ++ toString r.issueCount, "",
    "## Summary", ""] ++
    severityTable r.summary.severityCounts ++ detectorTable r.summary.detectorCounts

def lines (r : Report) : List String :=
  preamble r ++ Severity.all.flatMap (fun s ↦ findingsSection s (r.issues.get s)) ++ narrative r

def unlines (lines : List String) : String := String.join (lines.map (· ++ "\n"))

def render (r : Report) : String := unlines (lines r)

end ContractAudit.Markdown
