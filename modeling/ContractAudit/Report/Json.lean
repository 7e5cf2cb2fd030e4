import ContractAudit.Json.Printer
import ContractAudit.Json.Reader
import ContractAudit.Report.Basic

namespace ContractAudit

namespace Timestamp

def toJson (t : Timestamp) : Json := .text t.render

def ofJson? (json : Json) : Option Timestamp := do parse? (← json.text?)

end Timestamp

namespace Buckets

def toJson (b : Buckets) : Json :=
  .object [("high", .array (b.high.map Finding.toJson)),
    ("medium", .array (b.medium.map Finding.toJson)), ("low", .array (b.low.map Finding.toJson)),
    ("informational", .array (b.informational.map Finding.toJson))]

def ofJson? (json : Json) : Option Buckets := do
  let [some high, some medium, some low, some informational] ←
    json.record? ["high", "medium", "low", "informational"] 4 | none
  return ⟨← high.list? Finding.ofJson?, ← medium.list? Finding.ofJson?,
    ← low.list? Finding.ofJson?, ← informational.list? Finding.ofJson?⟩

end Buckets

namespace SeverityCounts

def toJson (c : SeverityCounts) : Json :=
  .object [("high", .nat c.high), ("medium", .nat c.medium), ("low", .nat c.low),
    ("informational", .nat c.informational)]

def ofJson? (json : Json) : Option SeverityCounts := do
  let [some high, some medium, some low, some informational] ←
    json.record? ["high", "medium", "low", "informational"] 4 | none
  return ⟨← high.nat64?, ← medium.nat64?, ← low.nat64?, ← informational.nat64?⟩

end SeverityCounts

namespace DetectorCounts

def toJson (c : DetectorCounts) : Json := .object (c.toList.map fun (id, n) ↦ (id.name, .nat n))

def addEntry? (c : DetectorCounts) : String × Json → Option DetectorCounts
  | (name, value) => do return c.set (← DetectorId.ofName? name) (← value.nat64?)

def ofJson? : Json → Option DetectorCounts
  | .object fields => fields.foldlM addEntry? {}
  | _ => none

end DetectorCounts

namespace Summary

def toJson (s : Summary) : Json :=
  .object [("severityCounts", s.severityCounts.toJson),
    ("detectorCounts", s.detectorCounts.toJson)]

def ofJson? (json : Json) : Option Summary := do
  let [some severityCounts, some detectorCounts] ←
    json.record? ["severityCounts", "detectorCounts"] 2 | none
  return ⟨← SeverityCounts.ofJson? severityCounts, ← DetectorCounts.ofJson? detectorCounts⟩

end Summary

namespace Enhancement

def toJson (e : Enhancement) : Json :=
  .object [("analysis", e.analysis.toJson), ("timestamp", e.timestamp.toJson)]

def ofJson? (json : Json) : Option Enhancement := do
  let [some analysis, some timestamp] ← json.record? ["analysis", "timestamp"] 2 | none
  return ⟨← Narrative.Analysis.ofJson? analysis, ← Timestamp.ofJson? timestamp⟩

end Enhancement

namespace Report

def toJson (r : Report) : Json :=
  .object ([("contractPath", .text r.contractPath), ("timestamp", r.timestamp.toJson),
    ("issueCount", .nat r.issueCount), ("issues", r.issues.toJson),
    ("summary", r.summary.toJson)] ++
    (r.narrative.map fun e ↦ ("ai", e.toJson)).toList ++
    (r.narrativeError.map fun message ↦ ("aiError", .text message)).toList)

def ofJson? (json : Json) : Option Report := do
  let [some contractPath, some timestamp, some issueCount, some issues, some summary, narrative,
      narrativeError] ←
    json.record? ["contractPath", "timestamp", "issueCount", "issues", "summary", "ai",
      "aiError"] 5 | none
  return ⟨← contractPath.text?, ← Timestamp.ofJson? timestamp, ← issueCount.nat64?,
    ← Buckets.ofJson? issues, ← Summary.ofJson? summary,
    ← Json.optional? Enhancement.ofJson? narrative, ← Json.optional? Json.text? narrativeError⟩

def parse? (s : String) : Option Report := do ofJson? (← Json.parse? s)

end Report

end ContractAudit
