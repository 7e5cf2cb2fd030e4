import ContractAudit.Json.Record

namespace ContractAudit.Narrative

structure Analysis where
  analysis : String
  model : String
  elapsedMs : Nat := 0
  deriving DecidableEq, Repr, Inhabited

namespace Analysis

def elapsedToJson (elapsedMs : Nat) : Json := .object [("elapsed_ms", .nat elapsedMs)]

def elapsedOfJson? (json : Json) : Option Nat := do
  let [some elapsedMs] ← json.record? ["elapsed_ms"] 1 | none
  elapsedMs.nat64?

def toJson (a : Analysis) : Json :=
  .object [("analysis", .text a.analysis), ("model", .text a.model),
    ("processingTime", elapsedToJson a.elapsedMs)]

def ofJson? (json : Json) : Option Analysis := do
  let [some analysis, some model, elapsed] ←
    json.record? ["analysis", "model", "processingTime"] 2 | none
  return ⟨← analysis.text?, ← model.text?, ← Json.defaulted? 0 elapsedOfJson? elapsed⟩

end Analysis

end ContractAudit.Narrative
