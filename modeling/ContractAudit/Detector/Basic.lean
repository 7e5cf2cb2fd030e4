import ContractAudit.Finding
import ContractAudit.Node.Walk

namespace ContractAudit

/-- A node that a detector cannot interpret. -/
structure Fault where
  nodeKind : String
  line : Nat
  reason : String
  deriving DecidableEq, Repr, Inhabited

def Fault.message (fault : Fault) : String :=
  "unexpected " ++ fault.nodeKind ++ " at line " ++ toString fault.line ++ ": " ++ fault.reason

structure Detector where
  id : DetectorId
  name : String
  description : String := "No description provided"
  severity : Severity
  detect : (tree : Node) → (source : String) → Except Fault (List Finding)

def Detector.toJson (d : Detector) : Json :=
  .object [("id", d.id.toJson), ("name", .text d.name), ("description", .text d.description),
    ("severity", d.severity.toJson)]

end ContractAudit
