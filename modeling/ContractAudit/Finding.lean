import ContractAudit.Node.Json
import ContractAudit.Text.Blank

namespace ContractAudit

/-- How urgent a finding is, the most urgent first. -/
inductive Severity where
  | high
  | medium
  | low
  | informational
  deriving DecidableEq, Repr, Inhabited

namespace Severity

def all : List Severity := [.high, .medium, .low, .informational]

def rank : Severity → Nat
  | .high => 0
  | .medium => 1
  | .low => 2
  | .informational => 3

def name : Severity → String
  | .high => "high"
  | .medium => "medium"
  | .low => "low"
  | .informational => "informational"

def ofName? : String → Option Severity
  | "high" => some .high
  | "medium" => some .medium
  | "low" => some .low
  | "informational" => some .informational
  | _ => none

def title : Severity → String
  | .high => "High"
  | .medium => "Medium"
  | .low => "Low"
  | .informational => "Informational"

def shout : Severity → String
  | .high => "HIGH"
  | .medium => "MEDIUM"
  | .low => "LOW"
  | .informational => "INFORMATIONAL"

def color : Severity → String
  | .high => "red"
  | .medium => "yellow"
  | .low => "blue"
  | .informational => "cyan"

def emoji : Severity → String
  | .high => "🔴"
  | .medium => "🟡"
  | .low => "🔵"
  | .informational => "ℹ️"

def sorted (severities : List Severity) : List Severity :=
  severities.mergeSort fun a b ↦ a.rank ≤ b.rank

def toJson (severity : Severity) : Json := .text severity.name

def ofJson? (json : Json) : Option Severity := do ofName? (← json.tag?)

end Severity

/-- The name of a detector, in the order in which the detectors run by default. -/
inductive DetectorId where
  | reentrancy
  | overflowUnderflow
  | uncheckedCall
  | accessControl
  | detectorError
  deriving DecidableEq, Repr, Inhabited

namespace DetectorId

def all : List DetectorId :=
  [.reentrancy, .overflowUnderflow, .uncheckedCall, .accessControl, .detectorError]

def builtin : List DetectorId := [.reentrancy, .overflowUnderflow, .uncheckedCall, .accessControl]

def name : DetectorId → String
  | .reentrancy => "reentrancy"
  | .overflowUnderflow => "overflow-underflow"
  | .uncheckedCall => "unchecked-call"
  | .accessControl => "access-control"
  | .detectorError => "detector-error"

def ofName? : String → Option DetectorId
  | "reentrancy" => some .reentrancy
  | "overflow-underflow" => some .overflowUnderflow
  | "unchecked-call" => some .uncheckedCall
  | "access-control" => some .accessControl
  | "detector-error" => some .detectorError
  | _ => none

def parse (s : String) : Except String DetectorId :=
  match ofName? (Text.trimmed s) with
  | some id => .ok id
  | none => .error (Text.trimmed s)

def unknownMessage (name : String) : String := "unknown detector '" ++ name ++ "'"

def toJson (id : DetectorId) : Json := .text id.name

def ofJson? (json : Json) : Option DetectorId := do ofName? (← json.tag?)

end DetectorId

structure Finding where
  detector : DetectorId
  severity : Severity
  description : String
  details : String
  line : Nat
  function : Option String := none
  stateChanges : Option (List Location) := none
  deriving DecidableEq, Repr, Inhabited

namespace Finding

def toJson (f : Finding) : Json :=
  .object ([("detector", f.detector.toJson), ("severity", f.severity.toJson),
    ("description", .text f.description), ("details", .text f.details), ("line", .nat f.line)] ++
    (f.function.map fun name ↦ ("function", .text name)).toList ++
    (f.stateChanges.map fun locs ↦
      ("stateChangesLocations", .array (locs.map Location.toJson))).toList)

def ofJson? (json : Json) : Option Finding := do
  let [some detector, some severity, some description, some details, some line, function,
      stateChanges] ←
    json.record? ["detector", "severity", "description", "details", "line", "function",
      "stateChangesLocations"] 5 | none
  return ⟨← DetectorId.ofJson? detector, ← Severity.ofJson? severity, ← description.text?,
    ← details.text?, ← line.nat64?, ← Json.optional? Json.text? function,
    ← Json.optional? (Json.list? Location.ofJson?) stateChanges⟩

end Finding

end ContractAudit
