import ContractAudit.Finding
import ContractAudit.Narrative.Analysis
import ContractAudit.Timestamp

namespace ContractAudit

structure Buckets where
  high : List Finding := []
  medium : List Finding := []
  low : List Finding := []
  informational : List Finding := []
  deriving DecidableEq, Repr, Inhabited

namespace Buckets

def get (b : Buckets) : Severity → List Finding
  | .high => b.high
  | .medium => b.medium
  | .low => b.low
  | .informational => b.informational

def insert (f : Finding) (b : Buckets) : Buckets :=
  match f.severity with
  | .high => { b with high := f :: b.high }
  | .medium => { b with medium := f :: b.medium }
  | .low => { b with low := f :: b.low }
  | .informational => { b with informational := f :: b.informational }

/-- The findings by severity; those of one severity keep their order. -/
def ofFindings (findings : List Finding) : Buckets := findings.foldr insert {}

def toList (b : Buckets) : List Finding := Severity.all.flatMap b.get

end Buckets

structure SeverityCounts where
  high : Nat := 0
  medium : Nat := 0
  low : Nat := 0
  informational : Nat := 0
  deriving DecidableEq, Repr, Inhabited

namespace SeverityCounts

def get (c : SeverityCounts) : Severity → Nat
  | .high => c.high
  | .medium => c.medium
  | .low => c.low
  | .informational => c.informational

def total (c : SeverityCounts) : Nat := c.high + c.medium + c.low + c.informational

def ofBuckets (b : Buckets) : SeverityCounts :=
  ⟨b.high.length, b.medium.length, b.low.length, b.informational.length⟩

end SeverityCounts

/-- Numbers of findings by detector. A detector that is not listed has `none`. -/
structure DetectorCounts where
  reentrancy : Option Nat := none
  overflowUnderflow : Option Nat := none
  uncheckedCall : Option Nat := none
  accessControl : Option Nat := none
  detectorError : Option Nat := none
  deriving DecidableEq, Repr, Inhabited

namespace DetectorCounts

def get? (c : DetectorCounts) : DetectorId → Option Nat
  | .reentrancy => c.reentrancy
  | .overflowUnderflow => c.overflowUnderflow
  | .uncheckedCall => c.uncheckedCall
  | .accessControl => c.accessControl
  | .detectorError => c.detectorError

def set (c : DetectorCounts) (id : DetectorId) (n : Nat) : DetectorCounts :=
  match id with
  | .reentrancy => { c with reentrancy := some n }
  | .overflowUnderflow => { c with overflowUnderflow := some n }
  | .uncheckedCall => { c with uncheckedCall := some n }
  | .accessControl => { c with accessControl := some n }
  | .detectorError => { c with detectorError := some n }

def add (c : DetectorCounts) (id : DetectorId) : DetectorCounts := c.set id ((c.get? id).getD 0 + 1)

def ofFindings (findings : List Finding) : DetectorCounts :=
  findings.foldl (fun c f ↦ c.add f.detector) {}

def toList (c : DetectorCounts) : List (DetectorId × Nat) :=
  DetectorId.all.filterMap fun id ↦ (c.get? id).map (id, ·)

end DetectorCounts

structure Summary where
  severityCounts : SeverityCounts := {}
  detectorCounts : DetectorCounts := {}
  deriving DecidableEq, Repr, Inhabited

structure Enhancement where
  analysis : Narrative.Analysis
  timestamp : Timestamp
  deriving DecidableEq

structure Report where
  contractPath : String
  timestamp : Timestamp
  issueCount : Nat
  issues : Buckets
  summary : Summary
  narrative : Option Enhancement := none
  narrativeError : Option String := none
  deriving DecidableEq

namespace Report

def build (contractPath : String) (findings : List Finding) (timestamp : Timestamp) : Report where
  contractPath := contractPath
  timestamp := timestamp
  issueCount := findings.length
  issues := Buckets.ofFindings findings
  summary :=
    { severityCounts := SeverityCounts.ofBuckets (Buckets.ofFindings findings)
      detectorCounts := DetectorCounts.ofFindings findings }

/-- The report with an analysis attached, in the place of one that it may have. -/
def enhance (r : Report) (analysis : Narrative.Analysis) (now : Timestamp) : Report :=
  { r with narrative := some ⟨analysis, now⟩ }

def withNarrativeError (r : Report) (message : String) : Report :=
  { r with narrativeError := some message }

def countFor (r : Report) (id : DetectorId) : Nat := (r.summary.detectorCounts.get? id).getD 0

def isClean (r : Report) : Bool := r.issueCount == 0

end Report

end ContractAudit
