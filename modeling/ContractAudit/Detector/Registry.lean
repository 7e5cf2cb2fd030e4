import ContractAudit.Detector.AccessControl
import ContractAudit.Detector.Overflow
import ContractAudit.Detector.Reentrancy
import ContractAudit.Detector.UncheckedCall

namespace ContractAudit

structure Registry where
  detectors : List Detector := []

namespace Registry

def empty : Registry := {}

def place (detector : Detector) : List Detector → List Detector
  | [] => [detector]
  | d :: ds => if d.id = detector.id then detector :: ds else d :: place detector ds

/-- Adds a detector. One that is already there under its name gives its place to the new one. -/
def register (r : Registry) (detector : Detector) : Registry := ⟨place detector r.detectors⟩

def builtinDetectors : List Detector :=
  [Reentrancy.detector, Overflow.detector, UncheckedCall.detector, AccessControl.detector]

def registerBuiltin (r : Registry) : Registry := builtinDetectors.foldl register r

def builtin : Registry := empty.registerBuiltin

def selected (r : Registry) (ids : List DetectorId) : List Detector :=
  r.detectors.filter fun d ↦ ids.contains d.id

def ids (r : Registry) : List DetectorId := r.detectors.map (·.id)

def size (r : Registry) : Nat := r.detectors.length

def isEmpty (r : Registry) : Bool := r.detectors.isEmpty

end Registry

end ContractAudit
