import ContractAudit.Detector.Basic

namespace ContractAudit.Reentrancy

def externalMembers : List String := ["call", "send", "transfer"]

def isExternalCallee (callee : Node) : Bool := callee.memberName?.any externalMembers.contains

/-- What a walk over one function has met: an external call, and the assignments after the first one
(the last one first). -/
structure Scan where
  called : Bool := false
  changes : List Location := []

def scanner : Visitor Scan where
  call _ callee _ scan := if isExternalCallee callee then { scan with called := true } else scan
  assignment node _ _ _ scan :=
    if scan.called then { scan with changes := node.loc :: scan.changes } else scan

def stateChanges (function : Node) : List Location := (scanner.visit function {}).changes.reverse

def finding (line : Nat) (name : String) (changes : List Location) : Finding where
  detector := .reentrancy
  severity := .high
  description := "Potential reentrancy vulnerability detected. State changes after external call."
  details := "Function " ++ name ++ " makes external calls and then changes state. " ++
    "This pattern can lead to reentrancy attacks."
  line := line
  function := some name
  stateChanges := some changes

def collector : Visitor (List Finding) where
  function node header _ findings :=
    match stateChanges node with
    | [] => findings
    | changes => finding node.line header.displayName changes :: findings

def detect (tree : Node) (_ : String) : Except Fault (List Finding) :=
  .ok (collector.visit tree []).reverse

def detector : Detector where
  id := .reentrancy
  name := "Reentrancy Detector"
  description := "Detects state changes that follow an external call (call, send, transfer)"
  severity := .high
  detect := detect

end ContractAudit.Reentrancy
