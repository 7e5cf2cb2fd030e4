import ContractAudit.Detector.Basic

namespace ContractAudit.UncheckedCall

def lowLevelMembers : List String := ["call", "send"]

def finding (line : Nat) (name : String) : Finding where
  detector := .uncheckedCall
  severity := .medium
  description := "Unchecked return value from external call"
  details := "Return value from " ++ name ++
    " is not checked, which could lead to silent failures."
  line := line

def collector : Visitor (List Finding) where
  call node callee _ findings :=
    match callee.memberName? with
    | some name =>
      if lowLevelMembers.contains name then finding node.line name :: findings else findings
    | none => findings

def detect (tree : Node) (_ : String) : Except Fault (List Finding) :=
  .ok (collector.visit tree []).reverse

def detector : Detector where
  id := .uncheckedCall
  name := "Unchecked External Call Detector"
  description := "Detects low-level call/send whose return value may be ignored"
  severity := .medium
  detect := detect

end ContractAudit.UncheckedCall
