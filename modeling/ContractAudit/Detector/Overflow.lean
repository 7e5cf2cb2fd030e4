import ContractAudit.Detector.Basic
import ContractAudit.Pragma

namespace ContractAudit.Overflow

def uncheckedOperators : List String := ["+", "-", "*"]

def finding (line : Nat) (operator : String) : Finding where
  detector := .overflowUnderflow
  severity := .medium
  description := "Potential arithmetic overflow/underflow"
  details := "Arithmetic operation " ++ operator ++ " without using SafeMath or Solidity 0.8+ " ++
    "could lead to overflow/underflow."
  line := line

def collector : Visitor (List Finding) where
  binary node operator _ _ findings :=
    if uncheckedOperators.contains operator then finding node.line operator :: findings
    else findings
  assignment node operator _ _ findings :=
    if (compoundBase? operator).any uncheckedOperators.contains then
      finding node.line operator :: findings
    else findings

def detect (tree : Node) (source : String) : Except Fault (List Finding) :=
  if Pragma.protectsArithmetic source then .ok [] else .ok (collector.visit tree []).reverse

def detector : Detector where
  id := .overflowUnderflow
  name := "Arithmetic Overflow/Underflow Detector"
  description :=
    "Detects unchecked +, - and * operations in contracts without SafeMath or Solidity 0.8+"
  severity := .medium
  detect := detect

end ContractAudit.Overflow
