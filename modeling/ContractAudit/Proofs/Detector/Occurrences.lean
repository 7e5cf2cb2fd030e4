import ContractAudit.Node.Build
import ContractAudit.Proofs.Detector.Findings
import ContractAudit.Proofs.Text.Split
import Mathlib

namespace ContractAudit

theorem compoundBase?_eq_some {operator base : String} :
    compoundBase? operator = some base ↔ base ≠ "" ∧ operator = base ++ "=" := by
  constructor
  · intro h
    unfold compoundBase? at h
    split at h
    next c front hreverse =>
      cases h
      have hcharacters : operator.toList = (c :: front).reverse ++ ['='] := by
        rw [← List.reverse_reverse operator.toList, hreverse, List.reverse_cons]
      refine ⟨by simp [← String.toList_inj], ?_⟩
      rw [← String.toList_inj, hcharacters]
      simp
    next => cases h
  · rintro ⟨hne, rfl⟩
    obtain ⟨c, front, hreverse⟩ : ∃ c front, base.toList.reverse = c :: front := by
      apply List.exists_cons_of_ne_nil
      simpa using hne
    have hbase : String.ofList (c :: front).reverse = base := by
      rw [← hreverse, List.reverse_reverse, String.ofList_toList]
    simp [compoundBase?, ← hbase]

/-- A finding of medium severity at a node, whose details name what was picked there. -/
structure ReportsPicked (id : DetectorId) (pick : Node → Option String)
    (details : String → String) (n : Node) (f : Finding) : Prop where
  detector : f.detector = id
  severity : f.severity = .medium
  line : f.line = n.line
  details : ∃ picked, pick n = some picked ∧ f.details = details picked

namespace Overflow

/-- The operator of a node that adds, subtracts or multiplies, be it in an assignment. -/
def arithmetic? : Node → Option String
  | .binary _ operator _ _ => if operator ∈ ["+", "-", "*"] then some operator else none
  | .assignment _ operator _ _ => if operator ∈ ["+=", "-=", "*="] then some operator else none
  | _ => none

def Reports : Node → Finding → Prop :=
  ReportsPicked .overflowUnderflow arithmetic? fun operator ↦
    "Arithmetic operation " ++ operator ++
      " without using SafeMath or Solidity 0.8+ could lead to overflow/underflow."

theorem any_compoundBase?_iff (operator : String) :
    (compoundBase? operator).any uncheckedOperators.contains ↔ operator ∈ ["+=", "-=", "*="] := by
  have hbase (base : String) : base ∈ uncheckedOperators → base ≠ "" := by
    rintro hmem rfl
    revert hmem
    decide
  simp only [Option.any_eq_true, compoundBase?_eq_some, List.contains_eq_mem, decide_eq_true_eq]
  constructor
  · rintro ⟨base, ⟨-, rfl⟩, hmem⟩
    simp only [uncheckedOperators, List.mem_cons, List.not_mem_nil, or_false] at hmem
    rcases hmem with rfl | rfl | rfl <;> decide
  · intro hmem
    have hsplit : ∃ base ∈ uncheckedOperators, operator = base ++ "=" := by
      simp only [List.mem_cons, List.not_mem_nil, or_false] at hmem
      rcases hmem with rfl | rfl | rfl <;> decide
    obtain ⟨base, hunchecked, rfl⟩ := hsplit
    exact ⟨base, ⟨hbase base hunchecked, rfl⟩, hunchecked⟩

theorem finding?_eq_map (n : Node) : finding? n = (arithmetic? n).map (finding n.line) := by
  cases n with
  | binary loc operator left right =>
    simp only [finding?, arithmetic?, uncheckedOperators, List.contains_eq_mem, decide_eq_true_eq]
    split <;> rfl
  | assignment loc operator left right =>
    simp only [finding?, arithmetic?, any_compoundBase?_iff]
    split <;> rfl
  | _ => rfl

theorem reports_finding (n : Node) (operator : String) (h : arithmetic? n = some operator) :
    Reports n (finding n.line operator) := by
  refine ⟨rfl, rfl, rfl, operator, h, ?_⟩
  simp only [finding, String.append_assoc]
  rfl

end Overflow

namespace UncheckedCall

def lowLevel? : Node → Option String
  | .call _ (.member _ _ name) _ _ => if name ∈ ["call", "send"] then some name else none
  | _ => none

def Reports : Node → Finding → Prop :=
  ReportsPicked .uncheckedCall lowLevel? fun name ↦
    "Return value from " ++ name ++ " is not checked, which could lead to silent failures."

theorem finding?_eq_map (n : Node) : finding? n = (lowLevel? n).map (finding n.line) := by
  cases n with
  | call loc callee options arguments =>
    cases callee with
    | member place object name =>
      simp only [finding?, lowLevel?, Node.memberName?, Option.filter, lowLevelMembers,
        List.contains_eq_mem, decide_eq_true_eq]
    | _ => rfl
  | _ => rfl

theorem reports_finding (n : Node) (name : String) (h : lowLevel? n = some name) :
    Reports n (finding n.line name) := ⟨rfl, rfl, rfl, name, h, rfl⟩

end UncheckedCall

theorem Pragma.protectsArithmetic_iff (source : String) : protectsArithmetic source ↔
    "SafeMath".toList <:+: source.toList ∨ pinsCheckedArithmetic source := by
  rw [protectsArithmetic, Bool.or_eq_true, Text.holds_iff]

/-- Nothing is said about arithmetic that is guarded. Any other addition, subtraction or
multiplication has its own finding, as has each low-level call, in the order of the tree. -/
theorem detect_occurrences (tree : Node) (source : String) :
    ("SafeMath".toList <:+: source.toList ∨ Pragma.pinsCheckedArithmetic source →
      Overflow.detect tree source = Except.ok []) ∧
    (¬ ("SafeMath".toList <:+: source.toList ∨ Pragma.pinsCheckedArithmetic source) →
      ∃ found : List Finding, Overflow.detect tree source = Except.ok found ∧
        List.Forall₂ Overflow.Reports
          (tree.preorder.filter fun n ↦ (Overflow.arithmetic? n).isSome) found) ∧
    (∃ found : List Finding, UncheckedCall.detect tree source = Except.ok found ∧
      List.Forall₂ UncheckedCall.Reports
        (tree.preorder.filter fun n ↦ (UncheckedCall.lowLevel? n).isSome) found) ∧
    ∀ loc callee options arguments, Node.call loc callee options arguments ∈ tree.preorder →
      ∀ part ∈ callee :: options ++ arguments, part.preorder ⊆ tree.preorder := by
  rw [← Pragma.protectsArithmetic_iff, Overflow.detect_eq, UncheckedCall.detect_eq]
  refine ⟨fun h ↦ by rw [if_pos h], fun h ↦ ⟨_, by rw [if_neg h], ?_⟩, ⟨_, rfl, ?_⟩, ?_⟩
  · simp only [Overflow.finding?_eq_map]
    exact forall₂_filter_map Overflow.reports_finding tree.preorder
  · simp only [UncheckedCall.finding?_eq_map]
    exact forall₂_filter_map UncheckedCall.reports_finding tree.preorder
  · intro loc callee options arguments hcall part hpart n hn
    have hchild : part ∈ (Node.call loc callee options arguments).children := hpart
    exact Node.mem_preorder_trans (Node.mem_preorder.mpr (.inr ⟨part, hchild, hn⟩)) hcall

-- In `a.call{value: b.send(1)}(c.call())` all three calls are reported, the outer one first.
open Node.Build in
example : (UncheckedCall.detect (.call ⟨1, 0⟩ (member 1 0 (identifier 1 0 "a") "call")
    [other 2 0 "struct_field_assignment" [memberCall 2 7 "b" "send" [literal 2 14 "1"]]]
    [memberCall 3 0 "c" "call" []]) "").map (·.map (·.line)) = .ok [1, 2, 3] := by
  decide

-- Neither a power nor a shift is reported, and no comparison that looks like an assignment.
example : ["=", "==", "+==", "**=", "<<=", "+=", "*="].filter
    (fun operator ↦ (Overflow.arithmetic? (.assignment ⟨1, 0⟩ operator default default)).isSome) =
      ["+=", "*="] := by
  decide

end ContractAudit
