import ContractAudit.Node.Build
import ContractAudit.Proofs.Detector.Findings
import Mathlib

namespace ContractAudit

namespace Reentrancy

def isExternalCall : Node → Bool
  | .call _ (.member _ _ name) _ _ => name ∈ ["call", "send", "transfer"]
  | _ => false

def assignmentPlaces (nodes : List Node) : List Location :=
  (nodes.filter Node.isAssignment).map Node.loc

/-- The places of the assignments after the first external call. -/
def changesAfterCall : List Node → List Location
  | [] => []
  | n :: nodes => if isExternalCall n then assignmentPlaces nodes else changesAfterCall nodes

/-- Some assignment comes after some external call. -/
def AssignsAfterCall (nodes : List Node) : Prop :=
  ∃ call assignment, [call, assignment].Sublist nodes ∧ isExternalCall call ∧
    assignment.isAssignment

theorem isExternalCall_call (loc : Location) (callee : Node) (options arguments : List Node) :
    isExternalCall (.call loc callee options arguments) = isExternalCallee callee := by
  cases callee with
  | member loc object name =>
    simp [isExternalCall, isExternalCallee, externalMembers, Node.memberName?]
  | _ => rfl

theorem dispatch_scanner (n : Node) (scan : Scan) :
    scanner.dispatch n scan = ⟨scan.called || isExternalCall n,
      if scan.called && n.isAssignment then n.loc :: scan.changes else scan.changes⟩ := by
  cases n with
  | call loc callee options arguments =>
    rw [isExternalCall_call]
    simp only [Visitor.dispatch, scanner, Node.isAssignment]
    cases isExternalCallee callee <;> simp
  | assignment loc operator left right =>
    obtain ⟨called, changes⟩ := scan
    cases called <;> rfl
  | _ => simp [Visitor.dispatch, scanner, Node.isAssignment, isExternalCall]

theorem changes_of_called (nodes : List Node) (changes : List Location) :
    (nodes.foldl (fun s n ↦ scanner.dispatch n s) ⟨true, changes⟩).changes.reverse =
      changes.reverse ++ assignmentPlaces nodes := by
  induction nodes generalizing changes with
  | nil => simp [assignmentPlaces]
  | cons n nodes ih =>
    rw [List.foldl_cons, dispatch_scanner, Bool.true_or, ih]
    cases hn : n.isAssignment <;> simp [assignmentPlaces, hn]

theorem changes_of_not_called (nodes : List Node) :
    (nodes.foldl (fun s n ↦ scanner.dispatch n s) ⟨false, []⟩).changes.reverse =
      changesAfterCall nodes := by
  induction nodes with
  | nil => rfl
  | cons n nodes ih =>
    rw [List.foldl_cons, dispatch_scanner, Bool.false_or, changesAfterCall]
    cases isExternalCall n with
    | true => exact changes_of_called nodes []
    | false => exact ih

theorem stateChanges_eq (function : Node) :
    stateChanges function = changesAfterCall function.preorder := by
  rw [stateChanges, Visitor.visit_eq_foldl]
  exact changes_of_not_called function.preorder

variable {before after nodes : List Node} {call : Node}

theorem changesAfterCall_append (hb : ∀ n ∈ before, ¬ isExternalCall n)
    (nodes : List Node) : changesAfterCall (before ++ nodes) = changesAfterCall nodes := by
  induction before with
  | nil => rfl
  | cons n before ih =>
    obtain ⟨hn, hb⟩ := List.forall_mem_cons.mp hb
    rw [List.cons_append, changesAfterCall, if_neg hn, ih hb]

theorem changesAfterCall_of_first (hb : ∀ n ∈ before, ¬ isExternalCall n)
    (hc : isExternalCall call) (after : List Node) :
    changesAfterCall (before ++ call :: after) = assignmentPlaces after := by
  rw [changesAfterCall_append hb, changesAfterCall, if_pos hc]

theorem changesAfterCall_append_of_mem (h : ∃ n ∈ nodes, isExternalCall n) (after : List Node) :
    changesAfterCall (nodes ++ after) = changesAfterCall nodes ++ assignmentPlaces after := by
  obtain ⟨before, call, rest, rfl, hb, hc⟩ := exists_first h
  rw [List.append_assoc, List.cons_append, changesAfterCall_of_first hb hc,
    changesAfterCall_of_first hb hc]
  simp [assignmentPlaces]

theorem assignmentPlaces_ne_nil : assignmentPlaces nodes ≠ [] ↔ ∃ n ∈ nodes, n.isAssignment := by
  simp [assignmentPlaces, List.filter_eq_nil_iff]

theorem assignsAfterCall_cons (n : Node) (nodes : List Node) :
    AssignsAfterCall (n :: nodes) ↔
      isExternalCall n ∧ (∃ m ∈ nodes, m.isAssignment) ∨ AssignsAfterCall nodes := by
  constructor
  · rintro ⟨call, assignment, hs, hc, ha⟩
    cases hs with
    | cons _ hs => exact .inr ⟨call, assignment, hs, hc, ha⟩
    | cons_cons _ hs => exact .inl ⟨hc, assignment, List.singleton_sublist.mp hs, ha⟩
  · rintro (⟨hc, m, hm, ha⟩ | ⟨call, assignment, hs, hc, ha⟩)
    · exact ⟨n, m, (List.singleton_sublist.mpr hm).cons_cons n, hc, ha⟩
    · exact ⟨call, assignment, hs.cons n, hc, ha⟩

theorem changesAfterCall_ne_nil (nodes : List Node) :
    changesAfterCall nodes ≠ [] ↔ AssignsAfterCall nodes := by
  induction nodes with
  | nil => simp [changesAfterCall, AssignsAfterCall]
  | cons n nodes ih =>
    rw [changesAfterCall, assignsAfterCall_cons]
    cases hn : isExternalCall n with
    | false => simpa using ih
    | true =>
      -- What follows a later call follows the first one too.
      have hlater (h : AssignsAfterCall nodes) : ∃ m ∈ nodes, m.isAssignment := by
        obtain ⟨call, assignment, hs, -, ha⟩ := h
        exact ⟨assignment, hs.subset (by simp), ha⟩
      rw [if_pos rfl, assignmentPlaces_ne_nil]
      exact ⟨fun h ↦ .inl ⟨rfl, h⟩, fun h ↦ h.elim And.right hlater⟩

instance : DecidablePred AssignsAfterCall := fun nodes ↦
  decidable_of_iff (changesAfterCall nodes ≠ []) (changesAfterCall_ne_nil nodes)

/-- What a finding says of a function: the places that it lists are those of the assignments after
the first external call. -/
structure Reports (function : Node) (f : Finding) : Prop where
  detector : f.detector = .reentrancy
  severity : f.severity = .high
  line : f.line = function.line
  name : f.function = function.header?.map FunctionHeader.displayName
  changes : ∃ before call after, function.preorder = before ++ call :: after ∧
    (∀ n ∈ before, ¬ isExternalCall n) ∧ isExternalCall call ∧
      f.stateChanges = some (assignmentPlaces after)
  /-- An assignment whose own value holds the first call is not listed. -/
  ownValue : ∀ before loc operator left right after,
    function.preorder = before ++ (Node.assignment loc operator left right).preorder ++ after →
    (∀ n ∈ before ++ left.preorder, ¬ isExternalCall n) →
    (∃ n ∈ right.preorder, isExternalCall n) →
      f.stateChanges = some (changesAfterCall right.preorder ++ assignmentPlaces after)

theorem changesAfterCall_of_ownValue {left right : Node}
    (hb : ∀ n ∈ before ++ left.preorder, ¬ isExternalCall n)
    (hr : ∃ n ∈ right.preorder, isExternalCall n) (loc : Location) (operator : String)
    (after : List Node) :
    changesAfterCall (before ++ (Node.assignment loc operator left right).preorder ++ after) =
      changesAfterCall right.preorder ++ assignmentPlaces after := by
  have hfront : ∀ n ∈ before ++ Node.assignment loc operator left right :: left.preorder,
      ¬ isExternalCall n := by
    intro n hn
    rcases List.mem_append.mp hn with hn | hn
    · exact hb n (List.mem_append_left _ hn)
    · rcases List.mem_cons.mp hn with rfl | hn
      · exact Bool.false_ne_true
      · exact hb n (List.mem_append_right _ hn)
  have hnodes : before ++ (Node.assignment loc operator left right).preorder ++ after =
      (before ++ Node.assignment loc operator left right :: left.preorder) ++
        (right.preorder ++ after) := by
    simp [Node.preorder]
  rw [hnodes, changesAfterCall_append hfront, changesAfterCall_append_of_mem hr]

theorem reports_finding {function : Node} {header : FunctionHeader}
    (hh : function.header? = some header) (h : AssignsAfterCall function.preorder) :
    Reports function
      (finding function.line header.displayName (changesAfterCall function.preorder)) where
  detector := rfl
  severity := rfl
  line := rfl
  name := by rw [hh]; rfl
  changes := by
    obtain ⟨call, assignment, hs, hc, -⟩ := h
    have hcall : ∃ n ∈ function.preorder, isExternalCall n :=
      ⟨call, hs.subset List.mem_cons_self, hc⟩
    obtain ⟨before, first, after, hp, hb, hf⟩ := exists_first hcall
    refine ⟨before, first, after, hp, hb, hf, ?_⟩
    rw [hp, changesAfterCall_of_first hb hf]
    rfl
  ownValue := by
    intro before loc operator left right after hp hb hr
    rw [hp, changesAfterCall_of_ownValue hb hr]
    rfl

theorem finding?_eq_some {function : Node} {header : FunctionHeader}
    (hh : function.header? = some header) (h : AssignsAfterCall function.preorder) :
    finding? function = some
      (finding function.line header.displayName (changesAfterCall function.preorder)) := by
  have hchanges := (changesAfterCall_ne_nil function.preorder).mpr h
  rw [finding?, hh, stateChanges_eq]
  split
  next => contradiction
  next hnil => exact absurd hnil hchanges
  next hheader hne =>
    obtain rfl := Option.some.inj hheader
    rfl

theorem finding?_eq_none {n : Node}
    (h : ¬ (n.header?.isSome ∧ AssignsAfterCall n.preorder)) : finding? n = none := by
  by_contra hsome
  obtain ⟨f, hf⟩ := Option.ne_none_iff_exists'.mp hsome
  obtain ⟨header, hh, hchanges, -⟩ := exists_header_of_finding? hf
  rw [stateChanges_eq] at hchanges
  exact h ⟨hh ▸ rfl, (changesAfterCall_ne_nil n.preorder).mp hchanges⟩

/-- One finding for each function, nested ones included, in which an assignment comes after an
external call, and no other finding. -/
theorem detect_reports (tree : Node) (source : String) :
    ∃ found : List Finding, detect tree source = Except.ok found ∧
      List.Forall₂ Reports
        (tree.preorder.filter fun n ↦ n.header?.isSome ∧ AssignsAfterCall n.preorder) found := by
  refine ⟨_, detect_eq tree source, forall₂_filter_filterMap ?_ ?_⟩
  · rintro n - ⟨hn, h⟩
    obtain ⟨header, hh⟩ := Option.isSome_iff_exists.mp hn
    exact ⟨_, finding?_eq_some hh h, reports_finding hh h⟩
  · rintro n - h
    exact finding?_eq_none h

-- In `ok = a.call(); x = 0;` the first assignment comes before the call that it holds.
open Node.Build in
example : (detect (function 1 "f" .public []
    [assignment 2 4 "=" (identifier 2 4 "ok") (memberCall 2 9 "a" "call" []),
      assignment 3 4 "=" (identifier 3 4 "x") (literal 3 8 "0")]) "").map
      (·.map (·.stateChanges)) = .ok [some [⟨3, 4⟩]] := by
  decide

end Reentrancy

end ContractAudit
