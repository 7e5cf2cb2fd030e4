import ContractAudit.Detector.Registry
import ContractAudit.Proofs.Node.Walk
import ContractAudit.Proofs.Results

namespace ContractAudit

def Node.header? : Node → Option FunctionHeader
  | .function _ header _ _ _ => some header
  | _ => none

def Node.isAssignment : Node → Bool
  | .assignment .. => true
  | _ => false

namespace Reentrancy

variable {node : Node} {f : Finding}

theorem exists_assignment_of_mem_stateChanges {loc : Location} (h : loc ∈ stateChanges node) :
    ∃ operator left right, Node.assignment loc operator left right ∈ node.preorder := by
  -- The changes of a scan so far are assignments of the tree: a step adds the one it is at or none.
  have hscan : ∀ loc ∈ (scanner.visit node {}).changes,
      ∃ operator left right, Node.assignment loc operator left right ∈ node.preorder := by
    refine scanner.visit_induction (fun scan ↦ ∀ loc ∈ scan.changes,
      ∃ operator left right, Node.assignment loc operator left right ∈ node.preorder)
      (fun loc hl ↦ absurd hl List.not_mem_nil) fun n hn scan hs ↦ ?_
    cases n with
    | call loc callee options arguments =>
      simp only [Visitor.dispatch, scanner]
      split
      · exact hs
      · exact hs
    | assignment loc operator left right =>
      simp only [Visitor.dispatch, scanner]
      split
      · exact List.forall_mem_cons.mpr ⟨⟨operator, left, right, hn⟩, hs⟩
      · exact hs
    | _ => exact hs
  exact hscan loc (List.mem_reverse.mp h)

def finding? (node : Node) : Option Finding :=
  match node.header?, stateChanges node with
  | none, _ => none
  | some _, [] => none
  | some header, changes => some (finding node.line header.displayName changes)

theorem exists_header_of_finding? (h : finding? node = some f) :
    ∃ header, node.header? = some header ∧ stateChanges node ≠ [] ∧
      f = finding node.line header.displayName (stateChanges node) := by
  unfold finding? at h
  split at h
  next => cases h
  next => cases h
  next header hheader hchanges => exact ⟨header, hheader, hchanges, (Option.some.inj h).symm⟩

theorem detect_eq (tree : Node) (source : String) :
    detect tree source = .ok (tree.preorder.filterMap finding?) := by
  rw [detect, Visitor.reverse_visit_eq_filterMap fun n findings ↦ ?_]
  cases n with
  | function loc header parameters modifiers body =>
    simp only [Visitor.dispatch, collector, finding?, Node.header?]
    generalize stateChanges (.function loc header parameters modifiers body) = changes
    cases changes <;> rfl
  | _ => rfl

end Reentrancy

namespace Overflow

variable {node : Node} {f : Finding}

def finding? (node : Node) : Option Finding :=
  match node with
  | .binary _ operator _ _ =>
    if uncheckedOperators.contains operator then some (finding node.line operator) else none
  | .assignment _ operator _ _ =>
    if (compoundBase? operator).any uncheckedOperators.contains then
      some (finding node.line operator)
    else none
  | _ => none

theorem exists_operator_of_finding? (h : finding? node = some f) :
    ∃ operator left right, f = finding node.line operator ∧
      (node = .binary node.loc operator left right ∨
        node = .assignment node.loc operator left right) := by
  unfold finding? at h
  split at h
  next loc operator left right =>
    obtain ⟨-, hf⟩ := Option.ite_none_right_eq_some.mp h
    exact ⟨operator, left, right, (Option.some.inj hf).symm, .inl rfl⟩
  next loc operator left right =>
    obtain ⟨-, hf⟩ := Option.ite_none_right_eq_some.mp h
    exact ⟨operator, left, right, (Option.some.inj hf).symm, .inr rfl⟩
  next => cases h

theorem detect_eq (tree : Node) (source : String) :
    detect tree source =
      .ok (if Pragma.protectsArithmetic source then [] else tree.preorder.filterMap finding?) := by
  rw [detect, Visitor.reverse_visit_eq_filterMap fun n findings ↦ ?_, apply_ite Except.ok]
  cases n with
  | binary loc operator left right | assignment loc operator left right =>
    simp only [Visitor.dispatch, collector, finding?]
    split <;> rfl
  | _ => rfl

end Overflow

namespace UncheckedCall

variable {node : Node} {f : Finding}

def finding? (node : Node) : Option Finding :=
  match node with
  | .call _ callee _ _ =>
    (callee.memberName?.filter lowLevelMembers.contains).map (finding node.line)
  | _ => none

theorem exists_call_of_finding? (h : finding? node = some f) :
    ∃ name callee options arguments, f = finding node.line name ∧
      node = .call node.loc callee options arguments := by
  unfold finding? at h
  split at h
  next loc callee options arguments =>
    obtain ⟨name, -, rfl⟩ := Option.map_eq_some_iff.mp h
    exact ⟨name, callee, options, arguments, rfl, rfl⟩
  next => cases h

theorem detect_eq (tree : Node) (source : String) :
    detect tree source = .ok (tree.preorder.filterMap finding?) := by
  rw [detect, Visitor.reverse_visit_eq_filterMap fun n findings ↦ ?_]
  cases n with
  | call loc callee options arguments =>
    simp only [Visitor.dispatch, collector, finding?]
    cases hm : callee.memberName? with
    | none => rfl
    | some name =>
      simp only [Option.filter]
      split <;> rfl
  | _ => rfl

end UncheckedCall

namespace AccessControl

variable {node : Node} {f : Finding}

def members : Node → List Node
  | .sourceUnit _ children => children
  | .contract _ _ members => members
  | _ => []

theorem members_subset_children (node : Node) : members node ⊆ node.children := by
  cases node <;> simp [members, Node.children]

def checked (tree : Node) : List Node := tree.preorder.flatMap members

theorem checked_subset_preorder (tree : Node) : checked tree ⊆ tree.preorder := by
  intro member hm
  obtain ⟨node, hn, hm⟩ := List.mem_flatMap.mp hm
  exact Node.mem_preorder_trans
    (Node.mem_preorder_of_mem_children (members_subset_children node hm)) hn

def verdict (node : Node) : Except Fault (Option Finding) :=
  match node with
  | .function _ header _ modifiers _ => checkFunction node header modifiers
  | _ => .ok none

theorem exists_header_of_verdict (h : verdict node = .ok (some f)) :
    ∃ header, node.header? = some header ∧ header.isConstructor = false ∧
      f = finding node.line header.displayName := by
  unfold verdict at h
  split at h
  next loc header parameters modifiers body =>
    rw [checkFunction] at h
    split at h
    next => cases h
    next hskip =>
      have hconstructor : header.isConstructor = false := by
        simp only [Bool.or_eq_true, not_or, Bool.not_eq_true] at hskip
        exact hskip.1
      obtain ⟨guarded, -, h⟩ := bind_eq_ok_iff.mp h
      split at h
      next =>
        cases h
        exact ⟨header, rfl, hconstructor, rfl⟩
      next => cases h
  next => cases h

/-- The findings of two checks, of which the second is made only if the first has no fault. -/
def both (first second : Except Fault (List Finding)) : Except Fault (List Finding) := do
  return (← first) ++ (← second)

theorem both_eq_ok {first second : Except Fault (List Finding)} {found : List Finding} :
    both first second = .ok found ↔
      ∃ fs gs, first = .ok fs ∧ second = .ok gs ∧ found = fs ++ gs := by
  cases first <;> cases second <;> simp [both, bind, Except.bind, pure, Except.pure, eq_comm]

theorem both_assoc (first second third : Except Fault (List Finding)) :
    both (both first second) third = both first (both second third) := by
  cases first <;> cases second <;> cases third <;>
    simp [both, bind, Except.bind, pure, Except.pure]

theorem ok_nil_both (second : Except Fault (List Finding)) : both (.ok []) second = second := by
  cases second <;> rfl

theorem both_ok_nil (first : Except Fault (List Finding)) : both first (.ok []) = first := by
  cases first <;> simp [both, bind, Except.bind, pure, Except.pure]

def findingsIn : List Node → Except Fault (List Finding)
  | [] => .ok []
  | node :: nodes => both ((verdict node).map Option.toList) (findingsIn nodes)

theorem findingsIn_append (nodes others : List Node) :
    findingsIn (nodes ++ others) = both (findingsIn nodes) (findingsIn others) := by
  induction nodes with
  | nil => exact (ok_nil_both _).symm
  | cons node nodes ih => rw [List.cons_append, findingsIn, findingsIn, ih, both_assoc]

theorem exists_verdict_of_mem_findingsIn {nodes : List Node} {found : List Finding}
    (h : findingsIn nodes = .ok found) (hf : f ∈ found) :
    ∃ node ∈ nodes, verdict node = .ok (some f) := by
  induction nodes generalizing found with
  | nil =>
    cases h
    cases hf
  | cons node nodes ih =>
    obtain ⟨first, rest, hfirst, hrest, rfl⟩ := both_eq_ok.mp h
    rcases List.mem_append.mp hf with hf | hf
    · cases hv : verdict node with
      | error fault =>
        rw [hv] at hfirst
        cases hfirst
      | ok answer =>
        rw [hv] at hfirst
        cases hfirst
        exact ⟨node, List.mem_cons_self, Option.mem_toList.mp hf ▸ hv⟩
    · obtain ⟨n, hn, hverdict⟩ := ih hrest hf
      exact ⟨n, List.mem_cons_of_mem _ hn, hverdict⟩

theorem findingsIn_ok {nodes : List Node} (h : ∀ node ∈ nodes, ∃ found, verdict node = .ok found) :
    ∃ found, findingsIn nodes = .ok found := by
  induction nodes with
  | nil => exact ⟨[], rfl⟩
  | cons node nodes ih =>
    obtain ⟨first, hfirst⟩ := h node List.mem_cons_self
    obtain ⟨rest, hrest⟩ := ih fun n hn ↦ h n (List.mem_cons_of_mem _ hn)
    exact ⟨first.toList ++ rest, by rw [findingsIn, hfirst, hrest]; rfl⟩

def Survey.answer (survey : Survey) : Except Fault (List Finding) :=
  match survey.fault with
  | some fault => .error fault
  | none => .ok survey.findings.reverse

theorem answer_checkMember (survey : Survey) (member : Node) :
    (checkMember survey member).answer =
      both survey.answer ((verdict member).map Option.toList) := by
  obtain ⟨findings, facts, fault⟩ := survey
  cases fault with
  | some fault => cases member <;> rfl
  | none =>
    cases member with
    | function loc header parameters modifiers body =>
      simp only [checkMember, verdict]
      cases checkFunction (.function loc header parameters modifiers body) header modifiers with
      | error fault => rfl
      | ok found =>
        cases found with
        | none => exact (both_ok_nil _).symm
        | some f => exact congrArg Except.ok List.reverse_cons
    | _ => exact (both_ok_nil _).symm

theorem answer_checkMembers (survey : Survey) (nodes : List Node) :
    (nodes.foldl checkMember survey).answer = both survey.answer (findingsIn nodes) := by
  induction nodes generalizing survey with
  | nil => exact (both_ok_nil _).symm
  | cons node nodes ih => rw [List.foldl_cons, ih, answer_checkMember, findingsIn, both_assoc]

theorem answer_dispatch (survey : Survey) (node : Node) :
    (surveyor.dispatch node survey).answer = both survey.answer (findingsIn (members node)) := by
  cases node with
  | sourceUnit loc children => exact answer_checkMembers survey children
  | contract loc name members => exact answer_checkMembers { survey with facts := _ } members
  | _ => exact (both_ok_nil _).symm

theorem answer_foldl_dispatch (survey : Survey) (nodes : List Node) :
    (nodes.foldl (fun s n ↦ surveyor.dispatch n s) survey).answer =
      both survey.answer (findingsIn (nodes.flatMap members)) := by
  induction nodes generalizing survey with
  | nil => exact (both_ok_nil _).symm
  | cons node nodes ih =>
    rw [List.foldl_cons, ih, answer_dispatch, List.flatMap_cons, findingsIn_append, both_assoc]

/-- The detector checks the members of the file and of its contracts one after another, up to the
first one on which it faults. -/
theorem detect_eq (tree : Node) (source : String) :
    detect tree source = findingsIn (checked tree) := by
  have hanswer : detect tree source = (survey tree).answer := rfl
  rw [hanswer, survey, Visitor.visit_eq_foldl, answer_foldl_dispatch]
  exact ok_nil_both _

end AccessControl

theorem Registry.builtin_detectors : builtin.detectors = builtinDetectors := rfl

theorem Registry.mem_builtin_detectors {d : Detector} : d ∈ builtin.detectors ↔
    d = Reentrancy.detector ∨ d = Overflow.detector ∨ d = UncheckedCall.detector ∨
      d = AccessControl.detector := by
  simp [builtin_detectors, builtinDetectors]

/-- A finding that the detector of a name makes at a node. -/
inductive Finding.MadeAt (node : Node) (f : Finding) : DetectorId → Prop
  | reentrancy (h : Reentrancy.finding? node = some f) : MadeAt node f .reentrancy
  | overflowUnderflow (h : Overflow.finding? node = some f) : MadeAt node f .overflowUnderflow
  | uncheckedCall (h : UncheckedCall.finding? node = some f) : MadeAt node f .uncheckedCall
  | accessControl (h : AccessControl.verdict node = .ok (some f)) : MadeAt node f .accessControl

theorem Registry.builtin_exists_madeAt {d : Detector} (hd : d ∈ builtin.detectors) {tree : Node}
    {source : String} {found : List Finding} (h : d.detect tree source = .ok found) {f : Finding}
    (hf : f ∈ found) : ∃ node ∈ tree.preorder, f.MadeAt node d.id := by
  rcases mem_builtin_detectors.mp hd with rfl | rfl | rfl | rfl
  · cases (Reentrancy.detect_eq tree source).symm.trans h
    obtain ⟨node, hn, hmade⟩ := List.mem_filterMap.mp hf
    exact ⟨node, hn, .reentrancy hmade⟩
  · cases (Overflow.detect_eq tree source).symm.trans h
    split at hf
    · cases hf
    · obtain ⟨node, hn, hmade⟩ := List.mem_filterMap.mp hf
      exact ⟨node, hn, .overflowUnderflow hmade⟩
  · cases (UncheckedCall.detect_eq tree source).symm.trans h
    obtain ⟨node, hn, hmade⟩ := List.mem_filterMap.mp hf
    exact ⟨node, hn, .uncheckedCall hmade⟩
  · have hfound := (AccessControl.detect_eq tree source).symm.trans h
    obtain ⟨node, hn, hmade⟩ := AccessControl.exists_verdict_of_mem_findingsIn hfound hf
    exact ⟨node, AccessControl.checked_subset_preorder tree hn, .accessControl hmade⟩

end ContractAudit
