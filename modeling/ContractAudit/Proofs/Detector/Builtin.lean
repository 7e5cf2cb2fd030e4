import ContractAudit.Proofs.Detector.Findings

namespace ContractAudit

namespace Node

def isModifierInvocation : Node → Bool
  | .modifierInvocation .. => true
  | _ => false

def modifiers : Node → List Node
  | .function _ _ _ modifiers _ => modifiers
  | _ => []

/-- Every entry of every modifier list in a tree is a modifier. -/
def ModifiersOnly (tree : Node) : Prop :=
  ∀ n ∈ tree.preorder, ∀ m ∈ n.modifiers, m.isModifierInvocation

end Node

def DetectorId.severity : DetectorId → Severity
  | .reentrancy => .high
  | .overflowUnderflow => .medium
  | .uncheckedCall => .medium
  | .accessControl => .high
  | .detectorError => .low

/-- A finding has the severity that goes with its name, names a function if it is of high severity,
and lists state changes, at least one, if it is about reentrancy. -/
structure Finding.Classified (f : Finding) : Prop where
  severity : f.severity = f.detector.severity
  function : f.function.isSome ↔ f.severity = .high
  stateChanges : f.stateChanges.isSome ↔ f.detector = .reentrancy
  nonempty : f.stateChanges ≠ some []

def Detector.Answers (d : Detector) (tree : Node) (source : String) : Prop :=
  ∃ found, d.detect tree source = .ok found ∧ ∀ f ∈ found, f.detector = d.id

theorem Finding.MadeAt.classified {node : Node} {f : Finding} {id : DetectorId}
    (h : f.MadeAt node id) : f.detector = id ∧ f.Classified := by
  cases h with
  | reentrancy h =>
    obtain ⟨header, -, hne, rfl⟩ := Reentrancy.exists_header_of_finding? h
    refine ⟨rfl, rfl, by simp [Reentrancy.finding], by simp [Reentrancy.finding], ?_⟩
    simpa [Reentrancy.finding] using hne
  | overflowUnderflow h =>
    obtain ⟨operator, -, -, rfl, -⟩ := Overflow.exists_operator_of_finding? h
    exact ⟨rfl, rfl, by simp [Overflow.finding], by simp [Overflow.finding], nofun⟩
  | uncheckedCall h =>
    obtain ⟨name, -, -, -, rfl, -⟩ := UncheckedCall.exists_call_of_finding? h
    exact ⟨rfl, rfl, by simp [UncheckedCall.finding], by simp [UncheckedCall.finding], nofun⟩
  | accessControl h =>
    obtain ⟨header, -, -, rfl⟩ := AccessControl.exists_header_of_verdict h
    exact ⟨rfl, rfl, by simp [AccessControl.finding], by simp [AccessControl.finding], nofun⟩

theorem Registry.builtin_classified {d : Detector} (hd : d ∈ builtin.detectors) {tree : Node}
    {source : String} {found : List Finding} (h : d.detect tree source = .ok found) :
    ∀ f ∈ found, f.detector = d.id ∧ f.Classified := by
  intro f hf
  obtain ⟨node, -, hmade⟩ := builtin_exists_madeAt hd h hf
  exact hmade.classified

namespace AccessControl

theorem hasGuardModifier_ok (functionName : String) {modifiers : List Node}
    (h : ∀ m ∈ modifiers, m.isModifierInvocation) :
    ∃ guarded, hasGuardModifier functionName modifiers = .ok guarded := by
  induction modifiers with
  | nil => exact ⟨false, rfl⟩
  | cons m ms ih =>
    obtain ⟨guarded, hg⟩ := ih fun n hn ↦ h n (List.mem_cons_of_mem _ hn)
    have hm := h m List.mem_cons_self
    cases m with
    | modifierInvocation loc name arguments =>
      rw [hasGuardModifier]
      split
      · exact ⟨true, rfl⟩
      · exact ⟨guarded, hg⟩
    | _ => cases hm

theorem checkFunction_ok (node : Node) (header : FunctionHeader) {modifiers : List Node}
    (h : ∀ m ∈ modifiers, m.isModifierInvocation) :
    ∃ found, checkFunction node header modifiers = .ok found := by
  rw [checkFunction]
  split
  · exact ⟨none, rfl⟩
  · obtain ⟨guarded, hg⟩ := hasGuardModifier_ok header.displayName h
    rw [hg]
    simp only [bind, Except.bind]
    split
    · exact ⟨_, rfl⟩
    · exact ⟨none, rfl⟩

theorem detect_ok {tree : Node} (h : tree.ModifiersOnly) (source : String) :
    ∃ found, detect tree source = .ok found := by
  rw [detect_eq]
  refine findingsIn_ok fun node hn ↦ ?_
  have hmodifiers := h node (checked_subset_preorder tree hn)
  cases node with
  | function loc header parameters modifiers body => exact checkFunction_ok _ header hmodifiers
  | _ => exact ⟨none, rfl⟩

end AccessControl

/-- No detector but the one for access control can fault. -/
theorem Registry.builtin_detect_ok {d : Detector} (hd : d ∈ builtin.detectors) (tree : Node)
    (source : String) : d = AccessControl.detector ∨ ∃ found, d.detect tree source = .ok found := by
  rcases mem_builtin_detectors.mp hd with rfl | rfl | rfl | rfl
  · exact .inr ⟨_, Reentrancy.detect_eq tree source⟩
  · exact .inr ⟨_, Overflow.detect_eq tree source⟩
  · exact .inr ⟨_, UncheckedCall.detect_eq tree source⟩
  · exact .inl rfl

theorem Registry.builtin_answers {tree : Node} (h : tree.ModifiersOnly) (source : String)
    {d : Detector} (hd : d ∈ builtin.detectors) : d.Answers tree source := by
  have hok : ∃ found, d.detect tree source = .ok found := by
    rcases builtin_detect_ok hd tree source with rfl | hok
    · exact AccessControl.detect_ok h source
    · exact hok
  obtain ⟨found, hfound⟩ := hok
  exact ⟨found, hfound, fun f hf ↦ (builtin_classified hd hfound f hf).1⟩

theorem Registry.builtin_id_ne {d : Detector} (hd : d ∈ builtin.detectors) :
    d.id ≠ .detectorError := by
  rcases mem_builtin_detectors.mp hd with rfl | rfl | rfl | rfl <;> decide

end ContractAudit
