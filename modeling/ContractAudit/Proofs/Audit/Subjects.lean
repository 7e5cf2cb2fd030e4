import ContractAudit.Proofs.Audit
import ContractAudit.Proofs.Concrete.Origin

namespace ContractAudit

open Concrete Concrete.Tree

def DetectorId.subjectKinds : DetectorId → List String
  | .reentrancy => functionKinds
  | .overflowUnderflow => "binary_expression" :: assignmentKinds
  | .uncheckedCall => ["call_expression"]
  | .accessControl => ["function_definition", "fallback_receive_definition"]
  | .detectorError => []

/-- A finding is about a concrete node: it gives the line of the node and, for a function, the name,
and the state changes that it lists are assignments in the node. -/
structure Finding.IsAbout (f : Finding) (source : String) (subject : Tree) : Prop where
  kind : subject.info.kind ∈ f.detector.subjectKinds
  line : f.line = subject.info.row + 1
  function : f.function = (subject.lower source).header?.map FunctionHeader.displayName
  stateChanges : ∀ locs, f.stateChanges = some locs → ∀ loc ∈ locs, ∃ t ∈ subject.preorder,
    t.info.kind ∈ assignmentKinds ∧ loc = ⟨t.info.row + 1, t.info.column⟩

variable {source : String} {root subject : Tree} {node : Node} {f : Finding}

theorem Finding.IsAbout.of_no_changes (hc : f.stateChanges = none)
    (kind : subject.info.kind ∈ f.detector.subjectKinds) (line : f.line = subject.info.row + 1)
    (function : f.function = (subject.lower source).header?.map FunctionHeader.displayName) :
    f.IsAbout source subject :=
  ⟨kind, line, function, by simp [hc]⟩

theorem Reentrancy.isAbout (hs : subject.Stands) (h : finding? (subject.lower source) = some f) :
    f.IsAbout source subject := by
  obtain ⟨header, hheader, -, rfl⟩ := exists_header_of_finding? h
  have hloc := (hs.form (rfl : subject.lower source = _)).1
  refine ⟨(hs.function_form hheader).1, congrArg Location.line hloc, ?_, ?_⟩
  · rw [hheader]
    rfl
  · intro locs hlocs loc hl
    cases hlocs
    obtain ⟨operator, left, right, ha⟩ := exists_assignment_of_mem_stateChanges hl
    obtain ⟨t, ht, hs, ha⟩ := exists_origin ha
    obtain ⟨hloc, hkind⟩ := hs.form ha
    exact ⟨t, ht, hkind, hloc⟩

theorem Overflow.isAbout (hs : subject.Stands) (h : finding? (subject.lower source) = some f) :
    f.IsAbout source subject := by
  obtain ⟨operator, left, right, rfl, hnode | hnode⟩ := exists_operator_of_finding? h
  · obtain ⟨hloc, hkind⟩ := hs.form hnode
    refine .of_no_changes rfl (List.mem_cons.mpr (.inl hkind)) (congrArg Location.line hloc) ?_
    rw [hnode]
    rfl
  · obtain ⟨hloc, hkind⟩ := hs.form hnode
    refine .of_no_changes rfl (List.mem_cons_of_mem _ hkind) (congrArg Location.line hloc) ?_
    rw [hnode]
    rfl

theorem UncheckedCall.isAbout (hs : subject.Stands) (h : finding? (subject.lower source) = some f) :
    f.IsAbout source subject := by
  obtain ⟨name, callee, options, arguments, rfl, hnode⟩ := exists_call_of_finding? h
  obtain ⟨hloc, hkind⟩ := hs.form hnode
  refine .of_no_changes rfl (List.mem_singleton.mpr hkind) (congrArg Location.line hloc) ?_
  rw [hnode]
  rfl

theorem AccessControl.isAbout (hs : subject.Stands)
    (h : verdict (subject.lower source) = .ok (some f)) : f.IsAbout source subject := by
  obtain ⟨header, hheader, hflag, rfl⟩ := exists_header_of_verdict h
  have hloc := (hs.form (rfl : subject.lower source = _)).1
  obtain ⟨hkind, hconstructor⟩ := hs.function_form hheader
  have hkind' : subject.info.kind ∈ ["function_definition", "fallback_receive_definition"] := by
    rw [hflag] at hconstructor
    simp only [functionKinds, List.mem_cons, List.not_mem_nil, or_false] at hkind ⊢
    rcases hkind with hk | hk | hk
    · exact .inl hk
    · simp [hk] at hconstructor
    · exact .inr hk
  refine .of_no_changes rfl hkind' (congrArg Location.line hloc) ?_
  rw [hheader]
  rfl

theorem Finding.MadeAt.exists_subject {id : DetectorId} (h : f.MadeAt node id)
    (hn : node ∈ (root.lower source).preorder) :
    ∃ subject ∈ root.preorder, f.IsAbout source subject := by
  obtain ⟨t, ht, hs, rfl⟩ := exists_origin hn
  refine ⟨t, ht, ?_⟩
  cases h with
  | reentrancy h => exact Reentrancy.isAbout hs h
  | overflowUnderflow h => exact Overflow.isAbout hs h
  | uncheckedCall h => exact UncheckedCall.isAbout hs h
  | accessControl h => exact AccessControl.isAbout hs h

namespace Auditor

open Build

/-- Where the grammar gives a tree without an error, every finding of an audit with the detectors of
the library is about a node of the tree, whatever the configuration. -/
theorem auditSource_exists_subject (config : Config) (grammar : Grammar) (disk : Disk)
    (now : Timestamp) (path source : String) (hg : grammar.tree source = Except.ok root)
    (he : root.info.hasError = false) :
    let auditor : Auditor := ⟨⟨.builtin, config⟩, grammar, disk, now⟩
    ∃ run : AuditRun, (auditor.auditSource path source).2 = Except.ok run ∧
      ∀ f ∈ run.findings, 1 ≤ f.line ∧ ∃ subject ∈ root.preorder, f.IsAbout source subject := by
  intro auditor
  have hmodifiers := modifiersOnly_lower source root
  have hfaults (d : Detector) (hd : d ∈ auditor.engine.enabled) :
      ¬ d.Faults (root.lower source) source :=
    (Registry.builtin_answers hmodifiers source (List.mem_of_mem_filter hd)).not_faults
  let findings := auditor.engine.enabled.flatMap (Engine.contribution (root.lower source) source)
  refine ⟨⟨findings, Report.build path findings now⟩, ?_, fun f hf ↦ ?_⟩
  · rw [auditSource, Grammar.parse_of_not_hasError hg he]
    exact Engine.audit_eq_ok_iff.mpr ⟨.inr hfaults, rfl, rfl⟩
  · obtain ⟨d, hd, hf⟩ := List.mem_flatMap.mp hf
    rcases Engine.mem_contribution.mp hf with ⟨found, hfound, hf⟩ | ⟨fault, hfault, -⟩
    · obtain ⟨node, hn, hmade⟩ :=
        Registry.builtin_exists_madeAt (List.mem_of_mem_filter hd) hfound hf
      obtain ⟨subject, hs, habout⟩ := hmade.exists_subject hn
      exact ⟨by rw [habout.line]; omega, subject, hs, habout⟩
    · exact absurd ⟨fault, hfault⟩ (hfaults d hd)

/-- The tree of `function f() public { a.call(); x = 1; }`. -/
def callThenAssign : Tree :=
  let call := construct "call_expression" none 22 30
    [construct "expression" (some "function") 22 28
      [construct "member_expression" none 22 28
        [identifier (some "object") 22 23, token "." none 23,
          identifier (some "property") 24 28]],
      token "(" none 28, token ")" none 29]
  let assignment := construct "assignment_expression" none 32 37
    [construct "expression" (some "left") 32 33 [identifier none 32 33], token "=" none 34,
      construct "expression" (some "right") 36 37 [construct "number_literal" none 36 37 []]]
  let statement (start stop : Nat) (expression : Tree) := construct "statement" none start stop
    [construct "expression_statement" none start stop
      [construct "expression" none start (stop - 1) [expression], token ";" none (stop - 1)]]
  construct "source_file" none 0 40
    [construct "function_definition" none 0 40
      [token "function" none 0, identifier (some "name") 9 10, token "(" none 10,
        token ")" none 11, construct "visibility" none 13 19 [token "public" none 13],
        construct "function_body" (some "body") 20 40
          [token "\x7b" none 20, statement 22 31 call, statement 32 38 assignment,
            token "\x7d" none 39]]]

def callThenAssignSource : String := "function f() public \x7b a.call(); x = 1; \x7d"

theorem auditSource_exists_subject_callThenAssign :
    let auditor : Auditor :=
      ⟨⟨.builtin, {}⟩, ⟨fun _ ↦ .ok callThenAssign⟩, .ofFiles { root := [] }, .epoch⟩
    auditor.grammar.tree callThenAssignSource = .ok callThenAssign ∧
    callThenAssign.info.hasError = false ∧
    ∃ run, (auditor.auditSource "F.sol" callThenAssignSource).2 = .ok run ∧
      run.findings.map (·.detector) = [.reentrancy, .uncheckedCall, .accessControl] ∧
      ∀ f ∈ run.findings, ∃ subject ∈ callThenAssign.preorder,
        f.IsAbout callThenAssignSource subject := by
  intro auditor
  obtain ⟨run, hrun, hsubjects⟩ := auditSource_exists_subject {} ⟨fun _ ↦ .ok callThenAssign⟩
    (.ofFiles { root := [] }) .epoch "F.sol" callThenAssignSource rfl rfl
  refine ⟨rfl, rfl, run, hrun, ?_, fun f hf ↦ (hsubjects f hf).2⟩
  have hdetectors : (auditor.auditSource "F.sol" callThenAssignSource).2.map
      (·.findings.map (·.detector)) = .ok [.reentrancy, .uncheckedCall, .accessControl] := by
    decide
  rw [show (auditor.auditSource "F.sol" callThenAssignSource).2 = .ok run from hrun] at hdetectors
  exact Except.ok.inj hdetectors

end Auditor

end ContractAudit
