import ContractAudit.Audit
import ContractAudit.Proofs.Concrete.Lowering
import ContractAudit.Proofs.Detector.Builtin
import ContractAudit.Proofs.Engine
import ContractAudit.Proofs.Report

namespace ContractAudit

namespace Concrete.Tree

theorem isModifierInvocation_lower (source : String) {tree : Tree}
    (hk : tree.info.kind = "modifier_invocation") :
    (tree.lower source).isModifierInvocation := by
  simp [lower_eq_lowerNode, lowerNode, lowerConstruct, lowerKind?, lowerModifierInvocation,
    wrapperKinds, hk, Node.isModifierInvocation]

theorem modifiers_lower (source : String) (tree : Tree) :
    ∀ m ∈ (tree.lower source).modifiers, m.isModifierInvocation := by
  induction tree using induction_children with
  | step tree ih =>
    have h := lowersTo source tree
    generalize tree.lower source = node at h
    cases h with
    | @wrapper only hk ho =>
      exact ih only (List.mem_of_mem_filter (mem_constructs_of_only ho))
    | function header hk =>
      -- The list is chosen by kind, and nodes of that kind lower to nothing else.
      intro m hm
      obtain ⟨t, ht, rfl⟩ := List.mem_map.mp hm
      exact isModifierInvocation_lower source (by simpa using List.of_mem_filter ht)
    | _ => exact fun m hm ↦ absurd hm List.not_mem_nil

theorem modifiersOnly_lower (source : String) (tree : Tree) :
    (tree.lower source).ModifiersOnly := by
  intro n hn
  obtain ⟨t, -, rfl⟩ := List.mem_map.mp (preorder_lower_subset source tree hn)
  exact modifiers_lower source t

end Concrete.Tree

theorem Detector.Answers.not_faults {d : Detector} {tree : Node} {source : String}
    (h : d.Answers tree source) : ¬ d.Faults tree source := by
  obtain ⟨found, hd, -⟩ := h
  simp [Detector.Faults, hd]

namespace Engine

/-- An audit whose detectors all answer succeeds, and its findings are those of the detectors. -/
theorem audit_of_answers (engine : Engine) {tree : Node} {source : String}
    (h : ∀ d ∈ engine.enabled, d.Answers tree source) (now : Timestamp) (path : String) :
    ∃ findings, (engine.audit now path tree source).2 =
        .ok ⟨findings, Report.build path findings now⟩ ∧
      ∀ f ∈ findings, ∃ d ∈ engine.enabled, f.detector = d.id := by
  have hfaults (d : Detector) (hd : d ∈ engine.enabled) : ¬ d.Faults tree source :=
    (h d hd).not_faults
  refine ⟨_, audit_eq_ok_iff.mpr ⟨.inr hfaults, rfl, rfl⟩, fun f hf ↦ ?_⟩
  obtain ⟨d, hd, hf⟩ := List.mem_flatMap.mp hf
  obtain ⟨found, hdetect, hfrom⟩ := h d hd
  rw [contribution, hdetect] at hf
  exact ⟨d, hd, hfrom f hf⟩

end Engine

/-- Neither the findings nor the report of a run have an entry for a fault. -/
def AuditRun.FaultFree (run : AuditRun) : Prop :=
  (∀ f ∈ run.findings, f.detector ≠ .detectorError) ∧
    (∀ s, ∀ f ∈ run.report.issues.get s, f.detector ≠ .detectorError) ∧
    run.report.summary.detectorCounts.get? .detectorError = none

theorem AuditRun.FaultFree.of_findings {findings : List Finding}
    (h : ∀ f ∈ findings, f.detector ≠ .detectorError) (path : String) (now : Timestamp) :
    AuditRun.FaultFree ⟨findings, Report.build path findings now⟩ := by
  refine ⟨h, fun s f hf ↦ ?_, ?_⟩
  · have hf' : f ∈ (Buckets.ofFindings findings).get s := hf
    rw [Buckets.get_ofFindings] at hf'
    exact h f (List.mem_of_mem_filter hf')
  · refine Option.not_isSome_iff_eq_none.mp fun hsome ↦ ?_
    obtain ⟨f, hf, he⟩ := (DetectorCounts.isSome_get?_ofFindings findings _).mp hsome
    exact h f hf he

section Source

open Concrete

variable {grammar : Grammar} {source : String} {root : Tree}

theorem Grammar.parse_of_hasError (hg : grammar.tree source = .ok root)
    (h : root.info.hasError = true) : ∃ e, grammar.parse source = .error (.parse e) := by
  simp [Grammar.parse, hg, Tree.parse, h, Except.mapError]

theorem Grammar.parse_of_not_hasError (hg : grammar.tree source = .ok root)
    (h : root.info.hasError = false) : grammar.parse source = .ok (root.lower source) := by
  simp [Grammar.parse, hg, Tree.parse, h, Except.mapError]

theorem Grammar.parse_eq_ok (hg : grammar.tree source = .ok root) {tree : Node}
    (h : grammar.parse source = .ok tree) : tree = root.lower source := by
  cases he : root.info.hasError with
  | true =>
    obtain ⟨e, hp⟩ := parse_of_hasError hg he
    cases hp.symm.trans h
  | false => exact Except.ok.inj (h.symm.trans (parse_of_not_hasError hg he))

/-- Where the grammar gives a tree, an audit with the detectors of the library fails exactly if the
tree has an error, and no detector faults, whatever the configuration. -/
theorem Auditor.auditSource_builtin (config : Config) (grammar : Grammar) (disk : Disk)
    (now : Timestamp) (path source : String) (hg : grammar.tree source = .ok root) :
    let auditor : Auditor := ⟨⟨.builtin, config⟩, grammar, disk, now⟩
    let outcome := (auditor.auditSource path source).2
    (∀ tree, grammar.parse source = .ok tree → tree.ModifiersOnly ∧
      ∀ d ∈ Registry.builtin.detectors, ¬ d.Faults tree source) ∧
    (root.info.hasError = true ∧ (∃ e, outcome = .error (.parse e)) ∨
      root.info.hasError = false ∧ ∃ run, outcome = .ok run ∧ run.FaultFree) ∧
    ∀ id fault, outcome ≠ .error (.detector id fault) := by
  intro auditor outcome
  have hmodifiers := Tree.modifiersOnly_lower source root
  have hanswers {d : Detector} (hd : d ∈ Registry.builtin.detectors) :
      d.Answers (root.lower source) source := Registry.builtin_answers hmodifiers source hd
  have houtcome : root.info.hasError = true ∧ (∃ e, outcome = .error (.parse e)) ∨
      root.info.hasError = false ∧ ∃ run, outcome = .ok run ∧ run.FaultFree := by
    cases he : root.info.hasError with
    | true =>
      obtain ⟨e, hp⟩ := Grammar.parse_of_hasError hg he
      exact .inl ⟨rfl, e, by simp [outcome, auditor, auditSource, hp]⟩
    | false =>
      have hp := Grammar.parse_of_not_hasError hg he
      obtain ⟨findings, hrun, hfrom⟩ := Engine.audit_of_answers ⟨.builtin, config⟩
        (fun d hd ↦ hanswers (List.mem_of_mem_filter hd)) now path
      have hids : ∀ f ∈ findings, f.detector ≠ .detectorError := by
        intro f hf
        obtain ⟨d, hd, hid⟩ := hfrom f hf
        rw [hid]
        exact Registry.builtin_id_ne (List.mem_of_mem_filter hd)
      refine .inr ⟨rfl, _, ?_, .of_findings hids path now⟩
      simpa [outcome, auditor, auditSource, hp] using hrun
  refine ⟨?_, houtcome, ?_⟩
  · intro tree ht
    rw [Grammar.parse_eq_ok hg ht]
    exact ⟨hmodifiers, fun d hd ↦ (hanswers hd).not_faults⟩
  · intro id fault hf
    rcases houtcome with ⟨-, e, he⟩ | ⟨-, run, he, -⟩
    · cases he.symm.trans hf
    · cases he.symm.trans hf

namespace Auditor

open Tree.Build

/-- The tree of `contract C { function f() public onlyOwner() { x = 1; } }`. -/
def guardedContract : Tree :=
  let assignment := construct "assignment_expression" none 47 52
    [construct "expression" (some "left") 47 48 [identifier none 47 48], token "=" none 49,
      construct "expression" (some "right") 51 52 [construct "number_literal" none 51 52 []]]
  let statement := construct "statement" none 47 53
    [construct "expression_statement" none 47 53
      [construct "expression" none 47 52 [assignment], token ";" none 52]]
  let function := construct "function_definition" none 13 55
    [token "function" none 13, identifier (some "name") 22 23, token "(" none 23, token ")" none 24,
      construct "visibility" none 26 32 [token "public" none 26],
      construct "modifier_invocation" none 33 44
        [identifier none 33 42, token "(" none 42, token ")" none 43],
      construct "function_body" (some "body") 45 55
        [token "\x7b" none 45, statement, token "\x7d" none 54]]
  construct "source_file" none 0 57
    [construct "contract_declaration" none 0 57
      [token "contract" none 0, identifier (some "name") 9 10,
        construct "contract_body" (some "body") 11 57
          [token "\x7b" none 11, function, token "\x7d" none 56]]]

def guardedSource : String :=
  "contract C \x7b function f() public onlyOwner() \x7b x = 1; \x7d \x7d"

theorem auditSource_guardedContract :
    (⟨fun _ ↦ .ok guardedContract⟩ : Grammar).tree guardedSource = .ok guardedContract ∧
    ∃ run, ((⟨⟨.builtin, {}⟩, ⟨fun _ ↦ .ok guardedContract⟩, .ofFiles { root := [] }, .epoch⟩ :
      Auditor).auditSource "C.sol" guardedSource).2 = .ok run ∧ run.FaultFree := by
  obtain ⟨-, ⟨he, -⟩ | ⟨-, hrun⟩, -⟩ := auditSource_builtin {} ⟨fun _ ↦ .ok guardedContract⟩
    (.ofFiles { root := [] }) .epoch "C.sol" guardedSource rfl
  · cases he
  · exact ⟨rfl, hrun⟩

end Auditor

end Source

end ContractAudit
