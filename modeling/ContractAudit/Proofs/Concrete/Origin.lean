import ContractAudit.Proofs.Concrete.Lowering
import ContractAudit.Proofs.Detector.Findings

namespace ContractAudit

namespace Concrete.Tree

def FormOf (kind : String) : Node → Prop
  | .sourceUnit .. => kind = "source_file"
  | .pragma .. => kind = "pragma_directive"
  | .contract .. => kind ∈ contractKinds
  | .function .. => kind ∈ functionKinds
  | .modifierDefinition .. => kind = "modifier_definition"
  | .modifierInvocation .. => kind = "modifier_invocation"
  | .declaration .. =>
    kind ∈ ["state_variable_declaration", "parameter", "variable_declaration_statement"]
  | .block .. => kind ∈ blockKinds
  | .binary .. => kind = "binary_expression"
  | .assignment .. => kind ∈ assignmentKinds
  | .call .. => kind = "call_expression"
  | .member .. => kind = "member_expression"
  | .identifier .. => kind = "identifier"
  | .literal .. => Text.endsWith "_literal".toList kind.toList
  | .other _ name _ => kind = name

variable {source : String} {tree : Tree} {node : Node}

/-- The lowering of the tree is its own and not that of a construct in it. -/
def Stands (tree : Tree) : Prop :=
  tree.info.kind ∈ wrapperKinds → ∀ only, tree.constructs ≠ [only]

theorem exists_stands (source : String) (tree : Tree) :
    ∃ t ∈ tree.preorder, t.Stands ∧ t.lower source = tree.lower source := by
  induction tree using induction_children with
  | step tree ih =>
    by_cases hs : tree.Stands
    · exact ⟨tree, mem_preorder_self tree, hs, rfl⟩
    · -- A wrapper of a single construct is lowered as the construct, which may be a wrapper again.
      simp only [Stands, ne_eq, not_forall, not_not] at hs
      obtain ⟨hk, only, ho⟩ := hs
      have hm := mem_constructs_of_only ho
      obtain ⟨t, ht, hs, hl⟩ := ih only (List.mem_of_mem_filter hm)
      refine ⟨t, ?_, hs, hl.trans (lower_of_only hk ho).symm⟩
      exact mem_preorder_of_mem_descendants
        (mem_descendants_trans ht (mem_descendants_of_mem_constructs hm))

theorem exists_origin (h : node ∈ (tree.lower source).preorder) :
    ∃ t ∈ tree.preorder, t.Stands ∧ t.lower source = node := by
  obtain ⟨u, hu, rfl⟩ := List.mem_map.mp (preorder_lower_subset source tree h)
  obtain ⟨t, ht, hs, hl⟩ := exists_stands source u
  exact ⟨t, mem_preorder_trans ht hu, hs, hl⟩

theorem Stands.form (hs : tree.Stands) (h : tree.lower source = node) :
    node.loc = tree.info.loc ∧ FormOf tree.info.kind node := by
  have hl := lowersTo source tree
  rw [h] at hl
  cases hl with
  | wrapper hk ho => exact absurd ho (hs hk _)
  | declaration header hk hn =>
    refine ⟨rfl, ?_⟩
    rcases hk with hk | hk <;> simp [FormOf, hk]
  | declarationStatement header hk hd hn => exact ⟨rfl, by simp [FormOf, hk]⟩
  | callWithOptions hk => exact ⟨rfl, hk⟩
  | other hk => exact ⟨rfl, rfl⟩
  | _ => exact ⟨rfl, by assumption⟩

theorem lower_eq_lowerFunction (hk : tree.info.kind ∈ functionKinds) :
    tree.lower source = lowerFunction source tree.info (tree.children.map (annotate source)) := by
  simp only [functionKinds, List.mem_cons, List.not_mem_nil, or_false] at hk
  rcases hk with hk | hk | hk <;>
    simp [lower_eq_lowerNode, lowerNode, lowerConstruct, lowerKind?, wrapperKinds, hk]

theorem Stands.function_form (hs : tree.Stands) {header : FunctionHeader}
    (h : (tree.lower source).header? = some header) :
    tree.info.kind ∈ functionKinds ∧
      header.isConstructor = (tree.info.kind == "constructor_definition") := by
  have hkind : tree.info.kind ∈ functionKinds := by
    have hform := (hs.form (rfl : tree.lower source = _)).2
    cases hl : tree.lower source with
    | function loc header parameters modifiers body =>
      rw [hl] at hform
      exact hform
    | _ =>
      rw [hl] at h
      cases h
  refine ⟨hkind, ?_⟩
  rw [lower_eq_lowerFunction hkind] at h
  cases h
  rfl

end Concrete.Tree

end ContractAudit
