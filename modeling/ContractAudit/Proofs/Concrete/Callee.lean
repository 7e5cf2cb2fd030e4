import ContractAudit.Proofs.Concrete.Lowering
import ContractAudit.Proofs.Detector.Reentrancy

namespace ContractAudit.Concrete.Tree

/-- The second tree stands in the first, in wrappers of the given kinds that hold one construct
each. The outermost one comes first. -/
inductive Encloses : List String → Tree → Tree → Prop
  | nil (tree : Tree) : Encloses [] tree tree
  | cons {kind : String} {kinds : List String} {tree only inner : Tree}
      (hk : tree.info.kind = kind) (ho : tree.constructs = [only])
      (h : Encloses kinds only inner) : Encloses (kind :: kinds) tree inner

namespace Encloses

variable {kinds : List String} {tree inner : Tree}

theorem lower_eq (h : Encloses kinds tree inner) (hk : ∀ kind ∈ kinds, kind ∈ wrapperKinds)
    (source : String) : tree.lower source = inner.lower source := by
  induction h with
  | nil tree => rfl
  | cons hkind ho h ih =>
    obtain ⟨hroot, hrest⟩ := List.forall_mem_cons.mp hk
    rw [lower_of_only (hkind ▸ hroot) ho, ih hrest]

theorem wraps (h : Encloses kinds tree inner) (hk : ∀ kind ∈ kinds, kind = "expression") :
    Wraps tree inner := by
  induction h with
  | nil tree => exact .refl tree
  | cons hkind ho h ih =>
    obtain ⟨hroot, hrest⟩ := List.forall_mem_cons.mp hk
    exact .expression (hkind.trans hroot) ho (ih hrest)

/-- Unwrapping `expression` nodes comes to the end of wrappers only if there are no others. -/
theorem eq_expression (h : Encloses kinds tree inner) (hk : ∀ kind ∈ kinds, kind ∈ wrapperKinds)
    {other : Tree} (hw : Wraps tree other) (ho : other.info.kind ∉ wrapperKinds) :
    ∀ kind ∈ kinds, kind = "expression" := by
  induction h with
  | nil tree => exact fun kind hm ↦ absurd hm List.not_mem_nil
  | cons hkind hone h ih =>
    obtain ⟨hroot, hrest⟩ := List.forall_mem_cons.mp hk
    cases hw with
    | refl => exact absurd (hkind ▸ hroot) ho
    | expression hexp hone' hw =>
      obtain rfl := List.singleton_inj.mp (hone.symm.trans hone')
      exact List.forall_mem_cons.mpr ⟨hkind.symm.trans hexp, ih hrest hw⟩

end Encloses

theorem lower_eq_lowerConstruct {tree : Tree} (hk : tree.info.kind ∉ wrapperKinds)
    (source : String) :
    tree.lower source =
      lowerConstruct source tree.info (tree.children.map (annotate source)) := by
  rw [lower_eq_lowerNode, lowerNode, if_neg (by simpa using hk)]

theorem lower_call {tree : Tree} {source : String} {node : Node}
    (hk : tree.info.kind = "call_expression")
    (h : lowerCall? tree.info (tree.children.map (annotate source)) = some node) :
    tree.lower source = node := by
  rw [lower_eq_lowerConstruct (by simp [hk, wrapperKinds])]
  simp only [lowerConstruct, lowerKind?, hk, h]

theorem lower_member {tree object property : Tree} (source : String)
    (hk : tree.info.kind = "member_expression") (ho : tree.part? "object" = some object)
    (hp : tree.part? "property" = some property) :
    tree.lower source = .member tree.info.loc (object.lower source)
      (Text.trimmed (property.info.text source)) := by
  have hmember : lowerMember? source tree.info (tree.children.map (annotate source)) =
      some (.member tree.info.loc (object.lower source)
        (Text.trimmed (property.info.text source))) := by
    simp [lowerMember?, childText?, ho, hp]
  rw [lower_eq_lowerConstruct (by simp [hk, wrapperKinds])]
  simp only [lowerConstruct, lowerKind?, hk, hmember]

theorem lower_braces {tree : Tree} (source : String) (hk : tree.info.kind = "struct_expression") :
    tree.lower source =
      .other tree.info.loc "struct_expression" (tree.constructs.map (lower source)) := by
  have hnone : lowerKind? source tree.info (tree.children.map (annotate source)) = none := by
    simp only [lowerKind?, hk]
    rfl
  rw [lower_eq_lowerConstruct (by simp [hk, wrapperKinds]), lowerConstruct, hnone]
  simp [hk]

/-- A call with options of a member, in which the braces may stand in wrappers, and the member in
front of the braces as well. -/
structure CallWithOptions where
  tree : Tree
  function : Tree
  wrappers : List String
  braces : Tree
  target : Tree
  targetWrappers : List String
  member : Tree
  object : Tree
  property : Tree
  kind_tree : tree.info.kind = "call_expression"
  part_function : tree.part? "function" = some function
  encloses_braces : Encloses wrappers function braces
  mem_wrapperKinds : ∀ kind ∈ wrappers, kind ∈ wrapperKinds
  kind_braces : braces.info.kind = "struct_expression"
  part_type : braces.part? "type" = some target
  encloses_member : Encloses targetWrappers target member
  mem_wrapperKinds_target : ∀ kind ∈ targetWrappers, kind ∈ wrapperKinds
  kind_member : member.info.kind = "member_expression"
  part_object : member.part? "object" = some object
  part_property : member.part? "property" = some property

namespace CallWithOptions

variable (c : CallWithOptions) (source : String)

def memberName : String := Text.trimmed (c.property.info.text source)

def arguments : List Node := (c.tree.constructsOf "call_argument").map (lower source)

def memberCall : Node :=
  .call c.tree.info.loc (.member c.member.info.loc (c.object.lower source) (c.memberName source))
    ((c.braces.constructsOf "struct_field_assignment").map (lower source)) (c.arguments source)

def bracesCall : Node :=
  .call c.tree.info.loc
    (.other c.braces.info.loc "struct_expression" (c.braces.constructs.map (lower source))) []
    (c.arguments source)

theorem lower_target : c.target.lower source =
    .member c.member.info.loc (c.object.lower source) (c.memberName source) := by
  rw [c.encloses_member.lower_eq c.mem_wrapperKinds_target]
  exact lower_member source c.kind_member c.part_object c.part_property

theorem lower_of_expression (h : ∀ kind ∈ c.wrappers, kind = "expression") :
    c.tree.lower source = c.memberCall source := by
  have hunwrap : unwrapExpression (c.function.annotate source) = c.braces.annotate source :=
    (c.encloses_braces.wraps h).unwrapExpression_eq (by simp [c.kind_braces])
  apply lower_call c.kind_tree
  simp [lowerCall?, c.part_function, hunwrap, c.kind_braces, c.part_type, c.lower_target source,
    memberCall, arguments]

theorem lower_of_not_expression (h : ¬ ∀ kind ∈ c.wrappers, kind = "expression") :
    c.tree.lower source = c.bracesCall source := by
  obtain ⟨inner, hw, hunwrap⟩ := exists_wraps source c.function
  have hinner : inner.info.kind ≠ "struct_expression" := by
    intro hk
    apply h
    exact c.encloses_braces.eq_expression c.mem_wrapperKinds hw (by simp [hk, wrapperKinds])
  -- Unwrapping stopped too early, but what it stopped at is lowered to what it holds.
  have hlower : inner.lower source = c.braces.lower source := by
    rw [← hw.lower_eq, c.encloses_braces.lower_eq c.mem_wrapperKinds]
  apply lower_call c.kind_tree
  simp [lowerCall?, c.part_function, hunwrap, hinner, hlower, lower_braces source c.kind_braces,
    bracesCall, arguments]

theorem isExternalCall_memberCall :
    Reentrancy.isExternalCall (c.memberCall source) ↔
      c.memberName source ∈ ["call", "send", "transfer"] := by
  simp [memberCall, Reentrancy.isExternalCall]

theorem finding?_memberCall : UncheckedCall.finding? (c.memberCall source) =
    if c.memberName source ∈ ["call", "send"] then
      some (UncheckedCall.finding c.tree.info.loc.line (c.memberName source))
    else none := by
  simp only [memberCall, UncheckedCall.finding?, Node.memberName?, Option.filter,
    UncheckedCall.lowLevelMembers, List.contains_eq_mem, decide_eq_true_eq]
  split <;> rfl

end CallWithOptions

/-- The member that a call with options calls is found if `expression` nodes alone stand around the
braces. In any other wrapper the braces are the callee, and no detector sees the call. -/
theorem lower_callWithOptions (c : CallWithOptions) (source : String) :
    (c.tree.lower source =
      if ∀ kind ∈ c.wrappers, kind = "expression" then c.memberCall source
      else c.bracesCall source) ∧
    (Reentrancy.isExternalCall (c.tree.lower source) ↔
      (∀ kind ∈ c.wrappers, kind = "expression") ∧
        c.memberName source ∈ ["call", "send", "transfer"]) ∧
    (UncheckedCall.finding? (c.tree.lower source) =
      if (∀ kind ∈ c.wrappers, kind = "expression") ∧ c.memberName source ∈ ["call", "send"] then
        some (UncheckedCall.finding c.tree.info.loc.line (c.memberName source))
      else none) := by
  by_cases h : ∀ kind ∈ c.wrappers, kind = "expression"
  · rw [c.lower_of_expression source h, if_pos h]
    refine ⟨rfl, ?_, ?_⟩
    · rw [c.isExternalCall_memberCall]
      exact ⟨fun hn ↦ ⟨h, hn⟩, And.right⟩
    · rw [c.finding?_memberCall]
      exact if_congr (and_iff_right h).symm rfl rfl
  · rw [c.lower_of_not_expression source h, if_neg h]
    refine ⟨rfl, ?_, ?_⟩
    · exact ⟨fun hcall ↦ absurd hcall Bool.false_ne_true, fun hcall ↦ absurd hcall.1 h⟩
    · rw [if_neg fun hcall ↦ h hcall.1]
      rfl

namespace Parenthesized

open Build

-- The parts of `(a.call{value: 1})("")`.

def member : Tree :=
  construct "member_expression" none 1 7
    [identifier (some "object") 1 2, token "." none 2, identifier (some "property") 3 7]

def braces : Tree :=
  construct "struct_expression" none 1 17
    [construct "expression" (some "type") 1 7 [member], token "\x7b" none 7,
      construct "struct_field_assignment" none 8 16
        [identifier (some "name") 8 13, token ":" none 13,
          construct "expression" (some "value") 15 16 [construct "number_literal" none 15 16 []]],
      token "\x7d" none 16]

def function : Tree :=
  construct "expression" (some "function") 0 18
    [construct "parenthesized_expression" none 0 18
      [token "(" none 0, construct "expression" none 1 17 [braces], token ")" none 17]]

def call : CallWithOptions where
  tree := construct "call_expression" none 0 22
    [function, token "(" none 18, construct "call_argument" none 19 21
      [construct "expression" none 19 21 [construct "string_literal" none 19 21 []]],
      token ")" none 21]
  function := function
  wrappers := ["expression", "parenthesized_expression", "expression"]
  braces := braces
  target := construct "expression" (some "type") 1 7 [member]
  targetWrappers := ["expression"]
  member := member
  object := identifier (some "object") 1 2
  property := identifier (some "property") 3 7
  kind_tree := rfl
  part_function := rfl
  encloses_braces := .cons rfl rfl (.cons rfl rfl (.cons rfl rfl (.nil _)))
  mem_wrapperKinds := by decide
  kind_braces := rfl
  part_type := rfl
  encloses_member := .cons rfl rfl (.nil _)
  mem_wrapperKinds_target := by decide
  kind_member := rfl
  part_object := rfl
  part_property := rfl

def source : String := "(a.call\x7bvalue: 1\x7d)(\"\")"

/-- In parentheses, what is called is not found. -/
theorem lower_call_ne_memberCall : call.memberName source = "call" ∧
    call.tree.lower source ≠ call.memberCall source ∧
    Reentrancy.isExternalCall (call.tree.lower source) = false ∧
    UncheckedCall.finding? (call.tree.lower source) = none := by
  have hcall : Reentrancy.isExternalCall (call.tree.lower source) = false := by decide
  refine ⟨by decide, fun heq ↦ ?_, hcall, by decide⟩
  rw [heq] at hcall
  exact absurd hcall (by decide)

end Parenthesized

end ContractAudit.Concrete.Tree
