import ContractAudit.Proofs.Concrete.Lowering

namespace ContractAudit.Concrete.Tree

mutual

/-- The tree without the comments below its root and all that stands in them. -/
def withoutComments : Tree → Tree
  | .node info children => .node info (withoutCommentsAll children)

def withoutCommentsAll : List Tree → List Tree
  | [] => []
  | child :: rest =>
    if child.info.isComment then withoutCommentsAll rest
    else withoutComments child :: withoutCommentsAll rest

end

theorem withoutCommentsAll_eq (trees : List Tree) :
    withoutCommentsAll trees = (trees.filter (!·.info.isComment)).map withoutComments := by
  induction trees with
  | nil => rfl
  | cons tree trees ih =>
    rw [withoutCommentsAll, ih]
    by_cases hc : tree.info.isComment <;> simp [hc]

@[simp] theorem info_withoutComments (tree : Tree) : tree.withoutComments.info = tree.info := by
  cases tree; rfl

theorem children_withoutComments (tree : Tree) : tree.withoutComments.children =
    (tree.children.filter (!·.info.isComment)).map withoutComments := by
  cases tree with
  | node info children => exact withoutCommentsAll_eq children

theorem isComment_of_mem_descendants_withoutComments (tree : Tree) :
    ∀ t ∈ tree.withoutComments.descendants, t.info.isComment = false := by
  induction tree using induction_children with
  | step tree ih =>
    intro t ht
    obtain ⟨child, hc, ht⟩ := mem_descendants.mp ht
    rw [children_withoutComments] at hc
    obtain ⟨u, hu, rfl⟩ := List.mem_map.mp hc
    obtain ⟨hu, hcomment⟩ := List.mem_filter.mp hu
    rcases mem_preorder.mp ht with rfl | ht
    · simpa using hcomment
    · exact ih u hu t ht

section Children

variable {p : Info → Bool} {tree : Tree}

theorem filter_children_withoutComments
    (hp : ∀ t ∈ tree.children, t.info.isComment → p t.info = false) :
    tree.withoutComments.children.filter (p ·.info) =
      (tree.children.filter (p ·.info)).map withoutComments := by
  rw [children_withoutComments, List.filter_map, List.filter_filter]
  refine congrArg (List.map withoutComments) (List.filter_congr fun t ht ↦ ?_)
  cases hc : t.info.isComment with
  | true => simp [hp t ht hc]
  | false => simp

theorem find?_children_withoutComments
    (hp : ∀ t ∈ tree.children, t.info.isComment → p t.info = false) :
    tree.withoutComments.children.find? (p ·.info) =
      (tree.children.find? (p ·.info)).map withoutComments := by
  rw [← List.head?_filter, ← List.head?_filter, filter_children_withoutComments hp,
    List.head?_map]

theorem constructs_withoutComments (tree : Tree) :
    tree.withoutComments.constructs = tree.constructs.map withoutComments := by
  refine filter_children_withoutComments fun t _ hc ↦ ?_
  simp only [Info.isComment, Bool.and_eq_true, beq_iff_eq] at hc
  simp [Info.isConstruct, hc]

theorem constructsOf_withoutComments (kind : String) (tree : Tree) :
    tree.withoutComments.constructsOf kind = (tree.constructsOf kind).map withoutComments := by
  simp [constructsOf, constructs_withoutComments, List.filter_map, Function.comp_def]

theorem part?_withoutComments (h : ∀ t ∈ tree.children, t.info.isComment → t.info.field = none)
    (field : String) :
    tree.withoutComments.part? field = (tree.part? field).map withoutComments := by
  refine find?_children_withoutComments (p := fun info ↦ info.field == some field) fun t ht hc ↦ ?_
  simp [h t ht hc]

end Children

/-- No comment below the root plays a part in the node that holds it. -/
def CommentsPlayNoPart (tree : Tree) : Prop :=
  ∀ t ∈ tree.descendants, t.info.isComment → t.info.field = none

theorem CommentsPlayNoPart.of_mem {t tree : Tree} (h : tree.CommentsPlayNoPart)
    (ht : t ∈ tree.descendants) : t.CommentsPlayNoPart :=
  fun u hu ↦ h u (mem_descendants_trans (mem_preorder_of_mem_descendants hu) ht)

section Tokens

variable (source : String) (tree : Tree)

theorem find?_map_annotate (p : Info → Bool) (trees : List Tree) :
    (trees.map (annotate source)).find? (p ·.info) =
      (trees.find? (p ·.info)).map (annotate source) := by
  simp only [List.find?_map, Function.comp_def, info_annotate]

theorem info_find?_withoutComments {p : Info → Bool}
    (hp : ∀ info : Info, info.isComment → p info = false) :
    ((tree.withoutComments.children.map (annotate source)).find? (p ·.info)).map Lowered.info =
      ((tree.children.map (annotate source)).find? (p ·.info)).map Lowered.info := by
  rw [find?_map_annotate, find?_map_annotate, find?_children_withoutComments fun t _ ↦ hp t.info]
  simp [Function.comp_def]

theorem visibilityOf_withoutComments :
    visibilityOf source (tree.withoutComments.children.map (annotate source)) =
      visibilityOf source (tree.children.map (annotate source)) := by
  let p (info : Info) : Bool := visibilityKinds.contains info.kind
  have hp (info : Info) (hc : info.isComment) : p info = false := by
    simp only [Info.isComment, Bool.and_eq_true, beq_iff_eq] at hc
    simp [p, hc.2, visibilityKinds]
  have hview (children : List Lowered) : visibilityOf source children =
      (((children.find? (p ·.info)).map Lowered.info).map
        fun info ↦ Visibility.ofKeyword (info.text source)).getD .unstated := by
    rw [visibilityOf]
    cases children.find? (p ·.info) with
    | none => rfl
    | some child => simp only [Option.map_some, Option.getD_some]
  rw [hview, hview, info_find?_withoutComments source tree hp]

theorem assignmentOperator_withoutComments :
    assignmentOperator (tree.withoutComments.children.map (annotate source)) =
      assignmentOperator (tree.children.map (annotate source)) := by
  let p (info : Info) : Bool := !info.isNamed && Text.endsWith ['='] info.kind.toList
  have hp (info : Info) (hc : info.isComment) : p info = false := by
    simp only [Info.isComment, Bool.and_eq_true] at hc
    simp [p, hc.1]
  have hview (children : List Lowered) : assignmentOperator children =
      (((children.find? (p ·.info)).map Lowered.info).map Info.kind).getD "=" := by
    rw [assignmentOperator]
    cases children.find? (p ·.info) <;> rfl
  rw [hview, hview, info_find?_withoutComments source tree hp]

end Tokens

section Parts

variable {source : String} {tree : Tree} (h : tree.CommentsPlayNoPart)
include h

theorem CommentsPlayNoPart.part?_eq (field : String) :
    tree.withoutComments.part? field = (tree.part? field).map withoutComments :=
  part?_withoutComments (fun t ht ↦ h t (mem_descendants_of_mem_children ht)) field

theorem CommentsPlayNoPart.childText?_eq (field : String) :
    childText? source field (tree.withoutComments.children.map (annotate source)) =
      childText? source field (tree.children.map (annotate source)) := by
  simp [childText?, h.part?_eq, Function.comp_def]

theorem CommentsPlayNoPart.binaryOperator?_eq :
    binaryOperator? source (tree.withoutComments.children.map (annotate source)) =
      binaryOperator? source (tree.children.map (annotate source)) := by
  let p (info : Info) : Bool := !info.isNamed && info.kind != "(" && info.kind != ")"
  have hp (info : Info) (hc : info.isComment) : p info = false := by
    simp only [Info.isComment, Bool.and_eq_true] at hc
    simp [p, hc.1]
  have hview (children : List Lowered) : binaryOperator? source children =
      (((child? "operator" children).map Lowered.info).or
        ((children.find? (p ·.info)).map Lowered.info)).map (Info.text source) := by
    rw [binaryOperator?]
    cases child? "operator" children with
    | some child => rfl
    | none =>
      rw [Option.map_none, Option.none_or, Option.map_map]
      rfl
  rw [hview, hview, info_find?_withoutComments source tree hp, child?_map, child?_map, h.part?_eq]
  simp [Function.comp_def]

end Parts

theorem exists_wraps_withoutComments (source : String) (tree : Tree) :
    ∃ inner ∈ tree.preorder, unwrapExpression (tree.annotate source) = inner.annotate source ∧
      unwrapExpression (tree.withoutComments.annotate source) =
        inner.withoutComments.annotate source := by
  induction tree using induction_children with
  | step tree ih =>
    have heq := unwrapExpression_eq (tree.annotate source)
    have heq' := unwrapExpression_eq (tree.withoutComments.annotate source)
    rw [info_annotate, children_annotate, constructs_map] at heq heq'
    rw [info_withoutComments, constructs_withoutComments] at heq'
    by_cases hk : tree.info.kind = "expression"
    · rw [if_pos hk] at heq heq'
      rcases hc : tree.constructs with _ | ⟨only, _ | ⟨next, rest⟩⟩
      · simp only [hc, List.map_nil] at heq heq'
        exact ⟨tree, mem_preorder_self tree, heq, heq'⟩
      · simp only [hc, List.map_cons, List.map_nil] at heq heq'
        have hm := mem_constructs_of_only hc
        obtain ⟨inner, hi, hu, hu'⟩ := ih only (List.mem_of_mem_filter hm)
        refine ⟨inner, ?_, heq.trans hu, heq'.trans hu'⟩
        exact mem_preorder_of_mem_descendants
          (mem_descendants_trans hi (mem_descendants_of_mem_constructs hm))
      · simp only [hc, List.map_cons] at heq heq'
        exact ⟨tree, mem_preorder_self tree, heq, heq'⟩
    · rw [if_neg hk] at heq heq'
      exact ⟨tree, mem_preorder_self tree, heq, heq'⟩

section Step

variable {source : String} {tree : Tree}

def LowersBelow (source : String) (tree : Tree) : Prop :=
  ∀ t ∈ tree.descendants, t.withoutComments.lower source = t.lower source

theorem LowersBelow.of_mem {t : Tree} (ih : tree.LowersBelow source) (ht : t ∈ tree.descendants) :
    t.LowersBelow source :=
  fun u hu ↦ ih u (mem_descendants_trans (mem_preorder_of_mem_descendants hu) ht)

theorem LowersBelow.constructs_eq (ih : tree.LowersBelow source) :
    lowerings (Concrete.constructs (tree.withoutComments.children.map (annotate source))) =
      lowerings (Concrete.constructs (tree.children.map (annotate source))) := by
  rw [constructs_map, constructs_map, constructs_withoutComments, lowerings_map, lowerings_map,
    List.map_map]
  exact List.map_congr_left fun t ht ↦ ih t (mem_descendants_of_mem_constructs ht)

theorem LowersBelow.constructsOf_eq (ih : tree.LowersBelow source) (kind : String) :
    lowerings (Concrete.constructsOf kind (tree.withoutComments.children.map (annotate source))) =
      lowerings (Concrete.constructsOf kind (tree.children.map (annotate source))) := by
  rw [constructsOf_map, constructsOf_map, constructsOf_withoutComments, lowerings_map,
    lowerings_map, List.map_map]
  exact List.map_congr_left fun t ht ↦ ih t (mem_descendants_of_mem_constructsOf ht)

theorem LowersBelow.childLowering?_eq (ih : tree.LowersBelow source) (h : tree.CommentsPlayNoPart)
    (field : String) :
    childLowering? field (tree.withoutComments.children.map (annotate source)) =
      childLowering? field (tree.children.map (annotate source)) := by
  rw [childLowering?_map, childLowering?_map, h.part?_eq]
  cases hp : tree.part? field with
  | none => rfl
  | some part => exact congrArg some (ih part (mem_descendants_of_part? hp))

theorem LowersBelow.lowerContract_eq (ih : tree.LowersBelow source) (h : tree.CommentsPlayNoPart)
    (info : Info) :
    lowerContract source info (tree.withoutComments.children.map (annotate source)) =
      lowerContract source info (tree.children.map (annotate source)) := by
  rw [lowerContract, lowerContract, h.childText?_eq, child?_map, child?_map, h.part?_eq]
  cases hp : tree.part? "body" with
  | none => rfl
  | some body =>
    have hbody := (ih.of_mem (mem_descendants_of_part? hp)).constructs_eq
    simp only [Option.map_some, children_annotate, hbody]

theorem LowersBelow.lowerFunction_eq (ih : tree.LowersBelow source) (h : tree.CommentsPlayNoPart)
    (info : Info) :
    lowerFunction source info (tree.withoutComments.children.map (annotate source)) =
      lowerFunction source info (tree.children.map (annotate source)) := by
  simp only [lowerFunction, h.childText?_eq, visibilityOf_withoutComments, ih.constructsOf_eq,
    ih.childLowering?_eq h]

theorem LowersBelow.lowerModifierInvocation_eq (ih : tree.LowersBelow source) (info : Info) :
    lowerModifierInvocation source info (tree.withoutComments.children.map (annotate source)) =
      lowerModifierInvocation source info (tree.children.map (annotate source)) := by
  have hname : modifierName source info (tree.withoutComments.children.map (annotate source)) =
      modifierName source info (tree.children.map (annotate source)) := by
    have hfind := find?_map_annotate source (·.kind == "identifier")
    rw [modifierName, modifierName, constructs_map, constructs_map, constructs_withoutComments,
      hfind, hfind, List.find?_map]
    simp only [Function.comp_def, info_withoutComments]
    cases tree.constructs.find? (·.info.kind == "identifier") <;> simp
  rw [lowerModifierInvocation, lowerModifierInvocation, hname, ih.constructsOf_eq]

theorem LowersBelow.lowerDeclaration?_eq (ih : tree.LowersBelow source)
    (h : tree.CommentsPlayNoPart) {declared : Tree} (hd : declared.CommentsPlayNoPart)
    (info : Info) (isState : Bool) :
    lowerDeclaration? source info (declared.withoutComments.children.map (annotate source))
        (tree.withoutComments.children.map (annotate source)) isState =
      lowerDeclaration? source info (declared.children.map (annotate source))
        (tree.children.map (annotate source)) isState := by
  simp only [lowerDeclaration?, hd.childText?_eq, ih.childLowering?_eq h]

theorem LowersBelow.lowerDeclarationStatement?_eq (ih : tree.LowersBelow source)
    (h : tree.CommentsPlayNoPart) (info : Info) :
    lowerDeclarationStatement? source info (tree.withoutComments.children.map (annotate source)) =
      lowerDeclarationStatement? source info (tree.children.map (annotate source)) := by
  rw [lowerDeclarationStatement?, lowerDeclarationStatement?, constructsOf_map, constructsOf_map,
    constructsOf_withoutComments]
  cases hc : tree.constructsOf "variable_declaration" with
  | nil => rfl
  | cons declared rest =>
    have hd : declared ∈ tree.descendants :=
      mem_descendants_of_mem_constructsOf (hc ▸ List.mem_cons_self)
    simpa using ih.lowerDeclaration?_eq h (h.of_mem hd) info false

theorem LowersBelow.lowerCall?_eq (ih : tree.LowersBelow source) (h : tree.CommentsPlayNoPart)
    (info : Info) :
    lowerCall? info (tree.withoutComments.children.map (annotate source)) =
      lowerCall? info (tree.children.map (annotate source)) := by
  rw [lowerCall?, lowerCall?, child?_map, child?_map, h.part?_eq, ih.constructsOf_eq]
  cases hf : tree.part? "function" with
  | none => rfl
  | some function =>
    have hm := mem_descendants_of_part? hf
    obtain ⟨inner, hi, hu, hu'⟩ := exists_wraps_withoutComments source function
    have hi := mem_descendants_trans hi hm
    have hbelow := ih.of_mem hi
    simp only [Option.map_some, Option.bind_eq_bind, Option.bind_some, hu, hu', info_annotate,
      info_withoutComments, children_annotate, lowering_annotate, ih inner hi,
      hbelow.childLowering?_eq (h.of_mem hi), hbelow.constructsOf_eq]

theorem LowersBelow.lowerKind?_eq (ih : tree.LowersBelow source) (h : tree.CommentsPlayNoPart)
    (info : Info) :
    lowerKind? source info (tree.withoutComments.children.map (annotate source)) =
      lowerKind? source info (tree.children.map (annotate source)) := by
  simp only [lowerKind?, ih.constructs_eq, ih.lowerContract_eq h, ih.lowerFunction_eq h,
    h.childText?_eq, ih.childLowering?_eq h, ih.lowerModifierInvocation_eq,
    ih.lowerDeclaration?_eq h h, ih.lowerDeclarationStatement?_eq h, lowerBinary?,
    h.binaryOperator?_eq, lowerAssignment?, assignmentOperator_withoutComments, ih.lowerCall?_eq h,
    lowerMember?]

theorem LowersBelow.lower_eq (ih : tree.LowersBelow source) (h : tree.CommentsPlayNoPart) :
    tree.withoutComments.lower source = tree.lower source := by
  have hconstruct : lowerConstruct source tree.info
      (tree.withoutComments.children.map (annotate source)) =
        lowerConstruct source tree.info (tree.children.map (annotate source)) := by
    rw [lowerConstruct, lowerConstruct, ih.lowerKind?_eq h, ih.constructs_eq]
  rw [lower_eq_lowerNode, lower_eq_lowerNode, info_withoutComments, lowerNode, lowerNode,
    hconstruct, constructs_map, constructs_map, constructs_withoutComments]
  split
  · rcases hc : tree.constructs with _ | ⟨only, _ | ⟨next, rest⟩⟩
    · rfl
    · exact ih only (mem_descendants_of_mem_constructs (mem_constructs_of_only hc))
    · rfl
  · rfl

end Step

theorem lower_withoutComments (source : String) {tree : Tree} (h : tree.CommentsPlayNoPart) :
    tree.withoutComments.lower source = tree.lower source := by
  -- The lowering of a call looks through the wrappers of the called expression, so that it is not
  -- enough to know about the children.
  induction tree using induction_descendants with
  | step tree ih =>
    have hbelow : tree.LowersBelow source := fun t ht ↦ ih t ht (h.of_mem ht)
    exact hbelow.lower_eq h

end ContractAudit.Concrete.Tree
