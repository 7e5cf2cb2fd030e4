import ContractAudit.Concrete.Lowering
import ContractAudit.Proofs.Node.Walk

namespace ContractAudit.Concrete

namespace Tree

mutual

/-- A node and all nodes below it, parents before children, tokens and comments included. -/
def preorder : Tree → List Tree
  | .node info children => .node info children :: preorderAll children

def preorderAll : List Tree → List Tree
  | [] => []
  | child :: rest => preorder child ++ preorderAll rest

end

def descendants (tree : Tree) : List Tree := tree.children.flatMap preorder

theorem preorderAll_eq_flatMap (trees : List Tree) :
    preorderAll trees = trees.flatMap preorder := by
  induction trees with
  | nil => rfl
  | cons tree trees ih => rw [preorderAll, ih, List.flatMap_cons]

theorem preorder_eq_cons (tree : Tree) : tree.preorder = tree :: tree.descendants := by
  cases tree with
  | node info children => rw [preorder, preorderAll_eq_flatMap, descendants, Tree.children]

theorem mem_preorder {tree t : Tree} : t ∈ tree.preorder ↔ t = tree ∨ t ∈ tree.descendants := by
  rw [preorder_eq_cons, List.mem_cons]

theorem mem_preorder_self (tree : Tree) : tree ∈ tree.preorder := mem_preorder.mpr (.inl rfl)

theorem mem_preorder_of_mem_descendants {tree t : Tree} (h : t ∈ tree.descendants) :
    t ∈ tree.preorder := mem_preorder.mpr (.inr h)

theorem mem_descendants {tree t : Tree} :
    t ∈ tree.descendants ↔ ∃ child ∈ tree.children, t ∈ child.preorder := List.mem_flatMap

theorem mem_descendants_of_mem_children {child tree : Tree} (h : child ∈ tree.children) :
    child ∈ tree.descendants := mem_descendants.mpr ⟨child, h, mem_preorder_self child⟩

theorem sizeOf_lt_of_mem_children {child tree : Tree} (h : child ∈ tree.children) :
    sizeOf child < sizeOf tree := by
  cases tree with
  | node info children =>
    have hc := List.sizeOf_lt_of_mem (show child ∈ children from h)
    simp only [node.sizeOf_spec]
    omega

theorem induction_children {motive : Tree → Prop}
    (step : ∀ tree : Tree, (∀ child ∈ tree.children, motive child) → motive tree) (tree : Tree) :
    motive tree :=
  step tree fun child _ ↦ induction_children step child
termination_by sizeOf tree
decreasing_by exact sizeOf_lt_of_mem_children ‹_›

/-- A property that passes from the nodes below a node to the node holds of all trees. -/
theorem induction_descendants {motive : Tree → Prop}
    (step : ∀ tree : Tree, (∀ t ∈ tree.descendants, motive t) → motive tree) (tree : Tree) :
    motive tree := by
  have h : ∀ t ∈ tree.preorder, motive t := by
    induction tree using induction_children with
    | step tree ih =>
      have hb : ∀ t ∈ tree.descendants, motive t := by
        intro t ht
        obtain ⟨child, hc, ht⟩ := mem_descendants.mp ht
        exact ih child hc t ht
      intro t ht
      rcases mem_preorder.mp ht with rfl | ht
      · exact step t hb
      · exact hb t ht
  exact h tree (mem_preorder_self tree)

theorem mem_preorder_trans {t u tree : Tree} (ht : t ∈ u.preorder) (hu : u ∈ tree.preorder) :
    t ∈ tree.preorder := by
  induction tree using induction_children with
  | step tree ih =>
    rcases mem_preorder.mp hu with rfl | hu
    · exact ht
    · obtain ⟨child, hc, hu⟩ := mem_descendants.mp hu
      exact mem_preorder_of_mem_descendants (mem_descendants.mpr ⟨child, hc, ih child hc hu⟩)

theorem mem_descendants_trans {t u tree : Tree} (ht : t ∈ u.preorder) (hu : u ∈ tree.descendants) :
    t ∈ tree.descendants := by
  obtain ⟨child, hc, hu⟩ := mem_descendants.mp hu
  exact mem_descendants.mpr ⟨child, hc, mem_preorder_trans ht hu⟩

def constructs (tree : Tree) : List Tree := tree.children.filter (·.info.isConstruct)

def constructsOf (kind : String) (tree : Tree) : List Tree :=
  tree.constructs.filter (·.info.kind == kind)

def part? (field : String) (tree : Tree) : Option Tree :=
  tree.children.find? (·.info.field == some field)

theorem mem_descendants_of_mem_constructs {t tree : Tree} (h : t ∈ tree.constructs) :
    t ∈ tree.descendants := mem_descendants_of_mem_children (List.mem_of_mem_filter h)

theorem mem_constructs_of_only {only tree : Tree} (h : tree.constructs = [only]) :
    only ∈ tree.constructs := h ▸ List.mem_singleton_self only

theorem mem_descendants_of_mem_constructsOf {kind : String} {t tree : Tree}
    (h : t ∈ tree.constructsOf kind) : t ∈ tree.descendants :=
  mem_descendants_of_mem_constructs (List.mem_of_mem_filter h)

theorem mem_descendants_of_part? {field : String} {t tree : Tree} (h : tree.part? field = some t) :
    t ∈ tree.descendants := mem_descendants_of_mem_children (List.mem_of_find?_eq_some h)

namespace Build

-- All of them stand on the first line of a source.

def construct (kind : String) (field : Option String) (start stop : Nat) (children : List Tree) :
    Tree :=
  .node ⟨kind, true, false, false, false, field, start, stop, 0, start⟩ children

def token (text : String) (field : Option String) (start : Nat) : Tree :=
  .node ⟨text, false, false, false, false, field, start, start + text.length, 0, start⟩ []

def identifier (field : Option String) (start stop : Nat) : Tree :=
  construct "identifier" field start stop []

end Build

variable (source : String)

theorem annotateAll_eq_map (trees : List Tree) :
    annotateAll source trees = trees.map (annotate source) := by
  induction trees with
  | nil => rfl
  | cons tree trees ih => rw [annotateAll, ih, List.map_cons]

@[simp] theorem info_annotate (tree : Tree) : (annotate source tree).info = tree.info := by
  cases tree; rfl

@[simp] theorem children_annotate (tree : Tree) :
    (annotate source tree).children = tree.children.map (annotate source) := by
  cases tree; simp [annotate, Lowered.children, Tree.children, annotateAll_eq_map]

@[simp] theorem lowering_annotate (tree : Tree) :
    (annotate source tree).lowering = tree.lower source := rfl

theorem lower_eq_lowerNode (tree : Tree) :
    tree.lower source = lowerNode source tree.info (tree.children.map (annotate source)) := by
  cases tree
  rw [lower, annotate, annotateAll_eq_map]
  rfl

@[simp] theorem constructs_map (tree : Tree) :
    Concrete.constructs (tree.children.map (annotate source)) =
      tree.constructs.map (annotate source) := by
  simp [Concrete.constructs, constructs, List.filter_map, Function.comp_def]

@[simp] theorem constructsOf_map (kind : String) (tree : Tree) :
    Concrete.constructsOf kind (tree.children.map (annotate source)) =
      (tree.constructsOf kind).map (annotate source) := by
  simp [Concrete.constructsOf, constructsOf, List.filter_map, Function.comp_def]

@[simp] theorem lowerings_map (trees : List Tree) :
    lowerings (trees.map (annotate source)) = trees.map (lower source) := by
  simp [lowerings, Function.comp_def]

@[simp] theorem child?_map (field : String) (tree : Tree) :
    child? field (tree.children.map (annotate source)) =
      (tree.part? field).map (annotate source) := by
  simp only [child?, part?, List.find?_map, Function.comp_def, info_annotate]

@[simp] theorem childLowering?_map (field : String) (tree : Tree) :
    childLowering? field (tree.children.map (annotate source)) =
      (tree.part? field).map (lower source) := by
  simp [childLowering?, Function.comp_def]

def contractKinds : List String :=
  ["contract_declaration", "library_declaration", "interface_declaration"]

def functionKinds : List String :=
  ["function_definition", "constructor_definition", "fallback_receive_definition"]

def blockKinds : List String := ["function_body", "block_statement", "unchecked_block"]

def assignmentKinds : List String := ["assignment_expression", "augmented_assignment_expression"]

/-- The second tree is what is left of the first without the `expression` nodes around it that hold
one construct each. -/
inductive Wraps : Tree → Tree → Prop
  | refl (tree : Tree) : Wraps tree tree
  | expression {tree only inner : Tree} (hk : tree.info.kind = "expression")
      (ho : tree.constructs = [only]) (h : Wraps only inner) : Wraps tree inner

/-- The forms that the lowering of a tree can take, each with what it asks of the tree. -/
inductive LowersTo (tree : Tree) : Node → Prop
  | wrapper {only : Tree} (hk : tree.info.kind ∈ wrapperKinds) (ho : tree.constructs = [only]) :
      LowersTo tree (only.lower source)
  | sourceUnit (hk : tree.info.kind = "source_file") :
      LowersTo tree (.sourceUnit tree.info.loc (tree.constructs.map (lower source)))
  | pragma (name value : String) (hk : tree.info.kind = "pragma_directive") :
      LowersTo tree (.pragma tree.info.loc name value)
  | contract (name : String) (hk : tree.info.kind ∈ contractKinds) :
      LowersTo tree (.contract tree.info.loc name
        ((tree.part? "body").toList.flatMap fun body ↦ body.constructs.map (lower source)))
  | function (header : FunctionHeader) (hk : tree.info.kind ∈ functionKinds) :
      LowersTo tree (.function tree.info.loc header
        ((tree.constructsOf "parameter").map (lower source))
        ((tree.constructsOf "modifier_invocation").map (lower source))
        ((tree.part? "body").map (lower source)))
  | modifierDefinition (name : String) (hk : tree.info.kind = "modifier_definition") :
      LowersTo tree (.modifierDefinition tree.info.loc name
        ((tree.part? "body").map (lower source)))
  | modifierInvocation (name : String) (hk : tree.info.kind = "modifier_invocation") :
      LowersTo tree (.modifierInvocation tree.info.loc name
        ((tree.constructsOf "call_argument").map (lower source)))
  | declaration (header : DeclarationHeader)
      (hk : tree.info.kind = "state_variable_declaration" ∨ tree.info.kind = "parameter")
      (hn : (tree.part? "name").isSome) :
      LowersTo tree (.declaration tree.info.loc header ((tree.part? "value").map (lower source)))
  | declarationStatement (header : DeclarationHeader) {declared : Tree} {rest : List Tree}
      (hk : tree.info.kind = "variable_declaration_statement")
      (hd : tree.constructsOf "variable_declaration" = declared :: rest)
      (hn : (declared.part? "name").isSome) :
      LowersTo tree (.declaration tree.info.loc header ((tree.part? "value").map (lower source)))
  | block (hk : tree.info.kind ∈ blockKinds) :
      LowersTo tree (.block tree.info.loc (tree.constructs.map (lower source)))
  | binary (operator : String) {left right : Tree} (hk : tree.info.kind = "binary_expression")
      (hl : tree.part? "left" = some left) (hr : tree.part? "right" = some right) :
      LowersTo tree (.binary tree.info.loc operator (left.lower source) (right.lower source))
  | assignment (operator : String) {left right : Tree} (hk : tree.info.kind ∈ assignmentKinds)
      (hl : tree.part? "left" = some left) (hr : tree.part? "right" = some right) :
      LowersTo tree (.assignment tree.info.loc operator (left.lower source) (right.lower source))
  | call {function : Tree} (hk : tree.info.kind = "call_expression")
      (hf : tree.part? "function" = some function) (hs : ∀ inner, Wraps function inner →
        inner.info.kind ≠ "struct_expression") :
      LowersTo tree (.call tree.info.loc (function.lower source) []
        ((tree.constructsOf "call_argument").map (lower source)))
  | callWithOptions {function inner type : Tree} (hk : tree.info.kind = "call_expression")
      (hf : tree.part? "function" = some function) (hw : Wraps function inner)
      (hs : inner.info.kind = "struct_expression") (ht : inner.part? "type" = some type) :
      LowersTo tree (.call tree.info.loc (type.lower source)
        ((inner.constructsOf "struct_field_assignment").map (lower source))
        ((tree.constructsOf "call_argument").map (lower source)))
  | member (name : String) {object : Tree} (hk : tree.info.kind = "member_expression")
      (ho : tree.part? "object" = some object) :
      LowersTo tree (.member tree.info.loc (object.lower source) name)
  | identifier (hk : tree.info.kind = "identifier") :
      LowersTo tree (.identifier tree.info.loc (tree.info.text source))
  | literal (hk : Text.endsWith "_literal".toList tree.info.kind.toList) :
      LowersTo tree (.literal tree.info.loc (tree.info.text source))
  | other (hk : lowerKind? source tree.info (tree.children.map (annotate source)) = none) :
      LowersTo tree (.other tree.info.loc tree.info.kind (tree.constructs.map (lower source)))

variable {source} {tree inner : Tree} {node : Node}

theorem unwrapOnly_eq (children : List Lowered) :
    unwrapExpression.unwrapOnly children = match Concrete.constructs children with
      | [only] => some (unwrapExpression only)
      | _ => none := by
  induction children with
  | nil => rfl
  | cons child rest ih =>
    rw [unwrapExpression.unwrapOnly]
    by_cases hc : child.info.isConstruct
    · cases hr : rest.filter (·.info.isConstruct) with
      | nil =>
        have hany : rest.any (·.info.isConstruct) = false := by
          simpa using List.filter_eq_nil_iff.mp hr
        simp [Concrete.constructs, hc, hr, hany]
      | cons other others =>
        have ho : other ∈ rest.filter (·.info.isConstruct) := hr ▸ List.mem_cons_self
        have hany : rest.any (·.info.isConstruct) = true :=
          List.any_eq_true.mpr ⟨other, List.mem_filter.mp ho⟩
        simp [Concrete.constructs, hc, hr, hany]
    · simpa [Concrete.constructs, hc] using ih

theorem unwrapExpression_eq (lowered : Lowered) :
    unwrapExpression lowered = if lowered.info.kind = "expression" then
      match Concrete.constructs lowered.children with
      | [only] => unwrapExpression only
      | _ => lowered
    else lowered := by
  cases lowered with
  | node info lowering children =>
    rw [unwrapExpression, unwrapOnly_eq]
    simp only [beq_iff_eq, Lowered.info, Lowered.children]
    rcases Concrete.constructs children with _ | ⟨only, _ | ⟨next, rest⟩⟩ <;> rfl

theorem Wraps.unwrapExpression_eq (h : Wraps tree inner) (hi : inner.info.kind ≠ "expression") :
    unwrapExpression (tree.annotate source) = inner.annotate source := by
  induction h with
  | refl tree => rw [Tree.unwrapExpression_eq, if_neg (by simpa using hi)]
  | expression hk ho h ih =>
    rw [Tree.unwrapExpression_eq, if_pos (by simpa using hk)]
    simp [ho, ih hi]

theorem exists_wraps (source : String) (tree : Tree) : ∃ inner, Wraps tree inner ∧
    unwrapExpression (tree.annotate source) = inner.annotate source := by
  induction tree using induction_children with
  | step tree ih =>
    rw [Tree.unwrapExpression_eq, info_annotate, children_annotate, constructs_map]
    split
    next hk =>
      split
      next only ho =>
        obtain ⟨child, hc, rfl⟩ := List.map_eq_singleton_iff.mp ho
        obtain ⟨inner, hw, he⟩ := ih child (List.mem_of_mem_filter (mem_constructs_of_only hc))
        exact ⟨inner, .expression hk hc hw, he⟩
      next => exact ⟨tree, .refl tree, rfl⟩
    next => exact ⟨tree, .refl tree, rfl⟩

theorem Wraps.mem_preorder (h : Wraps tree inner) : inner ∈ tree.preorder := by
  induction h with
  | refl tree => exact mem_preorder_self tree
  | @expression tree only inner hk ho h ih =>
    have hm := mem_descendants_of_mem_constructs (mem_constructs_of_only ho)
    exact mem_preorder_of_mem_descendants (mem_descendants_trans ih hm)

theorem lower_of_only {only : Tree} (hk : tree.info.kind ∈ wrapperKinds)
    (ho : tree.constructs = [only]) : tree.lower source = only.lower source := by
  rw [lower_eq_lowerNode, lowerNode, if_pos (by simpa using hk), constructs_map, ho]
  rfl

theorem Wraps.lower_eq (h : Wraps tree inner) : tree.lower source = inner.lower source := by
  induction h with
  | refl tree => rfl
  | expression hk ho h ih => rw [lower_of_only (by simp [hk, wrapperKinds]) ho, ih]

theorem LowersTo.of_lowerContract (hk : tree.info.kind ∈ contractKinds) :
    LowersTo source tree
      (lowerContract source tree.info (tree.children.map (annotate source))) := by
  rw [lowerContract, child?_map]
  cases hb : tree.part? "body" with
  | none => simpa [hb] using LowersTo.contract _ hk
  | some body => simpa [hb] using LowersTo.contract _ hk

theorem LowersTo.of_lowerFunction (hk : tree.info.kind ∈ functionKinds) :
    LowersTo source tree
      (lowerFunction source tree.info (tree.children.map (annotate source))) := by
  simpa only [lowerFunction, constructsOf_map, lowerings_map, childLowering?_map] using
    LowersTo.function _ hk

theorem childText?_map_isSome {field text : String}
    (h : childText? source field (tree.children.map (annotate source)) = some text) :
    (tree.part? field).isSome := by
  rw [childText?, child?_map, Option.map_map, Option.map_eq_some_iff] at h
  obtain ⟨child, hc, -⟩ := h
  exact Option.isSome_iff_exists.mpr ⟨child, hc⟩

theorem LowersTo.of_lowerDeclaration? {isState : Bool}
    (hk : tree.info.kind = "state_variable_declaration" ∨ tree.info.kind = "parameter")
    (h : lowerDeclaration? source tree.info (tree.children.map (annotate source))
      (tree.children.map (annotate source)) isState = some node) : LowersTo source tree node := by
  simp only [lowerDeclaration?, childLowering?_map, Option.bind_eq_bind, Option.bind_eq_some_iff,
    Option.pure_def, Option.some.injEq] at h
  obtain ⟨name, hn, rfl⟩ := h
  exact .declaration _ hk (childText?_map_isSome hn)

theorem LowersTo.of_lowerDeclarationStatement?
    (hk : tree.info.kind = "variable_declaration_statement")
    (h : lowerDeclarationStatement? source tree.info (tree.children.map (annotate source)) =
      some node) : LowersTo source tree node := by
  rw [lowerDeclarationStatement?, constructsOf_map] at h
  cases hd : tree.constructsOf "variable_declaration" with
  | nil => simp [hd] at h
  | cons declared rest =>
    simp only [hd, List.map_cons, children_annotate, lowerDeclaration?, childLowering?_map,
      Option.bind_eq_bind, Option.bind_eq_some_iff, Option.pure_def, Option.some.injEq] at h
    obtain ⟨name, hn, rfl⟩ := h
    exact .declarationStatement _ hk hd (childText?_map_isSome hn)

theorem LowersTo.of_lowerBinary? (hk : tree.info.kind = "binary_expression")
    (h : lowerBinary? source tree.info (tree.children.map (annotate source)) = some node) :
    LowersTo source tree node := by
  simp only [lowerBinary?, childLowering?_map, Option.bind_eq_bind, Option.bind_eq_some_iff,
    Option.map_eq_some_iff, Option.pure_def, Option.some.injEq] at h
  obtain ⟨operator, -, -, ⟨left, hl, rfl⟩, -, ⟨right, hr, rfl⟩, rfl⟩ := h
  exact .binary operator hk hl hr

theorem LowersTo.of_lowerAssignment? (hk : tree.info.kind ∈ assignmentKinds)
    (h : lowerAssignment? tree.info (tree.children.map (annotate source)) = some node) :
    LowersTo source tree node := by
  simp only [lowerAssignment?, childLowering?_map, Option.bind_eq_bind, Option.bind_eq_some_iff,
    Option.map_eq_some_iff, Option.pure_def, Option.some.injEq] at h
  obtain ⟨-, ⟨left, hl, rfl⟩, -, ⟨right, hr, rfl⟩, rfl⟩ := h
  exact .assignment _ hk hl hr

theorem LowersTo.of_lowerCall? (hk : tree.info.kind = "call_expression")
    (h : lowerCall? tree.info (tree.children.map (annotate source)) = some node) :
    LowersTo source tree node := by
  simp only [lowerCall?, child?_map, constructsOf_map, lowerings_map, Option.bind_eq_bind,
    Option.bind_eq_some_iff, Option.map_eq_some_iff] at h
  obtain ⟨-, ⟨function, hf, rfl⟩, h⟩ := h
  obtain ⟨inner, hw, he⟩ := exists_wraps source function
  rw [he] at h
  simp only [info_annotate, children_annotate, childLowering?_map, constructsOf_map, lowerings_map,
    lowering_annotate] at h
  split at h
  next hs =>
    simp only [Option.bind_eq_some_iff, Option.map_eq_some_iff, Option.pure_def,
      Option.some.injEq] at h
    obtain ⟨-, ⟨type, ht, rfl⟩, rfl⟩ := h
    exact .callWithOptions hk hf hw (by simpa using hs) ht
  next hs =>
    obtain rfl := Option.some.inj h
    rw [← hw.lower_eq]
    -- A struct expression anywhere down the chain would be the node that unwrapping stops at.
    refine .call hk hf fun other ho hother ↦ hs ?_
    have hsame : unwrapExpression (function.annotate source) = other.annotate source :=
      ho.unwrapExpression_eq (by simp [hother])
    have hinfo := congrArg Lowered.info (he.symm.trans hsame)
    simp only [info_annotate] at hinfo
    simp [hinfo, hother]

theorem LowersTo.of_lowerMember? (hk : tree.info.kind = "member_expression")
    (h : lowerMember? source tree.info (tree.children.map (annotate source)) = some node) :
    LowersTo source tree node := by
  simp only [lowerMember?, childLowering?_map, Option.bind_eq_bind, Option.bind_eq_some_iff,
    Option.map_eq_some_iff, Option.pure_def, Option.some.injEq] at h
  obtain ⟨-, ⟨object, ho, rfl⟩, name, -, rfl⟩ := h
  exact .member name hk ho

theorem LowersTo.of_lowerKind?
    (h : lowerKind? source tree.info (tree.children.map (annotate source)) = some node) :
    LowersTo source tree node := by
  unfold lowerKind? at h
  split at h
  next hk => cases h; simpa using LowersTo.sourceUnit hk
  next hk => cases h; exact .pragma _ _ hk
  next hk => cases h; exact .of_lowerContract (by simp [hk, contractKinds])
  next hk => cases h; exact .of_lowerContract (by simp [hk, contractKinds])
  next hk => cases h; exact .of_lowerContract (by simp [hk, contractKinds])
  next hk => cases h; exact .of_lowerFunction (by simp [hk, functionKinds])
  next hk => cases h; exact .of_lowerFunction (by simp [hk, functionKinds])
  next hk => cases h; exact .of_lowerFunction (by simp [hk, functionKinds])
  next hk => cases h; simpa using LowersTo.modifierDefinition _ hk
  next hk => cases h; simpa [lowerModifierInvocation] using LowersTo.modifierInvocation _ hk
  next hk => exact .of_lowerDeclaration? (.inl hk) h
  next hk => exact .of_lowerDeclarationStatement? hk h
  next hk => exact .of_lowerDeclaration? (.inr hk) h
  next hk => cases h; simpa using LowersTo.block (by simp [hk, blockKinds])
  next hk => cases h; simpa using LowersTo.block (by simp [hk, blockKinds])
  next hk => cases h; simpa using LowersTo.block (by simp [hk, blockKinds])
  next hk => exact .of_lowerBinary? hk h
  next hk => exact .of_lowerAssignment? (by simp [hk, assignmentKinds]) h
  next hk => exact .of_lowerAssignment? (by simp [hk, assignmentKinds]) h
  next hk => exact .of_lowerCall? hk h
  next hk => exact .of_lowerMember? hk h
  next hk => cases h; exact .identifier hk
  next =>
    split at h
    next hk => cases h; exact .literal hk
    next => cases h

theorem LowersTo.of_lowerConstruct : LowersTo source tree
    (lowerConstruct source tree.info (tree.children.map (annotate source))) := by
  rw [lowerConstruct]
  split
  next node h => exact .of_lowerKind? h
  next h => simpa using LowersTo.other h

/-- The forms are exhaustive. -/
theorem lowersTo (source : String) (tree : Tree) : LowersTo source tree (tree.lower source) := by
  rw [lower_eq_lowerNode, lowerNode, constructs_map]
  split
  next hk =>
    split
    next only ho =>
      obtain ⟨child, hc, rfl⟩ := List.map_eq_singleton_iff.mp ho
      exact .wrapper (by simpa using hk) hc
    next => exact .of_lowerConstruct
  next => exact .of_lowerConstruct

theorem children_lower_subset (source : String) (tree : Tree) :
    (tree.lower source).children ⊆ tree.descendants.map (lower source) := by
  induction tree using induction_children with
  | step tree ih =>
    have hconstructs : tree.constructs.map (lower source) ⊆ tree.descendants.map (lower source) :=
      List.map_subset _ fun _ ↦ mem_descendants_of_mem_constructs
    have hkind (kind : String) :
        (tree.constructsOf kind).map (lower source) ⊆ tree.descendants.map (lower source) :=
      List.map_subset _ fun _ ↦ mem_descendants_of_mem_constructsOf
    have hpart {field : String} {part : Tree} (hp : tree.part? field = some part) :
        part.lower source ∈ tree.descendants.map (lower source) :=
      List.mem_map_of_mem (mem_descendants_of_part? hp)
    have hoption (field : String) :
        ((tree.part? field).map (lower source)).toList ⊆ tree.descendants.map (lower source) := by
      cases hp : tree.part? field with
      | none => exact List.nil_subset _
      | some part => simpa using hpart hp
    have h := lowersTo source tree
    -- The node is an index of the relation, so it has to be a variable before the case split.
    generalize tree.lower source = node at h
    cases h with
    | @wrapper only hk ho =>
      have hm := mem_constructs_of_only ho
      refine List.Subset.trans (ih only (List.mem_of_mem_filter hm))
        (List.map_subset _ fun t ht ↦ ?_)
      exact mem_descendants_trans (mem_preorder_of_mem_descendants ht)
        (mem_descendants_of_mem_constructs hm)
    | sourceUnit | block | other => exact hconstructs
    | pragma | identifier | literal => exact List.nil_subset _
    | contract name hk =>
      intro c hc
      simp only [Node.children, List.mem_flatMap, Option.mem_toList, List.mem_map] at hc
      obtain ⟨body, hb, t, ht, rfl⟩ := hc
      exact List.mem_map_of_mem (mem_descendants_trans
        (mem_preorder_of_mem_descendants (mem_descendants_of_mem_constructs ht))
        (mem_descendants_of_part? hb))
    | function header hk =>
      exact List.append_subset.mpr
        ⟨List.append_subset.mpr ⟨hkind "parameter", hkind "modifier_invocation"⟩, hoption "body"⟩
    | modifierDefinition => exact hoption "body"
    | modifierInvocation => exact hkind "call_argument"
    | declaration | declarationStatement => exact hoption "value"
    | binary operator hk hl hr | assignment operator hk hl hr =>
      exact List.cons_subset.mpr ⟨hpart hl, List.cons_subset.mpr ⟨hpart hr, List.nil_subset _⟩⟩
    | call hk hf hs => exact List.cons_subset.mpr ⟨hpart hf, hkind "call_argument"⟩
    | @callWithOptions function inner type hk hf hw hs ht =>
      have hbelow (t : Tree) (hm : t ∈ inner.descendants) : t ∈ tree.descendants :=
        mem_descendants_trans (mem_preorder_of_mem_descendants hm)
          (mem_descendants_trans hw.mem_preorder (mem_descendants_of_part? hf))
      refine List.append_subset.mpr ⟨List.cons_subset.mpr ⟨?_, ?_⟩, hkind "call_argument"⟩
      · exact List.mem_map_of_mem (hbelow type (mem_descendants_of_part? ht))
      · exact List.map_subset _ fun t hm ↦ hbelow t (mem_descendants_of_mem_constructsOf hm)
    | member name hk ho => exact List.cons_subset.mpr ⟨hpart ho, List.nil_subset _⟩

/-- Every node of a lowered tree is the lowering of a node of the tree. -/
theorem preorder_lower_subset (source : String) (tree : Tree) :
    (tree.lower source).preorder ⊆ tree.preorder.map (lower source) := by
  induction tree using induction_descendants with
  | step tree ih =>
    intro node hn
    rcases Node.mem_preorder.mp hn with rfl | ⟨child, hc, hn⟩
    · exact List.mem_map_of_mem (mem_preorder_self tree)
    · obtain ⟨t, ht, rfl⟩ := List.mem_map.mp (children_lower_subset source tree hc)
      obtain ⟨u, hu, rfl⟩ := List.mem_map.mp (ih t ht hn)
      exact List.mem_map_of_mem (mem_preorder_of_mem_descendants (mem_descendants_trans hu ht))

end Tree

end ContractAudit.Concrete
