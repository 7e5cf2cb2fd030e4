import ContractAudit.Proofs.Concrete.Lowering

namespace ContractAudit

inductive Operation where
  | call (loc : Location)
  | assignment (loc : Location)
  | binary (loc : Location)
  deriving DecidableEq, Repr

namespace Node

def operation? : Node → Option Operation
  | .call loc _ _ _ => some (.call loc)
  | .assignment loc _ _ _ => some (.assignment loc)
  | .binary loc _ _ _ => some (.binary loc)
  | _ => none

def operations (node : Node) : List Operation := node.preorder.filterMap operation?

theorem operations_eq (node : Node) :
    node.operations = node.operation?.toList ++ node.children.flatMap operations := by
  rw [operations, preorder_eq_cons, List.filterMap_cons, List.filterMap_flatMap]
  cases node.operation? <;> rfl

end Node

namespace Concrete.Tree

def operation? (tree : Tree) : Option Operation :=
  match tree.info.kind with
  | "call_expression" => some (.call tree.info.loc)
  | "assignment_expression" => some (.assignment tree.info.loc)
  | "augmented_assignment_expression" => some (.assignment tree.info.loc)
  | "binary_expression" => some (.binary tree.info.loc)
  | _ => none

def operations (tree : Tree) : List Operation := tree.preorder.filterMap operation?

/-- Nothing at or below the node is an operation. -/
def Silent (tree : Tree) : Prop := tree.operations = []

def declarationKinds : List String :=
  contractKinds ++ functionKinds ++
    ["modifier_definition", "modifier_invocation", "state_variable_declaration", "pragma_directive"]

/-- The constructs in a node are the child that plays a part and, after it, nodes of one kind. -/
def HeadThen (field kind : String) (tree : Tree) : Prop :=
  ∃ head rest, tree.constructs = head :: rest ∧ tree.part? field = some head ∧
    head.info.kind ≠ kind ∧ ∀ t ∈ rest, t.info.kind = kind

def OnlyIn (field : String) (tree : Tree) : Prop :=
  match tree.part? field with
  | some part => ∃ before after, tree.constructs = before ++ part :: after ∧
      (∀ t ∈ before, t.Silent) ∧ ∀ t ∈ after, t.Silent
  | none => ∀ t ∈ tree.constructs, t.Silent

/-- What the grammar says of a single node in the body of a function. -/
structure Grammatical (tree : Tree) : Prop where
  body : tree.info.kind ∉ declarationKinds
  token : tree.info.isConstruct = false → tree.Silent
  identifier : tree.info.kind = "identifier" → tree.Silent
  literal : Text.endsWith "_literal".toList tree.info.kind.toList → tree.Silent
  call : tree.info.kind = "call_expression" → tree.HeadThen "function" "call_argument"
  options : tree.info.kind = "call_expression" → ∀ function inner,
    tree.part? "function" = some function → Wraps function inner →
      inner.info.kind = "struct_expression" → inner.HeadThen "type" "struct_field_assignment"
  operands : tree.info.kind = "binary_expression" ∨ tree.info.kind ∈ assignmentKinds →
    ∃ left right, tree.constructs = [left, right] ∧ tree.part? "left" = some left ∧
      tree.part? "right" = some right
  operator : tree.info.kind = "binary_expression" → ∃ t ∈ tree.children,
    t.info.field = some "operator" ∨
      t.info.isNamed = false ∧ t.info.kind ≠ "(" ∧ t.info.kind ≠ ")"
  member : tree.info.kind = "member_expression" → ∃ object property,
    tree.constructs = [object, property] ∧ tree.part? "object" = some object ∧
      tree.part? "property" = some property ∧ property.Silent
  declaration : tree.info.kind = "variable_declaration_statement" → ∀ declared rest,
    tree.constructsOf "variable_declaration" = declared :: rest →
      (declared.part? "name").isSome → tree.OnlyIn "value"
  parameter : tree.info.kind = "parameter" → (tree.part? "name").isSome → tree.OnlyIn "value"

theorem operations_eq (tree : Tree) :
    tree.operations = tree.operation?.toList ++ tree.children.flatMap operations := by
  rw [operations, preorder_eq_cons, List.filterMap_cons, descendants, List.filterMap_flatMap]
  cases tree.operation? <;> rfl

theorem flatMap_operations_eq_nil {trees : List Tree} (h : ∀ t ∈ trees, t.Silent) :
    trees.flatMap operations = [] := List.flatMap_eq_nil_iff.mpr h

variable {source : String} {tree : Tree}

theorem operation?_eq_none_of_mem {kinds : List String} (hk : tree.info.kind ∈ kinds)
    (h : ∀ kind ∈ kinds, kind ∉ "call_expression" :: "binary_expression" :: assignmentKinds) :
    tree.operation? = none := by
  have hn := h _ hk
  simp only [assignmentKinds, List.mem_cons, not_or] at hn
  simp [operation?, hn]

theorem flatMap_operations_eq_constructs {trees : List Tree} (h : ∀ t ∈ trees, t.Grammatical) :
    trees.flatMap operations = (trees.filter (·.info.isConstruct)).flatMap operations := by
  induction trees with
  | nil => rfl
  | cons child rest ih =>
    have hrest := ih fun t ht ↦ h t (List.mem_cons_of_mem _ ht)
    by_cases hc : child.info.isConstruct
    · simp [hc, hrest]
    · have hs : child.operations = [] := (h child List.mem_cons_self).token (by simpa using hc)
      simp [hc, hs, hrest]

theorem operations_eq_constructs (h : ∀ t ∈ tree.descendants, t.Grammatical) :
    tree.operations = tree.operation?.toList ++ tree.constructs.flatMap operations := by
  rw [operations_eq, constructs,
    flatMap_operations_eq_constructs fun t ht ↦ h t (mem_descendants_of_mem_children ht)]

theorem Wraps.operations_eq {inner : Tree} (h : Wraps tree inner)
    (hg : ∀ t ∈ tree.preorder, t.Grammatical) : tree.operations = inner.operations := by
  induction h with
  | refl tree => rfl
  | @expression tree only inner hk ho h ih =>
    have hd := mem_descendants_of_mem_constructs (mem_constructs_of_only ho)
    rw [operations_eq_constructs fun t ht ↦ hg t (mem_preorder_of_mem_descendants ht), ho,
      ← ih fun t ht ↦ hg t (mem_preorder_of_mem_descendants (mem_descendants_trans ht hd))]
    simp [operation?, hk]

theorem HeadThen.constructs_eq {field kind : String} (h : tree.HeadThen field kind) {head : Tree}
    (hp : tree.part? field = some head) : tree.constructs = head :: tree.constructsOf kind := by
  obtain ⟨head', rest, hc, hp', hk, hr⟩ := h
  obtain rfl : head' = head := Option.some.inj (hp'.symm.trans hp)
  have hrest : rest.filter (·.info.kind == kind) = rest :=
    List.filter_eq_self.mpr fun t ht ↦ by simpa using hr t ht
  rw [constructsOf, hc, List.filter_cons_of_neg (by simpa using hk), hrest]

theorem OnlyIn.flatMap_operations_eq {field : String} (h : tree.OnlyIn field) :
    tree.constructs.flatMap operations = (tree.part? field).toList.flatMap operations := by
  unfold OnlyIn at h
  split at h
  next part hp =>
    obtain ⟨before, after, hc, hb, ha⟩ := h
    rw [hc, List.flatMap_append, List.flatMap_cons, flatMap_operations_eq_nil hb,
      flatMap_operations_eq_nil ha, hp]
    simp
  next hp =>
    rw [flatMap_operations_eq_nil h, hp]
    rfl

theorem Grammatical.constructs_eq_operands (hg : tree.Grammatical)
    (hk : tree.info.kind = "binary_expression" ∨ tree.info.kind ∈ assignmentKinds)
    {left right : Tree} (hl : tree.part? "left" = some left)
    (hr : tree.part? "right" = some right) : tree.constructs = [left, right] := by
  obtain ⟨left', right', hc, hl', hr'⟩ := hg.operands hk
  rw [hc, Option.some.inj (hl'.symm.trans hl), Option.some.inj (hr'.symm.trans hr)]

theorem flatMap_operations_lower {trees : List Tree}
    (h : ∀ t ∈ trees, (t.lower source).operations = t.operations) :
    (trees.map (lower source)).flatMap Node.operations = trees.flatMap operations := by
  rw [List.flatMap_map]
  exact List.flatMap_congr h

theorem lowerCall?_ne_none (hf : tree.HeadThen "function" "call_argument")
    (ho : ∀ function inner, tree.part? "function" = some function → Wraps function inner →
      inner.info.kind = "struct_expression" → inner.HeadThen "type" "struct_field_assignment") :
    lowerCall? tree.info (tree.children.map (annotate source)) ≠ none := by
  obtain ⟨function, -, -, hf, -, -⟩ := hf
  obtain ⟨inner, hw, he⟩ := exists_wraps source function
  by_cases hs : inner.info.kind = "struct_expression"
  · obtain ⟨type, -, -, ht, -, -⟩ := ho function inner hf hw hs
    simp [lowerCall?, hf, he, hs, ht]
  · simp [lowerCall?, hf, he, hs]

theorem binaryOperator?_ne_none (source : String)
    (h : ∃ t ∈ tree.children, t.info.field = some "operator" ∨
      t.info.isNamed = false ∧ t.info.kind ≠ "(" ∧ t.info.kind ≠ ")") :
    binaryOperator? source (tree.children.map (annotate source)) ≠ none := by
  obtain ⟨t, ht, h⟩ := h
  rw [binaryOperator?, child?_map]
  cases hp : tree.part? "operator" with
  | some operator => simp
  | none =>
    have hn : t.info.field ≠ some "operator" := by
      simpa using List.find?_eq_none.mp hp t ht
    have ht' : t.info.isNamed = false ∧ t.info.kind ≠ "(" ∧ t.info.kind ≠ ")" := h.resolve_left hn
    simp only [Option.map_none, ne_eq, Option.map_eq_none_iff, List.find?_eq_none, not_forall]
    exact ⟨t.annotate source, List.mem_map_of_mem ht, by simp [ht']⟩

/-- An operation of the grammar's shape has all the parts that its lowering asks for. -/
theorem Grammatical.operation?_eq_none (hg : tree.Grammatical)
    (h : lowerKind? source tree.info (tree.children.map (annotate source)) = none) :
    tree.operation? = none := by
  have hassign (hk : tree.info.kind ∈ assignmentKinds) :
      lowerAssignment? tree.info (tree.children.map (annotate source)) ≠ none := by
    obtain ⟨left, right, -, hl, hr⟩ := hg.operands (.inr hk)
    simp [lowerAssignment?, hl, hr]
  unfold operation?
  split
  next hk =>
    simp only [lowerKind?, hk] at h
    exact absurd h (lowerCall?_ne_none (hg.call hk) (hg.options hk))
  next hk =>
    simp only [lowerKind?, hk] at h
    exact absurd h (hassign (by simp [hk, assignmentKinds]))
  next hk =>
    simp only [lowerKind?, hk] at h
    exact absurd h (hassign (by simp [hk, assignmentKinds]))
  next hk =>
    obtain ⟨left, right, -, hl, hr⟩ := hg.operands (.inl hk)
    obtain ⟨operator, hop⟩ := Option.ne_none_iff_exists'.mp
      (binaryOperator?_ne_none source (hg.operator hk))
    simp [lowerKind?, hk, lowerBinary?, hl, hr, hop] at h
  next => rfl

theorem operations_of_children {node : Node} {trees : List Tree} (hn : node.operation? = none)
    (hc : node.children = trees.map (lower source))
    (h : ∀ t ∈ trees, (t.lower source).operations = t.operations) :
    node.operations = trees.flatMap operations := by
  rw [Node.operations_eq, hn, hc, flatMap_operations_lower h]
  rfl

/-- One step of lowering keeps the operations, if it keeps those of all nodes below. -/
theorem LowersTo.operations_eq {node : Node} (hl : LowersTo source tree node)
    (hg : ∀ t ∈ tree.preorder, t.Grammatical)
    (ih : ∀ t ∈ tree.descendants, (t.lower source).operations = t.operations) :
    node.operations = tree.operations := by
  have hroot := hg tree (mem_preorder_self tree)
  have hbelow (t : Tree) (ht : t ∈ tree.descendants) : t.Grammatical :=
    hg t (mem_preorder_of_mem_descendants ht)
  have hcs := operations_eq_constructs hbelow
  have ihc (t : Tree) (ht : t ∈ tree.constructs) : (t.lower source).operations = t.operations :=
    ih t (mem_descendants_of_mem_constructs ht)
  have ihp {field : String} {part : Tree} (hp : tree.part? field = some part) :
      (part.lower source).operations = part.operations := ih part (mem_descendants_of_part? hp)
  have iha (t : Tree) (ht : t ∈ tree.constructsOf "call_argument") :
      (t.lower source).operations = t.operations := ih t (mem_descendants_of_mem_constructsOf ht)
  have hvalue (header : DeclarationHeader) :
      (Node.declaration tree.info.loc header ((tree.part? "value").map (lower source))).operations =
        (tree.part? "value").toList.flatMap operations :=
    operations_of_children rfl (by cases tree.part? "value" <;> rfl)
      fun value hv ↦ ihp (Option.mem_toList.mp hv)
  cases hl with
  | @wrapper only hk ho =>
    rw [ihc only (mem_constructs_of_only ho), hcs, operation?_eq_none_of_mem hk (by decide), ho]
    simp
  | sourceUnit hk =>
    rw [operations_of_children rfl rfl ihc, hcs]
    simp [operation?, hk]
  | pragma _ _ hk | modifierDefinition _ hk | modifierInvocation _ hk =>
    exact absurd (by simp [hk, declarationKinds]) hroot.body
  | contract _ hk | function _ hk =>
    exact absurd (by simp [hk, declarationKinds]) hroot.body
  | declaration header hk hn =>
    rcases hk with hk | hk
    · exact absurd (by simp [hk, declarationKinds]) hroot.body
    · rw [hvalue, hcs, (hroot.parameter hk hn).flatMap_operations_eq]
      simp [operation?, hk]
  | @declarationStatement header declared rest hk hd hn =>
    rw [hvalue, hcs, (hroot.declaration hk declared rest hd hn).flatMap_operations_eq]
    simp [operation?, hk]
  | block hk =>
    rw [operations_of_children rfl rfl ihc, hcs, operation?_eq_none_of_mem hk (by decide)]
    rfl
  | binary operator hk hl hr =>
    have hc := hroot.constructs_eq_operands (.inl hk) hl hr
    rw [Node.operations_eq, hcs, hc]
    simp [Node.operation?, Node.children, operation?, hk, ihp hl, ihp hr]
  | assignment operator hk hl hr =>
    have hc := hroot.constructs_eq_operands (.inr hk) hl hr
    have hop : tree.operation? = some (.assignment tree.info.loc) := by
      simp only [assignmentKinds, List.mem_cons, List.not_mem_nil, or_false] at hk
      rcases hk with hk | hk <;> simp [operation?, hk]
    rw [Node.operations_eq, hcs, hc, hop]
    simp [Node.operation?, Node.children, ihp hl, ihp hr]
  | call hk hf hs =>
    rw [Node.operations_eq, hcs, (hroot.call hk).constructs_eq hf]
    simp [Node.operation?, Node.children, operation?, hk, ihp hf, flatMap_operations_lower iha]
  | @callWithOptions function inner type hk hf hw hs ht =>
    have hfun := mem_descendants_of_part? hf
    have hinner := mem_descendants_trans hw.mem_preorder hfun
    have hdeep (t : Tree) (hm : t ∈ inner.descendants) : t ∈ tree.descendants :=
      mem_descendants_trans (mem_preorder_of_mem_descendants hm) hinner
    have hoptions := (hroot.options hk function inner hf hw hs).constructs_eq ht
    -- The braces stand inside the function, so their operations are those of the function.
    have hf_eq : function.operations =
        type.operations ++ (inner.constructsOf "struct_field_assignment").flatMap operations := by
      rw [hw.operations_eq fun t hm ↦ hbelow t (mem_descendants_trans hm hfun),
        operations_eq_constructs fun t hm ↦ hbelow t (hdeep t hm), hoptions]
      simp [operation?, hs]
    have iho (t : Tree) (hm : t ∈ inner.constructsOf "struct_field_assignment") :
        (t.lower source).operations = t.operations :=
      ih t (hdeep t (mem_descendants_of_mem_constructsOf hm))
    rw [Node.operations_eq, hcs, (hroot.call hk).constructs_eq hf]
    simp [Node.operation?, Node.children, operation?, hk, hf_eq, flatMap_operations_lower iha,
      flatMap_operations_lower iho, ih type (hdeep type (mem_descendants_of_part? ht))]
  | @member name object hk ho =>
    obtain ⟨object', property, hc, ho', -, hsilent⟩ := hroot.member hk
    obtain rfl : object' = object := Option.some.inj (ho'.symm.trans ho)
    have hempty : property.operations = [] := hsilent
    rw [Node.operations_eq, hcs, hc]
    simp [Node.operation?, Node.children, operation?, hk, ihp ho, hempty]
  | identifier hk => exact (hroot.identifier hk).symm
  | literal hk => exact (hroot.literal hk).symm
  | other hk =>
    rw [operations_of_children rfl rfl ihc, hcs, hroot.operation?_eq_none hk]
    rfl

/-- Lowering loses no call, assignment or binary operation in the body of a function, adds none and
keeps their order. -/
theorem operations_lower (source : String) (tree : Tree) (h : ∀ t ∈ tree.preorder, t.Grammatical) :
    (tree.lower source).operations = tree.operations := by
  induction tree using induction_descendants with
  | step tree ih =>
    refine (lowersTo source tree).operations_eq h fun t ht ↦ ih t ht fun u hu ↦ ?_
    exact h u (mem_preorder_of_mem_descendants (mem_descendants_trans hu ht))

instance (tree : Tree) : Decidable tree.Silent := inferInstanceAs (Decidable (_ = _))

def Plain (tree : Tree) : Prop :=
  tree.info.kind ∉ declarationKinds ++ assignmentKinds ++ ["call_expression", "binary_expression",
    "member_expression", "variable_declaration_statement", "parameter"] ∧
  (tree.info.isConstruct = false ∨ tree.info.kind = "identifier" ∨
    Text.endsWith "_literal".toList tree.info.kind.toList → tree.Silent)

instance (tree : Tree) : Decidable tree.Plain := inferInstanceAs (Decidable (_ ∧ _))

theorem Plain.grammatical {tree : Tree} (h : tree.Plain) : tree.Grammatical := by
  obtain ⟨hk, hs⟩ := h
  simp only [List.mem_append, List.mem_cons, List.not_mem_nil, or_false, not_or] at hk
  obtain ⟨⟨hd, ha⟩, hc, hb, hm, hv, hp⟩ := hk
  exact ⟨hd, fun h ↦ hs (.inl h), fun h ↦ hs (.inr (.inl h)), fun h ↦ hs (.inr (.inr h)),
    fun h ↦ absurd h hc, fun h ↦ absurd h hc, fun h ↦ absurd h (not_or.mpr ⟨hb, ha⟩),
    fun h ↦ absurd h hb, fun h ↦ absurd h hm, fun h ↦ absurd h hv, fun h ↦ absurd h hp⟩

namespace Sample

open Build

def letter (field : Option String) (start : Nat) : Tree :=
  construct "expression" field start (start + 1)
    [identifier none start (start + 1)]

def sum : Tree :=
  construct "binary_expression" none 8 13
    [letter (some "left") 8, token "+" (some "operator") 10, letter (some "right") 12]

def options : Tree :=
  construct "struct_expression" none 0 7
    [letter (some "type") 0, token "\x7b" none 1,
      construct "struct_field_assignment" none 2 6
        [identifier (some "name") 2 3, token ":" none 3, letter (some "value") 5],
      token "\x7d" none 6]

/-- The tree of `f{v: w}(x + y)`. -/
def call : Tree :=
  construct "call_expression" none 0 14
    [construct "expression" (some "function") 0 7 [options], token "(" none 7,
      construct "call_argument" none 8 13 [construct "expression" none 8 13 [sum]],
      token ")" none 13]

theorem sum_grammatical : sum.Grammatical where
  body := by decide
  token := by decide
  identifier := by decide
  literal := by decide
  call h := absurd h (by decide)
  options h := absurd h (by decide)
  operands _ := ⟨_, _, rfl, rfl, rfl⟩
  operator _ := ⟨token "+" (some "operator") 10, .tail _ (.head _), .inl rfl⟩
  member h := absurd h (by decide)
  declaration h := absurd h (by decide)
  parameter h := absurd h (by decide)

theorem call_grammatical : call.Grammatical where
  body := by decide
  token := by decide
  identifier := by decide
  literal := by decide
  call _ := ⟨_, _, rfl, rfl, by decide, by decide⟩
  options _ := by
    rintro function inner hf (_ | ⟨-, ho, hw⟩) hs
    · obtain rfl := Option.some.inj hf
      exact absurd hs (by decide)
    · obtain rfl := Option.some.inj hf
      obtain rfl := List.singleton_inj.mp ho
      cases hw with
      | refl => exact ⟨_, _, rfl, rfl, by decide, by decide⟩
      | expression hk => exact absurd hk (by decide)
  operands h := absurd h (by decide)
  operator h := absurd h (by decide)
  member h := absurd h (by decide)
  declaration h := absurd h (by decide)
  parameter h := absurd h (by decide)

theorem preorder_call : call.preorder = [call] ++
    (call.descendants.take 14 ++ ([sum] ++ (sum.descendants ++ [token ")" none 13]))) := rfl

theorem grammatical : ∀ t ∈ call.preorder, t.Grammatical := by
  rw [preorder_call]
  simp only [List.forall_mem_append, List.forall_mem_singleton]
  refine ⟨call_grammatical, fun t ht ↦ Plain.grammatical ?_, sum_grammatical,
    fun t ht ↦ Plain.grammatical ?_, Plain.grammatical (by decide)⟩
  · revert t; decide
  · revert t; decide

end Sample

theorem operations_lower_call : (∀ t ∈ Sample.call.preorder, t.Grammatical) ∧
    (Sample.call.lower "f\x7bv: w\x7d(x + y)").operations = [.call ⟨1, 0⟩, .binary ⟨1, 8⟩] :=
  ⟨Sample.grammatical, (operations_lower _ _ Sample.grammatical).trans (by decide)⟩

end Concrete.Tree

end ContractAudit
