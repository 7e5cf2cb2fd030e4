import Mathlib
import ContractAudit.Proofs.Node.Walk
import ContractAudit.Proofs.Results

namespace ContractAudit

namespace Node

inductive Field where
  | children
  | members
  | parameters
  | modifiers
  | body
  | initial
  | statements
  | left
  | right
  | callee
  | options
  | arguments
  | object
  deriving DecidableEq

def fields : Node → List (Field × List Node)
  | .sourceUnit _ children => [(.children, children)]
  | .pragma _ _ _ => []
  | .contract _ _ members => [(.members, members)]
  | .function _ _ parameters modifiers body =>
    [(.parameters, parameters), (.modifiers, modifiers), (.body, body.toList)]
  | .modifierDefinition _ _ body => [(.body, body.toList)]
  | .modifierInvocation _ _ arguments => [(.arguments, arguments)]
  | .declaration _ _ initial => [(.initial, initial.toList)]
  | .block _ statements => [(.statements, statements)]
  | .binary _ _ left right => [(.left, [left]), (.right, [right])]
  | .assignment _ _ left right => [(.left, [left]), (.right, [right])]
  | .call _ callee options arguments =>
    [(.callee, [callee]), (.options, options), (.arguments, arguments)]
  | .member _ object _ => [(.object, [object])]
  | .identifier _ _ => []
  | .literal _ _ => []
  | .other _ _ children => [(.children, children)]

abbrev Slot := Field × Nat

/-- A way down a tree from slot to slot leads to a node. -/
inductive LeadsTo : Node → List Slot → Node → Prop
  | here (node : Node) : LeadsTo node [] node
  | down {node child n : Node} {field : Field} {nodes : List Node} {i : Nat} {path : List Slot}
      (hfield : (field, nodes) ∈ node.fields) (hchild : nodes[i]? = some child)
      (hpath : LeadsTo child path n) : LeadsTo node ((field, i) :: path) n

theorem children_eq_flatMap_fields (node : Node) : node.children = node.fields.flatMap (·.2) := by
  cases node <;> simp [children, fields]

theorem nodup_map_fst_fields (node : Node) : (node.fields.map (·.1)).Nodup := by
  cases node <;> simp [fields]

def slots (node : Node) : List (Slot × Node) :=
  node.fields.flatMap fun (field, nodes) ↦ nodes.zipIdx.map fun (child, i) ↦ ((field, i), child)

theorem mem_slots {node child : Node} {field : Field} {i : Nat} :
    ((field, i), child) ∈ node.slots ↔
      ∃ nodes, (field, nodes) ∈ node.fields ∧ nodes[i]? = some child := by
  simp [slots, List.mk_mem_zipIdx_iff_getElem?]

theorem map_snd_slots (node : Node) : node.slots.map (·.2) = node.children := by
  rw [children_eq_flatMap_fields, slots, List.map_flatMap]
  simp [Function.comp_def]

theorem nodup_map_fst_slots (node : Node) : (node.slots.map (·.1)).Nodup := by
  have hfield (field : Field) (nodes : List Node) :
      (nodes.zipIdx.map fun (child, i) ↦ ((field, i), child)).map (·.1) =
        (List.range' 0 nodes.length).map (Prod.mk field) := by
    rw [← List.zipIdx_map_snd, List.map_map, List.map_map]
    rfl
  have hpair : Function.Injective2 (@Prod.mk Field Nat) := fun _ _ _ _ ↦ Prod.mk.inj
  simp only [slots, List.map_flatMap, hfield]
  exact nodup_flatMap_map hpair (nodup_map_fst_fields node) fun _ _ ↦ List.nodup_range'

theorem leadsTo_nil {node n : Node} : LeadsTo node [] n ↔ n = node := by
  constructor
  · rintro ⟨⟩
    rfl
  · rintro rfl
    exact .here n

theorem leadsTo_cons {node n : Node} {slot : Slot} {path : List Slot} :
    LeadsTo node (slot :: path) n ↔ ∃ child, (slot, child) ∈ node.slots ∧ LeadsTo child path n := by
  constructor
  · rintro (_ | ⟨hfield, hchild, hpath⟩)
    exact ⟨_, mem_slots.mpr ⟨_, hfield, hchild⟩, hpath⟩
  · rintro ⟨child, hslot, hpath⟩
    obtain ⟨nodes, hfield, hchild⟩ := mem_slots.mp hslot
    exact .down hfield hchild hpath

/-- Each way down a tree, with the node to which it leads, in the order of a walk. -/
structure Locates (tree : Node) (entries : List (List Slot × Node)) : Prop where
  nodes : entries.map (·.2) = tree.preorder
  nodup : (entries.map (·.1)).Nodup
  mem_iff : ∀ path n, (path, n) ∈ entries ↔ LeadsTo tree path n

theorem Locates.of_children {tree : Node} {entries : Node → List (List Slot × Node)}
    (h : ∀ child ∈ tree.children, Locates child (entries child)) :
    Locates tree (([], tree) :: tree.slots.flatMap fun (slot, child) ↦
      (entries child).map fun (path, n) ↦ (slot :: path, n)) := by
  have hchild {slot : Slot} {child : Node} (hs : (slot, child) ∈ tree.slots) :
      Locates child (entries child) :=
    h child (map_snd_slots tree ▸ List.mem_map_of_mem hs)
  refine ⟨?_, ?_, ?_⟩
  · rw [preorder_eq_cons, ← map_snd_slots, List.flatMap_map, List.map_cons, List.map_flatMap]
    refine congrArg (tree :: ·) (List.flatMap_congr fun (slot, child) hs ↦ ?_)
    rw [List.map_map]
    exact (hchild hs).nodes
  · have hpaths (slot : Slot) (child : Node) :
        ((entries child).map fun (path, n) ↦ (slot :: path, n)).map (·.1) =
          ((entries child).map (·.1)).map (slot :: ·) := by
      rw [List.map_map, List.map_map]
      rfl
    have hcons : Function.Injective2 (@List.cons Slot) := fun _ _ _ _ ↦ List.cons.inj
    simp only [List.map_cons, List.map_flatMap, hpaths]
    refine List.nodup_cons.mpr ⟨by simp, ?_⟩
    exact nodup_flatMap_map hcons (nodup_map_fst_slots tree) fun _ hs ↦ (hchild hs).nodup
  · intro path n
    cases path with
    | nil => simp [leadsTo_nil]
    | cons slot path =>
      rw [leadsTo_cons, List.mem_cons, List.mem_flatMap]
      constructor
      · rintro (h | ⟨⟨slot', child⟩, hs, hmem⟩)
        · cases h
        · obtain ⟨⟨path', n'⟩, hentry, heq⟩ := List.mem_map.mp hmem
          cases heq
          exact ⟨child, hs, ((hchild hs).mem_iff path n).mp hentry⟩
      · rintro ⟨child, hs, hpath⟩
        have hentry := ((hchild hs).mem_iff path n).mpr hpath
        exact .inr ⟨(slot, child), hs, List.mem_map.mpr ⟨(path, n), hentry, rfl⟩⟩

theorem exists_locates (tree : Node) : ∃ entries, Locates tree entries := by
  induction tree using induction_children with
  | step tree ih =>
    choose! entries hentries using ih
    exact ⟨_, Locates.of_children hentries⟩

theorem countAll_eq_sum (nodes : List Node) : countAll nodes = (nodes.map count).sum := by
  induction nodes with
  | nil => rfl
  | cons node nodes ih => rw [countAll, ih, List.map_cons, List.sum_cons]

theorem countOption_eq_sum (node : Option Node) :
    countOption node = (node.toList.map count).sum := by
  cases node <;> simp [countOption]

theorem count_eq_sum (node : Node) : node.count = 1 + (node.children.map count).sum := by
  cases node <;> simp [count, children, countAll_eq_sum, countOption_eq_sum]

theorem length_preorder (node : Node) : node.preorder.length = node.count := by
  induction node using induction_children with
  | step node ih =>
    rw [preorder_eq_cons, count_eq_sum, List.length_cons, List.length_flatMap, Nat.add_comm,
      List.map_congr_left ih]

end Node

/-- A walk takes the step of each node of a tree once, in pre-order. The nodes in pre-order are as
many as the tree has; they are what the ways down its fields lead to, one for each way. A node of
another form takes no step, but the walk goes on below it. -/
theorem Visitor.visit_every_occurrence (tree : Node) :
    (∀ {σ : Type} (v : Visitor σ) (s : σ),
      v.visit tree s = tree.preorder.foldl (fun s n ↦ v.dispatch n s) s) ∧
    tree.preorder = tree :: tree.children.flatMap Node.preorder ∧
    (tree.preorder.length = tree.count ∧
      tree.count = 1 + (tree.children.map Node.count).sum) ∧
    (∃ entries : List (List Node.Slot × Node), entries.map (·.2) = tree.preorder ∧
      (entries.map (·.1)).Nodup ∧
      ∀ (path : List Node.Slot) (n : Node), (path, n) ∈ entries ↔ tree.LeadsTo path n) ∧
    ∀ {σ : Type} (v : Visitor σ) (s : σ) (loc : Location) (kind : String) (children : List Node),
      v.dispatch (.other loc kind children) s = s ∧
      v.visit (.other loc kind children) s = children.foldl (fun s n ↦ v.visit n s) s := by
  refine ⟨fun v s ↦ v.visit_eq_foldl tree s, tree.preorder_eq_cons,
    ⟨tree.length_preorder, tree.count_eq_sum⟩, ?_, ?_⟩
  · obtain ⟨entries, h⟩ := tree.exists_locates
    exact ⟨entries, h.nodes, h.nodup, h.mem_iff⟩
  · intro σ v s loc kind children
    exact ⟨rfl, v.visit_eq_foldl_children (.other loc kind children) s⟩

end ContractAudit
