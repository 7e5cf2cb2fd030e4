import ContractAudit.Node.Walk
import Mathlib.Data.List.Basic

namespace ContractAudit

namespace Node

theorem preorderAll_eq_flatMap (nodes : List Node) :
    preorderAll nodes = nodes.flatMap preorder := by
  induction nodes with
  | nil => rfl
  | cons node nodes ih => rw [preorderAll, ih, List.flatMap_cons]

theorem preorderOption_eq_flatMap (node : Option Node) :
    preorderOption node = node.toList.flatMap preorder := by
  cases node <;> simp [preorderOption]

theorem preorder_eq_cons (node : Node) :
    node.preorder = node :: node.children.flatMap preorder := by
  cases node <;>
    simp [preorder, children, preorderAll_eq_flatMap, preorderOption_eq_flatMap]

theorem sizeOf_lt_of_mem_children {child node : Node} (h : child ∈ node.children) :
    sizeOf child < sizeOf node := by
  have hlist (nodes : List Node) (h : child ∈ nodes) : sizeOf child < sizeOf nodes :=
    List.sizeOf_lt_of_mem h
  cases node <;> simp [children] at h ⊢ <;> grind [Option.some.sizeOf_spec]

theorem induction_children {motive : Node → Prop}
    (step : ∀ node : Node, (∀ child ∈ node.children, motive child) → motive node) (node : Node) :
    motive node :=
  step node fun child _ ↦ induction_children step child
termination_by sizeOf node
decreasing_by exact sizeOf_lt_of_mem_children ‹_›

theorem mem_preorder {node n : Node} :
    n ∈ node.preorder ↔ n = node ∨ ∃ child ∈ node.children, n ∈ child.preorder := by
  rw [preorder_eq_cons, List.mem_cons, List.mem_flatMap]

theorem mem_preorder_self (node : Node) : node ∈ node.preorder := mem_preorder.mpr (.inl rfl)

theorem mem_preorder_of_mem_children {child node : Node} (h : child ∈ node.children) :
    child ∈ node.preorder := mem_preorder.mpr (.inr ⟨child, h, mem_preorder_self child⟩)

theorem mem_preorder_trans {m n root : Node} (hm : m ∈ n.preorder) (hn : n ∈ root.preorder) :
    m ∈ root.preorder := by
  induction root using induction_children with
  | step root ih =>
    rcases mem_preorder.mp hn with rfl | ⟨child, hc, hn⟩
    · exact hm
    · exact mem_preorder.mpr (.inr ⟨child, hc, ih child hc hn⟩)

theorem preorder_map {f : Node → Node} (hf : ∀ n : Node, (f n).children = n.children.map f)
    (node : Node) : (f node).preorder = node.preorder.map f := by
  induction node using induction_children with
  | step node ih =>
    rw [preorder_eq_cons, preorder_eq_cons, hf, List.flatMap_map, List.map_cons, List.map_flatMap]
    exact congrArg (f node :: ·) (List.flatMap_congr fun child hc ↦ ih child hc)

end Node

namespace Visitor

variable {σ : Type}

theorem visitAll_eq_foldl (v : Visitor σ) (nodes : List Node) (s : σ) :
    v.visitAll nodes s = nodes.foldl (fun s n ↦ v.visit n s) s := by
  induction nodes generalizing s with
  | nil => rfl
  | cons node nodes ih => rw [visitAll, ih, List.foldl_cons]

theorem visitOption_eq_foldl (v : Visitor σ) (node : Option Node) (s : σ) :
    v.visitOption node s = node.toList.foldl (fun s n ↦ v.visit n s) s := by
  cases node <;> rfl

theorem visit_eq_foldl_children (v : Visitor σ) (node : Node) (s : σ) :
    v.visit node s = node.children.foldl (fun s n ↦ v.visit n s) (v.dispatch node s) := by
  cases node <;>
    simp [visit, Node.children, visitAll_eq_foldl, visitOption_eq_foldl, List.foldl_append]

/-- A walk hands the nodes to their handlers in pre-order. -/
theorem visit_eq_foldl (v : Visitor σ) (node : Node) (s : σ) :
    v.visit node s = node.preorder.foldl (fun s n ↦ v.dispatch n s) s := by
  induction node using Node.induction_children generalizing s with
  | step node ih =>
    rw [visit_eq_foldl_children, Node.preorder_eq_cons, List.foldl_cons, List.foldl_flatMap]
    exact List.foldl_ext _ _ _ fun s child hc ↦ ih child hc s

/-- What every handler keeps at the nodes of a tree, a walk over the tree keeps. -/
theorem visit_induction (v : Visitor σ) (P : σ → Prop) {node : Node} {s : σ} (hs : P s)
    (step : ∀ n ∈ node.preorder, ∀ s, P s → P (v.dispatch n s)) : P (v.visit node s) := by
  rw [visit_eq_foldl]
  exact List.foldlRecOn node.preorder _ hs fun s hs n hn ↦ step n hn s hs

/-- What no handler sees of a node, a walk does not see anywhere in a tree. -/
theorem visit_map {v : Visitor σ} {f : Node → Node}
    (hf : ∀ n : Node, (f n).children = n.children.map f)
    (hv : ∀ n s, v.dispatch (f n) s = v.dispatch n s) (node : Node) (s : σ) :
    v.visit (f node) s = v.visit node s := by
  rw [visit_eq_foldl, visit_eq_foldl, Node.preorder_map hf, List.foldl_map]
  simp only [hv]

theorem reverse_view_visit_eq_filterMap {α : Type} {v : Visitor σ} (view : σ → List α)
    {pick : Node → Option α} (h : ∀ n s, view (v.dispatch n s) = (pick n).toList ++ view s)
    (node : Node) (s : σ) :
    (view (v.visit node s)).reverse = (view s).reverse ++ node.preorder.filterMap pick := by
  rw [visit_eq_foldl]
  generalize node.preorder = nodes
  induction nodes generalizing s with
  | nil => simp
  | cons n nodes ih =>
    rw [List.foldl_cons, ih, h]
    cases hn : pick n <;> simp [hn]

theorem reverse_visit_eq_filterMap {α : Type} {v : Visitor (List α)} {pick : Node → Option α}
    (h : ∀ n picked, v.dispatch n picked = (pick n).toList ++ picked) (node : Node) :
    (v.visit node []).reverse = node.preorder.filterMap pick :=
  reverse_view_visit_eq_filterMap id h node []

/-- A walk that looks for a node finds it wherever it stands. -/
theorem visit_eq_any {v : Visitor Bool} {p : Node → Bool}
    (h : ∀ n found, v.dispatch n found = (found || p n)) (node : Node) :
    v.visit node false = node.preorder.any p := by
  have hfold (nodes : List Node) (found : Bool) :
      nodes.foldl (fun s n ↦ v.dispatch n s) found = (found || nodes.any p) := by
    induction nodes generalizing found with
    | nil => simp
    | cons n nodes ih => rw [List.foldl_cons, ih, h, List.any_cons, Bool.or_assoc]
  rw [visit_eq_foldl, hfold, Bool.false_or]

end Visitor

end ContractAudit
