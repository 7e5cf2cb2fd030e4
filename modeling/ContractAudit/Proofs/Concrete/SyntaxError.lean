import ContractAudit.Audit
import ContractAudit.Proofs.Concrete.Lowering
import ContractAudit.Proofs.Text.Split
import Mathlib

namespace ContractAudit

namespace Concrete

namespace Tree

def isBroken (tree : Tree) : Bool := tree.info.isError || tree.info.isMissing

/-- A node is flagged exactly if the node itself or one below it is an error or missing. -/
def Flagged (root : Tree) : Prop :=
  ∀ t ∈ root.preorder, t.info.hasError ↔ ∃ u ∈ t.preorder, u.isBroken

instance : DecidablePred Flagged := fun root ↦
  inferInstanceAs (Decidable (∀ t ∈ root.preorder, t.info.hasError ↔ ∃ u ∈ t.preorder, u.isBroken))

variable {root tree : Tree} {trees : List Tree}

theorem Flagged.of_mem (h : root.Flagged) (ht : tree ∈ root.preorder) : tree.Flagged := by
  intro u hu
  exact h u (mem_preorder_trans hu ht)

theorem Flagged.hasError_iff (h : tree.Flagged) :
    tree.info.hasError ↔ ∃ u ∈ tree.preorder, u.isBroken := h tree (mem_preorder_self tree)

theorem Flagged.find?_eq_none (h : tree.Flagged) (hn : tree.info.hasError = false) :
    tree.preorder.find? isBroken = none := by
  rw [List.find?_eq_none]
  intro u hu hbroken
  have hflag := h.hasError_iff.mpr ⟨u, hu, hbroken⟩
  rw [hn] at hflag
  cases hflag

theorem firstError?_eq (tree : Tree) :
    tree.firstError? = if tree.isBroken then some tree else firstErrorIn? tree.children := by
  cases tree with
  | node info children => rw [firstError?]; rfl

/-- The children that are passed over hold nothing that a search of all of them would find. -/
theorem firstErrorIn?_eq_find? (hf : ∀ t ∈ trees, t.Flagged)
    (hs : ∀ t ∈ trees, t.firstError? = t.preorder.find? isBroken) :
    firstErrorIn? trees = (trees.flatMap preorder).find? isBroken := by
  induction trees with
  | nil => rw [firstErrorIn?]; rfl
  | cons t trees ih =>
    obtain ⟨hflag, hflags⟩ := List.forall_mem_cons.mp hf
    obtain ⟨hsearch, hsearches⟩ := List.forall_mem_cons.mp hs
    rw [firstErrorIn?, List.flatMap_cons, List.find?_append, ih hflags hsearches]
    split
    · rw [hsearch]
      cases t.preorder.find? isBroken <;> rfl
    next hpassed =>
      have hclean : t.info.hasError = false := by
        simp only [Bool.or_eq_true, not_or, Bool.not_eq_true] at hpassed
        exact hpassed.1
      rw [hflag.find?_eq_none hclean, Option.none_or]

theorem Flagged.firstError?_eq_find? (h : tree.Flagged) :
    tree.firstError? = tree.preorder.find? isBroken := by
  induction tree using induction_children with
  | step tree ih =>
    have hchildren (child : Tree) (hc : child ∈ tree.children) : child.Flagged :=
      h.of_mem (mem_preorder_of_mem_descendants (mem_descendants_of_mem_children hc))
    rw [firstError?_eq, preorder_eq_cons, List.find?_cons]
    cases hbroken : tree.isBroken with
    | true => rfl
    | false =>
      exact firstErrorIn?_eq_find? hchildren fun child hc ↦ ih child hc (hchildren child hc)

theorem Flagged.exists_firstError? (h : tree.Flagged) (he : tree.info.hasError) :
    ∃ before bad after, tree.preorder = before ++ bad :: after ∧
      (∀ t ∈ before, t.isBroken = false) ∧ bad.isBroken ∧ tree.firstError? = some bad := by
  obtain ⟨u, hu, hbroken⟩ := h.hasError_iff.mp he
  have hsome : (tree.preorder.find? isBroken).isSome := List.find?_isSome.mpr ⟨u, hu, hbroken⟩
  obtain ⟨bad, hbad⟩ := Option.isSome_iff_exists.mp hsome
  obtain ⟨hb, before, after, hsplit, hbefore⟩ := List.find?_eq_some_iff_append.mp hbad
  refine ⟨before, bad, after, hsplit, ?_, hb, h.firstError?_eq_find?.trans hbad⟩
  simpa using hbefore

end Tree

/-- What an error says of a node: where it starts, and that it is missing or what stands there. -/
structure SyntaxError.IsAbout (e : SyntaxError) (source : String) (bad : Tree) : Prop where
  line : e.loc.line = bad.info.row + 1
  column : e.loc.column = bad.info.column
  missing : bad.info.isMissing → e.message = "missing " ++ bad.info.kind
  unexpected : bad.info.isMissing = false →
    ∃ shown, Text.TrimsTo ((bad.info.text source).toList.take 40) shown ∧
      e.message = "unexpected `" ++ String.ofList shown ++ "`"

theorem SyntaxError.isAbout_ofInfo (source : String) (bad : Tree) :
    (SyntaxError.ofInfo source bad.info).IsAbout source bad where
  line := rfl
  column := rfl
  missing := fun h ↦ if_pos h
  unexpected := by
    intro h
    refine ⟨_, Text.trimsTo_trim _, ?_⟩
    rw [SyntaxError.ofInfo, h]
    rfl

end Concrete

open Concrete Concrete.Tree

namespace Grammar

/-- Where the flags of the tree are right, a source is refused exactly if something in its tree is
an error or missing, and the error is about the first such node in pre-order. -/
theorem parse_eq_error_first {grammar : Grammar} {source : String} {root : Tree}
    (hg : grammar.tree source = Except.ok root) (hf : root.Flagged) :
    ((∃ e : AuditError, grammar.parse source = Except.error e) ↔
      ∃ t ∈ root.preorder, t.info.isError ∨ t.info.isMissing) ∧
    ∀ e : AuditError, grammar.parse source = Except.error e →
      ∃ (before : List Tree) (bad : Tree) (after : List Tree) (cause : SyntaxError),
        root.preorder = before ++ bad :: after ∧
        (∀ t ∈ before, t.info.isError = false ∧ t.info.isMissing = false) ∧
        (bad.info.isError ∨ bad.info.isMissing) ∧ root.firstError? = some bad ∧
        e = AuditError.parse cause ∧ cause.IsAbout source bad := by
  have hparse : grammar.parse source = (root.parse source).mapError AuditError.parse := by
    rw [parse, hg]
  have hbroken : root.info.hasError ↔ ∃ t ∈ root.preorder, t.info.isError ∨ t.info.isMissing := by
    simpa [isBroken] using hf.hasError_iff
  rw [← hbroken, hparse]
  cases he : root.info.hasError with
  | false =>
    have hok : root.parse source = Except.ok (root.lower source) := by simp [Tree.parse, he]
    rw [hok]
    simp [Except.mapError]
  | true =>
    obtain ⟨before, bad, after, hsplit, hbefore, hbad, hfirst⟩ := hf.exists_firstError? he
    have herror : root.parse source = Except.error (.ofInfo source bad.info) := by
      simp [Tree.parse, he, hfirst]
    rw [herror]
    refine ⟨⟨fun _ ↦ rfl, fun _ ↦ ⟨_, rfl⟩⟩, ?_⟩
    intro e h
    cases h
    refine ⟨before, bad, after, _, hsplit, ?_, ?_, hfirst, rfl, ?_⟩
    · simpa [isBroken] using hbefore
    · simpa [isBroken] using hbad
    · exact SyntaxError.isAbout_ofInfo source bad

open Build

def flagged (tree : Tree) : Tree := .node { tree.info with hasError := true } tree.children

-- The tree of `contract A { uint x }`, in which a semicolon is missing after `x`.
def unterminated : Tree :=
  let semicolon : Tree := .node ⟨";", false, false, true, true, none, 19, 19, 0, 19⟩ []
  let declaration := construct "state_variable_declaration" none 13 19
    [construct "type_name" (some "type") 13 17
        [construct "primitive_type" none 13 17 [token "uint" none 13]],
      identifier (some "name") 18 19, semicolon]
  let body := construct "contract_body" (some "body") 11 21
    [token "\x7b" none 11, flagged declaration, token "\x7d" none 20]
  let contract := construct "contract_declaration" none 0 21
    [token "contract" none 0, identifier (some "name") 9 10, flagged body]
  flagged (construct "source_file" none 0 21 [flagged contract])

theorem parse_eq_error_first_unterminated :
    let grammar : Grammar := ⟨fun _ ↦ Except.ok unterminated⟩
    let source := "contract A \x7b uint x \x7d"
    let cause : SyntaxError := ⟨⟨1, 19⟩, "missing ;"⟩
    grammar.tree source = Except.ok unterminated ∧ unterminated.Flagged ∧
    grammar.parse source = Except.error (AuditError.parse cause) ∧
    ∃ (before : List Tree) (bad : Tree) (after : List Tree),
      unterminated.preorder = before ++ bad :: after ∧
      (∀ t ∈ before, t.info.isError = false ∧ t.info.isMissing = false) ∧
      bad.info.isMissing ∧ unterminated.firstError? = some bad ∧ cause.IsAbout source bad := by
  intro grammar source cause
  have hg : grammar.tree source = Except.ok unterminated := rfl
  have hflagged : unterminated.Flagged := by decide
  have herror : grammar.parse source = Except.error (AuditError.parse cause) := rfl
  obtain ⟨before, bad, after, _, hsplit, hbefore, -, hfirst, hcause, habout⟩ :=
    (parse_eq_error_first hg hflagged).2 _ herror
  have hmissing : unterminated.firstError?.any (·.info.isMissing) := rfl
  rw [hfirst] at hmissing
  obtain rfl := AuditError.parse.inj hcause
  exact ⟨hg, hflagged, herror, before, bad, after, hsplit, hbefore, hmissing, hfirst, habout⟩

end Grammar

end ContractAudit
