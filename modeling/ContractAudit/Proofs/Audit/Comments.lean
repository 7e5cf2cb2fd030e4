import ContractAudit.Proofs.Audit
import ContractAudit.Proofs.Concrete.Comments

namespace ContractAudit.Concrete.Tree

/-- A tree and the tree without its comments lead to the same syntax tree and to the same audit, and
so do two trees that differ in their comments only. -/
theorem audit_withoutComments (source : String) (root : Tree) (h : root.CommentsPlayNoPart) :
    (∀ t ∈ root.withoutComments.descendants, t.info.isComment = false) ∧
    root.withoutComments.lower source = root.lower source ∧
    (∀ other : Tree, other.CommentsPlayNoPart → other.withoutComments = root.withoutComments →
      other.lower source = root.lower source) ∧
    (root.info.hasError = false →
      ∀ (engine : Engine) (disk : Disk) (now : Timestamp) (path : String),
        (⟨engine, ⟨fun _ ↦ Except.ok root.withoutComments⟩, disk, now⟩ : Auditor).auditSource
            path source =
          (⟨engine, ⟨fun _ ↦ Except.ok root⟩, disk, now⟩ : Auditor).auditSource path source) := by
  have hlower := lower_withoutComments source h
  refine ⟨isComment_of_mem_descendants_withoutComments root, hlower, ?_, ?_⟩
  · intro other ho he
    rw [← lower_withoutComments source ho, he, hlower]
  · intro he engine disk now path
    have hparse {tree : Tree} (ht : tree.info.hasError = false) :
        (⟨fun _ ↦ Except.ok tree⟩ : Grammar).parse source = Except.ok (tree.lower source) :=
      Grammar.parse_of_not_hasError rfl ht
    have he' : root.withoutComments.info.hasError = false := by rwa [info_withoutComments]
    rw [Auditor.auditSource, Auditor.auditSource, hparse he, hparse he', hlower]

instance (tree : Tree) : Decidable tree.CommentsPlayNoPart :=
  inferInstanceAs (Decidable (∀ t ∈ tree.descendants, _ → _))

namespace Sample

open Build

/-- The tree of `x /*a*/ += /*b*/1`, in which a comment stands beside the operator and another one
in the wrapper of the number. -/
def commented : Tree :=
  construct "augmented_assignment_expression" none 0 17
    [construct "expression" (some "left") 0 1 [identifier none 0 1],
      construct "comment" none 2 7 [], token "+=" none 8,
      construct "expression" (some "right") 11 17
        [construct "comment" none 11 16 [], construct "number_literal" none 16 17 []]]

end Sample

theorem audit_withoutComments_commented : Sample.commented.CommentsPlayNoPart ∧
    Sample.commented.withoutComments.lower "x /*a*/ += /*b*/1" =
      .assignment ⟨1, 0⟩ "+=" (.identifier ⟨1, 0⟩ "x") (.literal ⟨1, 16⟩ "1") := by
  refine ⟨by decide, ?_⟩
  rw [(audit_withoutComments _ Sample.commented (by decide)).2.1]
  rfl

end ContractAudit.Concrete.Tree
