import ContractAudit.Proofs.Detector.Findings
import ContractAudit.Proofs.Pragma.Conjunction

namespace ContractAudit.Pragma

namespace Version

instance : LT Version where
  lt v w := v.major < w.major ∨
    v.major = w.major ∧ (v.minor < w.minor ∨ v.minor = w.minor ∧ v.patch < w.patch)

instance : LE Version where
  le v w := ¬ w < v

instance (v w : Version) : Decidable (v < w) :=
  inferInstanceAs (Decidable (_ ∨ _ ∧ (_ ∨ _ ∧ _)))

instance (v w : Version) : Decidable (v ≤ w) := inferInstanceAs (Decidable (¬ _))

theorem lt_iff (v w : Version) : v < w ↔ v.major < w.major ∨
    v.major = w.major ∧ (v.minor < w.minor ∨ v.minor = w.minor ∧ v.patch < w.patch) :=
  Iff.rfl

theorem le_iff (v w : Version) : v ≤ w ↔ ¬ w < v := Iff.rfl

end Version

structure Range where
  least : Version
  limit : Option Version

instance : Membership Version Range where
  mem range v := range.least ≤ v ∧ ∀ limit ∈ range.limit, v < limit

instance (v : Version) (range : Range) : Decidable (v ∈ range) :=
  inferInstanceAs (Decidable (_ ∧ ∀ limit ∈ range.limit, _))

namespace PartialVersion

def next : PartialVersion → Version
  | .one major => ⟨major.value + 1, 0, 0⟩
  | .two major minor => ⟨major.value, minor.value + 1, 0⟩
  | .three major minor patch => ⟨major.value, minor.value, patch.value + 1⟩

def upToMinor : PartialVersion → PartialVersion
  | .three major minor _ => .two major minor
  | v => v

def upToMajor : PartialVersion → PartialVersion
  | .one major | .two major _ | .three major _ _ => .one major

end PartialVersion

/-- The versions that a comparator admits. Below 1.0.0 the second number stands for what the first
one stands for otherwise. -/
def Bound.range (b : Bound) : Range :=
  let v := b.version
  match b.mark?.getD .exact with
  | .exact => ⟨v.least, some v.next⟩
  | .greaterEq => ⟨v.least, none⟩
  | .greater => ⟨v.next, none⟩
  | .lessEq => ⟨⟨0, 0, 0⟩, some v.next⟩
  | .less => ⟨⟨0, 0, 0⟩, some v.least⟩
  | .tilde => ⟨v.least, some v.upToMinor.next⟩
  | .caret => ⟨v.least, some (if v.least.major = 0 then v.upToMinor else v.upToMajor).next⟩

example (blanks : Text.Blanks) (minor patch : Numeral) :
    Bound.range ⟨some .caret, blanks, .three (.ofUInt32 0) minor patch⟩ =
      ⟨⟨0, minor.value, patch.value⟩, some ⟨0, minor.value + 1, 0⟩⟩ :=
  rfl

/-- The version meets every comparator of every directive. -/
def Admits (source : String) (v : Version) : Prop :=
  ∀ text ∈ directives source.toList, ∃ bounds, Conjunction bounds text ∧ ∀ b ∈ bounds, v ∈ b.range

theorem Bound.PinsCheckedArithmetic.le_of_mem {b : Bound} (h : b.PinsCheckedArithmetic)
    {v : Version} (hv : v ∈ b.range) : ⟨0, 8, 0⟩ ≤ v := by
  obtain ⟨hmark, hmajor, hminor⟩ := h
  have hleast : b.range.least = b.version.least := by
    rcases hmark with hmark | hmark <;> simp [range, hmark]
  have hle : b.version.least ≤ v := hleast ▸ hv.1
  rw [Version.le_iff, Version.lt_iff, hmajor, hminor] at hle
  rw [Version.le_iff, Version.lt_iff]
  intro hlt
  apply hle
  dsimp only at hlt
  omega

theorem exists_directive_le {source : String}
    (hconj : ∀ text ∈ directives source.toList, ∃ bounds, Conjunction bounds text)
    (h : pinsCheckedArithmetic source) :
    ∃ text ∈ directives source.toList, (∃ bounds, Conjunction bounds text) ∧
      ∀ bounds, Conjunction bounds text →
        ∀ v : Version, (∀ b ∈ bounds, v ∈ b.range) → ⟨0, 8, 0⟩ ≤ v := by
  obtain ⟨c, hc, hpins⟩ := List.any_eq_true.mp h
  obtain ⟨text, htext, hread⟩ := List.mem_filterMap.mp hc
  refine ⟨text, htext, hconj text htext, ?_⟩
  intro bounds hbounds v hv
  cases bounds with
  | nil => cases hbounds
  | cons b bounds =>
    have hfirst : b.constraint = c := Option.some.inj (hbounds.constraint?_eq.symm.trans hread)
    have hb : b.PinsCheckedArithmetic := b.pinsCheckedArithmetic_constraint.mp (hfirst ▸ hpins)
    exact hb.le_of_mem (hv b List.mem_cons_self)

/-- If arithmetic counts as checked, some directive admits no version before 0.8.0. So no source for
which findings are left out, other than for the word `SafeMath`, admits one. -/
theorem le_of_pinsCheckedArithmetic (source : String)
    (hconj : ∀ text ∈ directives source.toList, ∃ bounds, Conjunction bounds text) :
    (pinsCheckedArithmetic source → ∃ text ∈ directives source.toList,
      (∃ bounds, Conjunction bounds text) ∧ ∀ bounds, Conjunction bounds text →
        ∀ v : Version, (∀ b ∈ bounds, v ∈ b.range) → ⟨0, 8, 0⟩ ≤ v) ∧
    ∀ tree, Text.holds source "SafeMath" = false →
      Overflow.detect tree source ≠ Except.ok (tree.preorder.filterMap Overflow.finding?) →
        ∀ v, Admits source v → ⟨0, 8, 0⟩ ≤ v := by
  refine ⟨exists_directive_le hconj, ?_⟩
  intro tree hsafe hskipped v hv
  have hprotects : protectsArithmetic source := by
    by_contra hnot
    rw [Overflow.detect_eq, if_neg hnot] at hskipped
    exact hskipped rfl
  rw [protectsArithmetic, hsafe, Bool.false_or] at hprotects
  obtain ⟨text, htext, -, hleast⟩ := exists_directive_le hconj hprotects
  obtain ⟨bounds, hbounds, hmeets⟩ := hv text htext
  exact hleast bounds hbounds v hmeets

theorem le_of_pinsCheckedArithmetic_sum :
    let source := "pragma solidity >=0.8.0 <0.9.0;"
    let sum : Node := .binary ⟨1, 0⟩ "+" (.identifier ⟨1, 0⟩ "a") (.identifier ⟨1, 4⟩ "b")
    (∀ text ∈ directives source.toList, ∃ bounds, Conjunction bounds text) ∧
      pinsCheckedArithmetic source ∧ Text.holds source "SafeMath" = false ∧
      Overflow.detect sum source ≠ Except.ok (sum.preorder.filterMap Overflow.finding?) ∧
      Admits source ⟨0, 8, 19⟩ ∧ ¬ Admits source ⟨0, 7, 6⟩ := by
  intro source sum
  have hdirectives : directives source.toList = [">=0.8.0 <0.9.0".toList] := by decide
  have hrange : Conjunction [from08, below09] ">=0.8.0 <0.9.0".toList :=
    conjunction_of_texts (by decide)
  have hconj : ∀ text ∈ directives source.toList, ∃ bounds, Conjunction bounds text := by
    rw [hdirectives]
    exact List.forall_mem_singleton.mpr ⟨_, hrange⟩
  have hsafe : Text.holds source "SafeMath" = false := by decide
  have hpins : pinsCheckedArithmetic source := by decide
  have hskipped : Overflow.detect sum source ≠
      Except.ok (sum.preorder.filterMap Overflow.finding?) := by
    have hprotects : protectsArithmetic source := by rw [protectsArithmetic, hpins, Bool.or_true]
    rw [Overflow.detect_eq, if_pos hprotects]
    decide
  refine ⟨hconj, hpins, hsafe, hskipped, ?_, ?_⟩
  · rw [Admits, hdirectives]
    exact List.forall_mem_singleton.mpr ⟨_, hrange, by decide⟩
  · intro hadmits
    exact absurd ((le_of_pinsCheckedArithmetic source hconj).2 sum hsafe hskipped _ hadmits)
      (by decide)

end ContractAudit.Pragma
