import ContractAudit.Proofs.Pragma.Written

namespace ContractAudit.Pragma

/-- The text of one comparator or more, with blanks between them and perhaps at the end. -/
inductive Conjunction : List Bound → List Char → Prop
  | one (b : Bound) (blanks : Text.Blanks) : Conjunction [b] (b.text ++ blanks.chars)
  | cons (b : Bound) (gap : Gap) {bounds : List Bound} {text : List Char}
      (h : Conjunction bounds text) : Conjunction (b :: bounds) (b.text ++ (gap.chars ++ text))

def oneDirective (afterPragma afterSolidity : Gap) (text : List Char) : String :=
  String.ofList (heading afterPragma afterSolidity ++ text ++ [';'])

theorem Gap.blankFollows_append (gap : Gap) (rest : List Char) :
    BlankFollows (gap.chars ++ rest) := by
  intro c hc
  rw [List.head?_append_of_ne_nil _ gap.ne_nil] at hc
  exact blankFollows_of_blanks gap.isBlank c hc

namespace Conjunction

variable {b : Bound} {bounds : List Bound} {text : List Char}

theorem semicolon_not_mem (h : Conjunction bounds text) : ';' ∉ text := by
  induction h with
  | one b blanks => simp [b.semicolon_not_mem_text, semicolon_not_mem_blanks]
  | cons b gap h ih => simp [b.semicolon_not_mem_text, semicolon_not_mem_blanks, ih]

theorem exists_tail (h : Conjunction (b :: bounds) text) :
    ∃ tail, text = b.text ++ tail ∧ BlankFollows tail := by
  cases h with
  | one b blanks => exact ⟨blanks.chars, rfl, blankFollows_of_blanks blanks.isBlank⟩
  | cons b gap h => exact ⟨_, rfl, gap.blankFollows_append _⟩

theorem constraint?_eq (h : Conjunction (b :: bounds) text) :
    constraint? text = some b.constraint := by
  obtain ⟨tail, rfl, htail⟩ := h.exists_tail
  exact b.constraint?_text_append htail

theorem exists_text (b : Bound) (bounds : List Bound) : ∃ text, Conjunction (b :: bounds) text := by
  induction bounds generalizing b with
  | nil => exact ⟨_, .one b .empty⟩
  | cons c bounds ih =>
    obtain ⟨text, h⟩ := ih c
    exact ⟨_, .cons b .space h⟩

end Conjunction

/-- The mark is `^` or `>=`, and the version is 0.8 at any patch. -/
def Bound.PinsCheckedArithmetic (b : Bound) : Prop :=
  (b.mark? = some .caret ∨ b.mark? = some .greaterEq) ∧ b.version.least.major = 0 ∧
    b.version.least.minor = 8

theorem Bound.pinsCheckedArithmetic_constraint (b : Bound) :
    b.constraint.pinsCheckedArithmetic ↔ b.PinsCheckedArithmetic := by
  obtain ⟨mark?, blanks, version⟩ := b
  cases mark? with
  | none => simp [constraint, Constraint.pinsCheckedArithmetic, PinsCheckedArithmetic]
  | some mark =>
    simp [constraint, Constraint.pinsCheckedArithmetic, PinsCheckedArithmetic, and_assoc]

theorem Conjunction.pinsCheckedArithmetic_iff (afterPragma afterSolidity : Gap) {b : Bound}
    {bounds : List Bound} {text : List Char} (h : Conjunction (b :: bounds) text) :
    pinsCheckedArithmetic (oneDirective afterPragma afterSolidity text) ↔
      b.PinsCheckedArithmetic := by
  have hconstraints : constraints (oneDirective afterPragma afterSolidity text) =
      [b.constraint] := by
    rw [constraints, oneDirective, String.toList_ofList,
      directives_heading_append _ _ h.semicolon_not_mem, List.filterMap_cons,
      constraint?_dropWhile, h.constraint?_eq]
    rfl
  rw [pinsCheckedArithmetic, hconstraints, List.any_cons, List.any_nil, Bool.or_false]
  exact b.pinsCheckedArithmetic_constraint

/-- Whether a directive pins checked arithmetic is decided by its first comparator. The order of the
others plays no part, and some order of all of them pins it exactly if some comparator does. -/
theorem pinsCheckedArithmetic_oneDirective (afterPragma afterSolidity : Gap) {b : Bound}
    {bounds : List Bound} {text : List Char} (h : Conjunction (b :: bounds) text) :
    (pinsCheckedArithmetic (oneDirective afterPragma afterSolidity text) ↔
      b.PinsCheckedArithmetic) ∧
    (∀ order text', order.Perm bounds → Conjunction (b :: order) text' →
      pinsCheckedArithmetic (oneDirective afterPragma afterSolidity text') =
        pinsCheckedArithmetic (oneDirective afterPragma afterSolidity text)) ∧
    ((∃ order text', order.Perm (b :: bounds) ∧ Conjunction order text' ∧
        pinsCheckedArithmetic (oneDirective afterPragma afterSolidity text')) ↔
      ∃ c ∈ b :: bounds, c.PinsCheckedArithmetic) := by
  have hfirst := h.pinsCheckedArithmetic_iff afterPragma afterSolidity
  refine ⟨hfirst, ?_, ?_, ?_⟩
  · intro order text' _ horder
    exact Bool.eq_iff_iff.mpr
      ((horder.pinsCheckedArithmetic_iff afterPragma afterSolidity).trans hfirst.symm)
  · rintro ⟨order, text', hperm, horder, hpins⟩
    cases order with
    | nil => cases horder
    | cons c order =>
      have hc := (horder.pinsCheckedArithmetic_iff afterPragma afterSolidity).mp hpins
      exact ⟨c, hperm.subset List.mem_cons_self, hc⟩
  · rintro ⟨c, hmem, hc⟩
    obtain ⟨front, back, hsplit⟩ := List.append_of_mem hmem
    obtain ⟨text', horder⟩ := Conjunction.exists_text c (front ++ back)
    refine ⟨c :: (front ++ back), text', ?_, horder, ?_⟩
    · rw [hsplit]
      exact List.perm_middle.symm
    · exact (horder.pinsCheckedArithmetic_iff afterPragma afterSolidity).mpr hc

def from08 : Bound :=
  ⟨some .greaterEq, .empty, .three (.ofUInt32 0) (.ofUInt32 8) (.ofUInt32 0)⟩

def below09 : Bound := ⟨some .less, .empty, .three (.ofUInt32 0) (.ofUInt32 9) (.ofUInt32 0)⟩

theorem from08_pinsCheckedArithmetic : from08.PinsCheckedArithmetic := ⟨.inr rfl, rfl, rfl⟩

theorem conjunction_of_texts {b c : Bound} {text : List Char}
    (h : b.text ++ ([' '] ++ (c.text ++ [])) = text) : Conjunction [b, c] text := by
  subst h
  exact .cons b .space (.one c .empty)

theorem pinsCheckedArithmetic_oneDirective_from08 :
    Conjunction [from08, below09] ">=0.8.0 <0.9.0".toList ∧ from08.PinsCheckedArithmetic ∧
      pinsCheckedArithmetic (oneDirective .space .space ">=0.8.0 <0.9.0".toList) := by
  have h : Conjunction [from08, below09] ">=0.8.0 <0.9.0".toList :=
    conjunction_of_texts (by decide)
  exact ⟨h, from08_pinsCheckedArithmetic,
    (pinsCheckedArithmetic_oneDirective .space .space h).1.mpr from08_pinsCheckedArithmetic⟩

/-- The same two comparators in the other order do not pin it. -/
theorem not_pinsCheckedArithmetic_limitFirst :
    Conjunction [below09, from08] "<0.9.0 >=0.8.0".toList ∧
      (∃ c ∈ [below09, from08], c.PinsCheckedArithmetic) ∧
      oneDirective .space .space "<0.9.0 >=0.8.0".toList = "pragma solidity <0.9.0 >=0.8.0;" ∧
      pinsCheckedArithmetic "pragma solidity <0.9.0 >=0.8.0;" = false ∧
      pinsCheckedArithmetic "pragma solidity >=0.8.0 <0.9.0;" = true :=
  ⟨conjunction_of_texts (by decide), ⟨from08, by simp, from08_pinsCheckedArithmetic⟩, by decide,
    by decide, by decide⟩

end ContractAudit.Pragma
