import ContractAudit.Proofs.Concrete.Callee
import ContractAudit.Proofs.Pragma.Written

namespace ContractAudit.Pragma

section

variable {blanks : List Char}

theorem comparator_append_blanks (h : BlankFollows blanks) (cs : List Char) :
    comparator (cs ++ blanks) = ((comparator cs).1, (comparator cs).2 ++ blanks) := by
  have hnone : comparator blanks = (.exact, blanks) := comparator_mark none fun c hc ↦ .inl (h c hc)
  have hne (rest : List Char) : blanks ≠ '=' :: rest := by
    rintro rfl
    exact absurd (h '=' rfl) (by decide)
  fun_cases comparator cs with
  | case5 rest hrest | case6 rest hrest =>
    -- What follows the mark has no `=` at its front, and nor have the blanks.
    cases rest with
    | nil => simp [comparator]
    | cons c rest =>
      have hc : c ≠ '=' := fun heq ↦ hrest rest (by rw [heq])
      simp [comparator, hc]
  | case8 cs hcaret htilde hgreaterEq hlessEq hgreater hless hequal =>
    cases cs with
    | nil => exact hnone
    | cons c rest =>
      have hfirst (d : Char) (hd : ∀ more, c :: rest = d :: more → False) (more : List Char)
          (heq : c :: (rest ++ blanks) = d :: more) : False :=
        hd rest (by rw [(List.cons.inj heq).1])
      rw [List.cons_append, comparator]
      · exact hfirst '^' hcaret
      · exact hfirst '~' htilde
      · exact fun more ↦ hfirst '>' hgreater _
      · exact fun more ↦ hfirst '<' hless _
      · exact hfirst '>' hgreater
      · exact hfirst '<' hless
      · exact hfirst '=' hequal
  | _ => rfl

theorem span_append_blanks (h : BlankFollows blanks) (cs : List Char) :
    (cs ++ blanks).span Text.isDecimalDigit =
      ((cs.span Text.isDecimalDigit).1, (cs.span Text.isDecimalDigit).2 ++ blanks) := by
  induction cs with
  | nil => exact Text.span_run (List.forall_mem_nil _) h.isDecimalDigit_eq
  | cons c cs ih =>
    simp only [List.span_eq_takeWhile_dropWhile, Prod.mk.injEq] at ih ⊢
    by_cases hc : Text.isDecimalDigit c
    · simp [hc, ih]
    · simp [hc]

theorem part_append_blanks (h : BlankFollows blanks) (cs : List Char) :
    part (cs ++ blanks) = ((part cs).1, (part cs).2 ++ blanks) := by
  cases cs with
  | nil => exact h.part_eq
  | cons c cs =>
    by_cases hc : c = '.'
    · subst hc
      rw [List.cons_append, part, part, span_append_blanks h]
      rcases cs.span Text.isDecimalDigit with ⟨digits, rest⟩
      cases digits <;> rfl
    · simp [part, hc]

theorem comparison?_append_blanks (h : ∀ c ∈ blanks, Text.isBlank c) (cs : List Char) :
    comparison? (cs ++ blanks) = comparison? cs := by
  have hfollows := blankFollows_of_blanks h
  have hdrop := @List.dropWhile_append _ Text.isBlank (comparator cs).2 blanks
  simp only [comparison?, comparator_append_blanks hfollows, hdrop]
  cases hmore : (comparator cs).2.dropWhile Text.isBlank with
  | nil => simp [List.dropWhile_eq_nil_iff.mpr h]
  | cons d more =>
    rw [List.isEmpty_cons, if_neg Bool.false_ne_true, span_append_blanks hfollows]
    rcases (d :: more).span Text.isDecimalDigit with ⟨digits, rest⟩
    cases digits with
    | nil => rfl
    | cons d digits => simp only [part_append_blanks hfollows]

theorem leading?_append_blanks (h : ∀ c ∈ blanks, Text.isBlank c) (cs : List Char) :
    leading? (cs ++ blanks) = leading? cs := by
  induction cs with
  | nil => rw [List.nil_append, ← leading?_dropWhile, List.dropWhile_eq_nil_iff.mpr h]
  | cons c cs ih =>
    have hhere := comparison?_append_blanks h (c :: cs)
    rw [List.cons_append] at hhere ⊢
    rw [leading?, leading?, hhere, ih]

/-- A constraint says the same with blanks around it. -/
theorem constraint?_of_trimsTo {cs shown : List Char} (h : Text.TrimsTo cs shown) :
    constraint? cs = constraint? shown := by
  obtain ⟨front, back, rfl, hfront, hback⟩ := h.ends
  rw [← constraint?_dropWhile, List.dropWhile_append_of_pos hfront, constraint?_dropWhile,
    constraint?, leading?_append_blanks hback, ← constraint?]

end

section

variable (afterPragma afterSolidity : Gap) {constraint : List Char}

theorem constraints_heading (h : ';' ∉ constraint) :
    constraints (String.ofList (heading afterPragma afterSolidity ++ constraint ++ [';'])) =
      (constraint? constraint).toList := by
  have hnone : directives [] = [] := rfl
  rw [constraints, String.toList_ofList, directives_heading_append _ _ h, hnone,
    List.filterMap_cons, constraint?_dropWhile]
  cases constraint? constraint <;> rfl

theorem trimsTo_solidity {shown : List Char} (h : Text.TrimsTo constraint shown) :
    ∃ rest, Text.TrimsTo ("solidity".toList ++ (afterSolidity.chars ++ constraint))
        ("solidity".toList ++ rest) ∧ BlankFollows rest ∧ Text.TrimsTo rest shown := by
  obtain ⟨front, back, rfl, hfront, hback⟩ := h.ends
  have hbefore : ∀ c ∈ afterSolidity.chars ++ front, Text.isBlank c := fun c hc ↦
    (List.mem_append.mp hc).elim (afterSolidity.isBlank c) (hfront c)
  have hhead (rest : List Char) (c : Char) (hc : ("solidity".toList ++ rest).head? = some c) :
      Text.isBlank c = false := by
    cases hc
    decide
  cases shown with
  | nil =>
    refine ⟨[], ⟨⟨[], afterSolidity.chars ++ (front ++ back), ?_, List.forall_mem_nil _, ?_⟩, hhead [],
      ?_⟩, blankFollows_of_blanks (List.forall_mem_nil _), .refl h.head h.last⟩
    · simp
    · rw [← List.append_assoc]
      exact fun c hc ↦ (List.mem_append.mp hc).elim (hbefore c) (hback c)
    · rintro c ⟨⟩
      decide
  | cons d shown =>
    refine ⟨afterSolidity.chars ++ front ++ d :: shown,
      ⟨⟨[], back, ?_, List.forall_mem_nil _, hback⟩, hhead _, ?_⟩, ?_,
      ⟨⟨afterSolidity.chars ++ front, [], ?_, hbefore, List.forall_mem_nil _⟩, h.head, h.last⟩⟩
    · simp
    · intro c hc
      rw [List.getLast?_append_of_ne_nil _ (by simp),
        List.getLast?_append_of_ne_nil _ (List.cons_ne_nil d shown)] at hc
      exact h.last c hc
    · obtain ⟨e, blanks, hgap⟩ := List.exists_cons_of_ne_nil afterSolidity.ne_nil
      intro c hc
      rw [hgap] at hc
      cases hc
      exact afterSolidity.isBlank _ (hgap ▸ List.mem_cons_self)
    · simp

end

end ContractAudit.Pragma

namespace ContractAudit.Concrete

open Pragma

theorem dropWhile_semicolon {cs : List Char} (h : ';' ∉ cs) :
    ((cs ++ [';']).reverse.dropWhile (· == ';')).reverse = cs := by
  have hrun : ([';'] ++ cs.reverse).dropWhile (· == ';') = cs.reverse := by
    refine Text.dropWhile_run (by simp) fun c hc ↦ ?_
    have hmem : c ∈ cs := List.mem_reverse.mp (List.mem_of_mem_head? hc)
    exact beq_eq_false_iff_ne.mpr fun heq ↦ h (heq ▸ hmem)
  rw [List.reverse_append, List.reverse_singleton, hrun, List.reverse_reverse]

theorem pragmaWords_heading (afterPragma afterSolidity : Gap) {constraint shown : List Char}
    (hsemicolon : ';' ∉ constraint) (hshown : Text.TrimsTo constraint shown) :
    pragmaWords (heading afterPragma afterSolidity ++ constraint ++ [';']) =
      ("solidity".toList, shown) := by
  obtain ⟨rest, hbody, hrest, hvalue⟩ := trimsTo_solidity afterSolidity hshown
  have hbodyText : ';' ∉ "solidity".toList ++ (afterSolidity.chars ++ constraint) := by
    simp [semicolon_not_mem_blanks, hsemicolon]
  have htext : heading afterPragma afterSolidity ++ constraint ++ [';'] =
      "pragma".toList ++ (afterPragma.chars ++
        ("solidity".toList ++ (afterSolidity.chars ++ constraint) ++ [';'])) := by
    rw [heading_append]
    simp only [List.append_assoc]
  have hlast (front : List Char) (c : Char) (hc : (front ++ [';']).getLast? = some c) :
      Text.isBlank c = false := by
    rw [List.getLast?_concat] at hc
    cases hc
    decide
  have houter : Text.trim (heading afterPragma afterSolidity ++ constraint ++ [';']) =
      heading afterPragma afterSolidity ++ constraint ++ [';'] := by
    refine Text.TrimsTo.trim_eq (.refl ?_ (hlast _))
    rintro c ⟨⟩
    decide
  have hinner : Text.trim (afterPragma.chars ++
      ("solidity".toList ++ (afterSolidity.chars ++ constraint) ++ [';'])) =
      "solidity".toList ++ (afterSolidity.chars ++ constraint) ++ [';'] := by
    refine Text.TrimsTo.trim_eq
      ⟨⟨afterPragma.chars, [], by simp, afterPragma.isBlank, List.forall_mem_nil _⟩, ?_, hlast _⟩
    rintro c ⟨⟩
    decide
  have hword : ("solidity".toList ++ rest).span (!Text.isBlank ·) = ("solidity".toList, rest) :=
    Text.span_run (List.all_eq_true.mp (by decide)) fun c hc ↦ by simp [hrest c hc]
  rw [List.span_eq_takeWhile_dropWhile, Prod.mk.injEq] at hword
  simp only [pragmaWords, houter]
  rw [htext, dropWord?_append, Option.getD_some, hinner, dropWhile_semicolon hbodyText,
    hbody.trim_eq, hword.1, hword.2, hvalue.trim_eq]

/-- A directive is read alike as a node and as a text, in whatever layout it is written: the value
of the node is the constraint without the blanks around it, and written with that value alone the
directive asks for the same versions. -/
theorem Tree.lower_pragma_constraints {source : String} {tree : Tree}
    (hk : tree.info.kind = "pragma_directive") (afterPragma afterSolidity : Gap)
    {constraint : List Char} (hsemicolon : ';' ∉ constraint)
    (htext : (tree.info.text source).toList =
      heading afterPragma afterSolidity ++ constraint ++ [';']) :
    ∃ value : String, Text.TrimsTo constraint value.toList ∧
      tree.lower source = .pragma tree.info.loc "solidity" value ∧
      constraints (tree.info.text source) = constraints ("pragma solidity " ++ value ++ ";") ∧
      pinsCheckedArithmetic (tree.info.text source) =
        pinsCheckedArithmetic ("pragma solidity " ++ value ++ ";") := by
  have hshown := Text.trimsTo_trim constraint
  have hwords := pragmaWords_heading afterPragma afterSolidity hsemicolon hshown
  have hvalue : ';' ∉ Text.trim constraint := by
    obtain ⟨front, back, hsplit, -, -⟩ := hshown.ends
    rw [hsplit] at hsemicolon
    simp only [List.mem_append, not_or] at hsemicolon
    exact hsemicolon.2.1
  have hplain : "pragma solidity " ++ String.ofList (Text.trim constraint) ++ ";" =
      String.ofList (heading .space .space ++ Text.trim constraint ++ [';']) := by
    rw [heading_append]
    apply String.toList_injective
    simp [Gap.space]
  have hconstraints : constraints (tree.info.text source) =
      constraints ("pragma solidity " ++ String.ofList (Text.trim constraint) ++ ";") := by
    rw [hplain, constraints_heading _ _ hvalue, ← String.ofList_toList (s := tree.info.text source),
      htext, constraints_heading _ _ hsemicolon, constraint?_of_trimsTo hshown]
  refine ⟨String.ofList (Text.trim constraint), ?_, ?_, hconstraints, ?_⟩
  · rw [String.toList_ofList]
    exact hshown
  · rw [Tree.lower_eq_lowerConstruct (by simp [hk, wrapperKinds])]
    simp only [lowerConstruct, lowerKind?, hk, lowerPragma, htext, hwords]
    rfl
  · rw [pinsCheckedArithmetic, hconstraints, ← pinsCheckedArithmetic]

namespace SpreadOut

def source : String := "pragma\tsolidity\u00a0 ^0.8 \n;"

def tree : Tree :=
  .node ⟨"pragma_directive", true, false, false, false, none, 0, source.utf8ByteSize, 0, 0⟩ []

def afterPragma : Gap :=
  ⟨⟨['\t'], List.forall_mem_singleton.mpr rfl⟩, List.cons_ne_nil _ _⟩

def afterSolidity : Gap :=
  ⟨⟨['\u00a0'], List.forall_mem_singleton.mpr rfl⟩, List.cons_ne_nil _ _⟩

theorem lower_pragma_constraints_tree :
    (tree.info.text source).toList =
        heading afterPragma afterSolidity ++ " ^0.8 \n".toList ++ [';'] ∧
      tree.lower source = .pragma ⟨1, 0⟩ "solidity" "^0.8" ∧
      constraints (tree.info.text source) = constraints "pragma solidity ^0.8;" := by
  have htext : (tree.info.text source).toList =
      heading afterPragma afterSolidity ++ " ^0.8 \n".toList ++ [';'] := by
    decide
  obtain ⟨value, hvalue, hlower, hconstraints, -⟩ :=
    Tree.lower_pragma_constraints rfl afterPragma afterSolidity (by decide) htext
  obtain rfl : value = "^0.8" :=
    String.toList_injective (hvalue.trim_eq.symm.trans (by decide))
  exact ⟨htext, hlower, hconstraints⟩

end SpreadOut

end ContractAudit.Concrete
