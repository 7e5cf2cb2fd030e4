import ContractAudit.Pragma
import ContractAudit.Proofs.Text.Digit
import ContractAudit.Proofs.Text.Split

namespace ContractAudit.Pragma

def BlankFollows (rest : List Char) : Prop := ∀ c, rest.head? = some c → Text.isBlank c

theorem blankFollows_of_blanks {blanks : List Char} (h : ∀ c ∈ blanks, Text.isBlank c) :
    BlankFollows blanks :=
  fun c hc ↦ h c (List.mem_of_mem_head? hc)

structure Gap extends Text.Blanks where
  ne_nil : chars ≠ []

def Gap.space : Gap := ⟨⟨[' '], List.forall_mem_singleton.mpr rfl⟩, List.cons_ne_nil _ _⟩

/-- A number of at most 32 bits, written with zeros in front of it up to `width` digits. -/
structure Numeral where
  value : Nat
  width : Nat := 1
  lt_size : value < UInt32.size

def Numeral.ofUInt32 (n : UInt32) : Numeral := ⟨n.toNat, 1, n.toNat_lt_size⟩

def Numeral.text (n : Numeral) : List Char := (Text.padZeros n.width n.value).toList

/-- A version as it is written, with one number, two or three. -/
inductive PartialVersion where
  | one (major : Numeral)
  | two (major minor : Numeral)
  | three (major minor patch : Numeral)

namespace PartialVersion

def text : PartialVersion → List Char
  | .one major => major.text
  | .two major minor => major.text ++ '.' :: minor.text
  | .three major minor patch => major.text ++ '.' :: (minor.text ++ '.' :: patch.text)

def least : PartialVersion → Version
  | .one major => ⟨major.value, 0, 0⟩
  | .two major minor => ⟨major.value, minor.value, 0⟩
  | .three major minor patch => ⟨major.value, minor.value, patch.value⟩

def digits : PartialVersion → List Char × List Char × List Char
  | .one major => (major.text, [], [])
  | .two major minor => (major.text, minor.text, [])
  | .three major minor patch => (major.text, minor.text, patch.text)

end PartialVersion

def Comparator.mark : Comparator → List Char
  | .caret => ['^']
  | .tilde => ['~']
  | .greaterEq => ['>', '=']
  | .lessEq => ['<', '=']
  | .greater => ['>']
  | .less => ['<']
  | .exact => ['=']

/-- A comparator with its version, as it is written. Its mark may be left out. -/
structure Bound where
  mark? : Option Comparator
  blanks : Text.Blanks
  version : PartialVersion

namespace Bound

def mark (b : Bound) : List Char := b.mark?.elim [] Comparator.mark

def text (b : Bound) : List Char := b.mark ++ (b.blanks.chars ++ b.version.text)

def constraint (b : Bound) : Constraint := ⟨b.mark?.getD .exact, b.version.least⟩

end Bound

theorem semicolon_not_mem_blanks (blanks : Text.Blanks) : ';' ∉ blanks.chars :=
  blanks.not_mem (by decide)

namespace Numeral

variable (n : Numeral)

theorem text_ne_nil : n.text ≠ [] := Text.padZeros_ne_nil n.width n.value

theorem isDigit_of_mem {c : Char} (h : c ∈ n.text) : c.isDigit := Text.isDigit_of_mem_padZeros h

theorem number?_text : number? n.text = some n.value := by
  rw [number?, text, Text.readNat?_padZeros]
  exact if_pos n.lt_size

theorem span_text_append {rest : List Char}
    (h : ∀ c, rest.head? = some c → Text.isDecimalDigit c = false) :
    (n.text ++ rest).span Text.isDecimalDigit = (n.text, rest) :=
  Text.span_run (fun _ hc ↦ Text.isDecimalDigit_of_isDigit (n.isDigit_of_mem hc)) h

theorem isDigit_of_head? {rest : List Char} {c : Char} (h : (n.text ++ rest).head? = some c) :
    c.isDigit := by
  obtain ⟨d, digits, hdigits⟩ := List.exists_cons_of_ne_nil n.text_ne_nil
  rw [hdigits] at h
  cases h
  exact n.isDigit_of_mem (hdigits ▸ List.mem_cons_self)

theorem part_point {rest : List Char}
    (h : ∀ c, rest.head? = some c → Text.isDecimalDigit c = false) :
    part ('.' :: (n.text ++ rest)) = (n.text, rest) := by
  obtain ⟨d, digits, hdigits⟩ := List.exists_cons_of_ne_nil n.text_ne_nil
  have hspan := n.span_text_append h
  rw [hdigits] at hspan ⊢
  simp only [part, hspan]

end Numeral

theorem BlankFollows.isDecimalDigit_eq {rest : List Char} (h : BlankFollows rest) (c : Char)
    (hc : rest.head? = some c) : Text.isDecimalDigit c = false :=
  Text.isDecimalDigit_of_isBlank (h c hc)

theorem BlankFollows.part_eq {rest : List Char} (h : BlankFollows rest) :
    part rest = ([], rest) := by
  unfold part
  split
  next => exact absurd (h '.' rfl) (by decide)
  next => rfl

theorem comparison?_of_span {cs more major rest : List Char} {operator : Comparator}
    (hc : comparator cs = (operator, more))
    (hs : (more.dropWhile Text.isBlank).span Text.isDecimalDigit = (major, rest))
    (hne : major ≠ []) :
    comparison? cs = some (operator, major, (part rest).1, (part (part rest).2).1) := by
  obtain ⟨d, digits, rfl⟩ := List.exists_cons_of_ne_nil hne
  simp only [comparison?, hc, hs]

theorem leading?_of_comparison? {cs : List Char}
    {found : Comparator × List Char × List Char × List Char} (h : comparison? cs = some found) :
    leading? cs = some found := by
  cases cs with
  | nil => cases h
  | cons c cs => rw [leading?, h]

/-- A mark is read as such if what follows does not belong to a longer one. -/
theorem comparator_mark (mark? : Option Comparator) {more : List Char}
    (h : ∀ c, more.head? = some c → Text.isBlank c ∨ Text.isDecimalDigit c) :
    comparator (mark?.elim [] Comparator.mark ++ more) = (mark?.getD .exact, more) := by
  have hne (c : Char) (hc : Text.isBlank c = false ∧ Text.isDecimalDigit c = false)
      (rest : List Char) : more ≠ c :: rest := by
    rintro rfl
    simpa [hc] using h c rfl
  cases mark? with
  | none =>
    rw [Option.elim_none, List.nil_append, comparator]
    · rfl
    all_goals
      intro rest hmore
      exact hne _ (by decide) _ hmore
  | some mark =>
    cases mark with
    | greater | less => simp [Comparator.mark, comparator, hne '=' (by decide)]
    | _ => rfl

namespace PartialVersion

variable (v : PartialVersion) {rest : List Char}

theorem isDigit_of_head? {c : Char} (h : (v.text ++ rest).head? = some c) : c.isDigit := by
  cases v with
  | one major => exact major.isDigit_of_head? h
  | two major minor | three major minor patch =>
    rw [text, List.append_assoc] at h
    exact major.isDigit_of_head? h

theorem span_text_append (h : BlankFollows rest) :
    ∃ more, (v.text ++ rest).span Text.isDecimalDigit = (v.digits.1, more) ∧
      (part more).1 = v.digits.2.1 ∧ (part (part more).2).1 = v.digits.2.2 := by
  have hrest := h.isDecimalDigit_eq
  have hpoint (more : List Char) (c : Char) (hc : ('.' :: more).head? = some c) :
      Text.isDecimalDigit c = false := by
    cases hc
    decide
  cases v with
  | one major =>
    simp only [text, digits]
    refine ⟨rest, major.span_text_append hrest, ?_⟩
    simp [h.part_eq]
  | two major minor =>
    simp only [text, digits, List.append_assoc, List.cons_append]
    refine ⟨'.' :: (minor.text ++ rest), major.span_text_append (hpoint _), ?_⟩
    simp [minor.part_point hrest, h.part_eq]
  | three major minor patch =>
    simp only [text, digits, List.append_assoc, List.cons_append]
    refine ⟨'.' :: (minor.text ++ '.' :: (patch.text ++ rest)),
      major.span_text_append (hpoint _), ?_⟩
    simp [minor.part_point (hpoint _), patch.part_point hrest]

theorem digits_ne_nil : v.digits.1 ≠ [] := by
  cases v <;> simp only [digits, ne_eq, Numeral.text_ne_nil, not_false_eq_true]

theorem numbers_digits :
    number? v.digits.1 = some v.least.major ∧ (number? v.digits.2.1).getD 0 = v.least.minor ∧
      (number? v.digits.2.2).getD 0 = v.least.patch := by
  have hnone : (number? []).getD 0 = 0 := rfl
  cases v <;>
    simp only [digits, least, Numeral.number?_text, Option.getD_some, hnone, and_self]

end PartialVersion

namespace Bound

variable (b : Bound) {rest : List Char}

theorem comparator_text_append : comparator (b.text ++ rest) =
    (b.mark?.getD .exact, b.blanks.chars ++ (b.version.text ++ rest)) := by
  rw [text, List.append_assoc, List.append_assoc]
  refine comparator_mark b.mark? fun c hc ↦ ?_
  cases hblanks : b.blanks.chars with
  | nil =>
    rw [hblanks] at hc
    exact .inr (Text.isDecimalDigit_of_isDigit (b.version.isDigit_of_head? hc))
  | cons d blanks =>
    rw [hblanks] at hc
    cases hc
    exact .inl (b.blanks.isBlank _ (hblanks ▸ List.mem_cons_self))

theorem comparison?_text_append (h : BlankFollows rest) :
    comparison? (b.text ++ rest) = some (b.mark?.getD .exact, b.version.digits) := by
  obtain ⟨more, hspan, hminor, hpatch⟩ := b.version.span_text_append h
  have hdrop : (b.blanks.chars ++ (b.version.text ++ rest)).dropWhile Text.isBlank =
      b.version.text ++ rest :=
    Text.dropWhile_run b.blanks.isBlank fun c hc ↦
      Text.isBlank_of_isDigit (b.version.isDigit_of_head? hc)
  rw [comparison?_of_span b.comparator_text_append (hdrop ▸ hspan) b.version.digits_ne_nil, hminor,
    hpatch]

theorem semicolon_not_mem_text : ';' ∉ b.text := by
  have hnumeral (n : Numeral) : ';' ∉ n.text := fun h ↦ absurd (n.isDigit_of_mem h) (by decide)
  have hmark : ';' ∉ b.mark := by
    rw [mark]
    cases b.mark? with
    | none => exact List.not_mem_nil
    | some mark => cases mark <;> decide
  have hversion : ';' ∉ b.version.text := by
    cases b.version <;> simp [PartialVersion.text, hnumeral]
  simp [text, hmark, semicolon_not_mem_blanks, hversion]

theorem constraint?_text_append (h : BlankFollows rest) :
    constraint? (b.text ++ rest) = some b.constraint := by
  obtain ⟨hmajor, hminor, hpatch⟩ := b.version.numbers_digits
  simp [constraint?, leading?_of_comparison? (b.comparison?_text_append h), hmajor, hminor, hpatch,
    constraint]

end Bound

theorem leading?_of_blank {c : Char} {cs : List Char}
    {found : Comparator × List Char × List Char × List Char} (hc : Text.isBlank c)
    (h : comparison? (c :: cs) = some found) :
    leading? (cs.dropWhile Text.isBlank) = some found := by
  have hmark : comparator (c :: cs) = (.exact, c :: cs) :=
    comparator_mark none fun d hd ↦ .inl (by cases hd; exact hc)
  have hdrop : (c :: cs).dropWhile Text.isBlank = cs.dropWhile Text.isBlank :=
    List.dropWhile_cons_of_pos hc
  simp only [comparison?, hmark, hdrop] at h
  generalize cs.dropWhile Text.isBlank = ds at h ⊢
  cases ds with
  | nil => cases h
  | cons d ds =>
    by_cases hd : Text.isDecimalDigit d
    · -- Without the blanks the same digits are at the front, and no mark.
      have hblank : ¬ Text.isBlank d := fun hblank ↦
        Bool.false_ne_true ((Text.isDecimalDigit_of_isBlank hblank).symm.trans hd)
      have hmark : comparator (d :: ds) = (.exact, d :: ds) :=
        comparator_mark none fun e he ↦ .inr (by cases he; exact hd)
      refine leading?_of_comparison? ?_
      simpa only [comparison?, hmark, List.dropWhile_cons_of_neg hblank] using h
    · simp [List.span_eq_takeWhile_dropWhile, hd] at h

theorem leading?_dropWhile (cs : List Char) :
    leading? (cs.dropWhile Text.isBlank) = leading? cs := by
  induction cs with
  | nil => rfl
  | cons c cs ih =>
    by_cases hc : Text.isBlank c
    · rw [List.dropWhile_cons_of_pos hc, leading?]
      cases h : comparison? (c :: cs) with
      | none => exact ih
      | some found => exact leading?_of_blank hc h
    · rw [List.dropWhile_cons_of_neg hc]

theorem constraint?_dropWhile (cs : List Char) :
    constraint? (cs.dropWhile Text.isBlank) = constraint? cs := by
  rw [constraint?, leading?_dropWhile, ← constraint?]

theorem dropWord?_append (word rest : List Char) :
    Text.dropWord? word (word ++ rest) = some rest := by
  simp [Text.dropWord?]

theorem afterWord?_append (word : String) (gap : Gap) (rest : List Char) :
    afterWord? word (word.toList ++ (gap.chars ++ rest)) = some (rest.dropWhile Text.isBlank) := by
  obtain ⟨c, blanks, hgap⟩ := List.exists_cons_of_ne_nil gap.ne_nil
  have hblank : ∀ d ∈ c :: blanks, Text.isBlank d := hgap ▸ gap.isBlank
  have hdrop : (blanks ++ rest).dropWhile Text.isBlank = rest.dropWhile Text.isBlank :=
    List.dropWhile_append_of_pos fun d hd ↦ hblank d (List.mem_cons_of_mem c hd)
  rw [afterWord?, dropWord?_append, hgap]
  simp [hblank c List.mem_cons_self, hdrop]

theorem afterWord?_of_not_prefix {word : String} {cs : List Char} (h : ¬ word.toList <+: cs) :
    afterWord? word cs = none := by
  have hnone : Text.dropWord? word.toList cs = none :=
    if_neg fun hword ↦ h (List.isPrefixOf_iff_prefix.mp hword)
  rw [afterWord?, hnone]
  rfl

def heading (afterPragma afterSolidity : Gap) : List Char :=
  "pragma".toList ++ (afterPragma.chars ++ ("solidity".toList ++ afterSolidity.chars))

section

variable (afterPragma afterSolidity : Gap) {constraint : List Char}

theorem heading_append (constraint : List Char) :
    heading afterPragma afterSolidity ++ constraint =
      "pragma".toList ++ (afterPragma.chars ++
        ("solidity".toList ++ (afterSolidity.chars ++ constraint))) := by
  change ("pragma".toList ++ (afterPragma.chars ++
    ("solidity".toList ++ afterSolidity.chars))) ++ constraint = _
  simp only [List.append_assoc]

theorem directive?_heading_append (constraint : List Char) :
    directive? (heading afterPragma afterSolidity ++ constraint) =
      some (constraint.dropWhile Text.isBlank) := by
  have hpragma : afterWord? "pragma" (heading afterPragma afterSolidity ++ constraint) =
      some ("solidity".toList ++ (afterSolidity.chars ++ constraint)) := by
    rw [heading_append, afterWord?_append]
    rfl
  have hsolidity := afterWord?_append "solidity" afterSolidity constraint
  obtain ⟨cs, hcs⟩ : ∃ cs, heading afterPragma afterSolidity ++ constraint = 'p' :: cs := ⟨_, rfl⟩
  rw [hcs] at hpragma ⊢
  simp only [directive?, hpragma, Option.bind_some, hsolidity]

theorem directives_append_semicolon (cs ds : List Char) :
    directives (cs ++ ';' :: ds) = directives cs ++ directives ds := by
  simp only [directives, Text.splitAt_append_sep, List.filterMap_append]

theorem directives_heading_append (h : ';' ∉ constraint) (rest : List Char) :
    directives (heading afterPragma afterSolidity ++ constraint ++ ';' :: rest) =
      constraint.dropWhile Text.isBlank :: directives rest := by
  have hsemicolon : ';' ∉ heading afterPragma afterSolidity ++ constraint := by
    rw [heading_append]
    simp [semicolon_not_mem_blanks, h]
  have hone : directives (heading afterPragma afterSolidity ++ constraint) =
      [constraint.dropWhile Text.isBlank] := by
    rw [directives, Text.splitAt_of_not_mem hsemicolon]
    simp [directive?_heading_append]
  rw [directives_append_semicolon, hone, List.singleton_append]

end

/-- What does not hold the word `pragma` adds no directive, and hides none that follows. -/
theorem directives_filler_append {filler rest : List Char}
    (hfiller : ¬ "pragma".toList <:+: filler) (hrest : ∀ c, rest.head? = some c → c = 'p') :
    directives (filler ++ rest) = directives rest := by
  induction filler with
  | nil => rfl
  | cons c filler ih =>
    have ih := ih fun h ↦ hfiller (h.trans (List.suffix_cons c filler).isInfix)
    rw [← ih, directives, directives, List.cons_append, Text.splitAt_cons]
    split
    · rfl
    · obtain ⟨piece, pieces, hsplit, hpiece⟩ := Text.exists_splitAt ';' (filler ++ rest)
      have hword : ¬ "pragma".toList <+: c :: piece := fun h ↦
        Text.not_prefix_append (by decide) (List.cons_ne_nil c filler) hfiller hrest
          (h.trans (List.cons_prefix_cons.mpr ⟨rfl, hpiece⟩))
      have hdirective : directive? (c :: piece) = directive? piece := by
        simp [directive?, afterWord?_of_not_prefix hword]
      rw [hsplit, Text.consPiece, List.filterMap_cons, List.filterMap_cons, hdirective]

/-- A directive as it is written. Of its constraint, all that follows the first comparator is
`tail`. -/
structure Directive where
  afterPragma : Gap
  afterSolidity : Gap
  bound : Bound
  tail : List Char
  blankFollows : BlankFollows tail
  semicolon_not_mem : ';' ∉ tail

namespace Directive

variable (d : Directive)

def constraintText : List Char := d.bound.text ++ d.tail

def text : List Char := heading d.afterPragma d.afterSolidity ++ d.constraintText ++ [';']

theorem directives_text_append (rest : List Char) :
    directives (d.text ++ rest) = d.constraintText.dropWhile Text.isBlank :: directives rest := by
  have hsemicolon : ';' ∉ d.constraintText := fun h ↦
    (List.mem_append.mp h).elim d.bound.semicolon_not_mem_text d.semicolon_not_mem
  rw [text, List.append_assoc, List.singleton_append]
  exact directives_heading_append _ _ hsemicolon rest

theorem constraint?_constraintText :
    constraint? (d.constraintText.dropWhile Text.isBlank) = some d.bound.constraint := by
  rw [constraint?_dropWhile]
  exact d.bound.constraint?_text_append d.blankFollows

end Directive

/-- Any text in which the word `pragma` does not stand. -/
structure Filler where
  chars : List Char
  pragma_not_infix : ¬ "pragma".toList <:+: chars

/-- Directives, each with a text in front of it, and a text after the last one. -/
def written : List (Filler × Directive) → Filler → List Char
  | [], last => last.chars
  | (filler, d) :: items, last => filler.chars ++ (d.text ++ written items last)

/-- Each directive of a source is read, in order, as the comparator and the version that its
constraint begins with. -/
theorem constraints_written (items : List (Filler × Directive)) (last : Filler) :
    constraints (String.ofList (written items last)) =
      items.map fun item ↦ item.2.bound.constraint := by
  rw [constraints, String.toList_ofList]
  induction items with
  | nil =>
    have hlast : directives (last.chars ++ []) = directives [] :=
      directives_filler_append last.pragma_not_infix (by simp)
    rw [List.append_nil] at hlast
    rw [written, hlast]
    rfl
  | cons item items ih =>
    obtain ⟨filler, d⟩ := item
    have hdirective : ∀ c, (d.text ++ written items last).head? = some c → c = 'p' := by
      rintro c ⟨⟩
      rfl
    rw [written, directives_filler_append filler.pragma_not_infix hdirective,
      d.directives_text_append, List.filterMap_cons, d.constraint?_constraintText, ih,
      List.map_cons]

/-- Between the two directives, and after the version of each, stand pieces of others. -/
def twoDirectives : List (Filler × Directive) :=
  [(⟨[], by decide⟩,
    { afterPragma := .space
      afterSolidity := .space
      bound := ⟨some .greaterEq, Gap.space.toBlanks, .two (.ofUInt32 0) ⟨8, 2, by decide⟩⟩
      tail := " <1".toList
      blankFollows := by rintro c ⟨⟩; rfl
      semicolon_not_mem := by decide }),
    (⟨" solidity ^9; prag".toList, by decide⟩,
    { afterPragma := .space
      afterSolidity := .space
      bound := ⟨none, .empty, .one (.ofUInt32 4294967295)⟩
      tail := " pragma solidity 8".toList
      blankFollows := by rintro c ⟨⟩; rfl
      semicolon_not_mem := by decide })]

def twoDirectivesText : String :=
  "pragma solidity >= 0.08 <1; solidity ^9; pragpragma solidity 4294967295 pragma solidity 8;"

theorem constraints_written_twoDirectives :
    String.ofList (written twoDirectives ⟨[], by decide⟩) = twoDirectivesText ∧
      constraints twoDirectivesText =
        [⟨.greaterEq, ⟨0, 8, 0⟩⟩, ⟨.exact, ⟨4294967295, 0, 0⟩⟩] := by
  have htext : String.ofList (written twoDirectives ⟨[], by decide⟩) = twoDirectivesText := by
    decide
  refine ⟨htext, ?_⟩
  rw [← htext, constraints_written]
  rfl

end ContractAudit.Pragma
