import Mathlib
import ContractAudit.Text.Basic
import ContractAudit.Text.Blank

namespace ContractAudit.Text

variable {sep : Char} {cs ds : List Char}

theorem splitAt_cons (sep c : Char) (cs : List Char) :
    splitAt sep (c :: cs) =
      if c = sep then [] :: splitAt sep cs else consPiece c (splitAt sep cs) :=
  rfl

theorem splitAt_eq_splitOn (sep : Char) (cs : List Char) : splitAt sep cs = cs.splitOn sep := by
  induction cs with
  | nil => rfl
  | cons c cs ih =>
    obtain ⟨piece, pieces, hsplit⟩ := List.exists_cons_of_ne_nil (List.splitOn_ne_nil sep cs)
    rw [splitAt_cons, List.splitOn_cons_eq_if_modifyHead, ih, hsplit]
    simp only [beq_iff_eq]
    rfl

theorem splitAt_ne_nil (sep : Char) (cs : List Char) : splitAt sep cs ≠ [] :=
  splitAt_eq_splitOn sep cs ▸ List.splitOn_ne_nil sep cs

theorem splitAt_of_not_mem (h : sep ∉ cs) : splitAt sep cs = [cs] := by
  rw [splitAt_eq_splitOn, List.splitOn_eq_singleton h]

theorem splitAt_append_sep (sep : Char) (cs ds : List Char) :
    splitAt sep (cs ++ sep :: ds) = splitAt sep cs ++ splitAt sep ds := by
  simp only [splitAt_eq_splitOn, List.splitOn_append_cons_self]

theorem exists_splitAt (sep : Char) (cs : List Char) :
    ∃ piece pieces, splitAt sep cs = piece :: pieces ∧ piece <+: cs := by
  induction cs with
  | nil => exact ⟨[], [], rfl, List.prefix_rfl⟩
  | cons c cs ih =>
    obtain ⟨piece, pieces, hsplit, hpiece⟩ := ih
    rw [splitAt_cons, hsplit]
    split
    · exact ⟨[], piece :: pieces, rfl, List.nil_prefix⟩
    · exact ⟨c :: piece, pieces, rfl, List.cons_prefix_cons.mpr ⟨rfl, hpiece⟩⟩

theorem splitAt_ne_singleton_nil (h : cs ≠ []) :
    splitAt sep cs ≠ [[]] := by
  obtain ⟨c, cs, rfl⟩ := List.exists_cons_of_ne_nil h
  obtain ⟨piece, pieces, hsplit⟩ := List.exists_cons_of_ne_nil (splitAt_ne_nil sep cs)
  rw [splitAt_cons, hsplit]
  split
  · simp
  · simp [consPiece]

theorem sep_not_mem_of_mem_splitAt {piece : List Char} (h : piece ∈ splitAt sep cs) :
    sep ∉ piece := by
  induction cs generalizing piece with
  | nil =>
    cases List.mem_singleton.mp h
    exact List.not_mem_nil
  | cons c cs ih =>
    obtain ⟨first, pieces, hsplit⟩ := List.exists_cons_of_ne_nil (splitAt_ne_nil sep cs)
    rw [hsplit] at ih
    rw [splitAt_cons, hsplit] at h
    split at h
    next =>
      rcases List.mem_cons.mp h with rfl | h
      · exact List.not_mem_nil
      · exact ih h
    next hc =>
      rcases List.mem_cons.mp h with rfl | h
      · exact List.not_mem_cons_of_ne_of_not_mem (Ne.symm hc) (ih List.mem_cons_self)
      · exact ih (List.mem_cons_of_mem _ h)

theorem endsWith_singleton : endsWith [sep] cs ↔ ∃ front, cs = front ++ [sep] := by
  rw [endsWith, List.isPrefixOf_iff_prefix, List.reverse_prefix]
  exact ⟨fun ⟨front, h⟩ ↦ ⟨front, h.symm⟩, fun ⟨front, h⟩ ↦ ⟨front, h.symm⟩⟩

theorem occursIn_iff (word cs : List Char) : occursIn word cs ↔ word <:+: cs := by
  induction cs with
  | nil => simp [occursIn]
  | cons c cs ih =>
    rw [occursIn, Bool.or_eq_true, List.isPrefixOf_iff_prefix, ih, List.infix_cons_iff]

theorem holds_iff (s word : String) : holds s word ↔ word.toList <:+: s.toList :=
  occursIn_iff word.toList s.toList

/-- A word whose first letter comes only once does not begin in a text without it, also if the word
itself follows there. -/
theorem not_prefix_append {first : Char} {others filler rest : List Char}
    (hothers : first ∉ others) (hne : filler ≠ []) (hfiller : ¬ first :: others <:+: filler)
    (hrest : ∀ c, rest.head? = some c → c = first) : ¬ first :: others <+: filler ++ rest := by
  intro hword
  rcases List.prefix_or_prefix_of_prefix hword (List.prefix_append filler rest) with h | h
  · exact hfiller h.isInfix
  · -- The word begins in the filler and goes on after it.
    obtain ⟨after, hsplit⟩ := h
    rw [← hsplit, List.prefix_append_right_inj] at hword
    obtain ⟨c, filler, rfl⟩ := List.exists_cons_of_ne_nil hne
    obtain ⟨rfl, rfl⟩ := List.cons.inj hsplit
    cases after with
    | nil => exact hfiller (by simp)
    | cons d after =>
      obtain ⟨more, rfl⟩ := hword
      exact hothers (List.mem_append_right _ (hrest d rfl ▸ List.mem_cons_self))

section

variable {p : Char → Bool} {run rest : List Char}

theorem dropWhile_run (hrun : ∀ c ∈ run, p c) (hrest : ∀ c, rest.head? = some c → p c = false) :
    (run ++ rest).dropWhile p = rest := by
  rw [List.dropWhile_append_of_pos hrun]
  cases rest with
  | nil => rfl
  | cons c rest => exact List.dropWhile_cons_of_neg (by simp [hrest c rfl])

theorem span_run (hrun : ∀ c ∈ run, p c) (hrest : ∀ c, rest.head? = some c → p c = false) :
    (run ++ rest).span p = (run, rest) := by
  have htake : (run ++ rest).takeWhile p = run := by
    rw [List.takeWhile_append_of_pos hrun]
    cases rest with
    | nil => exact List.append_nil run
    | cons c rest =>
      rw [List.takeWhile_cons_of_neg (by simp [hrest c rfl]), List.append_nil]
  rw [List.span_eq_takeWhile_dropWhile, htake, dropWhile_run hrun hrest]

end

structure Blanks where
  chars : List Char
  isBlank : ∀ c ∈ chars, Text.isBlank c

def Blanks.empty : Blanks := ⟨[], List.forall_mem_nil _⟩

theorem Blanks.not_mem (blanks : Blanks) {c : Char} (h : Text.isBlank c = false) :
    c ∉ blanks.chars :=
  fun hc ↦ Bool.eq_false_iff.mp h (blanks.isBlank c hc)

/-- What is left of a text without the blanks at its two ends. -/
structure TrimsTo (cs shown : List Char) : Prop where
  ends : ∃ front back, cs = front ++ (shown ++ back) ∧ (∀ c ∈ front, isBlank c) ∧
    ∀ c ∈ back, isBlank c
  head : ∀ c, shown.head? = some c → isBlank c = false
  last : ∀ c, shown.getLast? = some c → isBlank c = false

theorem head?_dropWhile {p : Char → Bool} {c : Char} (h : (cs.dropWhile p).head? = some c) :
    p c = false := by
  have hnot := List.head?_dropWhile_not p cs
  rwa [h] at hnot

theorem trimEnd_append (cs : List Char) :
    trimEnd cs ++ (cs.reverse.takeWhile isBlank).reverse = cs := by
  rw [trimEnd, ← List.reverse_append, List.takeWhile_append_dropWhile, List.reverse_reverse]

theorem trimsTo_trim (cs : List Char) : TrimsTo cs (trim cs) where
  ends := by
    refine ⟨cs.takeWhile isBlank, ((trimStart cs).reverse.takeWhile isBlank).reverse, ?_, ?_, ?_⟩
    · rw [trim, trimEnd_append, trimStart, List.takeWhile_append_dropWhile]
    · exact fun c hc ↦ List.mem_takeWhile_imp hc
    · exact fun c hc ↦ List.mem_takeWhile_imp (List.mem_reverse.mp hc)
  head := by
    intro c hc
    -- The blanks at the end are taken away behind this character, so it was the first before.
    have hfirst : (trimStart cs).head? = some c := by
      rw [← trimEnd_append (trimStart cs), List.head?_append_of_ne_nil]
      · exact hc
      · intro hnil
        rw [trim, hnil] at hc
        cases hc
    exact head?_dropWhile hfirst
  last := by
    intro c hc
    rw [trim, trimEnd, List.getLast?_reverse] at hc
    exact head?_dropWhile hc

theorem TrimsTo.trim_eq {shown : List Char} (h : TrimsTo cs shown) : trim cs = shown := by
  obtain ⟨front, back, rfl, hfront, hback⟩ := h.ends
  cases shown with
  | nil =>
    have hblank : (front ++ ([] ++ back)).dropWhile isBlank = [] :=
      List.dropWhile_eq_nil_iff.mpr fun c hc ↦ (List.mem_append.mp hc).elim (hfront c) (hback c)
    rw [trim, trimStart, hblank]
    rfl
  | cons c rest =>
    have hstart : trimStart (front ++ (c :: rest ++ back)) = c :: rest ++ back :=
      dropWhile_run hfront fun d hd ↦ h.head d hd
    have hend : (back.reverse ++ (c :: rest).reverse).dropWhile isBlank = (c :: rest).reverse := by
      refine dropWhile_run (fun d hd ↦ hback d (List.mem_reverse.mp hd)) fun d hd ↦ h.last d ?_
      rwa [List.head?_reverse] at hd
    rw [trim, hstart, trimEnd, List.reverse_append, hend, List.reverse_reverse]

theorem trimsTo_iff {shown : List Char} : TrimsTo cs shown ↔ trim cs = shown :=
  ⟨TrimsTo.trim_eq, fun h ↦ h ▸ trimsTo_trim cs⟩

theorem trim_eq_nil_iff : trim cs = [] ↔ ∀ c ∈ cs, isBlank c := by
  rw [← trimsTo_iff]
  constructor
  · intro h c hc
    obtain ⟨front, back, rfl, hfront, hback⟩ := h.ends
    exact (List.mem_append.mp hc).elim (hfront c) (hback c)
  · intro h
    exact ⟨⟨cs, [], by simp, h, List.forall_mem_nil _⟩, by simp, by simp⟩

theorem TrimsTo.refl (head : ∀ c, cs.head? = some c → isBlank c = false)
    (last : ∀ c, cs.getLast? = some c → isBlank c = false) : TrimsTo cs cs :=
  ⟨⟨[], [], by simp, List.forall_mem_nil _, List.forall_mem_nil _⟩, head, last⟩

theorem trim_trim (cs : List Char) : trim (trim cs) = trim cs :=
  TrimsTo.trim_eq (.refl (trimsTo_trim cs).head (trimsTo_trim cs).last)

end ContractAudit.Text
