import Mathlib
import ContractAudit.Error
import ContractAudit.Proofs.Report.Json
import ContractAudit.Proofs.Results
import ContractAudit.Proofs.Text.Split

namespace ContractAudit.DetectorId

def Names (piece : List Char) (id : DetectorId) : Prop := Text.TrimsTo piece id.name.toList

/-- A piece that a list may hold: a blank one, or a name. -/
def Listable (piece : List Char) : Prop := (∀ c ∈ piece, Text.isBlank c) ∨ ∃ id, Names piece id

def shownPieces (list : String) : List (List Char) :=
  (Text.splitAt ',' list.toList).filter fun piece ↦ !piece.all Text.isBlank

theorem mem_shownPieces {list : String} {piece : List Char} :
    piece ∈ shownPieces list ↔
      piece ∈ Text.splitAt ',' list.toList ∧ ¬ ∀ c ∈ piece, Text.isBlank c := by
  simp [shownPieces]

def readPiece (piece : List Char) : Except ConfigError DetectorId :=
  (parse (String.ofList piece)).mapError .unknownDetector

theorem ofName?_eq_some_iff {name : String} {id : DetectorId} :
    ofName? name = some id ↔ name = id.name := by
  constructor
  · intro h
    unfold ofName? at h
    split at h <;> first | (cases h; rfl) | cases h
  · rintro rfl
    exact id.ofName?_name

theorem names_iff {piece : List Char} {id : DetectorId} :
    Names piece id ↔ ofName? (String.ofList (Text.trim piece)) = some id := by
  rw [ofName?_eq_some_iff, Names, Text.trimsTo_iff, ← String.toList_inj, String.toList_ofList]

theorem readPiece_eq_ok_iff {piece : List Char} {id : DetectorId} :
    readPiece piece = .ok id ↔ Names piece id := by
  rw [names_iff, readPiece, mapError_eq_ok_iff, parse, Text.trimmed, String.toList_ofList]
  cases ofName? (String.ofList (Text.trim piece)) <;> simp

theorem readPiece_of_not_names {piece : List Char} (h : ¬ ∃ id, Names piece id) :
    readPiece piece = .error (.unknownDetector (String.ofList (Text.trim piece))) := by
  have hnone : ofName? (String.ofList (Text.trim piece)) = none :=
    Option.eq_none_iff_forall_ne_some.mpr fun id hid ↦ h ⟨id, names_iff.mpr hid⟩
  rw [readPiece, parse, Text.trimmed, String.toList_ofList, hnone]
  rfl

theorem filter_map_trim (list : String) :
    ((Text.splitAt ',' list.toList).map Text.trim).filter (!·.isEmpty) =
      (shownPieces list).map Text.trim := by
  have hempty (piece : List Char) : (Text.trim piece).isEmpty = piece.all Text.isBlank := by
    rw [Bool.eq_iff_iff, List.isEmpty_iff, Text.trim_eq_nil_iff, List.all_eq_true]
  have hshown : (!List.isEmpty ·) ∘ Text.trim = fun piece ↦ !piece.all Text.isBlank :=
    funext fun piece ↦ congrArg not (hempty piece)
  rw [List.filter_map, hshown, shownPieces]

theorem parseList_eq_mapM (list : String) :
    parseList list = (shownPieces list).mapM readPiece := by
  rw [parseList, filter_map_trim, List.mapM_map]
  refine congrArg (List.mapM · (shownPieces list)) (funext fun piece ↦ ?_)
  -- A name is trimmed once more when it is read.
  have hparse : parse (String.ofList (Text.trim piece)) = parse (String.ofList piece) := by
    simp only [parse, Text.trimmed, String.toList_ofList, Text.trim_trim]
  rw [Function.comp_apply, hparse, readPiece]
  cases parse (String.ofList piece) <;> rfl

theorem parseList_eq_ok_iff_names {list : String} {ids : List DetectorId} :
    parseList list = .ok ids ↔ List.Forall₂ Names (shownPieces list) ids := by
  rw [parseList_eq_mapM, mapM_eq_ok_iff]
  simp only [readPiece_eq_ok_iff]

theorem parseList_eq_error_of_first {list : String} {before after : List (List Char)}
    {bad : List Char} (hpieces : Text.splitAt ',' list.toList = before ++ bad :: after)
    (hbefore : ∀ piece ∈ before, Listable piece) (hbad : ¬ Listable bad) :
    parseList list = .error (.unknownDetector (String.ofList (Text.trim bad))) := by
  obtain ⟨hshown, hunknown⟩ := not_or.mp hbad
  have hsplit : shownPieces list = before.filter (fun piece ↦ !piece.all Text.isBlank) ++
      bad :: after.filter fun piece ↦ !piece.all Text.isBlank := by
    rw [shownPieces, hpieces, List.filter_append, List.filter_cons_of_pos (by simpa using hshown)]
  rw [parseList_eq_mapM, hsplit]
  -- The blank pieces before the bad one are left out, and the others are read.
  refine mapM_eq_error_of_first (fun piece hp ↦ ?_) (readPiece_of_not_names hunknown)
  obtain ⟨hp, hblank⟩ := List.mem_filter.mp hp
  rcases hbefore piece hp with h | ⟨id, hid⟩
  · exact absurd (List.all_eq_true.mpr h) (by simpa using hblank)
  · exact ⟨id, readPiece_eq_ok_iff.mpr hid⟩

theorem exists_parseList_eq_ok_iff {list : String} :
    (∃ ids, parseList list = .ok ids) ↔ ∀ piece ∈ Text.splitAt ',' list.toList, Listable piece := by
  constructor
  · rintro ⟨ids, hids⟩ piece hp
    by_cases hblank : ∀ c ∈ piece, Text.isBlank c
    · exact .inl hblank
    · obtain ⟨id, -, hid⟩ := exists_right_of_forall₂ (parseList_eq_ok_iff_names.mp hids)
        (mem_shownPieces.mpr ⟨hp, hblank⟩)
      exact .inr ⟨id, hid⟩
  · intro hall
    cases hread : parseList list with
    | ok ids => exact ⟨ids, rfl⟩
    | error e =>
      rw [parseList_eq_mapM] at hread
      obtain ⟨piece, hp, herror⟩ := exists_of_mapM_eq_error hread
      obtain ⟨hp, hshown⟩ := mem_shownPieces.mp hp
      obtain ⟨id, hid⟩ := (hall piece hp).resolve_left hshown
      rw [readPiece_eq_ok_iff.mpr hid] at herror
      cases herror

theorem parseList_eq_error_iff {list : String} {e : ConfigError} :
    parseList list = .error e ↔
      ∃ before bad after shown, Text.splitAt ',' list.toList = before ++ bad :: after ∧
        (∀ piece ∈ before, Listable piece) ∧ ¬ Listable bad ∧ Text.TrimsTo bad shown ∧
        e = .unknownDetector (String.ofList shown) := by
  constructor
  · intro herror
    have hsome : ∃ piece ∈ Text.splitAt ',' list.toList, ¬ Listable piece := by
      by_contra hnone
      obtain ⟨ids, hids⟩ := exists_parseList_eq_ok_iff.mpr fun piece hp ↦
        by_contra fun h ↦ hnone ⟨piece, hp, h⟩
      rw [hids] at herror
      cases herror
    obtain ⟨before, bad, after, hpieces, hbefore, hbad⟩ := exists_first hsome
    have hbefore (piece : List Char) (hp : piece ∈ before) : Listable piece :=
      not_not.mp (hbefore piece hp)
    refine ⟨before, bad, after, _, hpieces, hbefore, hbad, Text.trimsTo_trim bad, ?_⟩
    exact Except.error.inj (herror.symm.trans (parseList_eq_error_of_first hpieces hbefore hbad))
  · rintro ⟨before, bad, after, shown, hpieces, hbefore, hbad, hshown, rfl⟩
    rw [parseList_eq_error_of_first hpieces hbefore hbad, hshown.trim_eq]

/-- A piece as it is written: blanks alone, or a name with blanks around it. -/
inductive WrittenPiece where
  | blank (blanks : Text.Blanks)
  | name (before : Text.Blanks) (id : DetectorId) (after : Text.Blanks)

namespace WrittenPiece

def text : WrittenPiece → List Char
  | .blank blanks => blanks.chars
  | .name before id after => before.chars ++ (id.name.toList ++ after.chars)

def id? : WrittenPiece → Option DetectorId
  | .blank _ => none
  | .name _ id _ => some id

end WrittenPiece

def writtenList (pieces : List WrittenPiece) : String :=
  String.ofList ([','].intercalate (pieces.map WrittenPiece.text))

theorem isBlank_of_mem_name {id : DetectorId} {c : Char} (h : c ∈ id.name.toList) :
    Text.isBlank c = false := by
  have hnone : id.name.toList.any Text.isBlank = false := by cases id <;> rfl
  exact Bool.eq_false_iff.mpr (List.any_eq_false.mp hnone c h)

namespace WrittenPiece

theorem comma_not_mem_text (piece : WrittenPiece) : ',' ∉ piece.text := by
  have hblanks (blanks : Text.Blanks) : ',' ∉ blanks.chars := blanks.not_mem (by decide)
  cases piece with
  | blank blanks => exact hblanks blanks
  | name before id after =>
    have hname : ',' ∉ id.name.toList := by cases id <;> decide
    simp [text, hblanks, hname]

theorem names_text (before : Text.Blanks) (id : DetectorId) (after : Text.Blanks) :
    Names (name before id after).text id where
  ends := ⟨before.chars, after.chars, rfl, before.isBlank, after.isBlank⟩
  head := fun _ hc ↦ isBlank_of_mem_name (List.mem_of_mem_head? hc)
  last := fun _ hc ↦ isBlank_of_mem_name (List.mem_of_mem_getLast? hc)

theorem all_isBlank_text (piece : WrittenPiece) :
    piece.text.all Text.isBlank = piece.id?.isNone := by
  cases piece with
  | blank blanks => exact List.all_eq_true.mpr blanks.isBlank
  | name before id after =>
    have hname : id.name.toList ≠ [] := by cases id <;> decide
    refine Bool.eq_false_iff.mpr fun hall ↦ hname ?_
    rw [← (names_text before id after).trim_eq, Text.trim_eq_nil_iff]
    exact List.all_eq_true.mp hall

end WrittenPiece

theorem splitAt_writtenList {pieces : List WrittenPiece} (h : pieces ≠ []) :
    Text.splitAt ',' (writtenList pieces).toList = pieces.map WrittenPiece.text := by
  rw [writtenList, String.toList_ofList, Text.splitAt_eq_splitOn]
  refine List.splitOn_intercalate ',' ?_ (by simpa using h)
  intro text htext
  obtain ⟨piece, -, rfl⟩ := List.mem_map.mp htext
  exact piece.comma_not_mem_text

theorem parseList_writtenList (pieces : List WrittenPiece) :
    parseList (writtenList pieces) = .ok (pieces.filterMap WrittenPiece.id?) := by
  by_cases hnil : pieces = []
  · subst hnil
    rfl
  · have hshown : (fun piece ↦ !List.all piece Text.isBlank) ∘ WrittenPiece.text =
        fun piece ↦ decide (piece.id?.isSome) := by
      funext piece
      rw [Function.comp_apply, WrittenPiece.all_isBlank_text]
      cases piece.id? <;> rfl
    rw [parseList_eq_ok_iff_names, shownPieces, splitAt_writtenList hnil, List.filter_map, hshown,
      List.forall₂_map_left_iff]
    refine forall₂_filter_filterMap (fun piece _ hsome ↦ ?_) fun piece _ hnone ↦ ?_
    · cases piece with
      | blank blanks => cases hsome
      | name before id after => exact ⟨id, rfl, WrittenPiece.names_text before id after⟩
    · exact Option.not_isSome_iff_eq_none.mp hnone

/-- A list is read if each piece between its commas is blank or a name, and gives the detectors that
are named, in their order. Else the error names the first piece of another kind, without the blanks
around it. So a list is read as it was written, in any layout. -/
theorem parseList_pieces (list : String) :
    let pieces := Text.splitAt ',' list.toList
    ([','].intercalate pieces = list.toList ∧ ∀ piece ∈ pieces, ',' ∉ piece) ∧
    ((∃ ids : List DetectorId, parseList list = Except.ok ids) ↔
      ∀ piece ∈ pieces, Listable piece) ∧
    (∀ ids : List DetectorId, parseList list = Except.ok ids ↔
      List.Forall₂ Names (pieces.filter fun piece ↦ !piece.all Text.isBlank) ids) ∧
    (∀ e : ConfigError, parseList list = Except.error e ↔
      ∃ (before : List (List Char)) (bad : List Char) (after : List (List Char))
        (shown : List Char), pieces = before ++ bad :: after ∧
        (∀ piece ∈ before, Listable piece) ∧ ¬ Listable bad ∧ Text.TrimsTo bad shown ∧
        e = ConfigError.unknownDetector (String.ofList shown)) ∧
    (∀ name : String, (AuditError.config (.unknownDetector name)).message =
      "invalid configuration: " ++ ("unknown detector '" ++ name ++ "'")) ∧
    ∀ written : List WrittenPiece,
      parseList (writtenList written) = Except.ok (written.filterMap WrittenPiece.id?) := by
  refine ⟨⟨?_, fun piece ↦ Text.sep_not_mem_of_mem_splitAt⟩, exists_parseList_eq_ok_iff,
    fun ids ↦ parseList_eq_ok_iff_names, fun e ↦ parseList_eq_error_iff, fun name ↦ rfl,
    parseList_writtenList⟩
  rw [Text.splitAt_eq_splitOn]
  exact List.intercalate_splitOn ','

example : parseList " reentrancy, bo gus ,Reentrancy" = .error (.unknownDetector "bo gus") := by
  rfl

end ContractAudit.DetectorId
