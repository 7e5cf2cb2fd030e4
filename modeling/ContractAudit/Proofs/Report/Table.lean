import ContractAudit.Proofs.Report
import ContractAudit.Proofs.Text.Digit
import ContractAudit.Proofs.Text.Split
import ContractAudit.Report.Markdown

namespace ContractAudit

def Text.lines (s : String) : List String := (splitAt '\n' s.toList).map String.ofList

namespace Markdown

/-- The text with every `\|` read as a bar. -/
def unescape : List Char → List Char
  | '\\' :: '|' :: cs => '|' :: unescape cs
  | c :: cs => c :: unescape cs
  | [] => []

/-- The number of bars that do not stand right after a backslash, if `before` stands in front. -/
def openBars (before : Option Char) : List Char → Nat
  | [] => 0
  | c :: cs => (if c = '|' ∧ before ≠ some '\\' then 1 else 0) + openBars (some c) cs

def shownChar (c : Char) : Char := if c = '\n' then ' ' else c

/-- A text as it can stand in a cell: every bar has a backslash before it that was not there, a line
feed is a blank, and all else is as it was. -/
structure Escapes (plain shown : List Char) : Prop where
  unescape_eq : unescape shown = plain.map shownChar
  openBars_eq : ∀ before, openBars before shown = 0
  lineFeed_not_mem : '\n' ∉ shown

structure IsCell (details shown : List Char) : Prop where
  length_le : shown.length ≤ 240
  whole : details.length ≤ 120 → Escapes details shown
  cut : 120 < details.length →
    ∃ front, Escapes (details.take 117) front ∧ shown = front ++ ['.', '.', '.']

theorem unescape_cons {c : Char} {cs : List Char} (h : ∀ rest, c :: cs ≠ '\\' :: '|' :: rest) :
    unescape (c :: cs) = c :: unescape cs := by
  rw [unescape]
  rintro rest rfl rfl
  exact h rest rfl

theorem escapeCell_cons (c : Char) (cs : List Char) :
    escapeCell (c :: cs) =
      (if c = '|' then ['\\', '|'] else if c = '\n' then [' '] else [c]) ++ escapeCell cs :=
  rfl

theorem head?_escapeCell_ne (cs : List Char) : (escapeCell cs).head? ≠ some '|' := by
  cases cs with
  | nil => exact nofun
  | cons c cs =>
    rw [escapeCell_cons]
    split
    · simp
    · split <;> simp_all

/-- A backslash of the text itself stays apart from the bar after it, which has its own. -/
theorem unescape_escapeCell (cs : List Char) : unescape (escapeCell cs) = cs.map shownChar := by
  induction cs with
  | nil => rfl
  | cons c cs ih =>
    have hnext (d : Char) (rest : List Char) : d :: escapeCell cs ≠ '\\' :: '|' :: rest := by
      intro h
      have hhead := head?_escapeCell_ne cs
      rw [(List.cons.inj h).2] at hhead
      exact hhead rfl
    rw [escapeCell_cons, List.map_cons, ← ih]
    by_cases hbar : c = '|'
    · subst hbar
      rfl
    · by_cases hfeed : c = '\n'
      · subst hfeed
        exact unescape_cons (hnext ' ')
      · rw [if_neg hbar, if_neg hfeed, shownChar, if_neg hfeed]
        exact unescape_cons (hnext c)

theorem openBars_of_not_mem {cs : List Char} (h : '|' ∉ cs) (before : Option Char) :
    openBars before cs = 0 := by
  induction cs generalizing before with
  | nil => rfl
  | cons c cs ih =>
    obtain ⟨hc, hcs⟩ := not_or.mp (List.mem_cons.not.mp h)
    have hne : ¬ (c = '|' ∧ before ≠ some '\\') := fun hbar ↦ hc hbar.1.symm
    rw [openBars, if_neg hne, ih hcs]

theorem openBars_append (before : Option Char) (cs ds : List Char) :
    openBars before (cs ++ ds) =
      openBars before cs + openBars (cs.getLast?.or before) ds := by
  induction cs generalizing before with
  | nil => simp [openBars]
  | cons c cs ih =>
    rw [List.cons_append, openBars, openBars, ih, List.getLast?_cons, Nat.add_assoc]
    cases cs.getLast? <;> rfl

theorem openBars_escapeCell (cs : List Char) (before : Option Char) :
    openBars before (escapeCell cs) = 0 := by
  induction cs generalizing before with
  | nil => rfl
  | cons c cs ih =>
    rw [escapeCell_cons, openBars_append, ih, Nat.add_zero]
    split
    · simp [openBars]
    · rename_i hbar
      split <;> exact openBars_of_not_mem (by simp [Ne.symm hbar]) before

theorem lineFeed_not_mem_escapeCell (cs : List Char) : '\n' ∉ escapeCell cs := by
  intro h
  obtain ⟨c, -, hc⟩ := List.mem_flatMap.mp h
  split at hc
  · simp at hc
  · split at hc
    · simp at hc
    · rename_i hfeed
      exact hfeed (List.mem_singleton.mp hc).symm

theorem length_escapeCell_le (cs : List Char) : (escapeCell cs).length ≤ 2 * cs.length := by
  induction cs with
  | nil => exact Nat.le_refl 0
  | cons c cs ih =>
    have hone : (if c = '|' then ['\\', '|'] else if c = '\n' then [' '] else [c]).length ≤ 2 := by
      split
      · exact Nat.le_refl 2
      · split <;> exact Nat.le_succ 1
    rw [escapeCell_cons, List.length_append, List.length_cons]
    omega

theorem escapes_escapeCell (cs : List Char) : Escapes cs (escapeCell cs) :=
  ⟨unescape_escapeCell cs, openBars_escapeCell cs, lineFeed_not_mem_escapeCell cs⟩

theorem length_truncate_le {limit : Nat} (h : 3 ≤ limit) (cs : List Char) :
    (truncate limit cs).length ≤ limit := by
  rw [truncate]
  split
  · assumption
  · rw [List.length_append, List.length_take, List.length_cons, List.length_cons,
      List.length_singleton]
    omega

theorem isCell_cell (details : String) : IsCell details.toList (cell details).toList := by
  rw [cell, String.toList_ofList]
  refine ⟨?_, ?_, ?_⟩
  · have hescape := length_escapeCell_le (truncate 120 details.toList)
    have htruncate := length_truncate_le (by decide : 3 ≤ 120) details.toList
    omega
  · intro hshort
    rw [truncate, if_pos hshort]
    exact escapes_escapeCell details.toList
  · intro hlong
    refine ⟨_, escapes_escapeCell (details.toList.take 117), ?_⟩
    rw [truncate, if_neg (Nat.not_le.mpr hlong), escapeCell, List.flatMap_append]
    rfl

/-- A line of a table shows a finding as number `index`. -/
structure IsRow (index : Nat) (f : Finding) (line : String) : Prop where
  cells : ∃ shown, IsCell f.details.toList shown ∧
    line = "| " ++ toString index ++ " | " ++ toString f.line ++ " | " ++ f.function.getD "-" ++
      " | " ++ f.detector.name ++ " | " ++ String.ofList shown ++ " |"
  lineFeed_not_mem : '\n' ∉ line.toList
  openBars_eq : openBars none line.toList = 6

structure FitsCell (field : List Char) : Prop where
  openBars_eq : ∀ before, openBars before field = 0
  lineFeed_not_mem : '\n' ∉ field

theorem FitsCell.of_not_mem {field : List Char} (hbar : '|' ∉ field) (hfeed : '\n' ∉ field) :
    FitsCell field :=
  ⟨openBars_of_not_mem hbar, hfeed⟩

def bordered (field : List Char) : List Char := ' ' :: (field ++ [' ', '|'])

theorem openBars_flatMap_bordered {fields : List (List Char)} (h : ∀ field ∈ fields, FitsCell field)
    (before : Option Char) : openBars before (fields.flatMap bordered) = fields.length := by
  induction fields generalizing before with
  | nil => rfl
  | cons field fields ih =>
    obtain ⟨hfield, hfields⟩ := List.forall_mem_cons.mp h
    have hone : openBars before (bordered field) = 1 := by
      rw [bordered, openBars, openBars_append, hfield.openBars_eq]
      simp [openBars]
    rw [List.flatMap_cons, openBars_append, hone, ih hfields, List.length_cons, Nat.add_comm]

theorem lineFeed_not_mem_flatMap_bordered {fields : List (List Char)}
    (h : ∀ field ∈ fields, FitsCell field) : '\n' ∉ fields.flatMap bordered := by
  intro hmem
  obtain ⟨field, hfield, hfeed⟩ := List.mem_flatMap.mp hmem
  have hnone := (h field hfield).lineFeed_not_mem
  simp [bordered, hnone] at hfeed

theorem fitsCell_toDigits (n : Nat) : FitsCell (Nat.toDigits 10 n) := by
  have hdigit {c : Char} (h : c ∈ Nat.toDigits 10 n) : c.isDigit :=
    Nat.isDigit_of_mem_toDigits (by decide) (by decide) h
  exact .of_not_mem (fun h ↦ absurd (hdigit h) (by decide)) fun h ↦ absurd (hdigit h) (by decide)

theorem fitsCell_name (id : DetectorId) : FitsCell id.name.toList := by
  cases id <;> exact .of_not_mem (by decide) (by decide)

/-- The name of a function fits between two bars. -/
def NameFits (f : Finding) : Prop :=
  ∀ name, f.function = some name → '|' ∉ name.toList ∧ '\n' ∉ name.toList

theorem NameFits.fitsCell {f : Finding} (h : NameFits f) :
    FitsCell (f.function.getD "-").toList := by
  cases hf : f.function with
  | none => exact .of_not_mem (by decide) (by decide)
  | some name => exact .of_not_mem (h name hf).1 (h name hf).2

def fields (index : Nat) (f : Finding) : List (List Char) :=
  [Nat.toDigits 10 index, Nat.toDigits 10 f.line, (f.function.getD "-").toList,
    f.detector.name.toList, (cell f.details).toList]

theorem row_eq (index : Nat) (f : Finding) :
    row index f = "| " ++ toString index ++ " | " ++ toString f.line ++ " | " ++
      f.function.getD "-" ++ " | " ++ f.detector.name ++ " | " ++ cell f.details ++ " |" :=
  rfl

theorem toList_row (index : Nat) (f : Finding) :
    (row index f).toList = '|' :: (fields index f).flatMap bordered := by
  rw [row_eq]
  simp [fields, bordered]

theorem fitsCell_of_mem_fields {f : Finding} (h : NameFits f) (index : Nat) :
    ∀ field ∈ fields index f, FitsCell field := by
  have hcell : FitsCell (cell f.details).toList := by
    rw [cell, String.toList_ofList]
    exact ⟨openBars_escapeCell _, lineFeed_not_mem_escapeCell _⟩
  simp only [fields, List.forall_mem_cons, List.not_mem_nil, false_imp_iff, implies_true, and_true]
  exact ⟨fitsCell_toDigits _, fitsCell_toDigits _, h.fitsCell, fitsCell_name _, hcell⟩

theorem isRow_row {f : Finding} (h : NameFits f) (index : Nat) : IsRow index f (row index f) where
  cells := by
    refine ⟨(cell f.details).toList, isCell_cell f.details, ?_⟩
    rw [String.ofList_toList, row_eq]
  lineFeed_not_mem := by
    have hfields := lineFeed_not_mem_flatMap_bordered (fitsCell_of_mem_fields h index)
    simp [toList_row, hfields]
  openBars_eq := by
    rw [toList_row, openBars, openBars_flatMap_bordered (fitsCell_of_mem_fields h index)]
    rfl

theorem rows_eq_map (index : Nat) (fs : List Finding) :
    rows index fs = (fs.zipIdx index).map fun numbered ↦ row numbered.2 numbered.1 := by
  induction fs generalizing index with
  | nil => rfl
  | cons f fs ih => rw [rows, ih, List.zipIdx_cons, List.map_cons]

theorem forall₂_isRow_rows {fs : List Finding} (h : ∀ f ∈ fs, NameFits f) (index : Nat) :
    List.Forall₂ (fun numbered line ↦ IsRow numbered.2 numbered.1 line) (fs.zipIdx index)
      (rows index fs) := by
  rw [rows_eq_map, List.forall₂_map_right_iff, List.forall₂_same]
  intro numbered hmem
  exact isRow_row (h _ (List.fst_mem_of_mem_zipIdx hmem)) _

def heading (s : Severity) : String := "## " ++ s.title ++ " Severity Issues"

def headings : List String := Severity.all.map heading

/-- A line in which no line ends and which begins no section. -/
structure IsPlain (line : String) : Prop where
  lineFeed_not_mem : '\n' ∉ line.toList
  not_heading : line ∉ headings

instance (line : String) : Decidable (IsPlain line) :=
  decidable_of_iff ('\n' ∉ line.toList ∧ line ∉ headings)
    ⟨fun ⟨hfeed, hheading⟩ ↦ ⟨hfeed, hheading⟩, fun ⟨hfeed, hheading⟩ ↦ ⟨hfeed, hheading⟩⟩

theorem IsPlain.of_head {line : String} {c : Char} (hhead : line.toList.head? = some c)
    (hc : c ≠ '#') (hfeed : '\n' ∉ line.toList) : IsPlain line := by
  refine ⟨hfeed, fun hmem ↦ hc ?_⟩
  obtain ⟨s, -, rfl⟩ := List.mem_map.mp hmem
  cases s <;> exact (Option.some.inj hhead).symm

theorem lineFeed_not_mem_renderPlain (t : Timestamp) : '\n' ∉ t.renderPlain.toList := by
  have hpad (width n : Nat) : '\n' ∉ (Text.padZeros width n).toList := fun h ↦
    absurd (Text.isDigit_of_mem_padZeros h) (by decide)
  have hyear : '\n' ∉ (Timestamp.renderYear t.year).toList := by
    rw [Timestamp.renderYear]
    split
    · exact hpad _ _
    · split <;> simp [hpad]
  simp [Timestamp.renderPlain, Timestamp.renderDate, Timestamp.renderTime, hpad, hyear]

theorem isPlain_severityTable (counts : SeverityCounts) :
    ∀ line ∈ severityTable counts, IsPlain line := by
  have hrow (s : Severity) : IsPlain
      ("| " ++ s.emoji ++ " " ++ s.title ++ " | " ++ toString (counts.get s) ++ " |") := by
    refine .of_head (c := '|') (by simp) (by decide) ?_
    cases s <;> simp [Severity.emoji, Severity.title, (fitsCell_toDigits _).lineFeed_not_mem]
  simp only [severityTable, List.forall_mem_append, List.forall_mem_map, List.forall_mem_cons,
    List.not_mem_nil, false_imp_iff, implies_true, and_true]
  exact ⟨⟨⟨by decide, by decide⟩, fun s _ ↦ hrow s⟩, by decide⟩

theorem isPlain_detectorTable (counts : DetectorCounts) :
    ∀ line ∈ detectorTable counts, IsPlain line := by
  have hrow (id : DetectorId) (n : Nat) :
      IsPlain ("| " ++ id.name ++ " | " ++ toString n ++ " |") := by
    refine .of_head (c := '|') (by simp) (by decide) ?_
    simp [(fitsCell_name id).lineFeed_not_mem, (fitsCell_toDigits n).lineFeed_not_mem]
  rw [detectorTable]
  split
  · exact fun line hline ↦ absurd hline List.not_mem_nil
  · simp only [List.forall_mem_append, List.forall_mem_map, List.forall_mem_cons,
      List.not_mem_nil, false_imp_iff, implies_true, and_true]
    exact ⟨⟨⟨by decide, by decide⟩, fun entry _ ↦ hrow entry.1 entry.2⟩, by decide⟩

theorem isPlain_preamble {r : Report} (hpath : '\n' ∉ r.contractPath.toList) :
    ∀ line ∈ preamble r, IsPlain line := by
  have hcontract : IsPlain ("**Contract**: `" ++ r.contractPath ++ "`") :=
    .of_head (c := '*') (by simp) (by decide) (by simp [hpath])
  have hgenerated : IsPlain ("**Generated**: " ++ r.timestamp.renderPlain) :=
    .of_head (c := '*') (by simp) (by decide) (by simp [lineFeed_not_mem_renderPlain])
  have htotal : IsPlain ("**Total Issues**: " ++ toString r.issueCount) :=
    .of_head (c := '*') (by simp) (by decide)
      (by simp [(fitsCell_toDigits r.issueCount).lineFeed_not_mem])
  simp only [preamble, List.forall_mem_append, List.forall_mem_cons, List.not_mem_nil,
    false_imp_iff, implies_true, and_true]
  exact ⟨⟨⟨by decide, by decide, hcontract, hgenerated, htotal, by decide, by decide, by decide⟩,
    isPlain_severityTable _⟩, isPlain_detectorTable _⟩

theorem isPlain_rows {fs : List Finding} (h : ∀ f ∈ fs, NameFits f) (index : Nat) :
    ∀ line ∈ rows index fs, IsPlain line := by
  rw [rows_eq_map]
  simp only [List.forall_mem_map]
  intro numbered hmem
  have hrow := isRow_row (h _ (List.fst_mem_of_mem_zipIdx hmem)) numbered.2
  exact .of_head (c := '|') (by rw [toList_row]; rfl) (by decide) hrow.lineFeed_not_mem

def sectionLines (s : Severity) (table : List String) : List String :=
  heading s :: "" :: (tableHead ++ (table ++ [""]))

theorem findingsSection_eq (s : Severity) {fs : List Finding} (h : fs ≠ []) :
    findingsSection s fs = sectionLines s (rows 1 fs) := by
  obtain ⟨f, fs, rfl⟩ := List.exists_cons_of_ne_nil h
  rw [findingsSection]
  · rfl
  · exact List.cons_ne_nil f fs

theorem flatMap_findingsSection (bucket : Severity → List Finding) (severities : List Severity) :
    severities.flatMap (fun s ↦ findingsSection s (bucket s)) =
      (severities.filter (bucket · ≠ [])).flatMap fun s ↦ sectionLines s (rows 1 (bucket s)) := by
  induction severities with
  | nil => rfl
  | cons s severities ih =>
    rw [List.flatMap_cons, ih, List.filter_cons]
    by_cases hs : bucket s = []
    · rw [hs, if_neg (by simp)]
      rfl
    · rw [findingsSection_eq s hs, if_pos (by simpa using hs), List.flatMap_cons]

theorem lines_build (path : String) (fs : List Finding) (timestamp : Timestamp) :
    lines (Report.build path fs timestamp) =
      preamble (Report.build path fs timestamp) ++
        Severity.all.flatMap fun s ↦ findingsSection s (fs.filter (·.severity = s)) := by
  have hsplit : lines (Report.build path fs timestamp) =
      preamble (Report.build path fs timestamp) ++ Severity.all.flatMap (fun s ↦
        findingsSection s ((Buckets.ofFindings fs).get s)) ++ [] :=
    rfl
  simp only [hsplit, List.append_nil, Buckets.get_ofFindings]

theorem filter_headings_of_isPlain {ls : List String} (h : ∀ line ∈ ls, IsPlain line) :
    ls.filter headings.contains = [] :=
  List.filter_eq_nil_iff.mpr fun line hline hheading ↦
    (h line hline).not_heading (List.contains_iff_mem.mp hheading)

theorem filter_headings_sectionLines (s : Severity) {table : List String}
    (h : ∀ line ∈ table, IsPlain line) :
    (sectionLines s table).filter headings.contains = [heading s] := by
  have hheading : headings.contains (heading s) := by cases s <;> decide
  have hrest : ∀ line ∈ "" :: (tableHead ++ (table ++ [""])), IsPlain line := by
    simp only [tableHead, List.forall_mem_append, List.forall_mem_cons, List.not_mem_nil,
      false_imp_iff, implies_true, and_true]
    exact ⟨by decide, ⟨by decide, by decide⟩, h, by decide⟩
  rw [sectionLines, List.filter_cons_of_pos hheading, filter_headings_of_isPlain hrest]

theorem lineFeed_not_mem_sectionLines (s : Severity) {table : List String}
    (h : ∀ line ∈ table, IsPlain line) :
    ∀ line ∈ sectionLines s table, '\n' ∉ line.toList := by
  simp only [sectionLines, tableHead, List.forall_mem_append, List.forall_mem_cons,
    List.not_mem_nil, false_imp_iff, implies_true, and_true]
  refine ⟨by cases s <;> decide, by decide, ⟨by decide, by decide⟩, ?_, by decide⟩
  exact fun line hline ↦ (h line hline).lineFeed_not_mem

theorem lines_unlines {ls : List String} (h : ∀ line ∈ ls, '\n' ∉ line.toList) :
    Text.lines (unlines ls) = ls ++ [""] := by
  induction ls with
  | nil => rfl
  | cons line ls ih =>
    obtain ⟨hline, hls⟩ := List.forall_mem_cons.mp h
    have hcons : (unlines (line :: ls)).toList = line.toList ++ '\n' :: (unlines ls).toList := by
      simp [unlines]
    rw [Text.lines, hcons, Text.splitAt_append_sep, Text.splitAt_of_not_mem hline, List.map_append,
      ← Text.lines, ih hls]
    simp

/-- A document has a section for each severity with findings, the most urgent first, and for no
other one. The table of a section has one line for each of its findings, in their order. -/
theorem lines_render_build (path : String) (fs : List Finding) (timestamp : Timestamp)
    (hpath : '\n' ∉ path.toList) (hnames : ∀ f ∈ fs, NameFits f) :
    let document := Text.lines (render (Report.build path fs timestamp))
    let bucket (s : Severity) := fs.filter (·.severity = s)
    let shown := Severity.all.filter (bucket · ≠ [])
    document.filter headings.contains = shown.map heading ∧
      ∃ (before : List String) (table : Severity → List String),
        document = before ++ shown.flatMap (fun s ↦ sectionLines s (table s)) ++ [""] ∧
          ∀ s, List.Forall₂ (fun numbered line ↦ IsRow numbered.2 numbered.1 line)
            ((bucket s).zipIdx 1) (table s) := by
  intro document bucket shown
  have hbucket (s : Severity) : ∀ f ∈ bucket s, NameFits f := fun f hf ↦
    hnames f (List.mem_of_mem_filter hf)
  have htable (s : Severity) : ∀ line ∈ rows 1 (bucket s), IsPlain line :=
    isPlain_rows (hbucket s) 1
  have hpreamble : ∀ line ∈ preamble (Report.build path fs timestamp), IsPlain line :=
    isPlain_preamble hpath
  have hlines : lines (Report.build path fs timestamp) =
      preamble (Report.build path fs timestamp) ++
        shown.flatMap fun s ↦ sectionLines s (rows 1 (bucket s)) := by
    rw [lines_build, flatMap_findingsSection bucket Severity.all]
  have hdocument : document = preamble (Report.build path fs timestamp) ++
      shown.flatMap (fun s ↦ sectionLines s (rows 1 (bucket s))) ++ [""] := by
    simp only [document, render, hlines]
    refine lines_unlines ?_
    simp only [List.forall_mem_append, List.forall_mem_flatMap]
    exact ⟨fun line hline ↦ (hpreamble line hline).lineFeed_not_mem,
      fun s _ ↦ lineFeed_not_mem_sectionLines s (htable s)⟩
  refine ⟨?_, _, _, hdocument, fun s ↦ forall₂_isRow_rows (hbucket s) 1⟩
  rw [hdocument, List.filter_append, List.filter_append, filter_headings_of_isPlain hpreamble,
    List.filter_flatMap, List.nil_append]
  simp only [filter_headings_sectionLines _ (htable _)]
  rw [← List.map_eq_flatMap]
  exact List.append_nil _

def awkward : Finding where
  detector := .reentrancy
  severity := .high
  description := ""
  details := "a\\|b|\n## Low Severity Issues"
  line := 4
  function := some "f\\"

theorem lines_render_build_awkward :
    '\n' ∉ "T.sol".toList ∧ (∀ f ∈ [awkward], NameFits f) ∧
      (Text.lines (render (Report.build "T.sol" [awkward] .epoch))).filter headings.contains =
        ["## High Severity Issues"] ∧
      row 1 awkward = "| 1 | 4 | f\\ | reentrancy | a\\\\|b\\| ## Low Severity Issues |" := by
  have hpath : '\n' ∉ "T.sol".toList := by decide
  have hnames : ∀ f ∈ [awkward], NameFits f := by
    rw [List.forall_mem_singleton]
    rintro name ⟨⟩
    decide
  obtain ⟨hheadings, -⟩ := lines_render_build "T.sol" [awkward] .epoch hpath hnames
  exact ⟨hpath, hnames, hheadings, by decide⟩

end Markdown

end ContractAudit
