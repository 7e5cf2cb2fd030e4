import Mathlib
import ContractAudit.Proofs.Files.Tree
import ContractAudit.Proofs.Text.Bytes

open ContractAudit.Path ContractAudit.Text

namespace ContractAudit

namespace Entry

/-- The names lead from one entry to another. -/
inductive Reaches : Entry → List String → Entry → Prop
  | refl (e : Entry) : Reaches e [] e
  | step {entries : List (String × Entry)} {entry : String × Entry} {names : List String}
      {e : Entry} (hentry : entry ∈ entries) (h : Reaches entry.2 names e) :
      Reaches (.directory entries) (entry.1 :: names) e

theorem Reaches.isName {e e' : Entry} {way : List String} (h : Reaches e way e')
    (hwf : e.WellFormed) : ∀ name ∈ way, IsName name := by
  induction h with
  | refl e => exact nofun
  | step hentry h ih =>
    cases hwf with
    | directory named distinct below =>
      exact List.forall_mem_cons.mpr ⟨named _ hentry, ih (below _ hentry)⟩

def byName (entries : List (String × Entry)) : List (String × Entry) :=
  entries.mergeSort fun a b ↦ a.1 ≤ b.1

theorem mem_byName {entries : List (String × Entry)} {entry : String × Entry} :
    entry ∈ byName entries ↔ entry ∈ entries :=
  List.mem_mergeSort

theorem pairwise_byName {entries : List (String × Entry)} (h : (entries.map Prod.fst).Nodup) :
    (byName entries).Pairwise fun a b ↦ bytes a.1 < bytes b.1 := by
  have hsorted : (byName entries).Pairwise fun a b ↦ a.1 ≤ b.1 := by
    have hle := @List.pairwise_mergeSort _ (fun a b : String × Entry ↦ decide (a.1 ≤ b.1))
      (fun a b c hab hbc ↦ decide_eq_true
        (String.le_trans (of_decide_eq_true hab) (of_decide_eq_true hbc)))
      (fun a b ↦ by simpa using String.le_total a.1 b.1) entries
    exact hle.imp of_decide_eq_true
  have hdistinct : ((byName entries).map Prod.fst).Nodup :=
    ((List.mergeSort_perm entries _).map Prod.fst).nodup_iff.mpr h
  refine hsorted.imp₂ (fun a b hle hne ↦ ?_) (List.pairwise_map.mp hdistinct)
  rw [bytes_lt_iff]
  exact String.not_le.mp fun hge ↦ hne (String.le_antisymm hle hge)

theorem inOrder_map {ε α : Type} (f : String × Entry → Except ε (List α))
    (entries : List (String × Entry)) :
    inOrder (entries.map fun entry ↦ (entry.1, f entry)) =
      ((byName entries).mapM f).map List.flatten := by
  have hsort : (entries.map fun entry ↦ (entry.1, f entry)).mergeSort (fun a b ↦ a.1 ≤ b.1) =
      (byName entries).map fun entry ↦ (entry.1, f entry) := by
    symm
    apply List.map_mergeSort
    intro a _ b _
    rfl
  rw [inOrder, hsort, List.mapM_map]
  rfl

theorem inOrder_solidityFilesBelow (path : String) (entries : List (String × Entry)) :
    inOrder (solidityFilesBelow path entries) =
      ((byName entries).mapM fun entry ↦
        solidityFilesAt (join path entry.1) entry.2).map List.flatten := by
  rw [solidityFilesBelow_eq_map, inOrder_map]

theorem inOrder_solidityFilesBelow_eq_ok_iff {path : String} {entries : List (String × Entry)}
    {files : List String} :
    inOrder (solidityFilesBelow path entries) = .ok files ↔ ∃ lists,
      List.Forall₂ (fun entry list ↦ solidityFilesAt (join path entry.1) entry.2 = .ok list)
        (byName entries) lists ∧ lists.flatten = files := by
  rw [inOrder_solidityFilesBelow, map_eq_ok_iff]
  simp only [mapM_eq_ok_iff]

/-- The names lead to a file that is named `*.sol`, by a path that is not too long. -/
structure Listed (path : String) (e : Entry) (way : List String) : Prop where
  file : ∃ content : ByteArray, Reaches e way (.file content)
  extension : extension? (below path way) = some "sol"
  short : ¬ isTooLong (below path way)

/-- The order of two ways, name by name. Names are compared by their bytes. -/
def Precedes : List String → List String → Prop := List.Lex fun a b ↦ bytes a < bytes b

theorem listed_directory_iff {path : String} {entries : List (String × Entry)}
    {way : List String} :
    Listed path (.directory entries) way ↔ ∃ entry ∈ entries, ∃ names, way = entry.1 :: names ∧
      Listed (join path entry.1) entry.2 names := by
  constructor
  · rintro ⟨⟨content, hfile⟩, hext, hshort⟩
    cases hfile with
    | step hentry hfile => exact ⟨_, hentry, _, rfl, ⟨content, hfile⟩, hext, hshort⟩
  · rintro ⟨entry, hentry, names, rfl, ⟨content, hfile⟩, hext, hshort⟩
    exact ⟨⟨content, .step hentry hfile⟩, hext, hshort⟩

/-- The files below a path are those to which the ways lead, in the order of the ways. -/
structure ListsWays (path : String) (e : Entry) (files : List String)
    (ways : List (List String)) : Prop where
  files_eq : files = ways.map (below path)
  ordered : ways.Pairwise Precedes
  mem_iff : ∀ way, way ∈ ways ↔ Listed path e way

theorem exists_ways_of_entries {entries : List (String × Entry)}
    (distinct : (entries.map Prod.fst).Nodup) {path : String}
    (h : ∀ entry ∈ entries, ∃ files ways,
      solidityFilesAt (join path entry.1) entry.2 = .ok files ∧
        ListsWays (join path entry.1) entry.2 files ways) :
    ∃ files ways, inOrder (solidityFilesBelow path entries) = .ok files ∧
      ListsWays path (.directory entries) files ways := by
  have hways : ∀ entry ∈ byName entries, ∃ files ways,
      solidityFilesAt (join path entry.1) entry.2 = .ok files ∧
        ListsWays (join path entry.1) entry.2 files ways :=
    fun entry hentry ↦ h entry (mem_byName.mp hentry)
  choose! filesOf waysOf hfiles hlists using hways
  refine ⟨((byName entries).map filesOf).flatten,
    (byName entries).flatMap fun entry ↦ (waysOf entry).map (entry.1 :: ·), ?_, ?_, ?_, ?_⟩
  · refine inOrder_solidityFilesBelow_eq_ok_iff.mpr ⟨_, ?_, rfl⟩
    rw [List.forall₂_map_right_iff, List.forall₂_same]
    exact hfiles
  · have hmap : (byName entries).map filesOf =
        (byName entries).map fun entry ↦ (waysOf entry).map (below (join path entry.1)) :=
      List.map_congr_left fun entry hentry ↦ (hlists entry hentry).files_eq
    rw [hmap, List.map_flatMap, ← List.flatMap_def]
    simp only [List.map_map]
    rfl
  · rw [List.pairwise_flatMap]
    constructor
    · intro entry hentry
      exact (hlists entry hentry).ordered.map _ fun _ _ h ↦ .cons h
    · refine (pairwise_byName distinct).imp ?_
      intro a b hab way hway way' hway'
      obtain ⟨names, -, rfl⟩ := List.mem_map.mp hway
      obtain ⟨names', -, rfl⟩ := List.mem_map.mp hway'
      exact .rel hab
  · intro way
    rw [listed_directory_iff]
    constructor
    · intro hway
      obtain ⟨entry, hentry, hway⟩ := List.mem_flatMap.mp hway
      obtain ⟨names, hnames, rfl⟩ := List.mem_map.mp hway
      exact ⟨entry, mem_byName.mp hentry, names, rfl,
        ((hlists entry hentry).mem_iff names).mp hnames⟩
    · rintro ⟨entry, hentry, names, rfl, h⟩
      have hentry := mem_byName.mpr hentry
      exact List.mem_flatMap.mpr ⟨entry, hentry,
        List.mem_map_of_mem (((hlists entry hentry).mem_iff names).mpr h)⟩

theorem exists_ways {e : Entry} (hwf : e.WellFormed) {path : String}
    (hshort : ∀ way entries, Reaches e way (.directory entries) → ¬ isTooLong (below path way)) :
    ∃ files ways, solidityFilesAt path e = .ok files ∧ ListsWays path e files ways := by
  induction hwf generalizing path with
  | file content =>
    rw [solidityFilesAt]
    have hlisted (way : List String) : Listed path (.file content) way ↔
        way = [] ∧ extension? path = some "sol" ∧ ¬ isTooLong path := by
      constructor
      · rintro ⟨⟨_, ⟨⟩⟩, hext, hshort⟩
        exact ⟨rfl, hext, hshort⟩
      · rintro ⟨rfl, hext, hshort⟩
        exact ⟨⟨content, .refl _⟩, hext, hshort⟩
    split
    · rename_i h
      simp only [Bool.and_eq_true, Bool.not_eq_true', decide_eq_true_eq] at h
      exact ⟨_, [[]], rfl, rfl, List.pairwise_singleton _ _, by simp [hlisted, h]⟩
    · rename_i h
      simp only [Bool.and_eq_true, Bool.not_eq_true', decide_eq_true_eq] at h
      refine ⟨_, [], rfl, rfl, .nil, fun way ↦ ?_⟩
      rw [hlisted]
      simp only [List.not_mem_nil, false_iff]
      rintro ⟨-, hext, hpath⟩
      exact h ⟨by simpa using hpath, hext⟩
  | @directory entries named distinct hbelow ih =>
    have hpath : ¬ isTooLong path := hshort [] entries (.refl _)
    rw [solidityFilesAt, if_neg hpath]
    refine exists_ways_of_entries distinct fun entry hentry ↦ ?_
    exact ih entry hentry fun way found h ↦ hshort (entry.1 :: way) found (.step hentry h)

/-- The names lead to a directory below the entry, by a path that is too long. -/
structure Unlistable (path : String) (e : Entry) (way : List String) : Prop where
  ne_nil : way ≠ []
  directory : ∃ found, Reaches e way (.directory found)
  long : isTooLong (below path way)

theorem exists_entry_of_eq_error {entries : List (String × Entry)} {path : String}
    {cause : String × IoError} (h : inOrder (solidityFilesBelow path entries) = .error cause) :
    ∃ entry ∈ entries, solidityFilesAt (join path entry.1) entry.2 = .error cause := by
  rw [inOrder_solidityFilesBelow] at h
  cases hall : (byName entries).mapM fun entry ↦ solidityFilesAt (join path entry.1) entry.2 with
  | ok lists => simp [hall, Except.map] at h
  | error cause' =>
    rw [hall] at h
    obtain rfl := Except.error.inj h
    obtain ⟨entry, hentry, herror⟩ := exists_of_mapM_eq_error hall
    exact ⟨entry, mem_byName.mp hentry, herror⟩

theorem exists_of_solidityFilesAt_eq_error {e : Entry} (hwf : e.WellFormed) {path : String}
    {cause : String × IoError} (h : solidityFilesAt path e = .error cause) :
    ∃ way entries, Reaches e way (.directory entries) ∧ isTooLong (below path way) ∧
      cause = (below path way, .nameTooLong) := by
  induction hwf generalizing path with
  | file content =>
    rw [solidityFilesAt] at h
    split at h <;> cases h
  | @directory entries named distinct hbelow ih =>
    rw [solidityFilesAt] at h
    split at h
    · rename_i hpath
      exact ⟨[], entries, .refl _, hpath, (Except.error.inj h).symm⟩
    · obtain ⟨entry, hentry, herror⟩ := exists_entry_of_eq_error h
      obtain ⟨way, found, hdir, hlong, rfl⟩ := ih entry hentry herror
      exact ⟨entry.1 :: way, found, .step hentry hdir, hlong, rfl⟩

/-- A walk fails only at a directory whose path is too long. -/
theorem exists_unlistable {entries : List (String × Entry)}
    (hwf : (Entry.directory entries).WellFormed) {path : String} {cause : String × IoError}
    (h : inOrder (solidityFilesBelow path entries) = .error cause) :
    ∃ way, Unlistable path (.directory entries) way ∧ cause = (below path way, .nameTooLong) := by
  obtain ⟨entry, hentry, herror⟩ := exists_entry_of_eq_error h
  cases hwf with
  | directory named distinct hbelow =>
    obtain ⟨way, found, hdir, hlong, rfl⟩ :=
      exists_of_solidityFilesAt_eq_error (hbelow entry hentry) herror
    exact ⟨entry.1 :: way, ⟨List.cons_ne_nil _ _, ⟨found, .step hentry hdir⟩, hlong⟩, rfl⟩

theorem exists_files_of_mem {entries : List (String × Entry)} {path : String}
    {files : List String} (hfiles : inOrder (solidityFilesBelow path entries) = .ok files)
    {entry : String × Entry} (hentry : entry ∈ entries) :
    ∃ list, solidityFilesAt (join path entry.1) entry.2 = .ok list := by
  obtain ⟨lists, hlists, -⟩ := inOrder_solidityFilesBelow_eq_ok_iff.mp hfiles
  obtain ⟨list, -, hlist⟩ := exists_right_of_forall₂ hlists (mem_byName.mpr hentry)
  exact ⟨list, hlist⟩

theorem not_isTooLong_of_reaches {e e' : Entry} {way : List String} (h : Reaches e way e')
    {entries : List (String × Entry)} (hdir : e' = .directory entries) {path : String}
    {files : List String} (hfiles : solidityFilesAt path e = .ok files) :
    ¬ isTooLong (below path way) := by
  induction h generalizing path files with
  | refl e =>
    subst hdir
    rw [solidityFilesAt] at hfiles
    split at hfiles
    · cases hfiles
    · assumption
  | @step found entry names e hentry h ih =>
    rw [solidityFilesAt] at hfiles
    split at hfiles
    · cases hfiles
    · obtain ⟨list, hlist⟩ := exists_files_of_mem hfiles hentry
      exact ih hdir hlist

theorem not_unlistable {entries : List (String × Entry)} {path : String} {files : List String}
    (hfiles : inOrder (solidityFilesBelow path entries) = .ok files) (way : List String) :
    ¬ Unlistable path (.directory entries) way := by
  rintro ⟨hne, ⟨found, hreaches⟩, hlong⟩
  cases hreaches with
  | refl => exact hne rfl
  | step hentry hreaches =>
    obtain ⟨list, hlist⟩ := exists_files_of_mem hfiles hentry
    exact not_isTooLong_of_reaches hreaches rfl hlist hlong

theorem exists_ways_of_not_unlistable {entries : List (String × Entry)}
    (hwf : (Entry.directory entries).WellFormed) {path : String}
    (h : ∀ way, ¬ Unlistable path (.directory entries) way) :
    ∃ files ways, inOrder (solidityFilesBelow path entries) = .ok files ∧
      ListsWays path (.directory entries) files ways := by
  cases hwf with
  | directory named distinct hbelow =>
    refine exists_ways_of_entries distinct fun entry hentry ↦ ?_
    refine exists_ways (hbelow entry hentry) fun way found hreaches hlong ↦ ?_
    exact h (entry.1 :: way) ⟨List.cons_ne_nil _ _, ⟨found, .step hentry hreaches⟩, hlong⟩

/-- The names lead to a file whose own name has the extension `sol`. -/
structure IsSolidityFile (e : Entry) (way : List String) : Prop where
  file : ∃ content : ByteArray, Reaches e way (.file content)
  named : ∃ name, way.getLast? = some name ∧ HasExtension name "sol"

theorem listed_iff {entries : List (String × Entry)} (hwf : (Entry.directory entries).WellFormed)
    (path : String) (way : List String) :
    Listed path (.directory entries) way ↔
      IsSolidityFile (.directory entries) way ∧ ¬ isTooLong (below path way) := by
  have hext {content : ByteArray} (hfile : Reaches (.directory entries) way (.file content)) :
      extension? (below path way) = some "sol" ↔
        ∃ name, way.getLast? = some name ∧ HasExtension name "sol" := by
    have hnames := hfile.isName hwf
    have hne : way ≠ [] := by
      rintro rfl
      cases hfile
    have hlast := List.getLast?_eq_some_getLast hne
    have hpieces : (pieces (below path way)).getLast? = some (way.getLast hne) := by
      rw [pieces_below path hne hnames, List.getLast?_append_of_ne_nil _ hne, hlast]
    rw [extension?_eq_of_getLast? (hnames _ (List.getLast_mem hne)) hpieces,
      nameExtension?_eq_some_iff, hlast]
    simp
  constructor
  · rintro ⟨⟨content, hfile⟩, hsol, hshort⟩
    exact ⟨⟨⟨content, hfile⟩, (hext hfile).mp hsol⟩, hshort⟩
  · rintro ⟨⟨⟨content, hfile⟩, hsol⟩, hshort⟩
    exact ⟨⟨content, hfile⟩, (hext hfile).mpr hsol, hshort⟩

theorem Precedes.ne {way way' : List String} (h : Precedes way way') : way ≠ way' := by
  refine List.Lex.to_ne (List.Lex.imp (fun a b hab heq ↦ ?_) _ _ h)
  exact List.lt_irrefl _ (heq ▸ hab)

theorem nodup_map_below {entries : List (String × Entry)}
    (hwf : (Entry.directory entries).WellFormed) (path : String) {ways : List (List String)}
    (hordered : ways.Pairwise Precedes)
    (hlisted : ∀ way ∈ ways, IsSolidityFile (.directory entries) way) :
    (ways.map (below path)).Nodup := by
  have hpieces : ∀ way ∈ ways, pieces (below path way) = stem path ++ way := by
    intro way hway
    obtain ⟨⟨content, hfile⟩, name, hlast, -⟩ := hlisted way hway
    refine pieces_below path ?_ (hfile.isName hwf)
    rintro rfl
    exact absurd hlast nofun
  refine List.Nodup.map_on ?_ (hordered.imp Precedes.ne)
  intro way hway way' hway' heq
  have hstem := congrArg pieces heq
  rw [hpieces way hway, hpieces way' hway'] at hstem
  exact List.append_cancel_left hstem

end Entry

namespace Disk

open Entry

theorem solidityFiles_of_directory {disk : Disk} {path : String}
    {entries : List (String × Entry)} (h : disk.lookup path = .ok (.directory entries)) :
    disk.solidityFiles path = inOrder (solidityFilesBelow path entries) := by
  simp only [solidityFiles, h]

/-- An audit of a directory covers the files below it that are named `*.sol`, each once and in the
order of the ways to them. It passes over a file whose path is too long, and fails if there is such
a directory below. An audit of anything else covers just its path. -/
theorem solidityFiles_listing (disk : Disk) (path : String) :
    ((∀ entries, disk.lookup path ≠ .ok (.directory entries)) →
      disk.solidityFiles path = .ok [path]) ∧
    ∀ entries, disk.lookup path = .ok (.directory entries) →
      (Entry.directory entries).WellFormed →
      ((∀ way, ¬ Unlistable path (.directory entries) way) →
        ∃ ways : List (List String),
          disk.solidityFiles path = .ok (ways.map (below path)) ∧
          (ways.map (below path)).Nodup ∧ ways.Pairwise Precedes ∧
          ∀ way, way ∈ ways ↔
            IsSolidityFile (.directory entries) way ∧ ¬ isTooLong (below path way)) ∧
      ((∃ way, Unlistable path (.directory entries) way) →
        ∃ way, Unlistable path (.directory entries) way ∧
          disk.solidityFiles path = .error (below path way, .nameTooLong)) := by
  constructor
  · intro hnone
    rw [solidityFiles]
    split
    · rename_i entries hdir
      exact absurd hdir (hnone entries)
    · rfl
  · intro entries hdir hwf
    rw [solidityFiles_of_directory hdir]
    constructor
    · intro hlistable
      obtain ⟨_, ways, hfiles, rfl, hordered, hlisted⟩ :=
        exists_ways_of_not_unlistable hwf hlistable
      have hways (way : List String) := (hlisted way).trans (listed_iff hwf path way)
      exact ⟨ways, hfiles, nodup_map_below hwf path hordered fun way hway ↦
        ((hways way).mp hway).1, hordered, hways⟩
    · rintro ⟨way, hway⟩
      cases hfiles : inOrder (solidityFilesBelow path entries) with
      | ok files => exact absurd hway (not_unlistable hfiles way)
      | error cause =>
        obtain ⟨way', hway', rfl⟩ := exists_unlistable hwf hfiles
        exact ⟨way', hway', rfl⟩

def lookalikes : List (String × Entry) :=
  [("b.sol", .directory [("V.sol", .file .empty)]), (".sol", .file .empty)]

def lookalikeFiles : FileSystem where
  root := [("home", .directory []), ("tmp", .directory [("x", .directory lookalikes)])]
  current := ["home"]

theorem wellFormed_lookalikes : (Entry.directory lookalikes).WellFormed := by
  refine .directory (by decide) (by decide) ?_
  simp only [lookalikes, List.forall_mem_cons]
  exact ⟨.directory (by decide) (by decide) fun entry hentry ↦
    List.mem_singleton.mp hentry ▸ .file _, .file _, nofun⟩

theorem solidityFiles_listing_lookalikes :
    (ofFiles lookalikeFiles).lookup "/tmp/x" = .ok (.directory lookalikes) ∧
      (Entry.directory lookalikes).WellFormed ∧ ∃ ways : List (List String),
        (ofFiles lookalikeFiles).solidityFiles "/tmp/x" = .ok (ways.map (below "/tmp/x")) ∧
        ["b.sol", "V.sol"] ∈ ways ∧ [".sol"] ∉ ways := by
  have hdir : (ofFiles lookalikeFiles).lookup "/tmp/x" = .ok (.directory lookalikes) := rfl
  have hlistable : ∀ way, ¬ Unlistable "/tmp/x" (.directory lookalikes) way := by
    rintro way ⟨hne, ⟨found, h⟩, hlong⟩
    cases h with
    | refl => exact hne rfl
    | step hentry h =>
      simp only [lookalikes, List.mem_cons, List.not_mem_nil, or_false] at hentry
      rcases hentry with rfl | rfl
      · cases h with
        | refl => exact absurd hlong (by decide)
        | step hentry h =>
          obtain rfl := List.mem_singleton.mp hentry
          cases h
      · cases h
  obtain ⟨ways, hfiles, -, -, hways⟩ := ((solidityFiles_listing (ofFiles lookalikeFiles)
    "/tmp/x").2 lookalikes hdir wellFormed_lookalikes).1 hlistable
  refine ⟨hdir, wellFormed_lookalikes, ways, hfiles, ?_, ?_⟩
  · have hfile : Reaches (.directory lookalikes) ["b.sol", "V.sol"] (.file .empty) :=
      .step List.mem_cons_self (.step List.mem_cons_self (.refl _))
    exact (hways _).mpr ⟨⟨⟨_, hfile⟩, "V.sol", rfl, ['V'], by decide⟩, by decide⟩
  · intro hway
    obtain ⟨-, name, hname, front, hfront, htext, -⟩ := ((hways _).mp hway).1
    obtain rfl : ".sol" = name := Option.some.inj hname
    have hlength := congrArg List.length htext
    rw [List.length_append] at hlength
    have hdot : ".sol".toList.length = ('.' :: "sol".toList).length := by decide
    exact hfront (List.length_eq_zero_iff.mp (by omega))

def roundabout : ℕ → String
  | 0 => "d"
  | n + 1 => "./" ++ roundabout n

theorem pieces_roundabout (n : ℕ) : pieces (roundabout n) = List.replicate n "." ++ ["d"] := by
  induction n with
  | zero => decide
  | succ n ih =>
    have hstep : pieces (roundabout (n + 1)) = "." :: pieces (roundabout n) := by
      rw [pieces, roundabout, String.toList_append]
      exact congrArg (List.map String.ofList) (splitAt_append_sep '/' ['.'] _)
    rw [hstep, ih, List.replicate_succ, List.cons_append]

theorem utf8ByteSize_roundabout (n : ℕ) : (roundabout n).utf8ByteSize = 2 * n + 1 := by
  induction n with
  | zero => decide
  | succ n ih =>
    have hstay : "./".utf8ByteSize = 2 := by decide
    rw [roundabout, String.utf8ByteSize_append, hstay, ih]
    omega

theorem nul_not_mem_roundabout (n : ℕ) : '\x00' ∉ (roundabout n).toList := by
  induction n with
  | zero => decide
  | succ n ih =>
    rw [roundabout, String.toList_append, List.mem_append, not_or]
    exact ⟨by decide, ih⟩

theorem descend_stays (above : List Entry) (here : Entry) (n : ℕ) (rest : List String)
    (hne : rest ≠ []) :
    descend above here (List.replicate n "." ++ rest) = descend above here rest := by
  induction n with
  | zero => rfl
  | succ n ih =>
    rw [List.replicate_succ, List.cons_append]
    cases here with
    | file content =>
      obtain ⟨piece, more, rfl⟩ := List.exists_cons_of_ne_nil hne
      rfl
    | directory entries => exact ih

def onlyDirectory (entries : List (String × Entry)) : FileSystem where
  root := [("d", .directory entries)]

theorem lookup_roundabout (entries : List (String × Entry)) {n : ℕ} (h : 2 * n + 1 ≤ 4095) :
    (ofFiles (onlyDirectory entries)).lookup (roundabout n) = .ok (.directory entries) := by
  have hne : roundabout n ≠ "" := by
    intro hempty
    have hsize := utf8ByteSize_roundabout n
    rw [hempty] at hsize
    exact absurd hsize (by simp)
  have hrefused : FileSystem.refused? (roundabout n) = none := by
    have hnul : (roundabout n).toList.contains '\x00' = false := by
      simpa using nul_not_mem_roundabout n
    have hshort : ¬ isTooLong (roundabout n) := by
      rw [isTooLong, utf8ByteSize_roundabout, decide_eq_true_eq]
      omega
    rw [FileSystem.refused?, hnul, if_neg Bool.false_ne_true, if_neg hshort, if_neg hne]
  have hroute : (onlyDirectory entries).route (roundabout n) = List.replicate n "." ++ ["d"] := by
    rw [FileSystem.route, pieces_roundabout]
    cases isAbsolute (roundabout n) <;> rfl
  change (onlyDirectory entries).lookup (roundabout n) = _
  rw [FileSystem.lookup_eq, hrefused, hroute]
  exact descend_stays [] _ n ["d"] (List.cons_ne_nil _ _)

theorem utf8ByteSize_le_join (path name : String) :
    path.utf8ByteSize + name.utf8ByteSize ≤ (join path name).utf8ByteSize := by
  rw [join]
  split
  · rw [String.utf8ByteSize_append]
  · rw [String.utf8ByteSize_append, String.utf8ByteSize_append]
    omega

def vaults : List (String × Entry) := [("V.sol", .file .empty), ("W.sol", .file .empty)]

/-- The path of the directory is short enough and that of each of its files is not. -/
theorem solidityFiles_roundabout :
    (ofFiles (onlyDirectory vaults)).lookup (roundabout 2046) = .ok (.directory vaults) ∧
    (Entry.directory vaults).WellFormed ∧
    ¬ ∃ ways : List (List String),
      (ofFiles (onlyDirectory vaults)).solidityFiles (roundabout 2046) =
        .ok (ways.map (below (roundabout 2046))) ∧
      ∀ way, way ∈ ways ↔ IsSolidityFile (.directory vaults) way := by
  have hvaults : (Entry.directory vaults).WellFormed := by
    refine .directory (by decide) (by decide) ?_
    simp only [vaults, List.forall_mem_cons]
    exact ⟨.file _, .file _, nofun⟩
  have hdir : (ofFiles (onlyDirectory vaults)).lookup (roundabout 2046) =
      .ok (.directory vaults) := lookup_roundabout vaults (by decide)
  refine ⟨hdir, hvaults, ?_⟩
  have hlong : isTooLong (below (roundabout 2046) ["V.sol"]) := by
    have hsize := utf8ByteSize_le_join (roundabout 2046) "V.sol"
    have hname : "V.sol".utf8ByteSize = 5 := by decide
    rw [utf8ByteSize_roundabout, hname] at hsize
    rw [below, List.foldl_cons, List.foldl_nil, isTooLong, decide_eq_true_eq]
    omega
  generalize roundabout 2046 = path at hdir hlong
  rintro ⟨ways, hfiles, hways⟩
  have hmem : ["V.sol"] ∈ ways := (hways _).mpr
    ⟨⟨_, .step List.mem_cons_self (.refl _)⟩, "V.sol", rfl, ['V'], by decide⟩
  rw [solidityFiles_of_directory hdir] at hfiles
  obtain ⟨_, listed, hfiles', rfl, -, hlisted⟩ :=
    exists_ways_of_not_unlistable hvaults (not_unlistable hfiles)
  have hfile : below path ["V.sol"] ∈ listed.map (below path) := by
    rw [← Except.ok.inj (hfiles.symm.trans hfiles')]
    exact List.mem_map_of_mem hmem
  obtain ⟨way, hway, heq⟩ := List.mem_map.mp hfile
  exact ((hlisted way).mp hway).short (heq ▸ hlong)

end Disk

end ContractAudit
