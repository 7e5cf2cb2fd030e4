import Mathlib
import ContractAudit.Files.Tree
import ContractAudit.Proofs.Files.Path
import ContractAudit.Proofs.Results

open ContractAudit.Path

namespace ContractAudit

namespace Entry

/-- Every directory calls its entries by names, no two of them alike. -/
inductive WellFormed : Entry → Prop
  | file (content : ByteArray) : WellFormed (.file content)
  | directory {entries : List (String × Entry)} (named : ∀ entry ∈ entries, IsName entry.1)
      (distinct : (entries.map Prod.fst).Nodup) (below : ∀ entry ∈ entries, WellFormed entry.2) :
      WellFormed (.directory entries)

/-- The trees are the same but for the content of the file to which the names lead. -/
inductive DifferAt : List String → Entry → Entry → Prop
  | file (old new : ByteArray) : DifferAt [] (.file old) (.file new)
  | directory {name : String} {names : List String} {e e' : Entry}
      (before after : List (String × Entry)) (h : DifferAt names e e') :
      DifferAt (name :: names) (.directory (before ++ (name, e) :: after))
        (.directory (before ++ (name, e') :: after))

/-- The trees are the same but for the content of one file below them, which is called `name`. -/
def Alike (name : String) (e e' : Entry) : Prop :=
  e = e' ∨ ∃ names, DifferAt (names ++ [name]) e e'

variable {entries : List (String × Entry)}

theorem step_name {name : String} (h : IsName name) (above : List Entry)
    (entries : List (String × Entry)) :
    step above (.directory entries) name =
      (child entries name).map (.directory entries :: above, ·) := by
  have hstay : ¬ (name = "" ∨ name = ".") := fun hname ↦ hname.elim h.ne_empty h.ne_dot
  rw [step, if_neg hstay, if_neg h.ne_dots]

theorem descend_names {names : List String} (h : ∀ name ∈ names, IsName name)
    (above above' : List Entry) (here : Entry) :
    descend above here names = descend above' here names := by
  induction names generalizing above above' here with
  | nil => rfl
  | cons name names ih =>
    obtain ⟨hname, hnames⟩ := List.forall_mem_cons.mp h
    cases here with
    | file content => rfl
    | directory entries =>
      rw [descend, descend, step_name hname, step_name hname]
      cases child entries name with
      | error e => rfl
      | ok entry => exact ih hnames _ _ entry

theorem descend_append (above : List Entry) (here : Entry) (pieces : List String) :
    ∃ above' : List Entry, ∀ more : List String, descend above here (pieces ++ more) =
      (descend above here pieces).bind (descend above' · more) := by
  induction pieces generalizing above here with
  | nil => exact ⟨above, fun more ↦ rfl⟩
  | cons piece pieces ih =>
    simp only [List.cons_append, descend]
    cases step above here piece with
    | error e => exact ⟨[], fun more ↦ rfl⟩
    | ok next => exact ih next.1 next.2

theorem find?_replaced (before after : List (String × Entry)) (name piece : String)
    (e e' : Entry) :
    find? piece (before ++ (name, e) :: after) = find? piece (before ++ (name, e') :: after) ∨
      piece = name ∧ find? piece (before ++ (name, e) :: after) = some e ∧
        find? piece (before ++ (name, e') :: after) = some e' := by
  simp only [find?, List.find?_append, List.find?_cons]
  cases before.find? (·.1 == piece) with
  | some found => exact .inl rfl
  | none =>
    by_cases hname : name = piece
    · exact .inr ⟨hname.symm, by simp [hname], by simp [hname]⟩
    · have hother : (name == piece) = false := by simpa using hname
      exact .inl (by rw [hother])

theorem Alike.find? {name : String} {entries' : List (String × Entry)}
    (h : Alike name (.directory entries) (.directory entries')) (piece : String) :
    find? piece entries = none ∧ find? piece entries' = none ∨
      ∃ e e' : Entry, find? piece entries = some e ∧ find? piece entries' = some e' ∧
        (Alike name e e' ∨ piece = name ∧ ∃ old new : ByteArray, e = .file old ∧ e' = .file new) := by
  have hsame (found : Option Entry) : found = none ∧ found = none ∨
      ∃ e e' : Entry, found = some e ∧ found = some e' ∧
        (Alike name e e' ∨ piece = name ∧ ∃ old new, e = .file old ∧ e' = .file new) := by
    cases found with
    | none => exact .inl ⟨rfl, rfl⟩
    | some e => exact .inr ⟨e, e, rfl, rfl, .inl (.inl rfl)⟩
  rcases h with heq | ⟨names, hdiffer⟩
  · obtain rfl := Entry.directory.inj heq
    exact hsame _
  · generalize hall : names ++ [name] = all at hdiffer
    cases hdiffer with
    | @directory first more e e' before after hbelow =>
      rcases find?_replaced before after first piece e e' with heq | ⟨rfl, he, he'⟩
      · rw [heq]
        exact hsame _
      · refine .inr ⟨e, e', he, he', ?_⟩
        cases names with
        | nil =>
          obtain ⟨rfl, rfl⟩ := List.cons.inj hall
          cases hbelow with
          | file old new => exact .inr ⟨rfl, old, new, rfl, rfl⟩
        | cons first' names =>
          obtain ⟨rfl, rfl⟩ := List.cons.inj hall
          exact .inl (.inr ⟨names, hbelow⟩)

theorem Alike.eq_of_file {name : String} {content : ByteArray} {e' : Entry}
    (h : Alike name (.file content) e') : e' = .file content := by
  rcases h with heq | ⟨names, hdiffer⟩
  · exact heq.symm
  · generalize hall : names ++ [name] = all at hdiffer
    cases hdiffer with
    | file => exact absurd hall (by simp)

theorem Alike.exists_directory {name : String} {e' : Entry}
    (h : Alike name (.directory entries) e') : ∃ entries', e' = .directory entries' := by
  rcases h with heq | ⟨names, hdiffer⟩
  · exact ⟨entries, heq.symm⟩
  · generalize names ++ [name] = all at hdiffer
    cases hdiffer with
    | directory before after hbelow => exact ⟨_, rfl⟩

inductive Leads (name : String) (pieces : List String) :
    Except IoError Entry → Except IoError Entry → Prop
  | error (e : IoError) : Leads name pieces (.error e) (.error e)
  | alike {e e' : Entry} (h : Alike name e e') : Leads name pieces (.ok e) (.ok e')
  | changed (old new : ByteArray) (hlast : pieces.getLast? = some name) :
      Leads name pieces (.ok (.file old)) (.ok (.file new))

theorem Leads.cons {name : String} {pieces : List String} {x x' : Except IoError Entry}
    (h : Leads name pieces x x') (piece : String) : Leads name (piece :: pieces) x x' := by
  cases h with
  | error e => exact .error e
  | alike h => exact .alike h
  | changed old new hlast =>
    refine .changed old new ?_
    rw [List.getLast?_cons, hlast]
    rfl

theorem step_leads {name : String} {above above' : List Entry}
    (habove : List.Forall₂ (Alike name) above above') {here here' : Entry}
    (hhere : Alike name here here') (piece : String) :
    (∃ e, step above here piece = .error e ∧ step above' here' piece = .error e) ∨
      ∃ next next' : List Entry × Entry, step above here piece = .ok next ∧
        step above' here' piece = .ok next' ∧ List.Forall₂ (Alike name) next.1 next'.1 ∧
        (Alike name next.2 next'.2 ∨
          piece = name ∧ ∃ old new : ByteArray, next.2 = .file old ∧ next'.2 = .file new) := by
  cases here with
  | file content =>
    obtain rfl := hhere.eq_of_file
    exact .inl ⟨_, rfl, rfl⟩
  | directory entries =>
    obtain ⟨entries', rfl⟩ := hhere.exists_directory
    simp only [step, child]
    split
    · exact .inr ⟨_, _, rfl, rfl, habove, .inl hhere⟩
    · split
      · refine .inr ⟨_, _, rfl, rfl, ?_⟩
        cases habove with
        | nil => exact ⟨.nil, .inl hhere⟩
        | cons hparent habove => exact ⟨habove, .inl hparent⟩
      · split
        · exact .inl ⟨_, rfl, rfl⟩
        · rcases hhere.find? piece with ⟨hnone, hnone'⟩ | ⟨e, e', he, he', hbelow⟩
          · exact .inl ⟨_, by rw [hnone]; rfl, by rw [hnone']; rfl⟩
          · exact .inr ⟨_, _, by rw [he]; rfl, by rw [he']; rfl, .cons hhere habove, hbelow⟩

theorem descend_leads {name : String} {above above' : List Entry}
    (habove : List.Forall₂ (Alike name) above above') {here here' : Entry}
    (hhere : Alike name here here') (pieces : List String) :
    Leads name pieces (descend above here pieces) (descend above' here' pieces) := by
  induction pieces generalizing above above' here here' with
  | nil => exact .alike hhere
  | cons piece pieces ih =>
    rw [descend, descend]
    rcases step_leads habove hhere piece with
      ⟨e, he, he'⟩ | ⟨next, next', hnext, hnext', habove, hhere | ⟨rfl, old, new, hold, hnew⟩⟩
    · rw [he, he']
      exact .error e
    · rw [hnext, hnext']
      exact (ih habove hhere).cons piece
    · -- The file that differs: a way that goes on from it leads nowhere.
      rw [hnext, hnext']
      simp only [Except.bind, hold, hnew]
      cases pieces with
      | nil => exact .changed old new rfl
      | cons next pieces => exact .error _

theorem solidityFilesBelow_eq_map (path : String) (entries : List (String × Entry)) :
    solidityFilesBelow path entries =
      entries.map fun entry ↦ (entry.1, solidityFilesAt (join path entry.1) entry.2) := by
  induction entries with
  | nil => rw [solidityFilesBelow]; rfl
  | cons entry entries ih => rw [solidityFilesBelow, ih]; rfl

theorem DifferAt.solidityFilesAt_eq {names : List String} {e e' : Entry}
    (h : DifferAt names e e') (path : String) :
    solidityFilesAt path e' = solidityFilesAt path e := by
  induction h generalizing path with
  | file old new => rw [solidityFilesAt, solidityFilesAt]
  | directory before after h ih =>
    simp only [solidityFilesAt, solidityFilesBelow_eq_map, List.map_append, List.map_cons, ih]

theorem Alike.inOrder_solidityFilesBelow_eq {name : String} {entries' : List (String × Entry)}
    (h : Alike name (.directory entries) (.directory entries')) (path : String) :
    inOrder (solidityFilesBelow path entries') = inOrder (solidityFilesBelow path entries) := by
  rcases h with heq | ⟨names, hdiffer⟩
  · rw [Entry.directory.inj heq]
  · generalize names ++ [name] = all at hdiffer
    cases hdiffer with
    | directory before after h =>
      simp only [solidityFilesBelow_eq_map, List.map_append, List.map_cons, h.solidityFilesAt_eq]

theorem exists_of_mem_inOrder {ε α : Type} {listed : List (String × Except ε (List α))}
    {all : List α} (h : inOrder listed = .ok all) {x : α} (hx : x ∈ all) :
    ∃ name xs, (name, .ok xs) ∈ listed ∧ x ∈ xs := by
  rw [inOrder] at h
  cases hlists : (listed.mergeSort fun a b ↦ a.1 ≤ b.1).mapM (·.2) with
  | error e => simp [hlists, bind, Except.bind] at h
  | ok lists =>
    obtain rfl : lists.flatten = all := by
      simpa [hlists, bind, Except.bind, pure, Except.pure] using h
    obtain ⟨xs, hxs, hmem⟩ := List.mem_flatten.mp hx
    obtain ⟨⟨name, result⟩, hentry, rfl⟩ :=
      exists_left_of_forall₂ (mapM_eq_ok_iff.mp hlists) hxs
    exact ⟨name, xs, List.mem_mergeSort.mp hentry, hmem⟩

theorem exists_entry_of_mem {path : String} {files : List String}
    (hfiles : inOrder (solidityFilesBelow path entries) = .ok files) {file : String}
    (hmem : file ∈ files) :
    ∃ entry ∈ entries, ∃ found, solidityFilesAt (join path entry.1) entry.2 = .ok found ∧
      file ∈ found := by
  obtain ⟨name, found, hlisted, hfile⟩ := exists_of_mem_inOrder hfiles hmem
  rw [solidityFilesBelow_eq_map] at hlisted
  obtain ⟨entry, hentry, heq⟩ := List.mem_map.mp hlisted
  exact ⟨entry, hentry, found, (Prod.mk.inj heq).2, hfile⟩

theorem exists_names_of_mem_solidityFilesAt {e : Entry} (hwf : e.WellFormed) {path : String}
    {files : List String} (hfiles : solidityFilesAt path e = .ok files) {file : String}
    (hmem : file ∈ files) :
    ∃ names, (∀ name ∈ names, IsName name) ∧ file = below path names ∧
      extension? file = some "sol" := by
  induction hwf generalizing path files with
  | file content =>
    rw [solidityFilesAt] at hfiles
    split at hfiles
    · rename_i hsol
      obtain rfl := Except.ok.inj hfiles
      obtain rfl := List.mem_singleton.mp hmem
      have hext : extension? file = some "sol" := by
        simp only [Bool.and_eq_true, decide_eq_true_eq] at hsol
        exact hsol.2
      exact ⟨[], nofun, rfl, hext⟩
    · obtain rfl := Except.ok.inj hfiles
      exact absurd hmem List.not_mem_nil
  | @directory entries named distinct hbelow ih =>
    rw [solidityFilesAt] at hfiles
    split at hfiles
    · exact absurd hfiles nofun
    · obtain ⟨entry, hentry, found, hfound, hfile⟩ := exists_entry_of_mem hfiles hmem
      obtain ⟨names, hnames, rfl, hext⟩ := ih entry hentry hfound hfile
      exact ⟨entry.1 :: names, List.forall_mem_cons.mpr ⟨named entry hentry, hnames⟩, rfl, hext⟩

theorem exists_names_of_mem (hwf : (Entry.directory entries).WellFormed) {path : String}
    {files : List String} (hfiles : inOrder (solidityFilesBelow path entries) = .ok files)
    {file : String} (hmem : file ∈ files) :
    ∃ names, names ≠ [] ∧ (∀ name ∈ names, IsName name) ∧ file = below path names ∧
      extension? file = some "sol" := by
  obtain ⟨entry, hentry, found, hfound, hfile⟩ := exists_entry_of_mem hfiles hmem
  cases hwf with
  | directory named distinct hbelow =>
    obtain ⟨names, hnames, rfl, hext⟩ :=
      exists_names_of_mem_solidityFilesAt (hbelow entry hentry) hfound hfile
    exact ⟨entry.1 :: names, List.cons_ne_nil _ _,
      List.forall_mem_cons.mpr ⟨named entry hentry, hnames⟩, rfl, hext⟩

theorem WellFormed.of_find? (hwf : (Entry.directory entries).WellFormed) {name : String}
    {e : Entry} (h : find? name entries = some e) : e.WellFormed := by
  obtain ⟨entry, hentry, rfl⟩ := Option.map_eq_some_iff.mp h
  cases hwf with
  | directory named distinct below => exact below entry (List.mem_of_find?_eq_some hentry)

theorem WellFormed.of_step {above : List Entry} (habove : ∀ e ∈ above, e.WellFormed)
    {here : Entry} (hhere : here.WellFormed) {piece : String} {next : List Entry × Entry}
    (h : step above here piece = .ok next) : (∀ e ∈ next.1, e.WellFormed) ∧ next.2.WellFormed := by
  cases here with
  | file content => exact absurd h nofun
  | directory entries =>
    simp only [step, child] at h
    split at h
    · obtain rfl := Except.ok.inj h
      exact ⟨habove, hhere⟩
    · split at h
      · obtain rfl := Except.ok.inj h
        cases above with
        | nil => exact ⟨habove, hhere⟩
        | cons parent above => exact (List.forall_mem_cons.mp habove).symm
      · split at h
        · exact absurd h nofun
        · cases hfind : find? piece entries with
          | none => simp [hfind, Except.map] at h
          | some entry =>
            rw [hfind] at h
            obtain rfl := Except.ok.inj h
            exact ⟨List.forall_mem_cons.mpr ⟨hhere, habove⟩, hhere.of_find? hfind⟩

theorem WellFormed.of_descend {above : List Entry} (habove : ∀ e ∈ above, e.WellFormed)
    {here : Entry} (hhere : here.WellFormed) {pieces : List String} {e : Entry}
    (h : descend above here pieces = .ok e) : e.WellFormed := by
  induction pieces generalizing above here with
  | nil => exact Except.ok.inj h ▸ hhere
  | cons piece pieces ih =>
    rw [descend] at h
    cases hstep : step above here piece with
    | error e => simp [hstep, Except.bind] at h
    | ok next =>
      rw [hstep] at h
      obtain ⟨habove, hhere⟩ := WellFormed.of_step habove hhere hstep
      exact ih habove hhere h

/-- Names that do not lead to the file that differs lead to the same in both trees, or to a
directory in each. -/
theorem DifferAt.descend_eq_or {names : List String} {e e' : Entry} (h : DifferAt names e e')
    {way : List String} (hway : ∀ name ∈ way, IsName name) (hne : way ≠ names)
    (above above' : List Entry) :
    descend above e way = descend above' e' way ∨
      ∃ found found', descend above e way = .ok (.directory found) ∧
        descend above' e' way = .ok (.directory found') := by
  induction h generalizing way above above' with
  | file old new =>
    obtain ⟨first, more, rfl⟩ := List.exists_cons_of_ne_nil hne
    exact .inl rfl
  | @directory name names e e' before after h ih =>
    cases way with
    | nil => exact .inr ⟨_, _, rfl, rfl⟩
    | cons first way =>
      obtain ⟨hfirst, hrest⟩ := List.forall_mem_cons.mp hway
      rw [descend, descend, step_name hfirst, step_name hfirst, child, child]
      split
      · exact .inl rfl
      · rcases find?_replaced before after name first e e' with heq | ⟨rfl, he, he'⟩
        · rw [heq]
          split
          · exact .inl rfl
          · exact .inl (descend_names hrest _ _ _)
        · rw [he, he']
          exact ih hrest (fun heq ↦ hne (heq ▸ rfl)) _ _

theorem DifferAt.eq_of_descend {names : List String} {e e' : Entry} (h : DifferAt names e e')
    {way : List String} (hway : ∀ name ∈ way, IsName name) {above above' : List Entry}
    {old new : ByteArray} (hne : old ≠ new) (hold : descend above e way = .ok (.file old))
    (hnew : descend above' e' way = .ok (.file new)) : way = names := by
  by_contra hother
  rcases h.descend_eq_or hway hother above above' with heq | ⟨_, _, hfound, -⟩
  · rw [hold, hnew] at heq
    exact hne (Entry.file.inj (Except.ok.inj heq))
  · exact absurd (hold.symm.trans hfound) nofun

end Entry

namespace FileSystem

open Entry

variable {fs fs' : FileSystem} {path file : String} {entries : List (String × Entry)}

def WellFormed (fs : FileSystem) : Prop := (Entry.directory fs.root).WellFormed

/-- The same files in the same places, but for the content of the one at a path. -/
structure EditedAt (path : String) (fs fs' : FileSystem) : Prop where
  current : fs'.current = fs.current
  differ : ∃ names, DifferAt names (.directory fs.root) (.directory fs'.root)
  content : ∃ old new : ByteArray, old ≠ new ∧ fs.lookup path = .ok (.file old) ∧
    fs'.lookup path = .ok (.file new)

def refused? (path : String) : Option IoError :=
  if path.toList.contains '\x00' then some .nulInName
  else if isTooLong path then some .nameTooLong
  else if path = "" then some .notFound
  else none

theorem lookup_eq (fs : FileSystem) (path : String) :
    fs.lookup path =
      match refused? path with
      | some e => .error e
      | none => descend [] (.directory fs.root) (fs.route path) := by
  rw [lookup, refused?]
  split
  · rfl
  · split
    · rfl
    · split <;> rfl

theorem descend_of_lookup {e : Entry} (h : fs.lookup path = .ok e) :
    path ≠ "" ∧ descend [] (.directory fs.root) (fs.route path) = .ok e := by
  rw [lookup_eq] at h
  split at h
  · exact absurd h nofun
  · rename_i hnone
    refine ⟨?_, h⟩
    rintro rfl
    exact absurd hnone (by decide)

theorem lookup_below (hdir : fs.lookup path = .ok (.directory entries)) {names : List String}
    (hne : names ≠ []) (hnames : ∀ name ∈ names, IsName name) :
    fs.lookup (below path names) =
      match refused? (below path names) with
      | some e => .error e
      | none => descend [] (.directory entries) names := by
  obtain ⟨hpath, hdescend⟩ := descend_of_lookup hdir
  rw [route] at hdescend
  set start := if isAbsolute path then [] else fs.current with hstart
  have hroute : fs.route (below path names) = start ++ stem path ++ names := by
    rw [route, isAbsolute_below hpath, pieces_below path hne hnames, List.append_assoc]
  obtain ⟨above, happend⟩ := descend_append [] (.directory fs.root) (start ++ stem path)
  have hstem : descend [] (.directory fs.root) (start ++ stem path) = .ok (.directory entries) := by
    rcases pieces_eq_stem_or path with h | h
    · rw [← h, hdescend]
    · -- A slash at the end of a path is passed by only at a directory.
      rw [h, ← List.append_assoc, happend] at hdescend
      cases hmid : descend [] (.directory fs.root) (start ++ stem path) with
      | error e => simp [hmid, Except.bind] at hdescend
      | ok mid =>
        rw [hmid] at hdescend
        cases mid with
        | file content => exact absurd hdescend nofun
        | directory found => exact hdescend
  rw [lookup_eq, hroute, happend, hstem]
  simp only [Except.bind, descend_names hnames above []]

theorem getLast?_route (fs : FileSystem) (path : String) :
    (fs.route path).getLast? = (pieces path).getLast? :=
  List.getLast?_append_of_ne_nil _ (pieces_ne_nil path)

theorem WellFormed.of_lookup (hwf : fs.WellFormed) {e : Entry} (h : fs.lookup path = .ok e) :
    e.WellFormed :=
  .of_descend (fun _ he ↦ absurd he List.not_mem_nil) hwf (descend_of_lookup h).2

theorem lookup_leads {name : String} (hcurrent : fs'.current = fs.current)
    (h : Alike name (.directory fs.root) (.directory fs'.root)) (path : String) :
    Leads name (fs.route path) (fs.lookup path) (fs'.lookup path) := by
  have hroute : fs'.route path = fs.route path := by rw [route, route, hcurrent]
  rw [lookup_eq, lookup_eq, hroute]
  split
  · exact .error _
  · exact descend_leads .nil h _

theorem lookup_directory_of_alike {name : String} (hcurrent : fs'.current = fs.current)
    (h : Alike name (.directory fs.root) (.directory fs'.root))
    (hdir : fs.lookup path = .ok (.directory entries)) :
    ∃ entries', fs'.lookup path = .ok (.directory entries') ∧
      Alike name (.directory entries) (.directory entries') := by
  have hleads := lookup_leads hcurrent h path
  rw [hdir] at hleads
  generalize fs'.lookup path = found' at hleads
  cases hleads with
  | alike hbelow =>
    obtain ⟨entries', rfl⟩ := hbelow.exists_directory
    exact ⟨entries', rfl, hbelow⟩

theorem EditedAt.exists_alike (h : EditedAt path fs fs') :
    ∃ name, Alike name (.directory fs.root) (.directory fs'.root) ∧
      (pieces path).getLast? = some name := by
  obtain ⟨hcurrent, ⟨names, hdiffer⟩, old, new, hne, hold, hnew⟩ := h
  rcases names.eq_nil_or_concat with rfl | ⟨front, name, rfl⟩
  · cases hdiffer
  · have halike : Alike name (.directory fs.root) (.directory fs'.root) :=
      .inr ⟨front, List.concat_eq_append ▸ hdiffer⟩
    refine ⟨name, halike, ?_⟩
    have hleads := lookup_leads hcurrent halike path
    rw [hold, hnew] at hleads
    cases hleads with
    | alike hfile => exact absurd (Entry.file.inj hfile.eq_of_file).symm hne
    | changed _ _ hlast => rwa [getLast?_route] at hlast

end FileSystem

namespace Disk

open Entry FileSystem

variable {fs fs' : FileSystem} {path file : String} {files : List String}

theorem readText_eq_of_lookup
    (h : fs.lookup path = fs'.lookup path ∨ ∃ found found',
      fs.lookup path = .ok (.directory found) ∧ fs'.lookup path = .ok (.directory found')) :
    (ofFiles fs').readText path = (ofFiles fs).readText path := by
  simp only [readText, ofFiles]
  rcases h with heq | ⟨found, found', hfound, hfound'⟩
  · rw [heq]
  · rw [hfound, hfound']
    rfl

theorem solidityFiles_of_editedAt (h : EditedAt file fs fs') (path : String) :
    (ofFiles fs').solidityFiles path = (ofFiles fs).solidityFiles path := by
  obtain ⟨name, halike, -⟩ := h.exists_alike
  simp only [solidityFiles, ofFiles]
  have hleads := lookup_leads h.current halike path
  generalize fs.lookup path = x, fs'.lookup path = x' at hleads
  cases hleads with
  | error e => rfl
  | changed old new hlast => rfl
  | @alike e e' hbelow =>
    cases e with
    | file content => rw [hbelow.eq_of_file]
    | directory entries =>
      obtain ⟨entries', rfl⟩ := hbelow.exists_directory
      exact hbelow.inOrder_solidityFilesBelow_eq path

theorem solidityFiles_cases {disk : Disk} (h : disk.solidityFiles path = .ok files) :
    (∃ entries, disk.lookup path = .ok (.directory entries) ∧
      inOrder (solidityFilesBelow path entries) = .ok files) ∨ files = [path] := by
  rw [solidityFiles] at h
  split at h
  · rename_i entries hdir
    exact .inl ⟨entries, hdir, h⟩
  · exact .inr (Except.ok.inj h).symm

theorem readText_of_editedAt (hwf : fs.WellFormed) (h : EditedAt file fs fs')
    (hfiles : (ofFiles fs).solidityFiles path = .ok files) (hfile : file ∈ files)
    {other : String} (hother : other ∈ files) (hne : other ≠ file) :
    (ofFiles fs').readText other = (ofFiles fs).readText other := by
  obtain ⟨name, halike, -⟩ := h.exists_alike
  obtain ⟨hcurrent, -, old, new, hcontent, hold, hnew⟩ := h
  rcases solidityFiles_cases hfiles with ⟨entries, hdir, hlisted⟩ | rfl
  · have hwfdir := hwf.of_lookup hdir
    obtain ⟨entries', hdir', hbelow⟩ := lookup_directory_of_alike hcurrent halike hdir
    obtain ⟨way, hwayne, hway, rfl, -⟩ := exists_names_of_mem hwfdir hlisted hfile
    obtain ⟨way', hwayne', hway', rfl, -⟩ := exists_names_of_mem hwfdir hlisted hother
    rw [lookup_below hdir hwayne hway] at hold
    rw [lookup_below hdir' hwayne hway] at hnew
    refine readText_eq_of_lookup ?_
    rw [lookup_below hdir hwayne' hway', lookup_below hdir' hwayne' hway']
    split
    · exact .inl rfl
    · split at hold
      · exact absurd hold nofun
      · rename_i hrefused
        simp only [hrefused] at hnew
        rcases hbelow with heq | ⟨names, hdiffer⟩
        · exact .inl (by rw [heq])
        · have hat := hdiffer.eq_of_descend hway hcontent hold hnew
          refine hdiffer.descend_eq_or hway' (fun hat' ↦ hne ?_) [] []
          rw [hat', hat]
  · rw [List.mem_singleton] at hfile hother
    exact absurd (hother.trans hfile.symm) hne

/-- A file that is read for another purpose than to be audited does not differ, if its name has
another extension. -/
theorem readText_of_extension (hwf : fs.WellFormed) (h : EditedAt file fs fs')
    (hfiles : (ofFiles fs).solidityFiles path = .ok files) (hfile : file ∈ files) :
    files = [file] ∨ ∀ other, extension? other ≠ some "sol" →
      (ofFiles fs').readText other = (ofFiles fs).readText other := by
  obtain ⟨name, halike, hlast⟩ := h.exists_alike
  rcases solidityFiles_cases hfiles with ⟨entries, hdir, hlisted⟩ | rfl
  · refine .inr fun other hother ↦ ?_
    obtain ⟨way, hwayne, hway, rfl, hext⟩ := exists_names_of_mem (hwf.of_lookup hdir) hlisted hfile
    have hname : IsName name := by
      rw [pieces_below path hwayne hway, List.getLast?_append_of_ne_nil _ hwayne] at hlast
      exact hway name (List.mem_of_getLast? hlast)
    rw [extension?_eq_of_getLast? hname hlast] at hext
    have hleads := lookup_leads h.current halike other
    refine readText_eq_of_lookup ?_
    generalize fs.lookup other = x, fs'.lookup other = x' at hleads
    cases hleads with
    | error e => exact .inl rfl
    | changed old new hlast' =>
      rw [getLast?_route] at hlast'
      rw [extension?_eq_of_getLast? hname hlast'] at hother
      exact absurd hext hother
    | @alike e e' hbelow =>
      cases e with
      | file content => exact .inl (by rw [hbelow.eq_of_file])
      | directory found =>
        obtain ⟨found', rfl⟩ := hbelow.exists_directory
        exact .inr ⟨found, found', rfl, rfl⟩
  · exact .inl (by rw [List.mem_singleton.mp hfile])

end Disk

end ContractAudit
