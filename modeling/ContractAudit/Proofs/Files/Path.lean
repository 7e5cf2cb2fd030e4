import Mathlib
import ContractAudit.Files.Path
import ContractAudit.Proofs.Text.Split

namespace ContractAudit.Path

open Text

/-- What an entry of a directory can be called. -/
structure IsName (name : String) : Prop where
  ne_empty : name ≠ ""
  ne_dot : name ≠ "."
  ne_dots : name ≠ ".."
  no_slash : '/' ∉ name.toList

instance (name : String) : Decidable (IsName name) :=
  decidable_of_iff (name ≠ "" ∧ name ≠ "." ∧ name ≠ ".." ∧ '/' ∉ name.toList)
    ⟨fun ⟨h₁, h₂, h₃, h₄⟩ ↦ ⟨h₁, h₂, h₃, h₄⟩, fun ⟨h₁, h₂, h₃, h₄⟩ ↦ ⟨h₁, h₂, h₃, h₄⟩⟩

def stem (path : String) : List String :=
  if endsWith ['/'] path.toList then (pieces path).dropLast else pieces path

/-- The path to which names lead from a directory. -/
def below (path : String) (names : List String) : String := names.foldl join path

theorem pieces_ne_nil (path : String) : pieces path ≠ [] :=
  fun h ↦ splitAt_ne_nil '/' path.toList (List.map_eq_nil_iff.mp h)

theorem pieces_of_slash {path : String} {front : List Char} (h : path.toList = front ++ ['/']) :
    pieces path = (splitAt '/' front).map String.ofList ++ [""] := by
  rw [pieces, h, splitAt_append_sep, List.map_append]
  rfl

theorem stem_of_slash {path : String} {front : List Char} (h : path.toList = front ++ ['/']) :
    stem path = (splitAt '/' front).map String.ofList := by
  rw [stem, if_pos (endsWith_singleton.mpr ⟨front, h⟩), pieces_of_slash h, List.dropLast_concat]

theorem stem_of_not_endsWith {path : String} (h : ¬ endsWith ['/'] path.toList) :
    stem path = pieces path :=
  if_neg h

theorem pieces_eq_stem_or (path : String) :
    pieces path = stem path ∨ pieces path = stem path ++ [""] := by
  by_cases h : endsWith ['/'] path.toList
  · obtain ⟨front, hfront⟩ := endsWith_singleton.mp h
    exact .inr (by rw [stem_of_slash hfront, pieces_of_slash hfront])
  · exact .inl (stem_of_not_endsWith h).symm

theorem pieces_join (path : String) {name : String} (h : IsName name) :
    pieces (join path name) = stem path ++ [name] := by
  have hname : (splitAt '/' name.toList).map String.ofList = [name] := by
    rw [splitAt_of_not_mem h.no_slash, List.map_singleton, String.ofList_toList]
  by_cases hend : endsWith ['/'] path.toList
  · obtain ⟨front, hfront⟩ := endsWith_singleton.mp hend
    have hjoin : (join path name).toList = front ++ '/' :: name.toList := by
      rw [join, if_pos hend, String.toList_append, hfront, List.append_assoc]
      rfl
    rw [stem_of_slash hfront, pieces, hjoin, splitAt_append_sep, List.map_append, hname]
  · have hjoin : (join path name).toList = path.toList ++ '/' :: name.toList := by
      rw [join, if_neg hend, String.toList_append, String.toList_append, List.append_assoc]
      rfl
    rw [stem_of_not_endsWith hend, pieces, hjoin, splitAt_append_sep, List.map_append, hname]
    rfl

theorem stem_join (path : String) {name : String} (h : IsName name) :
    stem (join path name) = stem path ++ [name] := by
  have hpieces := pieces_join path h
  rcases pieces_eq_stem_or (join path name) with hstem | hstem
  · rw [← hstem, hpieces]
  · -- A path with a slash at its end has an empty last part, which is no name.
    rw [hpieces] at hstem
    have hlast := (List.append_inj' hstem rfl).2
    exact absurd (List.singleton_inj.mp hlast) h.ne_empty

theorem pieces_below (path : String) {names : List String} (hne : names ≠ [])
    (h : ∀ name ∈ names, IsName name) : pieces (below path names) = stem path ++ names := by
  induction names generalizing path with
  | nil => exact absurd rfl hne
  | cons name names ih =>
    have hname := h name List.mem_cons_self
    cases names with
    | nil => exact pieces_join path hname
    | cons next names =>
      have hbelow := ih (join path name) (List.cons_ne_nil _ _)
        fun n hn ↦ h n (List.mem_cons_of_mem _ hn)
      rw [stem_join path hname, List.append_assoc] at hbelow
      exact hbelow

theorem join_eq_append (path name : String) : ∃ more, join path name = path ++ more := by
  rw [join]
  split
  · exact ⟨name, rfl⟩
  · exact ⟨"/" ++ name, String.append_assoc⟩

theorem isAbsolute_below {path : String} (hne : path ≠ "") (names : List String) :
    isAbsolute (below path names) = isAbsolute path := by
  induction names generalizing path with
  | nil => rfl
  | cons name names ih =>
    obtain ⟨more, hmore⟩ := join_eq_append path name
    have htoList : path.toList ≠ [] := fun h ↦ hne (String.toList_eq_nil_iff.mp h)
    have hjoin : isAbsolute (join path name) = isAbsolute path := by
      rw [isAbsolute, isAbsolute, hmore, String.toList_append,
        List.head?_append_of_ne_nil _ htoList]
    refine (ih fun h ↦ ?_).trans hjoin
    rw [hmore, ← String.toList_inj, String.toList_append] at h
    exact htoList (List.append_eq_nil_iff.mp h).1

theorem extension?_eq_of_getLast? {path name : String} (h : IsName name)
    (hlast : (pieces path).getLast? = some name) : extension? path = nameExtension? name := by
  obtain ⟨front, hfront⟩ := List.getLast?_eq_some_iff.mp hlast
  have hfile : fileName? path = some name := by
    rw [fileName?, hfront, List.filter_append]
    have hkept : [name].filter (fun piece ↦ piece != "" && piece != ".") = [name] := by
      simp [h.ne_empty, h.ne_dot]
    rw [hkept, List.getLast?_concat]
    split
    · rename_i heq
      exact absurd (Option.some.inj heq) h.ne_dots
    · rfl
  rw [extension?, hfile]
  rfl

def HasExtension (name ext : String) : Prop :=
  ∃ front : List Char, front ≠ [] ∧ name.toList = front ++ '.' :: ext.toList ∧ '.' ∉ ext.toList

theorem nameExtension?_of_dot {name : String} {front back : List Char}
    (hname : name.toList = front ++ '.' :: back) (hback : '.' ∉ back) :
    nameExtension? name = if front = [] then none else some (String.ofList back) := by
  rw [nameExtension?, hname, splitAt_append_sep, splitAt_of_not_mem hback, List.reverse_append,
    List.reverse_singleton, List.singleton_append]
  by_cases hfront : front = []
  · subst hfront
    rfl
  · have hne : (splitAt '.' front).reverse ≠ [] := fun h ↦
      splitAt_ne_nil '.' front (List.reverse_eq_nil_iff.mp h)
    have hne' : (splitAt '.' front).reverse ≠ [[]] := fun h ↦
      splitAt_ne_singleton_nil hfront (List.reverse_eq_iff.mp h)
    rw [if_neg hfront]
    split <;> simp_all

theorem nameExtension?_eq_some_iff {name ext : String} :
    nameExtension? name = some ext ↔ HasExtension name ext := by
  constructor
  · intro h
    by_cases hdot : '.' ∈ name.toList
    · obtain ⟨back, front, hrev, hback⟩ :=
        List.eq_append_cons_of_mem (List.mem_reverse.mpr hdot)
      have hname : name.toList = front.reverse ++ '.' :: back.reverse := by
        rw [← List.reverse_reverse name.toList, hrev]
        simp
      rw [nameExtension?_of_dot hname (by simpa using hback)] at h
      split at h
      · exact absurd h nofun
      · rename_i hfront
        obtain rfl := Option.some.inj h
        refine ⟨front.reverse, hfront, ?_, ?_⟩
        · rw [String.toList_ofList, hname]
        · rw [String.toList_ofList, List.mem_reverse]
          exact hback
    · rw [nameExtension?, splitAt_of_not_mem hdot] at h
      exact absurd h nofun
  · rintro ⟨front, hfront, hname, hext⟩
    rw [nameExtension?_of_dot hname hext, if_neg hfront, String.ofList_toList]

end ContractAudit.Path
