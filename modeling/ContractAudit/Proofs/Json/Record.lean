import ContractAudit.Json.Record
import Mathlib

namespace ContractAudit.Json

variable {α : Type} {read : Json → Option α} {write : α → Json}

def given (fields : List (String × Option Json)) : List (String × Json) :=
  fields.filterMap fun field ↦ field.2.map (field.1, ·)

theorem given_cons (field : String × Option Json) (fields : List (String × Option Json)) :
    given (field :: fields) = (field.2.map (field.1, ·)).toList ++ given fields := by
  cases h : field.2 <;> simp [given, h]

theorem names_given_subset (fields : List (String × Option Json)) :
    (given fields).map Prod.fst ⊆ fields.map Prod.fst := by
  intro name hname
  obtain ⟨entry, hentry, rfl⟩ := List.mem_map.mp hname
  obtain ⟨field, hfield, hvalue⟩ := List.mem_filterMap.mp hentry
  obtain ⟨value, -, rfl⟩ := Option.map_eq_some_iff.mp hvalue
  exact List.mem_map_of_mem hfield

theorem occurrences_eq_count (fields : List (String × Json)) (name : String) :
    occurrences fields name = (fields.map Prod.fst).count name := by
  rw [occurrences, List.count, List.countP_map]
  rfl

theorem field?_of_not_mem {fields : List (String × Json)} {name : String}
    (h : name ∉ fields.map Prod.fst) : field? fields name = none := by
  induction fields with
  | nil => rfl
  | cons field fields ih =>
    simp only [List.map_cons, List.mem_cons, not_or] at h
    rw [field?, if_neg fun heq ↦ h.1 heq.symm, ih h.2]

theorem nodup_names_given {fields : List (String × Option Json)}
    (h : (fields.map Prod.fst).Nodup) : ((given fields).map Prod.fst).Nodup := by
  induction fields with
  | nil => exact .nil
  | cons field fields ih =>
    obtain ⟨hfield, hfields⟩ := List.nodup_cons.mp h
    rw [given_cons]
    cases field.2 with
    | none => exact ih hfields
    | some value =>
      exact List.nodup_cons.mpr ⟨fun hname ↦ hfield (names_given_subset _ hname), ih hfields⟩

theorem map_field?_given {fields : List (String × Option Json)}
    (h : (fields.map Prod.fst).Nodup) :
    (fields.map Prod.fst).map (field? (given fields)) = fields.map Prod.snd := by
  induction fields with
  | nil => rfl
  | cons field fields ih =>
    obtain ⟨name, value⟩ := field
    obtain ⟨hname, hfields⟩ := List.nodup_cons.mp h
    have hnone : field? (given fields) name = none :=
      field?_of_not_mem fun hmem ↦ hname (names_given_subset _ hmem)
    -- The other names are not that of the first field, so it plays no part in their look-up.
    have hrest (other : String) (hother : other ∈ fields.map Prod.fst) :
        field? (given ((name, value) :: fields)) other = field? (given fields) other := by
      have hne : name ≠ other := fun heq ↦ hname (heq ▸ hother)
      cases value with
      | none => rfl
      | some value => exact if_neg hne
    have hfirst : field? (given ((name, value) :: fields)) name = value := by
      cases value with
      | none => exact hnone
      | some value => exact if_pos rfl
    rw [List.map_cons, List.map_cons, List.map_cons, hfirst, List.map_congr_left hrest,
      ih hfields]

/-- A record is read as it was written. -/
theorem record?_given (fields : List (String × Option Json)) (h : (fields.map Prod.fst).Nodup)
    (least : Nat) :
    record? (fields.map Prod.fst) least (.object (given fields)) =
      some (fields.map Prod.snd) := by
  have hone : (fields.map Prod.fst).all (occurrences (given fields) · ≤ 1) := by
    simp only [List.all_eq_true, decide_eq_true_eq, occurrences_eq_count]
    exact fun name _ ↦ List.nodup_iff_count_le_one.mp (nodup_names_given h) name
  rw [record?, if_pos hone, map_field?_given h]

section

variable {fields : List (String × Json)} {name : String} {value : Json}

theorem field?_of_mem (hn : (fields.map Prod.fst).Nodup) (h : (name, value) ∈ fields) :
    field? fields name = some value := by
  induction fields with
  | nil => cases h
  | cons field fields ih =>
    obtain ⟨key, first⟩ := field
    obtain ⟨hkey, hrest⟩ := List.nodup_cons.mp hn
    rw [field?]
    rcases List.mem_cons.mp h with heq | h
    · cases heq
      exact if_pos rfl
    · rw [if_neg fun heq ↦ hkey (List.mem_map.mpr ⟨_, h, heq.symm⟩), ih hrest h]

theorem mem_of_field? (h : field? fields name = some value) :
    (name, value) ∈ fields := by
  induction fields with
  | nil => cases h
  | cons field fields ih =>
    obtain ⟨key, first⟩ := field
    rw [field?] at h
    split at h
    next hkey =>
      cases h
      exact hkey ▸ List.mem_cons_self
    next => exact List.mem_cons_of_mem _ (ih h)

theorem depth_le_depthFields (h : (name, value) ∈ fields) :
    value.depth ≤ depthFields fields := by
  induction fields with
  | nil => cases h
  | cons field fields ih =>
    obtain ⟨key, first⟩ := field
    rw [depthFields]
    rcases List.mem_cons.mp h with heq | h
    · cases heq
      omega
    · have hle := ih h
      omega

theorem depth_le_depthItems {item : Json} {items : List Json} (h : item ∈ items) :
    item.depth ≤ depthItems items := by
  induction items with
  | nil => cases h
  | cons first items ih =>
    rw [depthItems]
    rcases List.mem_cons.mp h with rfl | h
    · omega
    · have hle := ih h
      omega

end

theorem nat64?_nat {n : Nat} (h : n < UInt64.size) : (nat n).nat64? = some n := if_pos h

theorem optional?_map {value : Option α}
    (h : ∀ a, value = some a → read (write a) = some a ∧ write a ≠ .null) :
    optional? read (value.map write) = some value := by
  cases value with
  | none => rfl
  | some a =>
    obtain ⟨hread, hnull⟩ := h a rfl
    rw [Option.map_some, optional?, hread]
    · rfl
    · exact hnull

theorem list?_map {items : List α} (h : ∀ a ∈ items, read (write a) = some a) :
    list? read (.array (items.map write)) = some items := by
  rw [list?]
  induction items with
  | nil => rfl
  | cons a items ih =>
    have hrest := ih fun b hb ↦ h b (List.mem_cons_of_mem _ hb)
    simp [List.mapM_cons, h a List.mem_cons_self, hrest]

end ContractAudit.Json
