import ContractAudit.Detector.Registry
import Mathlib

namespace ContractAudit.Registry

variable {r : Registry} {names : List DetectorId}

theorem ids_place (d : Detector) (ds : List Detector) :
    (place d ds).map (·.id) =
      if d.id ∈ ds.map (·.id) then ds.map (·.id) else ds.map (·.id) ++ [d.id] := by
  induction ds with
  | nil => simp [place]
  | cons e ds ih =>
    rw [place]
    by_cases he : e.id = d.id
    · simp [he]
    · have hne : d.id ≠ e.id := fun h ↦ he h.symm
      rw [if_neg he, List.map_cons, ih]
      by_cases hd : d.id ∈ ds.map (·.id)
      · simp [hd]
      · simp [hd, hne]

theorem find?_place (d : Detector) (ds : List Detector) (id : DetectorId) :
    (place d ds).find? (·.id = id) =
      if d.id = id then some d else ds.find? (·.id = id) := by
  induction ds with
  | nil => by_cases hd : d.id = id <;> simp [place, hd]
  | cons e ds ih =>
    rw [place]
    by_cases he : e.id = d.id
    · rw [if_pos he]
      by_cases hd : d.id = id
      · simp [hd]
      · simp [he, hd]
    · rw [if_neg he, List.find?_cons, ih]
      by_cases hid : e.id = id
      · have hd : d.id ≠ id := fun h ↦ he (hid.trans h.symm)
        simp [hid, hd]
      · simp [hid]

theorem ids_register (r : Registry) (d : Detector) :
    (r.register d).ids = if d.id ∈ r.ids then r.ids else r.ids ++ [d.id] :=
  ids_place d r.detectors

/-- The members of `names`, each once, in the order of their first occurrences. -/
structure InFirstOrder (names ids : List DetectorId) : Prop where
  mem : ∀ id, id ∈ ids ↔ id ∈ names
  pairwise : ids.Pairwise fun a b ↦ names.idxOf a < names.idxOf b

theorem InFirstOrder.nodup {ids : List DetectorId} (h : InFirstOrder names ids) : ids.Nodup :=
  h.pairwise.imp fun hlt heq ↦ absurd (heq ▸ hlt) (lt_irrefl _)

theorem InFirstOrder.register (h : InFirstOrder names r.ids) (d : Detector) :
    InFirstOrder (names ++ [d.id]) (r.register d).ids := by
  -- One more name at the end moves no first occurrence.
  have hkept : r.ids.Pairwise fun a b ↦
      (names ++ [d.id]).idxOf a < (names ++ [d.id]).idxOf b := by
    refine h.pairwise.imp_of_mem fun {a b} ha hb hlt ↦ ?_
    rwa [List.idxOf_append_of_mem ((h.mem a).mp ha), List.idxOf_append_of_mem ((h.mem b).mp hb)]
  rw [ids_register]
  by_cases hd : d.id ∈ r.ids
  · rw [if_pos hd]
    refine ⟨fun id ↦ ?_, hkept⟩
    have hname := (h.mem d.id).mp hd
    rw [h.mem, List.mem_append, List.mem_singleton]
    exact ⟨.inl, fun hid ↦ hid.elim (·) fun heq ↦ heq ▸ hname⟩
  · rw [if_neg hd]
    refine ⟨fun id ↦ by rw [List.mem_append, List.mem_append, h.mem], ?_⟩
    refine List.pairwise_append.mpr ⟨hkept, List.pairwise_singleton _ _, fun a ha b hb ↦ ?_⟩
    have hname : d.id ∉ names := fun hd' ↦ hd ((h.mem d.id).mpr hd')
    have ha := (h.mem a).mp ha
    rw [List.mem_singleton.mp hb, List.idxOf_append_of_mem ha, List.idxOf_append_of_notMem hname]
    exact Nat.lt_add_right _ (List.idxOf_lt_length_of_mem ha)

theorem InFirstOrder.foldl_register (h : InFirstOrder names r.ids) (ds : List Detector) :
    InFirstOrder (names ++ ds.map (·.id)) (ds.foldl Registry.register r).ids := by
  induction ds generalizing r names with
  | nil => simpa using h
  | cons d ds ih =>
    have hstep := ih (h.register d)
    rwa [List.append_assoc] at hstep

theorem find?_foldl_register (r : Registry) (ds : List Detector) (id : DetectorId) :
    (ds.foldl register r).detectors.find? (·.id = id) =
      (ds.reverse.find? (·.id = id)).or (r.detectors.find? (·.id = id)) := by
  induction ds generalizing r with
  | nil => rfl
  | cons d ds ih =>
    have hstep : (r.register d).detectors.find? (·.id = id) =
        if d.id = id then some d else r.detectors.find? (·.id = id) := find?_place d r.detectors id
    rw [List.foldl_cons, ih, hstep, List.reverse_cons, List.find?_append]
    by_cases hd : d.id = id <;> simp [hd]

theorem ids_foldl_register_of_subset {ds : List Detector} (h : ∀ d ∈ ds, d.id ∈ r.ids) :
    (ds.foldl register r).ids = r.ids := by
  induction ds generalizing r with
  | nil => rfl
  | cons d ds ih =>
    have hd : (r.register d).ids = r.ids := by
      rw [ids_register, if_pos (h d List.mem_cons_self)]
    rw [List.foldl_cons, ih fun e he ↦ hd ▸ h e (List.mem_cons_of_mem _ he), hd]

theorem mem_detectors_iff (h : r.ids.Nodup) (d : Detector) :
    d ∈ r.detectors ↔ r.detectors.find? (·.id = d.id) = some d := by
  constructor
  · intro hd
    obtain ⟨e, he⟩ : ∃ e, r.detectors.find? (·.id = d.id) = some e :=
      Option.isSome_iff_exists.mp (List.find?_isSome.mpr ⟨d, hd, by simp⟩)
    have hid : e.id = d.id := by simpa using List.find?_some he
    rw [he, List.inj_on_of_nodup_map h (List.mem_of_find?_eq_some he) hd hid]
  · exact List.mem_of_find?_eq_some

inductive Step where
  | detector (d : Detector)
  | builtin

def Step.registered : Step → List Detector
  | .detector d => [d]
  | .builtin => builtinDetectors

def Step.apply (r : Registry) : Step → Registry
  | .detector d => r.register d
  | .builtin => r.registerBuiltin

def ofSteps (steps : List Step) : Registry := steps.foldl Step.apply empty

theorem Step.apply_eq (r : Registry) (step : Step) :
    step.apply r = step.registered.foldl register r := by
  cases step <;> rfl

theorem ofSteps_eq (steps : List Step) :
    ofSteps steps = (steps.flatMap Step.registered).foldl register empty := by
  rw [ofSteps, List.foldl_flatMap]
  exact List.foldl_ext _ _ _ fun r step _ ↦ step.apply_eq r

theorem ofSteps_inFirstOrder (steps : List Step) :
    InFirstOrder ((steps.flatMap Step.registered).map (·.id)) (ofSteps steps).ids := by
  have hempty : InFirstOrder [] empty.ids := ⟨fun _ ↦ .rfl, .nil⟩
  rw [ofSteps_eq]
  exact hempty.foldl_register _

theorem ids_ofSteps_builtin (before after : List Step) :
    (ofSteps (before ++ .builtin :: after ++ [.builtin])).ids =
      (ofSteps (before ++ .builtin :: after)).ids := by
  have hlast : ofSteps (before ++ .builtin :: after ++ [.builtin]) =
      builtinDetectors.foldl register (ofSteps (before ++ .builtin :: after)) := by
    rw [ofSteps, List.foldl_append]
    rfl
  rw [hlast]
  refine ids_foldl_register_of_subset fun d hd ↦ ?_
  rw [(ofSteps_inFirstOrder _).mem]
  have hmem : d ∈ (before ++ .builtin :: after).flatMap Step.registered :=
    List.mem_flatMap.mpr ⟨.builtin, by simp, hd⟩
  exact List.mem_map_of_mem hmem

theorem mem_selected {ids : List DetectorId} {d : Detector} :
    d ∈ r.selected ids ↔ d ∈ r.detectors ∧ d.id ∈ ids := by
  simp [selected]

theorem selected_eq_iff (r : Registry) (ids others : List DetectorId) :
    r.selected ids = r.selected others ↔ ∀ id ∈ r.ids, id ∈ ids ↔ id ∈ others := by
  constructor
  · intro h id hid
    obtain ⟨d, hd, rfl⟩ := List.mem_map.mp hid
    have hboth : d ∈ r.selected ids ↔ d ∈ r.selected others := by rw [h]
    rw [mem_selected, mem_selected, and_iff_right hd, and_iff_right hd] at hboth
    exact hboth
  · intro h
    refine List.filter_congr fun d hd ↦ ?_
    have hid := h d.id (List.mem_map_of_mem hd)
    simpa using hid

/-- After any steps a registry lists each registered name once, by first registration, and holds the
detector that was registered last under it. A selection follows the registry and depends only on
which of the registered names are selected. -/
theorem ofSteps_first_last (steps : List Step) :
    let registered := steps.flatMap Step.registered
    let r := ofSteps steps
    r.ids.Nodup ∧ (∀ id, id ∈ r.ids ↔ ∃ d ∈ registered, d.id = id) ∧
    r.ids.Pairwise (fun a b ↦
      (registered.map (·.id)).idxOf a < (registered.map (·.id)).idxOf b) ∧
    (∀ d, d ∈ r.detectors ↔ registered.reverse.find? (·.id = d.id) = some d) ∧
    (∀ more : List Step, (ofSteps (steps ++ .builtin :: more ++ [.builtin])).ids =
      (ofSteps (steps ++ .builtin :: more)).ids) ∧
    (∀ ids, (r.selected ids).Sublist r.detectors ∧
      ∀ d, d ∈ r.selected ids ↔ d ∈ r.detectors ∧ d.id ∈ ids) ∧
    ∀ ids others,
      r.selected ids = r.selected others ↔ ∀ id ∈ r.ids, id ∈ ids ↔ id ∈ others := by
  intro registered r
  have horder : InFirstOrder (registered.map (·.id)) r.ids := ofSteps_inFirstOrder steps
  refine ⟨horder.nodup, fun id ↦ ?_, horder.pairwise, fun d ↦ ?_, ids_ofSteps_builtin steps,
    fun ids ↦ ⟨List.filter_sublist, fun d ↦ mem_selected⟩, selected_eq_iff r⟩
  · rw [horder.mem, List.mem_map]
  · have hfind : r.detectors.find? (·.id = d.id) = registered.reverse.find? (·.id = d.id) := by
      have hfold := find?_foldl_register empty registered d.id
      rw [← ofSteps_eq] at hfold
      exact hfold.trans (Option.or_none)
    rw [mem_detectors_iff horder.nodup, hfind]

end ContractAudit.Registry
