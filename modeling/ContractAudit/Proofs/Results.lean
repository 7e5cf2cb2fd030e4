import Mathlib.Data.List.Forall2
import Mathlib.Data.List.Nodup

namespace ContractAudit

section

variable {ε ε' α β : Type}

theorem bind_eq_ok_iff {x : Except ε α} {next : α → Except ε β} {b : β} :
    x >>= next = .ok b ↔ ∃ a, x = .ok a ∧ next a = .ok b := by
  cases x <;> simp [bind, Except.bind]

theorem mapError_eq_ok_iff {x : Except ε α} {f : ε → ε'} {a : α} :
    x.mapError f = .ok a ↔ x = .ok a := by
  cases x <;> simp [Except.mapError]

theorem map_eq_ok_iff {x : Except ε α} {f : α → β} {b : β} :
    x.map f = .ok b ↔ ∃ a, x = .ok a ∧ f a = b := by
  cases x <;> simp [Except.map]

theorem exists_ok_iff {x : Except ε α} :
    (∃ a, x = .ok a) ↔ ¬ ∃ e, x = .error e := by
  cases x <;> simp

theorem isOk_eq_of_map_eq {f : α → β} {x x' : Except ε α}
    (h : x'.map f = x.map f) : x'.isOk = x.isOk := by
  cases x with
  | error e =>
    cases x' with
    | error e' => rfl
    | ok y' => exact absurd h nofun
  | ok y =>
    cases x' with
    | error e' => exact absurd h nofun
    | ok y' => rfl

theorem mapM_eq_ok_iff {f : α → Except ε β} {xs : List α} {ys : List β} :
    xs.mapM f = .ok ys ↔ List.Forall₂ (fun x y ↦ f x = .ok y) xs ys := by
  induction xs generalizing ys with
  | nil =>
    rw [List.mapM_nil, List.forall₂_nil_left_iff]
    exact ⟨fun h ↦ (Except.ok.inj h).symm, fun h ↦ h ▸ rfl⟩
  | cons x xs ih =>
    rw [List.mapM_cons, bind_eq_ok_iff, List.forall₂_cons_left_iff]
    constructor
    · rintro ⟨y, hy, h⟩
      obtain ⟨ys, hys, h⟩ := bind_eq_ok_iff.mp h
      exact ⟨y, ys, hy, ih.mp hys, (Except.ok.inj h).symm⟩
    · rintro ⟨y, ys, hy, hys, rfl⟩
      exact ⟨y, hy, bind_eq_ok_iff.mpr ⟨ys, ih.mpr hys, rfl⟩⟩

theorem option_mapM_eq_ok_iff {f : α → Except ε β} {x : Option α} {y : Option β} :
    x.mapM f = .ok y ↔ Option.Rel (fun a b ↦ f a = .ok b) x y := by
  cases x with
  | none =>
    constructor
    · intro h
      obtain rfl := Except.ok.inj h
      exact .none
    · rintro ⟨⟩
      rfl
  | some a =>
    have hmap : (some a).mapM f = (f a).map some := rfl
    rw [hmap, map_eq_ok_iff]
    constructor
    · rintro ⟨b, hb, rfl⟩
      exact .some hb
    · rintro ⟨hb⟩
      exact ⟨_, hb, rfl⟩

theorem exists_of_mapM_eq_error {f : α → Except ε β} {xs : List α} {e : ε}
    (h : xs.mapM f = .error e) : ∃ x ∈ xs, f x = .error e := by
  induction xs with
  | nil => exact absurd h nofun
  | cons x xs ih =>
    rw [List.mapM_cons] at h
    cases hx : f x with
    | error e' =>
      rw [hx] at h
      exact ⟨x, List.mem_cons_self, hx.trans (congrArg _ (Except.error.inj h))⟩
    | ok y =>
      cases hxs : xs.mapM f with
      | error e' =>
        rw [hx, hxs] at h
        obtain ⟨x', hx', herror⟩ := ih (hxs.trans h)
        exact ⟨x', List.mem_cons_of_mem _ hx', herror⟩
      | ok ys =>
        rw [hx, hxs] at h
        exact absurd h nofun

theorem mapM_eq_error_of_first {f : α → Except ε β} {before after : List α} {x : α} {e : ε}
    (hbefore : ∀ b ∈ before, ∃ y, f b = .ok y) (hx : f x = .error e) :
    (before ++ x :: after).mapM f = .error e := by
  induction before with
  | nil =>
    rw [List.nil_append, List.mapM_cons, hx]
    rfl
  | cons b before ih =>
    obtain ⟨y, hy⟩ := hbefore b List.mem_cons_self
    rw [List.cons_append, List.mapM_cons, hy, ih fun b hb ↦ hbefore b (List.mem_cons_of_mem _ hb)]
    rfl

end

section

variable {α β : Type} {R : α → β → Prop} {xs : List α} {ys : List β}

theorem exists_right_of_forall₂ (h : List.Forall₂ R xs ys) {x : α} (hx : x ∈ xs) :
    ∃ y ∈ ys, R x y := by
  induction h with
  | nil => exact absurd hx List.not_mem_nil
  | @cons x' y xs ys hxy h ih =>
    rcases List.mem_cons.mp hx with rfl | hx
    · exact ⟨y, List.mem_cons_self, hxy⟩
    · obtain ⟨y', hy', hR⟩ := ih hx
      exact ⟨y', List.mem_cons_of_mem _ hy', hR⟩

theorem forall₂_iff_of_mem {S : α → β → Prop} (h : ∀ x ∈ xs, ∀ y, R x y ↔ S x y) :
    List.Forall₂ R xs ys ↔ List.Forall₂ S xs ys := by
  induction xs generalizing ys with
  | nil => rw [List.forall₂_nil_left_iff, List.forall₂_nil_left_iff]
  | cons x xs ih =>
    have ih (zs : List β) := @ih zs fun x hx ↦ h x (List.mem_cons_of_mem _ hx)
    simp only [List.forall₂_cons_left_iff, h x List.mem_cons_self, ih]

theorem exists_left_of_forall₂ (h : List.Forall₂ R xs ys) {y : β} (hy : y ∈ ys) :
    ∃ x ∈ xs, R x y :=
  exists_right_of_forall₂ (List.Forall₂.flip h) hy

theorem forall₂_filter_filterMap {p : α → Prop} [DecidablePred p] {pick : α → Option β}
    {items : List α} (hp : ∀ a ∈ items, p a → ∃ b, pick a = some b ∧ R a b)
    (hn : ∀ a ∈ items, ¬ p a → pick a = none) :
    List.Forall₂ R (items.filter p) (items.filterMap pick) := by
  induction items with
  | nil => exact .nil
  | cons a items ih =>
    have hrest := ih (fun b hb ↦ hp b (List.mem_cons_of_mem _ hb))
      fun b hb ↦ hn b (List.mem_cons_of_mem _ hb)
    by_cases ha : p a
    · obtain ⟨b, hb, hr⟩ := hp a List.mem_cons_self ha
      rw [List.filter_cons_of_pos (by simpa using ha), List.filterMap_cons_some hb]
      exact .cons hr hrest
    · rw [List.filter_cons_of_neg (by simpa using ha),
        List.filterMap_cons_none (hn a List.mem_cons_self ha)]
      exact hrest

theorem forall₂_filter_map {γ : Type} {pick : α → Option γ} {make : α → γ → β}
    (h : ∀ a c, pick a = some c → R a (make a c)) (items : List α) :
    List.Forall₂ R (items.filter fun a ↦ (pick a).isSome)
      (items.filterMap fun a ↦ (pick a).map (make a)) := by
  have hpicked : List.Forall₂ R (items.filter fun a ↦ decide ((pick a).isSome = true))
      (items.filterMap fun a ↦ (pick a).map (make a)) := by
    refine forall₂_filter_filterMap (fun a _ ha ↦ ?_) fun a _ ha ↦ ?_
    · obtain ⟨c, hc⟩ := Option.isSome_iff_exists.mp ha
      exact ⟨make a c, by rw [hc, Option.map_some], h a c hc⟩
    · rw [Option.not_isSome_iff_eq_none.mp ha, Option.map_none]
  simpa only [Bool.decide_eq_true] using hpicked

end

theorem exists_first {α : Type} {p : α → Prop} {items : List α} (h : ∃ a ∈ items, p a) :
    ∃ before a after, items = before ++ a :: after ∧ (∀ b ∈ before, ¬ p b) ∧ p a := by
  classical
  have hsome : (items.find? fun a ↦ decide (p a)).isSome := by simpa using h
  obtain ⟨a, ha⟩ := Option.isSome_iff_exists.mp hsome
  obtain ⟨hp, before, after, rfl, hb⟩ := List.find?_eq_some_iff_append.mp ha
  exact ⟨before, a, after, rfl, by simpa using hb, by simpa using hp⟩

theorem nodup_flatMap_map {α β γ κ : Type} {join : κ → β → γ} (hjoin : Function.Injective2 join)
    {items : List α} {key : α → κ} (hkeys : (items.map key).Nodup) {rest : α → List β}
    (hrest : ∀ x ∈ items, (rest x).Nodup) :
    (items.flatMap fun x ↦ (rest x).map (join (key x))).Nodup := by
  rw [List.nodup_flatMap]
  refine ⟨fun x hx ↦ (hrest x hx).map (hjoin.right (key x)), ?_⟩
  apply (List.pairwise_map.mp hkeys).imp
  intro x y hne entry hx hy
  obtain ⟨b, -, rfl⟩ := List.mem_map.mp hx
  obtain ⟨b', -, heq⟩ := List.mem_map.mp hy
  exact hne (hjoin heq).1.symm

end ContractAudit
