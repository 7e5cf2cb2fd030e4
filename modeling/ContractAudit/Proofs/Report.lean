import ContractAudit.Report.Basic
import Mathlib

namespace ContractAudit

namespace Buckets

theorem get_insert (f : Finding) (b : Buckets) (s : Severity) :
    (b.insert f).get s = if f.severity = s then f :: b.get s else b.get s := by
  unfold insert
  cases hf : f.severity <;> cases s <;> rfl

theorem get_ofFindings (fs : List Finding) (s : Severity) :
    (ofFindings fs).get s = fs.filter (·.severity = s) := by
  induction fs with
  | nil => cases s <;> rfl
  | cons f fs ih =>
    rw [ofFindings, List.foldr_cons, get_insert, ← ofFindings, ih, List.filter_cons]
    simp

theorem toList_ofFindings (fs : List Finding) :
    (ofFindings fs).toList = Severity.all.flatMap fun s ↦ fs.filter (·.severity = s) :=
  congrArg (Severity.all.flatMap ·) (funext (get_ofFindings fs))

/-- The order of urgency, in which findings of one severity are alike. -/
def urgency (f g : Finding) : Bool := f.severity.rank ≤ g.severity.rank

theorem urgency_trans (f g h : Finding) (hfg : urgency f g) (hgh : urgency g h) :
    urgency f h := by
  simp only [urgency, decide_eq_true_eq] at *
  omega

theorem urgency_total (f g : Finding) : urgency f g || urgency g f := by
  simp only [urgency, Bool.or_eq_true, decide_eq_true_eq]
  omega

theorem flatMap_filter_of_pairwise {fs : List Finding} (h : fs.Pairwise (urgency · ·)) :
    (Severity.all.flatMap fun s ↦ fs.filter (·.severity = s)) = fs := by
  induction fs with
  | nil => rfl
  | cons f fs ih =>
    obtain ⟨hf, hfs⟩ := List.pairwise_cons.mp h
    have hnone (s : Severity) (hs : s.rank < f.severity.rank) :
        fs.filter (·.severity = s) = [] := by
      refine List.filter_eq_nil_iff.mpr fun g hg hgs ↦ ?_
      have hfg := hf g hg
      simp only [urgency, decide_eq_true_eq] at hfg hgs
      rw [hgs] at hfg
      omega
    have ih := ih hfs
    simp only [Severity.all, List.flatMap_cons, List.flatMap_nil, List.append_nil] at ih ⊢
    -- The classes before that of the first finding are empty, so it stays at the front.
    cases hs : f.severity with
    | high => simpa [hs] using ih
    | medium => simpa [hs, hnone .high (by simp [hs, Severity.rank])] using ih
    | low =>
      simpa [hs, hnone .high (by simp [hs, Severity.rank]),
        hnone .medium (by simp [hs, Severity.rank])] using ih
    | informational =>
      simpa [hs, hnone .high (by simp [hs, Severity.rank]),
        hnone .medium (by simp [hs, Severity.rank]),
        hnone .low (by simp [hs, Severity.rank])] using ih

theorem filter_mergeSort (fs : List Finding) (s : Severity) :
    (fs.mergeSort urgency).filter (·.severity = s) = fs.filter (·.severity = s) := by
  have halike : (fs.filter (·.severity = s)).Pairwise (urgency · ·) := by
    refine List.pairwise_of_forall_mem_list fun f hf g hg ↦ ?_
    simp only [List.mem_filter, decide_eq_true_eq] at hf hg
    simp [urgency, hf.2, hg.2]
  have hsub := (List.sublist_mergeSort urgency_trans urgency_total halike
    List.filter_sublist).filter (·.severity = s)
  rw [List.filter_filter] at hsub
  simp only [Bool.and_self] at hsub
  exact (hsub.eq_of_length ((List.mergeSort_perm fs urgency).filter _).length_eq.symm).symm

/-- The findings of all severities in one list are the stable sort of the findings by urgency. -/
theorem toList_ofFindings_eq_mergeSort (fs : List Finding) :
    (ofFindings fs).toList = fs.mergeSort urgency := by
  have hsorted := List.pairwise_mergeSort urgency_trans urgency_total fs
  rw [toList_ofFindings, ← flatMap_filter_of_pairwise hsorted]
  simp only [filter_mergeSort]

end Buckets

namespace SeverityCounts

theorem get_ofBuckets (b : Buckets) (s : Severity) : (ofBuckets b).get s = (b.get s).length := by
  cases s <;> rfl

theorem total_ofBuckets (b : Buckets) : (ofBuckets b).total = b.toList.length := by
  simp [total, ofBuckets, Buckets.toList, Severity.all, Buckets.get, Nat.add_assoc]

end SeverityCounts

namespace DetectorCounts

theorem get?_add (c : DetectorCounts) (id d : DetectorId) :
    (c.add id).get? d = if id = d then some ((c.get? d).getD 0 + 1) else c.get? d := by
  cases id <;> cases d <;> rfl

theorem getD_get?_foldl (fs : List Finding) (c : DetectorCounts) (d : DetectorId) :
    ((fs.foldl (fun c f ↦ c.add f.detector) c).get? d).getD 0 =
      (c.get? d).getD 0 + fs.countP (·.detector = d) := by
  induction fs generalizing c with
  | nil => rfl
  | cons f fs ih =>
    rw [List.foldl_cons, ih, get?_add, List.countP_cons]
    by_cases hd : f.detector = d
    · simp only [hd, if_true, Option.getD_some, decide_true]
      omega
    · simp [hd]

theorem isSome_get?_foldl (fs : List Finding) (c : DetectorCounts) (d : DetectorId) :
    ((fs.foldl (fun c f ↦ c.add f.detector) c).get? d).isSome ↔
      (c.get? d).isSome ∨ ∃ f ∈ fs, f.detector = d := by
  induction fs generalizing c with
  | nil => simp
  | cons f fs ih =>
    rw [List.foldl_cons, ih, get?_add]
    by_cases hd : f.detector = d <;> simp [hd]

theorem getD_get?_ofFindings (fs : List Finding) (d : DetectorId) :
    ((ofFindings fs).get? d).getD 0 = fs.countP (·.detector = d) := by
  rw [ofFindings, getD_get?_foldl]
  cases d <;> simp [get?]

theorem isSome_get?_ofFindings (fs : List Finding) (d : DetectorId) :
    ((ofFindings fs).get? d).isSome ↔ ∃ f ∈ fs, f.detector = d := by
  rw [ofFindings, isSome_get?_foldl]
  cases d <;> simp [get?]

theorem map_fst_toList (c : DetectorCounts) :
    c.toList.map Prod.fst = DetectorId.all.filter fun d ↦ (c.get? d).isSome := by
  rw [toList]
  induction DetectorId.all with
  | nil => rfl
  | cons d ds ih => cases hd : c.get? d <;> simp [hd, ih]

theorem map_snd_toList_sum (c : DetectorCounts) :
    (c.toList.map Prod.snd).sum = (DetectorId.all.map fun d ↦ (c.get? d).getD 0).sum := by
  rw [toList]
  induction DetectorId.all with
  | nil => rfl
  | cons d ds ih => cases hd : c.get? d <;> simp [hd, ih]

theorem mem_keys_ofFindings (fs : List Finding) (d : DetectorId) :
    d ∈ (ofFindings fs).toList.map Prod.fst ↔ ∃ f ∈ fs, f.detector = d := by
  have hall : d ∈ DetectorId.all := by cases d <;> decide
  rw [map_fst_toList, List.mem_filter, isSome_get?_ofFindings]
  exact and_iff_right hall

theorem keys_pairwise (c : DetectorCounts) :
    (c.toList.map Prod.fst).Pairwise fun d e ↦ d.ctorIdx < e.ctorIdx := by
  have hall : DetectorId.all.Pairwise fun d e ↦ d.ctorIdx < e.ctorIdx := by decide
  rw [map_fst_toList]
  exact hall.sublist List.filter_sublist

theorem sum_ofFindings (fs : List Finding) :
    ((ofFindings fs).toList.map Prod.snd).sum = fs.length := by
  simp only [map_snd_toList_sum, getD_get?_ofFindings]
  induction fs with
  | nil => rfl
  | cons f fs ih =>
    simp only [DetectorId.all, List.map_cons, List.map_nil, List.sum_cons, List.sum_nil,
      List.countP_cons, List.length_cons] at ih ⊢
    cases f.detector <;> simp <;> omega

end DetectorCounts

namespace Report

/-- What can be done to a report after it was made. -/
inductive Step where
  | enhance (analysis : Narrative.Analysis) (now : Timestamp)
  | fail (message : String)

def Step.apply (r : Report) : Step → Report
  | .enhance analysis now => r.enhance analysis now
  | .fail message => r.withNarrativeError message

theorem foldl_apply_eq (steps : List Step) (r : Report) : ∃ narrative narrativeError,
    steps.foldl Step.apply r =
      { r with narrative := narrative, narrativeError := narrativeError } := by
  induction steps generalizing r with
  | nil => exact ⟨r.narrative, r.narrativeError, rfl⟩
  | cons step steps ih =>
    obtain ⟨narrative, narrativeError, h⟩ := ih (step.apply r)
    refine ⟨narrative, narrativeError, ?_⟩
    rw [List.foldl_cons, h]
    cases step <;> rfl

/-- After any later steps a report agrees with the findings that it was made of. -/
theorem build_foldl_apply (path : String) (fs : List Finding) (timestamp : Timestamp)
    (steps : List Step) :
    let r := steps.foldl Step.apply (build path fs timestamp)
    r.contractPath = path ∧ r.timestamp = timestamp ∧ r.issueCount = fs.length ∧
    (∀ s, r.issues.get s = fs.filter (·.severity = s)) ∧
    r.issues.toList = fs.mergeSort Buckets.urgency ∧ r.issues.toList.Perm fs ∧
    (∀ s, r.summary.severityCounts.get s = (r.issues.get s).length) ∧
    r.summary.severityCounts.total = r.issueCount ∧
    (∀ d, d ∈ r.summary.detectorCounts.toList.map Prod.fst ↔ ∃ f ∈ fs, f.detector = d) ∧
    (r.summary.detectorCounts.toList.map Prod.fst).Pairwise (fun d e ↦ d.ctorIdx < e.ctorIdx) ∧
    (∀ d, r.countFor d = fs.countP (·.detector = d)) ∧
    (r.summary.detectorCounts.toList.map Prod.snd).sum = r.issueCount ∧
    (r.isClean ↔ fs = []) := by
  obtain ⟨narrative, narrativeError, h⟩ := foldl_apply_eq steps (build path fs timestamp)
  have hsort := Buckets.toList_ofFindings_eq_mergeSort fs
  have hperm : (Buckets.ofFindings fs).toList.Perm fs := by
    rw [hsort]
    exact List.mergeSort_perm fs _
  have htotal : (SeverityCounts.ofBuckets (Buckets.ofFindings fs)).total = fs.length := by
    rw [SeverityCounts.total_ofBuckets, hperm.length_eq]
  simp only [h]
  refine ⟨rfl, rfl, rfl, Buckets.get_ofFindings fs, hsort, hperm,
    SeverityCounts.get_ofBuckets _, htotal, DetectorCounts.mem_keys_ofFindings fs,
    DetectorCounts.keys_pairwise _, DetectorCounts.getD_get?_ofFindings fs,
    DetectorCounts.sum_ofFindings fs, ?_⟩
  simp [isClean, build]

end Report

end ContractAudit
