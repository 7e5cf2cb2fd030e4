import ContractAudit.Proofs.Detector.Builtin
import ContractAudit.Proofs.Engine
import ContractAudit.Proofs.Report

namespace ContractAudit

/-- Findings whose severities go with their names are counted alike by both. -/
theorem countP_severity_eq_sum {fs : List Finding} (h : ∀ f ∈ fs, f.Classified) (s : Severity) :
    fs.countP (·.severity = s) =
      ((DetectorId.all.filter (·.severity = s)).map fun id ↦
        fs.countP (·.detector = id)).sum := by
  induction fs with
  | nil => cases s <;> rfl
  | cons f fs ih =>
    have hf := (h f List.mem_cons_self).severity
    have ih := ih fun g hg ↦ h g (List.mem_cons_of_mem _ hg)
    simp only [List.countP_cons, ih, hf]
    cases f.detector <;> cases s <;> simp [DetectorId.all, DetectorId.severity] <;> omega

theorem Report.severityCounts_get_build {fs : List Finding} (h : ∀ f ∈ fs, f.Classified)
    (path : String) (now : Timestamp) (s : Severity) :
    (build path fs now).summary.severityCounts.get s =
      ((DetectorId.all.filter (·.severity = s)).map (build path fs now).countFor).sum := by
  have hcount : (build path fs now).countFor = fun id ↦ fs.countP (·.detector = id) :=
    funext (DetectorCounts.getD_get?_ofFindings fs)
  rw [hcount, ← countP_severity_eq_sum h, List.countP_eq_length_filter, ← Buckets.get_ofFindings]
  exact SeverityCounts.get_ofBuckets _ s

namespace Engine

variable {config : Config} {tree : Node} {source : String}

/-- The detector of one finding is that of the other or comes before it. A fault comes last. -/
def InOrder (f g : Finding) : Prop := f.detector.ctorIdx ≤ g.detector.ctorIdx

theorem faultFinding_classified (id : DetectorId) (fault : Fault) :
    (faultFinding id fault).Classified :=
  ⟨rfl, by simp [faultFinding], by simp [faultFinding], nofun⟩

theorem contribution_of_not_faults {d : Detector} (hd : d ∈ Registry.builtin.detectors)
    (hf : ¬ d.Faults tree source) :
    ∀ f ∈ contribution tree source d, f.detector = d.id ∧ f.Classified := by
  intro f hc
  rcases mem_contribution.mp hc with ⟨found, hfound, hc⟩ | ⟨fault, hfault, -⟩
  · exact Registry.builtin_classified hd hfound f hc
  · exact absurd ⟨fault, hfault⟩ hf

theorem builtin_detectors_pairwise :
    Registry.builtin.detectors.Pairwise fun d e ↦ d.id.ctorIdx < e.id.ctorIdx := by
  decide

theorem contributions_pairwise {detectors : List Detector}
    (hs : detectors.Sublist Registry.builtin.detectors)
    (hf : ∀ d ∈ detectors, ¬ d.Faults tree source) :
    (detectors.flatMap (contribution tree source)).Pairwise InOrder := by
  have hname (d : Detector) (hd : d ∈ detectors) (f : Finding)
      (hc : f ∈ contribution tree source d) : f.detector = d.id :=
    (contribution_of_not_faults (hs.subset hd) (hf d hd) f hc).1
  refine List.pairwise_flatMap.mpr ⟨fun d hd ↦ ?_, ?_⟩
  · refine List.pairwise_of_forall_mem_list fun f hc g hg ↦ ?_
    rw [InOrder, hname d hd f hc, hname d hd g hg]
  · refine (builtin_detectors_pairwise.sublist hs).imp_of_mem fun {d e} hd he hlt f hc g hg ↦ ?_
    rw [InOrder, hname d hd f hc, hname e he g hg]
    exact hlt.le

theorem enabled_sublist (config : Config) :
    (⟨.builtin, config⟩ : Engine).enabled.Sublist Registry.builtin.detectors :=
  List.filter_sublist

/-- Only the last of the detectors can fault. -/
theorem enabled_eq_of_faults
    (h : ∃ d ∈ (⟨.builtin, config⟩ : Engine).enabled, d.Faults tree source) :
    ∃ (calm : List Detector) (fault : Fault),
      (⟨.builtin, config⟩ : Engine).enabled = calm ++ [AccessControl.detector] ∧
      AccessControl.detector.detect tree source = Except.error fault ∧
      DetectorId.accessControl ∈ config.enabledDetectors ∧
      ∀ d ∈ calm, d.id.ctorIdx < DetectorId.accessControl.ctorIdx := by
  obtain ⟨d, hd, fault, hfault⟩ := h
  obtain ⟨hd, hid⟩ := List.mem_filter.mp hd
  obtain rfl : d = AccessControl.detector := by
    rcases Registry.builtin_detect_ok hd tree source with hd | ⟨found, hfound⟩
    · exact hd
    · cases hfound.symm.trans hfault
  let others := [Reentrancy.detector, Overflow.detector, UncheckedCall.detector]
  refine ⟨others.filter fun d ↦ d.id ∈ config.enabledDetectors, fault, ?_, hfault, ?_, ?_⟩
  · have hsplit : Registry.builtin.detectors = others ++ [AccessControl.detector] := rfl
    have hlast : [AccessControl.detector].filter (fun d ↦ d.id ∈ config.enabledDetectors) =
        [AccessControl.detector] := List.filter_eq_self.mpr (by simpa using hid)
    rw [enabled, hsplit, List.filter_append, hlast]
  · exact of_decide_eq_true hid
  · intro d hd
    have hothers : ∀ d ∈ others, d.id.ctorIdx < DetectorId.accessControl.ctorIdx := by decide
    exact hothers d (List.mem_of_mem_filter hd)

theorem contributions_of_no_fault
    (h : ∀ d ∈ (⟨.builtin, config⟩ : Engine).enabled, ¬ d.Faults tree source) :
    let findings := (⟨.builtin, config⟩ : Engine).enabled.flatMap (contribution tree source)
    findings.Pairwise InOrder ∧ ∀ f ∈ findings, f.Classified ∧ f.detector ≠ .detectorError := by
  have hsub := enabled_sublist config
  refine ⟨contributions_pairwise hsub h, fun f hf ↦ ?_⟩
  obtain ⟨d, hd, hf⟩ := List.mem_flatMap.mp hf
  obtain ⟨hname, hclass⟩ := contribution_of_not_faults (hsub.subset hd) (h d hd) f hf
  exact ⟨hclass, hname ▸ Registry.builtin_id_ne (hsub.subset hd)⟩

theorem contributions_of_faults
    (h : ∃ d ∈ (⟨.builtin, config⟩ : Engine).enabled, d.Faults tree source) :
    DetectorId.accessControl ∈ config.enabledDetectors ∧
    ∃ (before : List Finding) (fault : Fault),
      (⟨.builtin, config⟩ : Engine).enabled.flatMap (contribution tree source) =
        before ++ [faultFinding .accessControl fault] ∧
      before.Pairwise InOrder ∧
      ∀ f ∈ before, f.Classified ∧ f.detector.ctorIdx < DetectorId.accessControl.ctorIdx := by
  obtain ⟨calm, fault, he, hfault, hid, hcalm⟩ := enabled_eq_of_faults h
  have hsub : calm.Sublist Registry.builtin.detectors :=
    (he ▸ List.sublist_append_left calm _).trans (enabled_sublist config)
  have hok (d : Detector) (hd : d ∈ calm) : ¬ d.Faults tree source := by
    rintro ⟨fault, hd'⟩
    rcases Registry.builtin_detect_ok (hsub.subset hd) tree source with rfl | ⟨found, hfound⟩
    · exact lt_irrefl _ (hcalm _ hd)
    · cases hfound.symm.trans hd'
  have hlast : contribution tree source AccessControl.detector =
      [faultFinding .accessControl fault] := by
    rw [contribution, hfault]
    rfl
  refine ⟨hid, calm.flatMap (contribution tree source), fault, ?_,
    contributions_pairwise hsub hok, fun f hf ↦ ?_⟩
  · simp [he, hlast]
  · obtain ⟨d, hd, hf⟩ := List.mem_flatMap.mp hf
    obtain ⟨hname, hclass⟩ := contribution_of_not_faults (hsub.subset hd) (hok d hd) f hf
    exact ⟨hclass, hname ▸ hcalm d hd⟩

/-- At most one finding stands for a fault. It is the last one, and it is there only if faults are
isolated and if the detector for access control is enabled and has found nothing. -/
def FaultLast (config : Config) (findings : List Finding) : Prop :=
  findings.countP (·.detector = .detectorError) ≤ 1 ∧
  ∀ f ∈ findings, f.detector = .detectorError →
    findings.getLast? = some f ∧ config.isolateFaults = true ∧
    .accessControl ∈ config.enabledDetectors ∧ ∀ g ∈ findings, g.detector ≠ .accessControl

theorem FaultLast.of_no_fault {findings : List Finding}
    (h : ∀ f ∈ findings, f.detector ≠ .detectorError) : FaultLast config findings := by
  refine ⟨?_, fun f hf hd ↦ absurd hd (h f hf)⟩
  rw [List.countP_eq_zero.mpr fun f hf ↦ by simpa using h f hf]
  exact Nat.zero_le 1

theorem FaultLast.of_before {before : List Finding} {last : Finding}
    (hlast : last.detector = .detectorError) (hisolate : config.isolateFaults = true)
    (hid : .accessControl ∈ config.enabledDetectors)
    (hbefore : ∀ f ∈ before, f.detector.ctorIdx < DetectorId.accessControl.ctorIdx) :
    FaultLast config (before ++ [last]) := by
  have hother (f : Finding) (hf : f ∈ before) :
      f.detector ≠ .detectorError ∧ f.detector ≠ .accessControl := by
    have hlt := hbefore f hf
    constructor <;> intro hd <;> rw [hd] at hlt <;> exact absurd hlt (by decide)
  constructor
  · have hzero : before.countP (·.detector = .detectorError) = 0 :=
      List.countP_eq_zero.mpr fun f hf ↦ by simpa using (hother f hf).1
    rw [List.countP_append, hzero]
    simp [hlast]
  · intro f hf hd
    obtain rfl : f = last := by
      rcases List.mem_append.mp hf with hf | hf
      · exact absurd hd (hother f hf).1
      · exact List.mem_singleton.mp hf
    refine ⟨List.getLast?_concat, hisolate, hid, fun g hg ↦ ?_⟩
    rcases List.mem_append.mp hg with hg | hg
    · exact (hother g hg).2
    · rw [List.mem_singleton.mp hg, hlast]
      decide

theorem classified_of_audit {now : Timestamp} {path : String} {run : AuditRun}
    (h : ((⟨.builtin, config⟩ : Engine).audit now path tree source).2 = Except.ok run) :
    (∀ f ∈ run.findings, f.Classified) ∧ run.findings.Pairwise InOrder ∧
      FaultLast config run.findings := by
  obtain ⟨hisolated, hfindings, -⟩ := audit_eq_ok_iff.mp h
  rw [hfindings]
  by_cases hfaults : ∃ d ∈ (⟨.builtin, config⟩ : Engine).enabled, d.Faults tree source
  · obtain ⟨hid, before, fault, he, hsorted, hbefore⟩ := contributions_of_faults hfaults
    have hisolate : config.isolateFaults = true := by
      obtain ⟨d, hd, hf⟩ := hfaults
      exact hisolated.resolve_right fun hnone ↦ hnone d hd hf
    have hlast : (faultFinding .accessControl fault).detector = .detectorError := rfl
    rw [he]
    refine ⟨?_, ?_, .of_before hlast hisolate hid fun f hf ↦ (hbefore f hf).2⟩
    · intro f hf
      rcases List.mem_append.mp hf with hf | hf
      · exact (hbefore f hf).1
      · rw [List.mem_singleton.mp hf]
        exact faultFinding_classified _ fault
    · refine List.pairwise_append.mpr ⟨hsorted, List.pairwise_singleton _ _, fun f hf g hg ↦ ?_⟩
      have hlt := (hbefore f hf).2
      rw [List.mem_singleton.mp hg, InOrder, hlast]
      exact hlt.le.trans (by decide)
  · have hok : ∀ d ∈ (⟨.builtin, config⟩ : Engine).enabled, ¬ d.Faults tree source :=
      fun d hd hf ↦ hfaults ⟨d, hd, hf⟩
    obtain ⟨hsorted, hclass⟩ := contributions_of_no_fault hok
    exact ⟨fun f hf ↦ (hclass f hf).1, hsorted, .of_no_fault fun f hf ↦ (hclass f hf).2⟩

/-- The findings of an audit with the detectors of the library stand in the order of the detectors,
and each has what goes with its name. So the numbers of the report by severity are those by
detector. -/
theorem audit_builtin_classified (config : Config) (now : Timestamp) (path : String) (tree : Node)
    (source : String) (run : AuditRun)
    (h : ((⟨.builtin, config⟩ : Engine).audit now path tree source).2 = Except.ok run) :
    (∀ f ∈ run.findings, f.Classified) ∧ run.findings.Pairwise InOrder ∧
    FaultLast config run.findings ∧
    run.report.summary.severityCounts.high =
      run.report.countFor .reentrancy + run.report.countFor .accessControl ∧
    run.report.summary.severityCounts.medium =
      run.report.countFor .overflowUnderflow + run.report.countFor .uncheckedCall ∧
    run.report.summary.severityCounts.low = run.report.countFor .detectorError ∧
    run.report.countFor .detectorError ≤ 1 ∧
    run.report.summary.severityCounts.informational = 0 := by
  obtain ⟨hclass, hsorted, hlast⟩ := classified_of_audit h
  have hget := Report.severityCounts_get_build hclass path now
  have hfault : (Report.build path run.findings now).countFor .detectorError ≤ 1 := by
    rw [Report.countFor, Report.build, DetectorCounts.getD_get?_ofFindings]
    exact hlast.1
  rw [(audit_eq_ok_iff.mp h).2.2]
  -- The sums on the right of `hget` have as many terms as there are detectors of the severity.
  exact ⟨hclass, hsorted, hlast, hget .high, hget .medium, hget .low, hfault,
    hget .informational⟩

def malformedFunction : Node :=
  .function ⟨2, 0⟩ ⟨some "f", .public, false⟩ [] [.literal ⟨2, 20⟩ "1"] <| some <| .block ⟨2, 22⟩
    [.call ⟨3, 4⟩ (.member ⟨3, 4⟩ (.identifier ⟨3, 4⟩ "a") "call") [] [],
      .assignment ⟨4, 4⟩ "-=" (.identifier ⟨4, 4⟩ "x") (.literal ⟨4, 9⟩ "1")]

theorem audit_builtin_classified_malformedFunction :
    let config : Config := { isolateFaults := true }
    ∃ run : AuditRun, ((⟨.builtin, config⟩ : Engine).audit .epoch "F.sol"
        (.sourceUnit ⟨1, 0⟩ [malformedFunction]) "").2 = Except.ok run ∧
      run.findings.map (·.detector) =
        [.reentrancy, .overflowUnderflow, .uncheckedCall, .detectorError] ∧
      FaultLast config run.findings ∧ run.report.summary.severityCounts.medium =
        run.report.countFor .overflowUnderflow + run.report.countFor .uncheckedCall := by
  intro config
  refine ⟨_, rfl, by decide, ?_⟩
  obtain ⟨-, -, hlast, -, hmedium, -⟩ := audit_builtin_classified config .epoch "F.sol"
    (.sourceUnit ⟨1, 0⟩ [malformedFunction]) "" _ rfl
  exact ⟨hlast, hmedium⟩

end Engine

end ContractAudit
