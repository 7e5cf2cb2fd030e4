import ContractAudit.Proofs.Audit.Classification

namespace ContractAudit

/-- The third list is made of the first two, each in its own order. -/
inductive Interleaved {α : Type} : List α → List α → List α → Prop
  | nil : Interleaved [] [] []
  | left (x : α) {xs ys zs : List α} (h : Interleaved xs ys zs) : Interleaved (x :: xs) ys (x :: zs)
  | right (y : α) {xs ys zs : List α} (h : Interleaved xs ys zs) :
      Interleaved xs (y :: ys) (y :: zs)

namespace Interleaved

variable {α : Type} {xs ys zs xs' ys' zs' : List α}

theorem append (h : Interleaved xs ys zs) (h' : Interleaved xs' ys' zs') :
    Interleaved (xs ++ xs') (ys ++ ys') (zs ++ zs') := by
  induction h with
  | nil => exact h'
  | left x _ ih => exact ih.left x
  | right y _ ih => exact ih.right y

theorem of_append (xs ys : List α) : Interleaved xs ys (xs ++ ys) := by
  induction xs with
  | nil =>
    induction ys with
    | nil => exact .nil
    | cons y ys ih => exact ih.right y
  | cons x xs ih => exact ih.left x

theorem perm (h : Interleaved xs ys zs) : zs.Perm (xs ++ ys) := by
  induction h with
  | nil => exact .nil
  | left x _ ih => exact ih.cons x
  | right y _ ih => exact (ih.cons y).trans List.perm_middle.symm

end Interleaved

namespace Node

theorem preorderAll_append (nodes others : List Node) :
    preorderAll (nodes ++ others) = preorderAll nodes ++ preorderAll others := by
  simp only [preorderAll_eq_flatMap, List.flatMap_append]

theorem filterMap_preorder_sourceUnit {β : Type} {pick : Node → Option β} {loc : Location}
    {nodes : List Node} (h : pick (.sourceUnit loc nodes) = none) :
    (sourceUnit loc nodes).preorder.filterMap pick = (preorderAll nodes).filterMap pick := by
  rw [preorder, List.filterMap_cons, h]

end Node

variable {nodes others : List Node} {loc loc₁ loc₂ : Location} {source : String}

theorem filterMap_preorder_append {β : Type} {pick : Node → Option β}
    (h : ∀ loc nodes, pick (.sourceUnit loc nodes) = none) (loc loc₁ loc₂ : Location)
    (nodes others : List Node) :
    (Node.sourceUnit loc (nodes ++ others)).preorder.filterMap pick =
      (Node.sourceUnit loc₁ nodes).preorder.filterMap pick ++
        (Node.sourceUnit loc₂ others).preorder.filterMap pick := by
  simp only [Node.filterMap_preorder_sourceUnit (h _ _), Node.preorderAll_append,
    List.filterMap_append]

def pointwiseDetectors : List Detector :=
  [Reentrancy.detector, Overflow.detector, UncheckedCall.detector]

theorem detect_append {d : Detector} (hd : d ∈ pointwiseDetectors)
    (loc loc₁ loc₂ : Location) (nodes others : List Node) (source : String) :
    ∃ found further : List Finding,
      d.detect (.sourceUnit loc₁ nodes) source = Except.ok found ∧
      d.detect (.sourceUnit loc₂ others) source = Except.ok further ∧
      d.detect (.sourceUnit loc (nodes ++ others)) source = Except.ok (found ++ further) := by
  simp only [pointwiseDetectors, List.mem_cons, List.not_mem_nil, or_false] at hd
  rcases hd with rfl | rfl | rfl
  · refine ⟨_, _, Reentrancy.detect_eq _ source, Reentrancy.detect_eq _ source, ?_⟩
    rw [← filterMap_preorder_append fun _ _ ↦ rfl]
    exact Reentrancy.detect_eq _ source
  · refine ⟨_, _, Overflow.detect_eq _ source, Overflow.detect_eq _ source, ?_⟩
    refine (Overflow.detect_eq _ source).trans (congrArg Except.ok ?_)
    split
    · rfl
    · exact filterMap_preorder_append (fun _ _ ↦ rfl) loc loc₁ loc₂ nodes others
  · refine ⟨_, _, UncheckedCall.detect_eq _ source, UncheckedCall.detect_eq _ source, ?_⟩
    rw [← filterMap_preorder_append fun _ _ ↦ rfl]
    exact UncheckedCall.detect_eq _ source

theorem Detector.not_faults_of_ok {d : Detector} {tree : Node} {found : List Finding}
    (h : d.detect tree source = Except.ok found) : ¬ d.Faults tree source := by
  rintro ⟨fault, hfault⟩
  cases h.symm.trans hfault

namespace AccessControl

theorem both_eq_error {first second : Except Fault (List Finding)} :
    (∃ fault, both first second = Except.error fault) ↔
      (∃ fault, first = Except.error fault) ∨ ∃ fault, second = Except.error fault := by
  cases first <;> cases second <;> simp [both, bind, Except.bind, pure, Except.pure]

def membersBelow (nodes : List Node) : List Node := (Node.preorderAll nodes).flatMap members

theorem detect_sourceUnit (loc : Location) (nodes : List Node) (source : String) :
    detect (.sourceUnit loc nodes) source =
      both (findingsIn nodes) (findingsIn (membersBelow nodes)) := by
  rw [detect_eq, checked, Node.preorder, List.flatMap_cons, findingsIn_append]
  rfl

theorem detect_sourceUnit_append (loc : Location) (nodes others : List Node) (source : String) :
    detect (.sourceUnit loc (nodes ++ others)) source =
      both (both (findingsIn nodes) (findingsIn others))
        (both (findingsIn (membersBelow nodes)) (findingsIn (membersBelow others))) := by
  have hbelow : membersBelow (nodes ++ others) = membersBelow nodes ++ membersBelow others := by
    rw [membersBelow, Node.preorderAll_append, List.flatMap_append]
    rfl
  rw [detect_sourceUnit, hbelow, findingsIn_append, findingsIn_append]

theorem faults_append (loc loc₁ loc₂ : Location) (nodes others : List Node) (source : String) :
    detector.Faults (.sourceUnit loc (nodes ++ others)) source ↔
      detector.Faults (.sourceUnit loc₁ nodes) source ∨
        detector.Faults (.sourceUnit loc₂ others) source := by
  have hfile := detect_sourceUnit_append loc nodes others source
  simp only [Detector.Faults, detector, hfile, detect_sourceUnit _ nodes,
    detect_sourceUnit _ others, both_eq_error]
  tauto

theorem exists_interleaved (h₁ : ¬ detector.Faults (.sourceUnit loc₁ nodes) source)
    (h₂ : ¬ detector.Faults (.sourceUnit loc₂ others) source) (loc : Location) :
    ∃ found further all : List Finding,
      detector.detect (.sourceUnit loc₁ nodes) source = Except.ok found ∧
      detector.detect (.sourceUnit loc₂ others) source = Except.ok further ∧
      detector.detect (.sourceUnit loc (nodes ++ others)) source = Except.ok all ∧
      Interleaved found further all := by
  have hok {tree : Node} (h : ¬ detector.Faults tree source) :
      ∃ found, detect tree source = Except.ok found := by
    cases hfound : detect tree source with
    | ok found => exact ⟨found, rfl⟩
    | error fault => exact absurd ⟨fault, hfound⟩ h
  obtain ⟨found, hfound⟩ := hok h₁
  obtain ⟨further, hfurther⟩ := hok h₂
  obtain ⟨outside, inside, ho, hi, rfl⟩ :=
    both_eq_ok.mp ((detect_sourceUnit loc₁ nodes source).symm.trans hfound)
  obtain ⟨outside', inside', ho', hi', rfl⟩ :=
    both_eq_ok.mp ((detect_sourceUnit loc₂ others source).symm.trans hfurther)
  refine ⟨_, _, outside ++ outside' ++ (inside ++ inside'), hfound, hfurther, ?_, ?_⟩
  · refine (detect_sourceUnit_append loc nodes others source).trans ?_
    rw [ho, ho', hi, hi']
    rfl
  · exact (Interleaved.of_append outside outside').append (Interleaved.of_append inside inside')

end AccessControl

theorem Report.counts_of_perm {all found further : List Finding} (h : all.Perm (found ++ further))
    (path path₁ path₂ : String) (now now₁ now₂ : Timestamp) :
    (∀ s, (build path all now).summary.severityCounts.get s =
      (build path₁ found now₁).summary.severityCounts.get s +
        (build path₂ further now₂).summary.severityCounts.get s) ∧
    ∀ id, (build path all now).countFor id =
      (build path₁ found now₁).countFor id + (build path₂ further now₂).countFor id := by
  constructor
  · intro s
    simp only [build, SeverityCounts.get_ofBuckets, Buckets.get_ofFindings]
    rw [(h.filter _).length_eq, List.filter_append, List.length_append]
  · intro id
    simp only [countFor, build, DetectorCounts.getD_get?_ofFindings]
    rw [h.countP_eq, List.countP_append]

namespace Engine

theorem contribution_append {d : Detector} (hd : d ∈ Registry.builtin.detectors)
    (h₁ : ¬ AccessControl.detector.Faults (.sourceUnit loc₁ nodes) source)
    (h₂ : ¬ AccessControl.detector.Faults (.sourceUnit loc₂ others) source) (loc : Location) :
    (contribution (.sourceUnit loc (nodes ++ others)) source d).Perm
      (contribution (.sourceUnit loc₁ nodes) source d ++
        contribution (.sourceUnit loc₂ others) source d) := by
  have hd : d ∈ pointwiseDetectors ∨ d = AccessControl.detector := by
    simpa [pointwiseDetectors, or_assoc] using Registry.mem_builtin_detectors.mp hd
  rcases hd with hd | rfl
  · obtain ⟨found, further, hfound, hfurther, hall⟩ :=
      detect_append hd loc loc₁ loc₂ nodes others source
    simp only [contribution, hfound, hfurther, hall]
    exact .rfl
  · obtain ⟨found, further, all, hfound, hfurther, hall, hinterleaved⟩ :=
      AccessControl.exists_interleaved h₁ h₂ loc
    simp only [contribution, hfound, hfurther, hall]
    exact hinterleaved.perm

theorem not_faults_of_enabled {config : Config} {tree : Node}
    (h : ¬ AccessControl.detector.Faults tree source) {d : Detector}
    (hd : d ∈ (⟨.builtin, config⟩ : Engine).enabled) : ¬ d.Faults tree source := by
  have hbuiltin := (enabled_sublist config).subset hd
  rcases Registry.builtin_detect_ok hbuiltin tree source with rfl | ⟨found, hfound⟩
  · exact h
  · exact Detector.not_faults_of_ok hfound

theorem audit_of_not_faults {tree : Node} (h : ¬ AccessControl.detector.Faults tree source)
    (config : Config) (now : Timestamp) (path : String) :
    let findings := (⟨.builtin, config⟩ : Engine).enabled.flatMap (contribution tree source)
    ((⟨.builtin, config⟩ : Engine).audit now path tree source).2 =
      Except.ok ⟨findings, Report.build path findings now⟩ :=
  audit_eq_ok_iff.mpr ⟨.inr fun _ hd ↦ not_faults_of_enabled h hd, rfl, rfl⟩

/-- Each detector finds in a file what it finds in the first and in the other declarations of it,
and the numbers in the report are the sums of theirs. -/
theorem audit_append (loc loc₁ loc₂ : Location) (nodes others : List Node) (source : String) :
    let file := Node.sourceUnit loc (nodes ++ others)
    let file₁ := Node.sourceUnit loc₁ nodes
    let file₂ := Node.sourceUnit loc₂ others
    (∀ d ∈ [Reentrancy.detector, Overflow.detector, UncheckedCall.detector],
      ∃ found further : List Finding, d.detect file₁ source = Except.ok found ∧
        d.detect file₂ source = Except.ok further ∧
        d.detect file source = Except.ok (found ++ further)) ∧
    (AccessControl.detector.Faults file source ↔
      AccessControl.detector.Faults file₁ source ∨ AccessControl.detector.Faults file₂ source) ∧
    (¬ AccessControl.detector.Faults file source → ∃ found further all : List Finding,
      AccessControl.detector.detect file₁ source = Except.ok found ∧
      AccessControl.detector.detect file₂ source = Except.ok further ∧
      AccessControl.detector.detect file source = Except.ok all ∧
      all.Perm (found ++ further) ∧ Interleaved found further all) ∧
    (¬ AccessControl.detector.Faults file₁ source → ¬ AccessControl.detector.Faults file₂ source →
      ∀ (config : Config) (now now₁ now₂ : Timestamp) (path path₁ path₂ : String),
        let engine : Engine := ⟨.builtin, config⟩
        ∃ run run₁ run₂ : AuditRun,
        (engine.audit now path file source).2 = Except.ok run ∧
        (engine.audit now₁ path₁ file₁ source).2 = Except.ok run₁ ∧
        (engine.audit now₂ path₂ file₂ source).2 = Except.ok run₂ ∧
        (∀ s, run.report.summary.severityCounts.get s =
          run₁.report.summary.severityCounts.get s + run₂.report.summary.severityCounts.get s) ∧
        ∀ id, run.report.countFor id = run₁.report.countFor id + run₂.report.countFor id) := by
  intro file file₁ file₂
  have hfaults := AccessControl.faults_append loc loc₁ loc₂ nodes others source
  refine ⟨fun d hd ↦ detect_append hd loc loc₁ loc₂ nodes others source, hfaults, ?_, ?_⟩
  · intro hnone
    obtain ⟨h₁, h₂⟩ := not_or.mp (hfaults.not.mp hnone)
    obtain ⟨found, further, all, hfound, hfurther, hall, hinterleaved⟩ :=
      AccessControl.exists_interleaved h₁ h₂ loc
    exact ⟨found, further, all, hfound, hfurther, hall, hinterleaved.perm, hinterleaved⟩
  · intro h₁ h₂ config now now₁ now₂ path path₁ path₂ engine
    have hnone : ¬ AccessControl.detector.Faults file source :=
      hfaults.not.mpr (not_or.mpr ⟨h₁, h₂⟩)
    refine ⟨_, _, _, audit_of_not_faults hnone config now path,
      audit_of_not_faults h₁ config now₁ path₁, audit_of_not_faults h₂ config now₂ path₂,
      Report.counts_of_perm ?_ path path₁ path₂ now now₁ now₂⟩
    have heach (d : Detector) (hd : d ∈ engine.enabled) :
        (contribution file source d).Perm
          (contribution file₁ source d ++ contribution file₂ source d) :=
      contribution_append ((enabled_sublist config).subset hd) h₁ h₂ loc
    exact (List.Perm.flatMap_left _ heach).trans (List.flatMap_append_perm _ _ _).symm

def setter (line : Nat) : Node :=
  .function ⟨line, 0⟩ ⟨some "set", .public, false⟩ [] [] <| some <| .block ⟨line, 20⟩
    [.assignment ⟨line, 22⟩ "=" (.identifier ⟨line, 22⟩ "x") (.literal ⟨line, 26⟩ "1")]

theorem audit_append_setters :
    let file := Node.sourceUnit ⟨1, 0⟩ [.contract ⟨2, 0⟩ "C" [setter 3], setter 6]
    let file₁ := Node.sourceUnit ⟨1, 0⟩ [.contract ⟨2, 0⟩ "C" [setter 3]]
    let file₂ := Node.sourceUnit ⟨1, 0⟩ [setter 6]
    ¬ AccessControl.detector.Faults file₁ "" ∧ ¬ AccessControl.detector.Faults file₂ "" ∧
    (∃ found further all : List Finding,
      AccessControl.detector.detect file "" = Except.ok all ∧ Interleaved found further all ∧
      found.map (·.line) = [3] ∧ further.map (·.line) = [6] ∧ all.map (·.line) = [6, 3]) ∧
    ∃ run run₁ run₂ : AuditRun,
      (({} : Engine).audit .epoch "C.sol" file "").2 = Except.ok run ∧
      (({} : Engine).audit .epoch "C.sol" file₁ "").2 = Except.ok run₁ ∧
      (({} : Engine).audit .epoch "C.sol" file₂ "").2 = Except.ok run₂ ∧
      run.report.countFor .accessControl =
        run₁.report.countFor .accessControl + run₂.report.countFor .accessControl := by
  intro file file₁ file₂
  have h₁ : ¬ AccessControl.detector.Faults file₁ "" := Detector.not_faults_of_ok rfl
  have h₂ : ¬ AccessControl.detector.Faults file₂ "" := Detector.not_faults_of_ok rfl
  have h : ¬ AccessControl.detector.Faults file "" := Detector.not_faults_of_ok rfl
  obtain ⟨-, -, hdetect, hreport⟩ := audit_append ⟨1, 0⟩ ⟨1, 0⟩ ⟨1, 0⟩
    [.contract ⟨2, 0⟩ "C" [setter 3]] [setter 6] ""
  obtain ⟨found, further, all, hfound, hfurther, hall, -, hinterleaved⟩ := hdetect h
  obtain ⟨run, run₁, run₂, hrun, hrun₁, hrun₂, -, hcount⟩ :=
    hreport h₁ h₂ {} .epoch .epoch .epoch "C.sol" "C.sol" "C.sol"
  refine ⟨h₁, h₂, ⟨found, further, all, hall, hinterleaved, ?_, ?_, ?_⟩,
    run, run₁, run₂, hrun, hrun₁, hrun₂, hcount _⟩
  · cases hfound
    rfl
  · cases hfurther
    rfl
  · cases hall
    rfl

end Engine

end ContractAudit
