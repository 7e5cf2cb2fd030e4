import Mathlib
import ContractAudit.Command.Run
import ContractAudit.Proofs.Audit.Narrative
import ContractAudit.Proofs.Concrete.Lowering
import ContractAudit.Proofs.Files.Tree

namespace ContractAudit

open ContractAudit.Path

def Narrative.Analysis.untimed (a : Narrative.Analysis) : Narrative.Analysis :=
  { a with elapsedMs := 0 }

/-- The report without the moments and the elapsed time in it. -/
def Report.untimed (r : Report) : Report :=
  { r with
    timestamp := .epoch
    narrative := r.narrative.map fun enhancement ↦ ⟨enhancement.analysis.untimed, .epoch⟩ }

/-- The reports are about the same files, and the same but for the times in them and for what is
said about `path`. -/
def Report.SameBut (path : String) : List Report → List Report → Prop :=
  List.Forall₂ fun r r' ↦
    r'.contractPath = r.contractPath ∧ (r.contractPath ≠ path → r'.untimed = r.untimed)

/-- A single report as it is, any other number of them as an array. -/
def Report.jsonDocument : List Report → Json
  | [report] => report.toJson
  | reports => .array (reports.map toJson)

namespace Config

theorem FileFormat.ofPath?_of_sol {path : String} (h : extension? path = some "sol") :
    ofPath? path = none := by
  simp [ofPath?, h]

theorem ofFile_congr (decode : Decoder) {disk disk' : Disk} {path : String}
    (h : extension? path ≠ some "sol" → disk'.readText path = disk.readText path) :
    ofFile decode disk' path = ofFile decode disk path := by
  by_cases hsol : extension? path = some "sol"
  · rw [ofFile, ofFile, FileFormat.ofPath?_of_sol hsol]
  · rw [ofFile, ofFile, h hsol]

end Config

namespace Narrative

theorem readFile_untimed (decode : Decoder) (elapsedMs elapsedMs' : Nat) {disk disk' : Disk}
    {file : String} (h : disk'.readText file = disk.readText file) :
    (readFile decode elapsedMs' disk' file).map Analysis.untimed =
      (readFile decode elapsedMs disk file).map Analysis.untimed := by
  rw [readFile, readFile, h]
  cases disk.readText file with
  | error cause => rfl
  | ok content =>
    by_cases hjson : extension? file = some "json"
    · simp only [if_pos hjson]
    · simp only [if_neg hjson]
      split <;> rfl

theorem attach_untimed {said said' : Except AnalyzerError Analysis}
    (h : said'.map Analysis.untimed = said.map Analysis.untimed) {r r' : Report}
    (hr : r'.untimed = r.untimed) (now now' : Timestamp) :
    (Auditor.attach now' r' said').untimed = (Auditor.attach now r said).untimed := by
  cases said with
  | error e =>
    cases said' with
    | error e' =>
      obtain rfl := Except.error.inj h
      exact congrArg (fun r : Report ↦ r.withNarrativeError e'.message) hr
    | ok analysis' => exact absurd h nofun
  | ok analysis =>
    cases said' with
    | error e' => exact absurd h nofun
    | ok analysis' =>
      have hanalysis : analysis'.untimed = analysis.untimed := Except.ok.inj h
      have henhance (r : Report) (a : Analysis) (now : Timestamp) :
          (r.enhance a now).untimed = r.untimed.enhance a.untimed .epoch := rfl
      rw [Auditor.attach, Auditor.attach, henhance, henhance, hr, hanalysis]

end Narrative

namespace Command

def narrated (world : World) (config : Config) (i : Nat) (r : Report) : Report :=
  match narrativeFile? config.narrative with
  | some file => Auditor.attach world.now r
      (Narrative.readFile world.decodeAnalysis (world.elapsedMs i) world.disk file)
  | none => r

def auditOne (world : World) (config : Config) (file : String × Nat) :
    Except AuditError AuditRun :=
  ((world.auditor config).readSource file.1).bind fun source ↦
    ((world.auditor config).findingsIn source).map fun findings ↦
      ⟨findings, narrated world config file.2 (Report.build file.1 findings world.now)⟩

theorem auditResults_eq_map (world : World) (config : Config) (files : List String) :
    world.auditResults config files =
      files.zipIdx.map fun file ↦ (file.1, auditOne world config file) := by
  rw [World.auditResults]
  split
  · rename_i narrative hnarrative
    rw [Auditor.auditFilesWithNarrative, List.mapIdx_eq_zipIdx_map]
    refine List.map_congr_left fun file _ ↦ ?_
    simp only [Auditor.auditWithNarrative_eq, auditOne, narrated, hnarrative]
    rfl
  · rename_i hnarrative
    rw [Auditor.auditFiles, ← List.zipIdx_map_fst 0 files, List.map_map, List.zipIdx_map_fst]
    refine List.map_congr_left fun file _ ↦ ?_
    simp only [Function.comp_apply, Auditor.auditFile_eq, auditOne, narrated, hnarrative]
    rfl

theorem auditOne_of_readText {world : World} {config : Config} {path source : String}
    (h : world.disk.readText path = .ok source) (i : Nat) :
    auditOne world config (path, i) =
      ((world.auditor config).findingsIn source).map fun findings ↦
        ⟨findings, narrated world config i (Report.build path findings world.now)⟩ := by
  have hread : (world.auditor config).readSource path = .ok source := by
    rw [Auditor.readSource, World.auditor, h]
    rfl
  rw [auditOne, hread]
  rfl

theorem contractPath_of_auditOne {world : World} {config : Config} {file : String × Nat}
    {run : AuditRun} (h : auditOne world config file = .ok run) :
    run.report.contractPath = file.1 := by
  rw [auditOne] at h
  cases hsource : (world.auditor config).readSource file.1 with
  | error e => simp [hsource, Except.bind] at h
  | ok source =>
    rw [hsource] at h
    obtain ⟨findings, -, rfl⟩ := map_eq_ok_iff.mp h
    simp only [narrated]
    split
    · cases Narrative.readFile world.decodeAnalysis (world.elapsedMs file.2) world.disk _ <;> rfl
    · rfl

structure SameApart (world world' : World) : Prop where
  grammar : world'.grammar = world.grammar
  decodeSettings : world'.decodeSettings = world.decodeSettings
  decodeAnalysis : world'.decodeAnalysis = world.decodeAnalysis
  env : world'.env = world.env

/-- A result depends on the text of its own file and on that of the narrative analysis only. -/
theorem auditOne_untimed {world world' : World} (hsame : SameApart world world') {config : Config}
    (hnarrative : ∀ file, narrativeFile? config.narrative = some file →
      world'.disk.readText file = world.disk.readText file)
    {file : String × Nat} (hread : world'.disk.readText file.1 = world.disk.readText file.1) :
    (auditOne world' config file).map (·.report.untimed) =
      (auditOne world config file).map (·.report.untimed) := by
  have hsource : (world'.auditor config).readSource file.1 =
      (world.auditor config).readSource file.1 := by
    rw [Auditor.readSource, Auditor.readSource, World.auditor, World.auditor, hread]
  have hfindings (source : String) : (world'.auditor config).findingsIn source =
      (world.auditor config).findingsIn source := by
    rw [Auditor.findingsIn, Auditor.findingsIn, World.auditor, World.auditor, hsame.grammar]
  have hnarrated (findings : List Finding) :
      (narrated world' config file.2 (Report.build file.1 findings world'.now)).untimed =
        (narrated world config file.2 (Report.build file.1 findings world.now)).untimed := by
    have hbuild : (Report.build file.1 findings world'.now).untimed =
        (Report.build file.1 findings world.now).untimed := rfl
    rw [narrated, narrated]
    split
    · rename_i path hpath
      rw [hsame.decodeAnalysis]
      exact Narrative.attach_untimed
        (Narrative.readFile_untimed _ _ _ (hnarrative path hpath)) hbuild _ _
    · exact hbuild
  rw [auditOne, auditOne, hsource]
  cases (world.auditor config).readSource file.1 with
  | error e => rfl
  | ok source =>
    simp only [Except.bind, hfindings]
    cases (world.auditor config).findingsIn source with
    | error e => rfl
    | ok findings => exact congrArg Except.ok (hnarrated findings)

def succeeded (results : List (String × Except AuditError AuditRun)) : List Report :=
  results.filterMap fun result ↦ result.2.toOption.map (·.report)

theorem reports_eq_succeeded (results : List (String × Except AuditError AuditRun)) :
    reports results = succeeded results := by
  refine List.filterMap_congr fun result _ ↦ ?_
  obtain ⟨path, e | run⟩ := result <;> rfl

theorem length_failures (results : List (String × Except AuditError AuditRun)) :
    (failures results).length = results.countP (!·.2.isOk) := by
  induction results with
  | nil => rfl
  | cons result results ih =>
    obtain ⟨path, e | run⟩ := result
    · simpa [failures, Except.isOk, Except.toBool] using ih
    · simpa [failures, Except.isOk, Except.toBool] using ih

theorem renderAll_json (reports : List Report) :
    Report.renderAll .json reports = (Report.jsonDocument reports).pretty := by
  rcases reports with _ | ⟨r, _ | ⟨r', rs⟩⟩ <;> rfl

theorem renderAll_markdown (reports : List Report) :
    Report.renderAll .markdown reports =
      String.intercalate "\n---\n\n" (reports.map Markdown.render) := by
  rcases reports with _ | ⟨r, _ | ⟨r', rs⟩⟩
  · rfl
  · exact String.intercalate_singleton.symm
  · rfl

theorem sameBut_succeeded {world world' : World} {config config' : Config} {path : String}
    {files : List (String × Nat)}
    (hother : ∀ file ∈ files, file.1 ≠ path → (auditOne world' config' file).map (·.report.untimed) =
      (auditOne world config file).map (·.report.untimed))
    (hkept : ∀ file ∈ files, file.1 = path →
      (auditOne world' config' file).isOk = (auditOne world config file).isOk) :
    Report.SameBut path
      (succeeded (files.map fun file ↦ (file.1, auditOne world config file)))
      (succeeded (files.map fun file ↦ (file.1, auditOne world' config' file))) := by
  induction files with
  | nil => exact .nil
  | cons file files ih =>
    obtain ⟨hfile, hother⟩ := List.forall_mem_cons.mp hother
    obtain ⟨hkeptFile, hkept⟩ := List.forall_mem_cons.mp hkept
    have hrest := ih hother hkept
    simp only [succeeded, List.map_cons, List.filterMap_cons]
    have hok : (auditOne world' config' file).isOk = (auditOne world config file).isOk := by
      by_cases heq : file.1 = path
      · exact hkeptFile heq
      · exact isOk_eq_of_map_eq (hfile heq)
    cases hrun : auditOne world config file with
    | error e =>
      cases hrun' : auditOne world' config' file with
      | error e' => exact hrest
      | ok run' => simp [hrun, hrun', Except.isOk, Except.toBool] at hok
    | ok run =>
      cases hrun' : auditOne world' config' file with
      | error e' => simp [hrun, hrun', Except.isOk, Except.toBool] at hok
      | ok run' =>
        have hcontract := contractPath_of_auditOne hrun
        have hcontract' := contractPath_of_auditOne hrun'
        refine .cons ⟨hcontract'.trans hcontract.symm, fun hne ↦ ?_⟩ hrest
        have hsame := hfile (hcontract ▸ hne)
        rw [hrun, hrun'] at hsame
        exact Except.ok.inj hsame

inductive Written {σ : Type} (write : String → String → StateM σ (Option IoError)) :
    σ → List Write → σ → Prop
  | nil (s : σ) : Written write s [] s
  | cons {w : Write} {ws : List Write} {s s₁ s₂ : σ} (h : write w.path w.content s = (none, s₁))
      (rest : Written write s₁ ws s₂) : Written write s (w :: ws) s₂

theorem performWrites_of_written {σ : Type}
    {write : String → String → StateM σ (Option IoError)} {ws : List Write} {s s' : σ}
    (h : Written write s ws s') (output complaints : List String) (failure : Option Failure) :
    performWrites write output complaints failure ws s =
      (.close (output ++ ws.flatMap (·.notices)) complaints failure, s') := by
  induction h generalizing output with
  | nil s =>
    rw [List.flatMap_nil, List.append_nil]
    rfl
  | @cons w ws s s₁ s₂ h rest ih =>
    rw [List.flatMap_cons, ← List.append_assoc, ← ih]
    simp only [performWrites, bind, StateT.bind, h]

theorem plan_audit {world : World} {options : AuditOptions} {config : Config}
    {files : List String}
    (hconfig : loadConfig world.decodeSettings world.disk world.env options = .ok config)
    (hfiles : world.disk.solidityFiles options.path = .ok files) (hne : files ≠ []) :
    plan world (.audit options) = auditPlan options (world.auditResults config files) := by
  obtain ⟨first, more, rfl⟩ := List.exists_cons_of_ne_nil hne
  simp only [plan, planAudit, hconfig, hfiles]

theorem loadConfig_congr (decode : Config.Decoder) {disk disk' : Disk} (env : Environment)
    (options : AuditOptions)
    (h : ∀ path, extension? path ≠ some "sol" → disk'.readText path = disk.readText path) :
    loadConfig decode disk' env options = loadConfig decode disk env options := by
  have hfile (path : String) : Config.ofFile decode disk' path = Config.ofFile decode disk path :=
    Config.ofFile_congr decode (h path)
  simp only [loadConfig, baseConfig, hfile]

theorem failure_auditPlan (options : AuditOptions)
    (results : List (String × Except AuditError AuditRun)) :
    (auditPlan options results).failure =
      if ∃ result ∈ results, result.2.isOk = false then
        some (.contracts (results.countP (!·.2.isOk)) results.length)
      else none := by
  have hlength := length_failures results
  by_cases herror : ∃ result ∈ results, result.2.isOk = false
  · obtain ⟨result, hmem, hresult⟩ := herror
    have hpos : 0 < (failures results).length := by
      rw [hlength]
      exact List.countP_pos_iff.mpr ⟨result, hmem, by simpa using hresult⟩
    have hne : failures results ≠ [] := List.ne_nil_of_length_pos hpos
    rw [if_pos ⟨result, hmem, hresult⟩, ← hlength]
    simp [auditPlan, hne]
  · have hnone : failures results = [] := by
      rw [← List.length_eq_zero_iff, hlength, List.countP_eq_zero]
      intro result hmem hresult
      exact herror ⟨result, hmem, by simpa using hresult⟩
    rw [if_neg herror]
    simp [auditPlan, hnone]

/-- How a run ends whose files are all written. -/
theorem run_of_written {σ : Type} {write : String → String → StateM σ (Option IoError)}
    {world : World} {args : List String} {options : AuditOptions}
    {results : List (String × Except AuditError AuditRun)} {s s' : σ}
    (hargs : Request.parse? args = some (.audit options))
    (hplan : plan world (.audit options) = auditPlan options results)
    (hwritten : Written write s (auditPlan options results).writes s') :
    ∃ outcome : Outcome, run world write args s = (outcome, s') ∧
      if ∃ result ∈ results, result.2.isOk = false then
        outcome.status = 1 ∧ outcome.complaints.getLast? =
          some ("Error: " ++ (toString (results.countP (!·.2.isOk)) ++ " of " ++
            toString results.length ++ " contracts failed to audit"))
      else outcome.status = 0 := by
  have hrun : run world write args s = (auditPlan options results).perform write s := by
    rw [run, hargs, ← hplan]
  rw [Plan.perform, performWrites_of_written hwritten, failure_auditPlan] at hrun
  refine ⟨_, hrun, ?_⟩
  split
  · exact ⟨rfl, List.getLast?_concat⟩
  · rfl

theorem writes_auditPlan {options : AuditOptions} {out md : String}
    (hout : options.output = some out) (hmd : options.markdown = some md)
    (results : List (String × Except AuditError AuditRun)) :
    (auditPlan options results).writes.map (fun w ↦ (w.path, w.content)) =
      [(out, (Report.jsonDocument (succeeded results)).pretty),
        (md, String.intercalate "\n---\n\n" ((succeeded results).map Markdown.render))] := by
  simp only [auditPlan, reportWrite?, hout, hmd, reports_eq_succeeded, renderAll_json,
    renderAll_markdown]
  rfl

theorem written_of_map {σ : Type} {write : String → String → StateM σ (Option IoError)}
    {ws : List Write} {first second : String × String} {s s₁ s₂ : σ}
    (hws : ws.map (fun w ↦ (w.path, w.content)) = [first, second])
    (hfirst : write first.1 first.2 s = (none, s₁))
    (hsecond : write second.1 second.2 s₁ = (none, s₂)) : Written write s ws s₂ := by
  obtain ⟨w, rest, rfl, rfl, hrest⟩ := List.map_eq_cons_iff.mp hws
  obtain ⟨w', rest', rfl, rfl, hnil⟩ := List.map_eq_cons_iff.mp hrest
  obtain rfl := List.map_eq_nil_iff.mp hnil
  exact .cons hfirst (.cons hsecond (.nil s₂))

/-- Reports of other files stay the same when the content of one file changes, unless the narrative
analysis is read from it. -/
theorem sameBut_of_editedAt {world world' : World} (hsame : SameApart world world')
    {options : AuditOptions} {config config' : Config} {fs fs' : FileSystem} {file : String}
    {files : List String} (hdisk : world.disk = .ofFiles fs) (hdisk' : world'.disk = .ofFiles fs')
    (hwf : fs.WellFormed) (hedit : fs.EditedAt file fs')
    (hfiles : world.disk.solidityFiles options.path = .ok files) (hfile : file ∈ files)
    (hconfig : loadConfig world.decodeSettings world.disk world.env options = .ok config)
    (hconfig' : loadConfig world'.decodeSettings world'.disk world'.env options = .ok config')
    (hnarrative : ∀ source, narrativeFile? config.narrative = some source →
      world'.disk.readText source = world.disk.readText source)
    (hkept : ∀ result ∈ world.auditResults config files,
      ∀ result' ∈ world'.auditResults config' files,
      result.1 = file → result'.1 = file → result'.2.isOk = result.2.isOk) :
    Report.SameBut file (succeeded (world.auditResults config files))
      (succeeded (world'.auditResults config' files)) := by
  have hmem (w : World) (c : Config) {audited : String × Nat} (h : audited ∈ files.zipIdx) :
      (audited.1, auditOne w c audited) ∈ w.auditResults c files := by
    rw [auditResults_eq_map]
    exact List.mem_map.mpr ⟨audited, h, rfl⟩
  rw [auditResults_eq_map world, auditResults_eq_map world']
  refine sameBut_succeeded (fun audited haudited hne ↦ ?_) fun audited haudited heq ↦
    hkept _ (hmem world config haudited) _ (hmem world' config' haudited) heq heq
  have hpath : audited.1 ∈ files := List.fst_mem_of_mem_zipIdx haudited
  rw [hdisk] at hfiles
  rcases Disk.readText_of_extension hwf hedit hfiles hfile with rfl | hother
  · exact absurd (List.mem_singleton.mp hpath) hne
  · rw [← hdisk, ← hdisk'] at hother
    obtain rfl : config' = config := by
      rw [hsame.decodeSettings, hsame.env, loadConfig_congr _ _ options hother] at hconfig'
      exact Except.ok.inj (hconfig'.symm.trans hconfig)
    refine auditOne_untimed hsame hnarrative ?_
    rw [hdisk, hdisk']
    exact Disk.readText_of_editedAt hwf hedit hfiles hfile hpath hne

/-- An audit writes the reports of the files that could be audited, in the order of the files, also
when others fail, and then says how many failed. A report depends on no file but its own and that of
the narrative analysis. -/
theorem run_audit (world : World) (args : List String) (options : AuditOptions) (config : Config)
    (files : List String) (out md : String)
    (hargs : Request.parse? args = some (.audit options))
    (hout : options.output = some out) (hmd : options.markdown = some md)
    (hconfig : loadConfig world.decodeSettings world.disk world.env options = .ok config)
    (hfiles : world.disk.solidityFiles options.path = .ok files) (hne : files ≠ []) :
    let results := world.auditResults config files
    let json := (Report.jsonDocument (succeeded results)).pretty
    let markdown := String.intercalate "\n---\n\n" ((succeeded results).map Markdown.render)
    results.map Prod.fst = files ∧
    (plan world (.audit options)).writes.map (fun w ↦ (w.path, w.content)) =
      [(out, json), (md, markdown)] ∧
    (∀ (σ : Type) (write : String → String → StateM σ (Option IoError)) (s s₁ s₂ : σ),
      write out json s = (none, s₁) → write md markdown s₁ = (none, s₂) →
      ∃ outcome : Outcome, run world write args s = (outcome, s₂) ∧
        if ∃ result ∈ results, result.2.isOk = false then
          outcome.status = 1 ∧ outcome.complaints.getLast? =
            some ("Error: " ++ (toString (results.countP (!·.2.isOk)) ++ " of " ++
              toString files.length ++ " contracts failed to audit"))
        else outcome.status = 0) ∧
    ∀ (fs fs' : FileSystem) (file : String) (later : Timestamp) (elapsedMs : Nat → Nat)
      (config' : Config),
      let world' : World :=
        { world with disk := .ofFiles fs', now := later, elapsedMs := elapsedMs }
      let results' := world'.auditResults config' files
      world.disk = .ofFiles fs → fs.WellFormed → fs.EditedAt file fs' → file ∈ files →
      loadConfig world'.decodeSettings world'.disk world'.env options = .ok config' →
      (∀ source, narrativeFile? config.narrative = some source →
        world'.disk.readText source = world.disk.readText source) →
      (∀ result ∈ results, ∀ result' ∈ results', result.1 = file → result'.1 = file →
        result'.2.isOk = result.2.isOk) →
      world'.disk.solidityFiles options.path = .ok files ∧
        Report.SameBut file (succeeded results) (succeeded results') := by
  intro results json markdown
  have hpaths : results.map Prod.fst = files := by
    rw [show results = _ from auditResults_eq_map world config files, List.map_map]
    exact List.zipIdx_map_fst 0 files
  have hplan := plan_audit hconfig hfiles hne
  have hwrites : (plan world (.audit options)).writes.map (fun w ↦ (w.path, w.content)) =
      [(out, json), (md, markdown)] := by
    rw [hplan]
    exact writes_auditPlan hout hmd results
  refine ⟨hpaths, hwrites, ?_, ?_⟩
  · intro σ write s s₁ s₂ hjson hmarkdown
    rw [hplan] at hwrites
    have hlength : files.length = results.length := by rw [← hpaths, List.length_map]
    rw [hlength]
    exact run_of_written hargs hplan (written_of_map hwrites hjson hmarkdown)
  · intro fs fs' file later elapsedMs config' world' results' hdisk hwf hedit hfile hconfig'
      hnarrative hkept
    have hsame : SameApart world world' := ⟨rfl, rfl, rfl, rfl⟩
    refine ⟨?_, sameBut_of_editedAt hsame hdisk rfl hwf hedit hfiles hfile hconfig hconfig'
      hnarrative hkept⟩
    rw [hdisk] at hfiles
    exact (Disk.solidityFiles_of_editedAt hedit options.path).trans hfiles

namespace Sample

open Concrete Concrete.Tree.Build Entry

def grammar : Grammar where
  tree
    | "" => .ok (construct "source_file" none 0 0 [])
    | ";" => .ok (.node ⟨"source_file", true, false, false, true, none, 0, 1, 0, 0⟩
        [.node ⟨"ERROR", true, true, false, true, none, 0, 1, 0, 0⟩ [token ";" none 0]])
    | source => .ok (construct "source_file" none 0 source.utf8ByteSize
        [construct "comment" none 0 source.utf8ByteSize []])

def contracts (text : String) : List (String × Entry) :=
  [("a.sol", .file text.toUTF8), ("b.sol", .file ";".toUTF8), ("c.sol", .file "".toUTF8)]

def files (text : String) : FileSystem where
  root := [("work", .directory [("d", .directory (contracts text))])]
  current := ["work"]

def covered (path : String) : List String := [path ++ "/a.sol", path ++ "/b.sol", path ++ "/c.sol"]

def world (text : String) : World :=
  ⟨.ofFiles (files text), grammar, fun _ _ ↦ .error "unread", fun _ ↦ .error "unread", {}, .epoch,
    fun _ ↦ 0⟩

theorem solidityFiles_covered {text path : String}
    (hlookup : (world text).disk.lookup path = .ok (.directory (contracts text)))
    (hlisted : solidityFilesBelow path (contracts text) = [("a.sol", .ok [path ++ "/a.sol"]),
      ("b.sol", .ok [path ++ "/b.sol"]), ("c.sol", .ok [path ++ "/c.sol"])]) :
    (world text).disk.solidityFiles path = .ok (covered path) := by
  simp only [Disk.solidityFiles, hlookup, hlisted, inOrder]
  rw [List.mergeSort_of_pairwise (by simp)]
  rfl

theorem solidityFiles_relative (text : String) :
    (world text).disk.solidityFiles "d" = .ok (covered "d") := by
  refine solidityFiles_covered rfl ?_
  simp only [contracts, solidityFilesBelow, solidityFilesAt]
  rfl

theorem solidityFiles_absolute (text : String) :
    (world text).disk.solidityFiles "/work/d" = .ok (covered "/work/d") := by
  refine solidityFiles_covered rfl ?_
  simp only [contracts, solidityFilesBelow, solidityFilesAt]
  rfl

theorem differAt_files :
    ∃ names, DifferAt names (.directory (files "// c").root) (.directory (files "// only").root) :=
  ⟨["work", "d", "a.sol"], .directory [] [] (.directory [] [] (.directory [] _ (.file _ _)))⟩

theorem editedAt_relative : (files "// c").EditedAt "d/a.sol" (files "// only") :=
  ⟨rfl, differAt_files, "// c".toUTF8, "// only".toUTF8, by decide, rfl, rfl⟩

theorem editedAt_absolute : (files "// c").EditedAt "/work/d/a.sol" (files "// only") :=
  ⟨rfl, differAt_files, "// c".toUTF8, "// only".toUTF8, by decide, rfl, rfl⟩

theorem wellFormed_files : (files "// c").WellFormed := by
  have hcontracts : (Entry.directory (contracts "// c")).WellFormed := by
    refine .directory (by decide) (by decide) ?_
    simp only [contracts, List.forall_mem_cons]
    exact ⟨.file _, .file _, .file _, nofun⟩
  have hwork : (Entry.directory [("d", .directory (contracts "// c"))]).WellFormed :=
    .directory (by decide) (by decide) fun entry hentry ↦ List.mem_singleton.mp hentry ▸ hcontracts
  exact .directory (by decide) (by decide) fun entry hentry ↦ List.mem_singleton.mp hentry ▸ hwork

theorem readText_eq {disk : Disk} {path text : String}
    (h : disk.lookup path = .ok (.file text.toUTF8)) : disk.readText path = .ok text := by
  have htext : String.fromUTF8? text.toUTF8 = some text := dif_pos text.isValidUTF8
  simp only [Disk.readText, h, bind, Except.bind, htext]

structure Reads (text path : String) : Prop where
  a : (world text).disk.readText (path ++ "/a.sol") = .ok text
  b : (world text).disk.readText (path ++ "/b.sol") = .ok ";"
  c : (world text).disk.readText (path ++ "/c.sol") = .ok ""

theorem reads_relative (text : String) : Reads text "d" :=
  ⟨readText_eq rfl, readText_eq rfl, readText_eq rfl⟩

theorem reads_absolute (text : String) : Reads text "/work/d" :=
  ⟨readText_eq rfl, readText_eq rfl, readText_eq rfl⟩

theorem auditResults_covered (config : Config) {text path : String} (hreads : Reads text path)
    (htext : ((world text).auditor config).findingsIn text = .ok [])
    (hempty : ((world text).auditor config).findingsIn "" = .ok []) :
    ∃ e : AuditError, (world text).auditResults config (covered path) =
      [(path ++ "/a.sol",
          .ok ⟨[], narrated (world text) config 0 (.build (path ++ "/a.sol") [] .epoch)⟩),
        (path ++ "/b.sol", .error e),
        (path ++ "/c.sol",
          .ok ⟨[], narrated (world text) config 2 (.build (path ++ "/c.sol") [] .epoch)⟩)] := by
  obtain ⟨ha, hb, hc⟩ := hreads
  obtain ⟨e, hsemicolon⟩ : ∃ e, ((world text).auditor config).findingsIn ";" = .error e := ⟨_, rfl⟩
  refine ⟨e, ?_⟩
  rw [auditResults_eq_map]
  simp only [covered, List.zipIdx_cons, List.zipIdx_nil, List.map_cons, List.map_nil,
    auditOne_of_readText ha, auditOne_of_readText hb, auditOne_of_readText hc, htext, hsemicolon,
    hempty]
  rfl

theorem isOk_absolute (config : Config) (text : String)
    (htext : ((world text).auditor config).findingsIn text = .ok []) :
    ∀ result ∈ (world text).auditResults config (covered "/work/d"),
      result.1 = "/work/d/a.sol" → result.2.isOk = true := by
  intro result hresult hfile
  rw [auditResults_eq_map] at hresult
  obtain ⟨⟨path, i⟩, -, rfl⟩ := List.mem_map.mp hresult
  obtain rfl : path = "/work/d/a.sol" := hfile
  have hread : (world text).disk.readText "/work/d/a.sol" = .ok text := (reads_absolute text).a
  rw [auditOne_of_readText hread, htext]
  rfl

theorem narrated_audited {text : String} (htext : Text.trimmed text = text)
    (hne : text.isEmpty = false) (i : Nat) (r : Report) :
    narrated (world text) { narrative := ⟨true, some "d/a.sol"⟩ } i r =
      r.enhance ⟨text, "file", 0⟩ .epoch := by
  have hsource : (world text).disk.readText "d/a.sol" = .ok text := (reads_relative text).a
  have hread : Narrative.readFile (world text).decodeAnalysis 0 (world text).disk "d/a.sol" =
      .ok ⟨text, "file", 0⟩ := by
    rw [Narrative.readFile, hsource]
    simp only [htext, hne]
    rfl
  exact congrArg (Auditor.attach .epoch r) hread

def keep (path content : String) : StateM (List (String × String)) (Option IoError) :=
  fun written ↦ (none, written ++ [(path, content)])

end Sample

open Sample

theorem run_audit_threeFiles :
    let results := (world "// c").auditResults {} (covered "/work/d")
    let results' := (world "// only").auditResults {} (covered "/work/d")
    (∃ outcome : Outcome, run (world "// c") keep
        ["audit", "/work/d", "--output", "o.json", "--markdown", "m.md"] [] =
          (outcome, [("o.json", (Report.jsonDocument (succeeded results)).pretty),
            ("m.md", String.intercalate "\n---\n\n" ((succeeded results).map Markdown.render))]) ∧
        outcome.status = 1 ∧
        outcome.complaints.getLast? = some "Error: 1 of 3 contracts failed to audit") ∧
      Report.SameBut "/work/d/a.sol" (succeeded results) (succeeded results') := by
  intro results results'
  obtain ⟨-, -, hrun, hedit⟩ := run_audit (world "// c")
    ["audit", "/work/d", "--output", "o.json", "--markdown", "m.md"]
    { path := "/work/d", output := some "o.json", markdown := some "m.md" } {} (covered "/work/d")
    "o.json" "m.md" rfl rfl rfl rfl (solidityFiles_absolute "// c") (by decide)
  obtain ⟨e, hresults⟩ := auditResults_covered {} (reads_absolute "// c") rfl rfl
  refine ⟨?_, ?_⟩
  · obtain ⟨outcome, houtcome, hend⟩ := hrun _ keep [] _ _ rfl rfl
    refine ⟨outcome, houtcome, ?_⟩
    rw [hresults, if_pos ⟨_, List.mem_cons_of_mem _ List.mem_cons_self, rfl⟩] at hend
    have hline : "Error: " ++ (toString 1 ++ " of " ++ toString 3 ++ " contracts failed to audit") =
        "Error: 1 of 3 contracts failed to audit" := by decide
    exact hline ▸ hend
  · refine (hedit (files "// c") (files "// only") "/work/d/a.sol" .epoch (fun _ ↦ 0) {} rfl
      wellFormed_files editedAt_absolute (by decide) rfl nofun ?_).2
    intro result hresult result' hresult' hfile hfile'
    exact (isOk_absolute {} "// only" rfl result' hresult' hfile').trans
      (isOk_absolute {} "// c" rfl result hresult hfile).symm

/-- Where the narrative analysis is read from a file that is audited itself, a change of this file
changes the reports about the others. -/
theorem narrative_from_audited_file :
    let options : AuditOptions :=
      { path := "d", narrative := some "d/a.sol", output := some "o.json", markdown := some "m.md",
        quiet := true }
    let config : Config := { narrative := ⟨true, some "d/a.sol"⟩ }
    let results (text : String) := (world text).auditResults config (covered "d")
    Request.parse? ["audit", "d", "--narrative", "d/a.sol", "--output", "o.json", "--markdown",
      "m.md", "-q"] = some (.audit options) ∧
    (∀ text, loadConfig (world text).decodeSettings (world text).disk (world text).env options =
        .ok config ∧
      (world text).disk.solidityFiles options.path = .ok (covered "d")) ∧
    (files "// c").EditedAt "d/a.sol" (files "// only") ∧
    (results "// c").map (·.2.isOk) = [true, false, true] ∧
    (results "// only").map (·.2.isOk) = [true, false, true] ∧
    ¬ Report.SameBut "d/a.sol" (succeeded (results "// c")) (succeeded (results "// only")) := by
  intro options config results
  obtain ⟨e, hresults⟩ := auditResults_covered config (reads_relative "// c") rfl rfl
  obtain ⟨e', hresults'⟩ := auditResults_covered config (reads_relative "// only") rfl rfl
  refine ⟨rfl, fun text ↦ ⟨rfl, solidityFiles_relative text⟩, editedAt_relative, ?_, ?_, ?_⟩
  · simp only [results, hresults]
    rfl
  · simp only [results, hresults']
    rfl
  · simp only [results, hresults, hresults']
    intro hsame
    change List.Forall₂ _ [_, _] [_, _] at hsame
    obtain - | ⟨-, hrest⟩ := hsame
    obtain - | ⟨⟨hpath, huntimed⟩, -⟩ := hrest
    have htrimmed : Text.trimmed "// c" = "// c" := rfl
    have htrimmed' : Text.trimmed "// only" = "// only" := rfl
    simp only [config, narrated_audited htrimmed rfl, narrated_audited htrimmed' rfl] at huntimed
    have htexts := congrArg (fun r ↦ r.narrative.map (·.analysis.analysis)) (huntimed (by decide))
    exact absurd htexts (by decide)

end Command

end ContractAudit
