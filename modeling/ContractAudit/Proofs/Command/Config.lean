import Mathlib
import ContractAudit.Command.Run
import ContractAudit.Proofs.Config.DetectorList
import ContractAudit.Proofs.Results

namespace ContractAudit

namespace DetectorId

/-- The names in a list with commas between them, without the blanks around each. -/
def listed (list : String) : List String :=
  (((Text.splitAt ',' list.toList).map Text.trim).filter (!·.isEmpty)).map String.ofList

theorem parseList_eq_ok_iff {list : String} {ids : List DetectorId} :
    parseList list = .ok ids ↔ listed list = ids.map name := by
  rw [parseList_eq_ok_iff_names, listed, filter_map_trim, List.map_map, ← List.forall₂_eq_eq_eq,
    List.forall₂_map_left_iff, List.forall₂_map_right_iff]
  apply forall₂_iff_of_mem
  intro piece _ id
  rw [names_iff, ofName?_eq_some_iff, Function.comp_apply]

end DetectorId

theorem Config.validated_eq_ok_iff {config config' : Config} :
    config.validated = .ok config' ↔
      DetectorId.detectorError ∉ config.enabledDetectors ∧ config = config' := by
  rw [validated, validate, isEnabled]
  by_cases h : DetectorId.detectorError ∈ config.enabledDetectors
  · simp [h, bind, Except.bind]
  · simp [h, bind, Except.bind, pure, Except.pure]

namespace Config

/-- The file at a path can be read and gives these settings. -/
def FileGives (decode : Decoder) (disk : Disk) (path : String) (s : Settings) : Prop :=
  ∃ format text, FileFormat.ofPath? path = some format ∧ disk.readText path = .ok text ∧
    decode format text = .ok s

/-- What a text names in its list of detectors, a decoder that takes the text reads as detectors of
these names. -/
def Decoder.Knows (decode : Decoder) (named : FileFormat → String → List String) : Prop :=
  ∀ format text s, decode format text = .ok s →
    named format text ⊆ (s.detectors.getD []).map DetectorId.name

theorem ofFile_eq_ok_iff {decode : Decoder} {disk : Disk} {path : String} {config : Config} :
    ofFile decode disk path = .ok config ↔ ∃ s, FileGives decode disk path s ∧
      DetectorId.detectorError ∉ s.config.enabledDetectors ∧ s.config = config := by
  rw [ofFile]
  cases hformat : FileFormat.ofPath? path with
  | none => simp [FileGives, hformat]
  | some format =>
    simp only [bind_eq_ok_iff, mapError_eq_ok_iff, validated_eq_ok_iff]
    constructor
    · rintro ⟨text, htext, s, hs, hrunnable, rfl⟩
      exact ⟨s, ⟨format, text, hformat, htext, hs⟩, hrunnable, rfl⟩
    · rintro ⟨s, ⟨format', text, hformat', htext, hs⟩, hrunnable, rfl⟩
      obtain rfl := Option.some.inj (hformat.symm.trans hformat')
      exact ⟨text, htext, s, hs, hrunnable, rfl⟩

end Config

structure Environment.Gives (env : Environment) (s : Settings) : Prop where
  detectors :
    Option.Rel (fun list ids ↦ DetectorId.listed list = ids.map DetectorId.name)
      env.detectors s.detectors
  isolateFaults : s.isolateFaults =
    env.isolateFaults.map fun value ↦ decide (Text.trimmed value ∈ ["1", "true", "yes"])
  narrative : s.narrative = none

theorem Environment.settings_eq_ok_iff {env : Environment} {s : Settings} :
    env.settings = .ok s ↔ env.Gives s := by
  have hyes : env.isolateFaults.map isYes =
      env.isolateFaults.map fun value ↦ decide (Text.trimmed value ∈ ["1", "true", "yes"]) := by
    refine congrArg (Option.map · env.isolateFaults) (funext fun value ↦ ?_)
    rw [isYes, List.contains_eq_mem]
  simp only [settings, bind_eq_ok_iff, option_mapM_eq_ok_iff, DetectorId.parseList_eq_ok_iff]
  constructor
  · rintro ⟨ids, hids, h⟩
    obtain rfl := Except.ok.inj h
    exact ⟨hids, hyes, rfl⟩
  · rintro ⟨hdetectors, hisolate, hnarrative⟩
    obtain ⟨ids, flag, narrative⟩ := s
    obtain rfl : _ = flag := hyes.trans hisolate.symm
    obtain rfl : narrative = none := hnarrative
    exact ⟨ids, hdetectors, rfl⟩

theorem Config.ofEnvironment_eq_ok_iff {env : Environment} {config : Config} :
    ofEnvironment env = .ok config ↔ ∃ s, env.Gives s ∧
      DetectorId.detectorError ∉ s.config.enabledDetectors ∧ s.config = config := by
  simp only [ofEnvironment, bind_eq_ok_iff, validated_eq_ok_iff, Environment.settings_eq_ok_iff]

theorem Environment.Gives.exists_detector {env : Environment} {s : Settings} (h : env.Gives s)
    {list : String} (hlist : env.detectors = some list) {name : String}
    (hname : name ∈ DetectorId.listed list) :
    ∃ id ∈ s.config.enabledDetectors, name = id.name := by
  have hdetectors := h.detectors
  rw [hlist] at hdetectors
  generalize hgiven : s.detectors = given at hdetectors
  cases hdetectors with
  | @some _ ids hids =>
    rw [hids] at hname
    obtain ⟨id, hid, rfl⟩ := List.mem_map.mp hname
    rw [Settings.config, hgiven]
    exact ⟨id, hid, rfl⟩

namespace Command

/-- The settings on which the options build: those of the configuration file if one is named, or
else those of the environment. -/
inductive Below (decode : Config.Decoder) (disk : Disk) (env : Environment)
    (options : AuditOptions) (s : Settings) : Prop
  | file {path : String} (hconfig : options.config = some path)
      (h : Config.FileGives decode disk path s)
  | environment (hconfig : options.config = none) (h : env.Gives s)

/-- What the options make of the settings below them. -/
structure Overlaid (options : AuditOptions) (s : Settings) (config : Config) : Prop where
  detectors :
    match options.detectors with
    | some list => DetectorId.listed list = config.enabledDetectors.map DetectorId.name
    | none => config.enabledDetectors = s.detectors.getD DetectorId.builtin
  isolateFaults : config.isolateFaults ↔ options.isolateFaults ∨ s.isolateFaults = some true
  narrative : config.narrative =
    match options.narrative with
    | some file => ⟨true, some file⟩
    | none => s.narrative.getD {}

/-- Below the options, `name` stands in a list of detectors. -/
inductive Mentions (named : Config.FileFormat → String → List String) (disk : Disk)
    (env : Environment) (options : AuditOptions) (name : String) : Prop
  | file {path text : String} {format : Config.FileFormat} (hconfig : options.config = some path)
      (hformat : Config.FileFormat.ofPath? path = some format)
      (htext : disk.readText path = .ok text) (hname : name ∈ named format text)
  | environment {list : String} (hconfig : options.config = none)
      (hlist : env.detectors = some list) (hname : name ∈ DetectorId.listed list)

variable {decode : Config.Decoder} {disk : Disk} {env : Environment} {options : AuditOptions}
  {s : Settings} {config : Config}

theorem baseConfig_eq_ok_iff :
    baseConfig decode disk env options = .ok config ↔ ∃ s, Below decode disk env options s ∧
      DetectorId.detectorError ∉ s.config.enabledDetectors ∧ s.config = config := by
  rw [baseConfig]
  cases hconfig : options.config with
  | some path =>
    simp only [mapError_eq_ok_iff, Config.ofFile_eq_ok_iff]
    constructor
    · rintro ⟨s, hs, h⟩
      exact ⟨s, .file hconfig hs, h⟩
    · rintro ⟨s, ⟨hpath, hs⟩ | ⟨hnone, -⟩, h⟩
      · obtain rfl := Option.some.inj (hconfig.symm.trans hpath)
        exact ⟨s, hs, h⟩
      · exact absurd (hconfig.symm.trans hnone) nofun
  | none =>
    simp only [mapError_eq_ok_iff, Config.ofEnvironment_eq_ok_iff]
    constructor
    · rintro ⟨s, hs, h⟩
      exact ⟨s, .environment hconfig hs, h⟩
    · rintro ⟨s, ⟨hpath, -⟩ | ⟨-, hs⟩, h⟩
      · exact absurd (hconfig.symm.trans hpath) nofun
      · exact ⟨s, hs, h⟩

theorem selectDetectors_eq_ok_iff {ids : List DetectorId} :
    selectDetectors options s.config = .ok ids ↔
      match options.detectors with
      | some list => DetectorId.listed list = ids.map DetectorId.name
      | none => ids = s.detectors.getD DetectorId.builtin := by
  rw [selectDetectors]
  cases options.detectors with
  | some list => exact mapError_eq_ok_iff.trans DetectorId.parseList_eq_ok_iff
  | none => exact ⟨fun h ↦ (Except.ok.inj h).symm, fun h ↦ h ▸ rfl⟩

theorem overlay_eq_ok_iff :
    overlay options s.config = .ok config ↔
      Overlaid options s config ∧ DetectorId.detectorError ∉ config.enabledDetectors := by
  have hflag : (s.config.isolateFaults || options.isolateFaults) = true ↔
      options.isolateFaults ∨ s.isolateFaults = some true := by
    simp only [Settings.config, Bool.or_eq_true, Option.getD_eq_iff]
    grind
  simp only [overlay, bind_eq_ok_iff, mapError_eq_ok_iff, Config.validated_eq_ok_iff,
    selectDetectors_eq_ok_iff]
  constructor
  · rintro ⟨ids, hids, hrunnable, rfl⟩
    exact ⟨⟨hids, hflag, rfl⟩, hrunnable⟩
  · rintro ⟨⟨hids, hisolate, hnarrative⟩, hrunnable⟩
    refine ⟨_, hids, hrunnable, ?_⟩
    obtain ⟨ids, flag, narrative⟩ := config
    obtain rfl : (s.config.isolateFaults || options.isolateFaults) = flag :=
      Bool.eq_iff_iff.mpr (hflag.trans hisolate.symm)
    obtain rfl := hnarrative
    rfl

theorem loadConfig_eq_ok_iff :
    loadConfig decode disk env options = .ok config ↔ ∃ s, Below decode disk env options s ∧
      DetectorId.detectorError ∉ s.config.enabledDetectors ∧ Overlaid options s config ∧
      DetectorId.detectorError ∉ config.enabledDetectors := by
  rw [loadConfig, bind_eq_ok_iff]
  constructor
  · rintro ⟨base, hbase, h⟩
    obtain ⟨s, hs, hrunnable, rfl⟩ := baseConfig_eq_ok_iff.mp hbase
    exact ⟨s, hs, hrunnable, overlay_eq_ok_iff.mp h⟩
  · rintro ⟨s, hs, hrunnable, h⟩
    exact ⟨s.config, baseConfig_eq_ok_iff.mpr ⟨s, hs, hrunnable, rfl⟩, overlay_eq_ok_iff.mpr h⟩

/-- A named file that gives no settings is what the failure tells of. -/
theorem loadConfig_eq_error_of_file {path : String} (hconfig : options.config = some path)
    (hfile : ∀ s, ¬ Config.FileGives decode disk path s) :
    ∃ cause, loadConfig decode disk env options = .error (.config path cause) := by
  cases hread : Config.ofFile decode disk path with
  | ok config =>
    obtain ⟨s, hs, -⟩ := Config.ofFile_eq_ok_iff.mp hread
    exact absurd hs (hfile s)
  | error cause =>
    refine ⟨cause, ?_⟩
    simp only [loadConfig, baseConfig, hconfig, hread]
    rfl

theorem Mentions.exists_detector {named : Config.FileFormat → String → List String}
    (hknows : Config.Decoder.Knows decode named) {name : String}
    (hname : Mentions named disk env options name) (hs : Below decode disk env options s) :
    ∃ id ∈ s.config.enabledDetectors, name = id.name := by
  cases hname with
  | file hconfig hformat htext hname =>
    rcases hs with ⟨hpath, format, text, hformat', htext', hgives⟩ | ⟨hnone, -⟩
    · obtain rfl := Option.some.inj (hconfig.symm.trans hpath)
      obtain rfl := Option.some.inj (hformat.symm.trans hformat')
      obtain rfl := Except.ok.inj (htext.symm.trans htext')
      obtain ⟨id, hid, rfl⟩ := List.mem_map.mp (hknows _ _ _ hgives hname)
      refine ⟨id, ?_, rfl⟩
      cases hdetectors : s.detectors with
      | none => simp [hdetectors] at hid
      | some ids => simpa [Settings.config, hdetectors] using hid
    · exact absurd (hconfig.symm.trans hnone) nofun
  | environment hconfig hlist hname =>
    rcases hs with ⟨hpath, -⟩ | ⟨-, hgives⟩
    · exact absurd (hpath.symm.trans hconfig) nofun
    · exact hgives.exists_detector hlist hname

theorem mem_builtin_of_ne_detectorError {id : DetectorId} (h : id ≠ .detectorError) :
    id ∈ DetectorId.builtin := by
  revert h
  cases id <;> decide

/-- The configuration of an audit is what the options make of the file or else of the environment.
The environment does not matter if a file is named, and what stands below the options has to be in
order also where an option takes its place. -/
theorem loadConfig_layered (decode : Config.Decoder) (disk : Disk) (env : Environment)
    (options : AuditOptions) :
    (∀ config, loadConfig decode disk env options = .ok config ↔
      ∃ s, Below decode disk env options s ∧
        DetectorId.detectorError ∉ s.config.enabledDetectors ∧ Overlaid options s config ∧
        DetectorId.detectorError ∉ config.enabledDetectors) ∧
    (options.config ≠ none → ∀ env',
      loadConfig decode disk env' options = loadConfig decode disk env options) ∧
    (∀ path, options.config = some path → (∀ s, ¬ Config.FileGives decode disk path s) →
      ∃ cause, loadConfig decode disk env options = .error (.config path cause)) ∧
    ∀ named, Config.Decoder.Knows decode named → ∀ name, Mentions named disk env options name →
      name ∉ DetectorId.builtin.map DetectorId.name →
      ∃ failure, loadConfig decode disk env options = .error failure := by
  refine ⟨fun config ↦ loadConfig_eq_ok_iff, ?_, fun path ↦ loadConfig_eq_error_of_file, ?_⟩
  · intro hconfig env'
    obtain ⟨path, hpath⟩ := Option.ne_none_iff_exists'.mp hconfig
    simp only [loadConfig, baseConfig, hpath]
  · intro named hknows name hname hunknown
    cases hload : loadConfig decode disk env options with
    | error failure => exact ⟨failure, rfl⟩
    | ok config =>
      obtain ⟨s, hs, hrunnable, -⟩ := loadConfig_eq_ok_iff.mp hload
      obtain ⟨id, hid, rfl⟩ := hname.exists_detector hknows hs
      have hne : id ≠ .detectorError := fun h ↦ hrunnable (h ▸ hid)
      exact absurd (List.mem_map_of_mem (mem_builtin_of_ne_detectorError hne)) hunknown

example (decode : Config.Decoder) (disk : Disk) :
    loadConfig decode disk { detectors := some "reentrancy,detector-error" }
      { path := "contracts", detectors := some "reentrancy" } =
      .error (.audit (.config .notRunnable)) := by
  rfl

end Command

end ContractAudit
