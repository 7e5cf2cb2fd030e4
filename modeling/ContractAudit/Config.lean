import ContractAudit.Finding
import ContractAudit.Text.Basic

namespace ContractAudit

structure NarrativeSettings where
  enabled : Bool := false
  analysisFile : Option String := none
  deriving DecidableEq, Repr, Inhabited

structure Config where
  enabledDetectors : List DetectorId := DetectorId.builtin
  isolateFaults : Bool := false
  narrative : NarrativeSettings := {}
  deriving DecidableEq, Repr, Inhabited

inductive ConfigError where
  | unknownDetector (name : String)
  /-- The name under which faults are reported belongs to no detector. -/
  | notRunnable
  | unsupportedFormat (path : String)
  deriving DecidableEq, Repr

def ConfigError.message : ConfigError → String
  | .unknownDetector name => DetectorId.unknownMessage name
  | .notRunnable => "detector-error is not a runnable detector"
  | .unsupportedFormat path => "unsupported config format: " ++ path

namespace NarrativeSettings

def toJson (s : NarrativeSettings) : Json :=
  .object (("enabled", .bool s.enabled) ::
    (s.analysisFile.map fun path ↦ ("analysis_file", .text path)).toList)

def ofJson? (json : Json) : Option NarrativeSettings := do
  let [enabled, analysisFile] ← json.record? ["enabled", "analysis_file"] 0 | none
  return ⟨← Json.defaulted? false Json.bool? enabled, ← Json.optional? Json.text? analysisFile⟩

end NarrativeSettings

namespace Config

def isEnabled (config : Config) (id : DetectorId) : Bool := config.enabledDetectors.contains id

def toJson (config : Config) : Json :=
  .object [("enabled_detectors", .array (config.enabledDetectors.map DetectorId.toJson)),
    ("isolate_detector_faults", .bool config.isolateFaults),
    ("narrative", config.narrative.toJson)]

def validate (config : Config) : Except ConfigError Unit :=
  if config.isEnabled .detectorError then .error .notRunnable else .ok ()

def validated (config : Config) : Except ConfigError Config := do
  config.validate
  return config

end Config

/-- The settings that one place gives. What it leaves out is `none`. -/
structure Settings where
  detectors : Option (List DetectorId) := none
  isolateFaults : Option Bool := none
  narrative : Option NarrativeSettings := none
  deriving DecidableEq, Repr, Inhabited

namespace Settings

def config (s : Settings) : Config :=
  ⟨s.detectors.getD DetectorId.builtin, s.isolateFaults.getD false, s.narrative.getD {}⟩

def ofJson? (json : Json) : Option Settings := do
  let [detectors, isolate, narrative] ←
    json.record? ["enabled_detectors", "isolate_detector_faults", "narrative"] 0 | none
  return ⟨← detectors.mapM (Json.list? DetectorId.ofJson?), ← isolate.mapM Json.bool?,
    ← narrative.mapM NarrativeSettings.ofJson?⟩

end Settings

namespace DetectorId

/-- The detectors of a list with commas between its names. Blanks around a name, and names that are
blank, do not count. -/
def parseList (list : String) : Except ConfigError (List DetectorId) :=
  let names := ((Text.splitAt ',' list.toList).map Text.trim).filter (!·.isEmpty)
  names.mapM fun name ↦
    match parse (String.ofList name) with
    | .ok id => .ok id
    | .error name => .error (.unknownDetector name)

end DetectorId

structure Environment where
  detectors : Option String := none
  isolateFaults : Option String := none
  deriving DecidableEq, Repr, Inhabited

namespace Environment

def isYes (value : String) : Bool := ["1", "true", "yes"].contains (Text.trimmed value)

def settings (env : Environment) : Except ConfigError Settings := do
  return { detectors := ← env.detectors.mapM DetectorId.parseList
           isolateFaults := env.isolateFaults.map isYes }

end Environment

def Config.ofEnvironment (env : Environment) : Except ConfigError Config := do
  (← env.settings).config.validated

end ContractAudit
