import ContractAudit.Config.File
import ContractAudit.Json.Reader
import ContractAudit.Narrative.Analyzer
import ContractAudit.Yaml.Value

namespace ContractAudit

namespace Yaml

def field? (name : String) : List (Yaml × Yaml) → Option Yaml
  | [] => none
  | (.scalar _ key, value) :: rest => if key = name then some value else field? name rest
  | _ :: rest => field? name rest

def names? (entries : List (Yaml × Yaml)) : Option (List String) :=
  entries.mapM fun
    | (.scalar _ key, _) => some key
    | _ => none

def isAbsent : Yaml → Bool
  | .scalar isPlain text => isPlain && text.isEmpty
  | _ => false

def record? (names : List String) : Yaml → Option (List (Option Yaml))
  | .mapping entries => do
    let given ← names? entries
    if names.all (given.count · ≤ 1) then return names.map (field? · entries) else none
  | value => if value.isAbsent then some (names.map fun _ ↦ none) else none

def bool? : Yaml → Option Bool
  | .scalar true text =>
    if ["true", "True", "TRUE"].contains text then some true
    else if ["false", "False", "FALSE"].contains text then some false
    else none
  | _ => none

def text? : Yaml → Option String
  | .scalar _ text => some text
  | _ => none

def optionalText? : Option Yaml → Option (Option String)
  | none => some none
  | some (.scalar true text) =>
    if ["", "~", "null", "Null", "NULL"].contains text then some none else some (some text)
  | some value => (text? value).map some

def list? {α : Type} (read : Yaml → Option α) : Yaml → Option (List α)
  | .sequence items => items.mapM read
  | value => if value.isAbsent then some [] else none

end Yaml

def DetectorId.ofYaml? (value : Yaml) : Option DetectorId := do ofName? (← value.text?)

def NarrativeSettings.ofYaml? (value : Yaml) : Option NarrativeSettings := do
  let [enabled, analysisFile] ← value.record? ["enabled", "analysis_file"] | none
  return ⟨← (enabled.map Yaml.bool?).getD (some false), ← Yaml.optionalText? analysisFile⟩

def Settings.ofYaml? (value : Yaml) : Option Settings := do
  let [detectors, isolate, narrative] ←
    value.record? ["enabled_detectors", "isolate_detector_faults", "narrative"] | none
  return ⟨← detectors.mapM (Yaml.list? DetectorId.ofYaml?), ← isolate.mapM Yaml.bool?,
    ← narrative.mapM NarrativeSettings.ofYaml?⟩

namespace Command

def decodeSettings : Config.Decoder
  | .json, text =>
    ((Json.parse? text).bind Settings.ofJson?).elim
      (.error "not a JSON text of the expected shape") .ok
  | .yaml, text =>
    ((Yaml.parse? text).bind Settings.ofYaml?).elim
      (.error "not a YAML document of the expected shape") .ok

def decodeAnalysis : Narrative.Decoder := fun text ↦
  ((Json.parse? text).bind Narrative.Analysis.ofJson?).elim
    (.error "not a JSON text of the expected shape") .ok

end Command

end ContractAudit
