import ContractAudit.Audit
import ContractAudit.Command.Arguments
import ContractAudit.Config.File
import ContractAudit.Report.Console
import ContractAudit.Report.Format

namespace ContractAudit.Command

inductive Failure where
  | audit (cause : AuditError)
  | config (path : String) (cause : AuditError)
  | listing (path : String) (cause : IoError)
  | noFiles (path : String)
  | write (path : String) (cause : IoError)
  | contracts (failed total : Nat)
  deriving DecidableEq, Repr

namespace Failure

def message : Failure → String
  | .audit cause => cause.message
  | .config path _ => "failed to load config " ++ path
  | .listing path cause => "IO error for operation on " ++ path ++ ": " ++ cause.message
  | .noFiles path => "no Solidity files found in " ++ path
  | .write path _ => "failed to write " ++ path
  | .contracts failed total =>
    toString failed ++ " of " ++ toString total ++ " contracts failed to audit"

def causes : Failure → List String
  | .audit cause => cause.cause.toList
  | .config _ cause => cause.message :: cause.cause.toList
  | .listing _ cause => [cause.message]
  | .write _ cause => [cause.message]
  | _ => []

def indent (first later text : String) : String :=
  first ++ String.intercalate ("\n" ++ later) ((Text.splitAt '\n' text.toList).map String.ofList)

def numbered (n : Nat) : List String → List String
  | [] => []
  | cause :: rest => indent ("    " ++ toString n ++ ": ") "       " cause :: numbered (n + 1) rest

def causeLines : List String → List String
  | [] => []
  | [cause] => ["", "Caused by:", indent "    " "    " cause]
  | causes => ["", "Caused by:"] ++ numbered 0 causes

def lines (failure : Failure) : List String :=
  ("Error: " ++ failure.message) :: causeLines failure.causes

end Failure

/-- What the options of an audit build on: the configuration file if one is named, or else the
environment. -/
def baseConfig (decode : Config.Decoder) (disk : Disk) (env : Environment)
    (options : AuditOptions) : Except Failure Config :=
  match options.config with
  | some path => (Config.ofFile decode disk path).mapError (.config path)
  | none => (Config.ofEnvironment env).mapError (.audit ∘ .config)

def selectDetectors (options : AuditOptions) (base : Config) : Except Failure (List DetectorId) :=
  match options.detectors with
  | some list => (DetectorId.parseList list).mapError (.audit ∘ .config)
  | none => .ok base.enabledDetectors

def overlay (options : AuditOptions) (base : Config) : Except Failure Config := do
  let detectors ← selectDetectors options base
  let config : Config :=
    { enabledDetectors := detectors
      isolateFaults := base.isolateFaults || options.isolateFaults
      narrative := match options.narrative with
        | some file => ⟨true, some file⟩
        | none => base.narrative }
  config.validated.mapError (.audit ∘ .config)

/-- The configuration of an audit. What stands below an option has to be in order even where the
option takes its place. -/
def loadConfig (decode : Config.Decoder) (disk : Disk) (env : Environment)
    (options : AuditOptions) : Except Failure Config := do
  overlay options (← baseConfig decode disk env options)

def narrativeFile? (settings : NarrativeSettings) : Option String :=
  if settings.enabled then settings.analysisFile else none

/-- What the commands depend on besides their arguments. -/
structure World where
  disk : Disk
  grammar : Grammar
  decodeSettings : Config.Decoder
  decodeAnalysis : Narrative.Decoder
  env : Environment
  now : Timestamp
  /-- How long the analyzer takes for each of the files of an audit. -/
  elapsedMs : Nat → Nat

def World.auditor (world : World) (config : Config) : Auditor :=
  ⟨{ config := config }, world.grammar, world.disk, world.now⟩

def World.auditResults (world : World) (config : Config) (files : List String) :
    List (String × Except AuditError AuditRun) :=
  let auditor := world.auditor config
  match narrativeFile? config.narrative with
  | some path =>
    auditor.auditFilesWithNarrative (fun i ↦
      Narrative.Analyzer.analyze world.decodeAnalysis (world.elapsedMs i) world.disk (.file path))
      files
  | none => auditor.auditFiles files

def reports (results : List (String × Except AuditError AuditRun)) : List Report :=
  results.filterMap fun
    | (_, .ok run) => some run.report
    | (_, .error _) => none

def failures (results : List (String × Except AuditError AuditRun)) : List (String × AuditError) :=
  results.filterMap fun
    | (_, .ok _) => none
    | (path, .error e) => some (path, e)

structure Write where
  path : String
  content : String
  notices : List String
  deriving DecidableEq, Repr

/-- What a command does: it prints, complains, writes files one after another, and then fails or
not. -/
structure Plan where
  output : List String := []
  complaints : List String := []
  writes : List Write := []
  failure : Option Failure := none
  deriving DecidableEq, Repr

def reportWrite? (options : AuditOptions) (format : Format) (label : String) (path : Option String)
    (reports : List Report) : Option Write :=
  path.map fun path ↦
    { path := path
      content := Report.renderAll format reports
      notices := if options.quiet then [] else ["📄 " ++ label ++ " report written to " ++ path] }

def auditPlan (options : AuditOptions) (results : List (String × Except AuditError AuditRun)) :
    Plan where
  output := if options.quiet then [] else (reports results).flatMap Console.lines
  complaints := (failures results).map fun (path, e) ↦ "✗ " ++ path ++ ": " ++ e.message
  writes :=
    (reportWrite? options .json "JSON" options.output (reports results)).toList ++
      (reportWrite? options .markdown "Markdown" options.markdown (reports results)).toList
  failure :=
    if (failures results).isEmpty then none
    else some (.contracts (failures results).length results.length)

def planAudit (world : World) (options : AuditOptions) : Plan :=
  match loadConfig world.decodeSettings world.disk world.env options with
  | .error failure => { failure := some failure }
  | .ok config =>
    match world.disk.solidityFiles options.path with
    | .error (path, cause) => { failure := some (.listing path cause) }
    | .ok [] => { failure := some (.noFiles options.path) }
    | .ok files => auditPlan options (world.auditResults config files)

def detectorLine (d : Detector) : String :=
  "  " ++ Text.padRight 20 d.id.name ++ " " ++ Text.padRight 8 d.severity.title ++ " " ++
    d.description

def planDetectors (asJson : Bool) : Plan where
  output :=
    if asJson then [(Json.array (Registry.builtin.detectors.map Detector.toJson)).pretty]
    else "Available detectors" :: Registry.builtin.detectors.map detectorLine

def plan (world : World) : Request → Plan
  | .version => { output := ["verisecure 0.1.0"] }
  | .detectors asJson => planDetectors asJson
  | .audit options => planAudit world options

structure Outcome where
  status : Nat
  output : List String
  complaints : List String
  deriving DecidableEq, Repr

def Outcome.close (output complaints : List String) : Option Failure → Outcome
  | none => ⟨0, output, complaints⟩
  | some failure => ⟨1, output, complaints ++ failure.lines⟩

/-- Writes the files of a plan up to the first that cannot be written, which is then the failure. -/
def performWrites {m : Type → Type} [Monad m] (write : String → String → m (Option IoError))
    (output complaints : List String) (failure : Option Failure) : List Write → m Outcome
  | [] => pure (.close output complaints failure)
  | w :: ws => do
    match ← write w.path w.content with
    | some cause => pure (.close output complaints (some (.write w.path cause)))
    | none => performWrites write (output ++ w.notices) complaints failure ws

def Plan.perform {m : Type → Type} [Monad m] (write : String → String → m (Option IoError))
    (plan : Plan) : m Outcome :=
  performWrites write plan.output plan.complaints plan.failure plan.writes

def printed (lines : List String) : String := String.join (lines.map (· ++ "\n"))

def usageError : Outcome where
  status := 2
  output := []
  complaints := ["error: unexpected or missing argument"]

def run {m : Type → Type} [Monad m] (world : World) (write : String → String → m (Option IoError))
    (args : List String) : m Outcome :=
  match Request.parse? args with
  | none => pure usageError
  | some request => (plan world request).perform write

end ContractAudit.Command
