import ContractAudit.Error

namespace ContractAudit.Config

inductive FileFormat where
  | json
  | yaml
  deriving DecidableEq, Repr

namespace FileFormat

def ofPath? (path : String) : Option FileFormat :=
  match Path.extension? path with
  | some "json" => some .json
  | some "yaml" => some .yaml
  | some "yml" => some .yaml
  | _ => none

def error : FileFormat → (reason : String) → AuditError
  | .json => .serialization
  | .yaml => .yaml

end FileFormat

/-- Reads the text of a configuration file, or says what is wrong with it. -/
abbrev Decoder := FileFormat → String → Except String Settings

def ofFile (decode : Decoder) (disk : Disk) (path : String) : Except AuditError Config :=
  match FileFormat.ofPath? path with
  | none => .error (.config (.unsupportedFormat path))
  | some format => do
    let text ← (disk.readText path).mapError (.io path)
    let settings ← (decode format text).mapError format.error
    settings.config.validated.mapError .config

end ContractAudit.Config
