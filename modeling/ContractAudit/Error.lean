import ContractAudit.Concrete.Lowering
import ContractAudit.Config
import ContractAudit.Detector.Basic
import ContractAudit.Files.Tree

namespace ContractAudit

inductive AuditError where
  | io (path : String) (cause : IoError)
  | parse (cause : Concrete.SyntaxError)
  | grammar (reason : String)
  | detector (id : DetectorId) (fault : Fault)
  | config (cause : ConfigError)
  | serialization (reason : String)
  | yaml (reason : String)
  deriving DecidableEq, Repr

namespace AuditError

def cause : AuditError → Option String
  | .io _ cause => some cause.message
  | .detector _ fault => some fault.message
  | .serialization reason => some reason
  | .yaml reason => some reason
  | _ => none

def message : AuditError → String
  | .io path cause => "failed to read " ++ path ++ ": " ++ cause.message
  | .parse e => "parse error at " ++ e.loc.render ++ ": " ++ e.message
  | .grammar reason => "failed to load Solidity grammar: " ++ reason
  | .detector id fault => "detector " ++ id.name ++ " failed: " ++ fault.message
  | .config cause => "invalid configuration: " ++ cause.message
  | .serialization reason => "serialization error: " ++ reason
  | .yaml reason => "yaml error: " ++ reason

end AuditError

end ContractAudit
