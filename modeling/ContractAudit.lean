import ContractAudit.Main
import ContractAudit.Node.Build
import ContractAudit.Proofs.Node.Walk
import ContractAudit.Proofs.Node.Occurrences
import ContractAudit.Proofs.Concrete.Lowering
import ContractAudit.Proofs.Concrete.Operations
import ContractAudit.Proofs.Detector.Builtin
import ContractAudit.Proofs.Engine
import ContractAudit.Proofs.Audit
import ContractAudit.Proofs.Audit.Subjects
import ContractAudit.Proofs.Audit.Comments
import ContractAudit.Proofs.Audit.Classification
import ContractAudit.Proofs.Audit.Narrative
import ContractAudit.Proofs.Audit.Additivity
import ContractAudit.Proofs.Audit.Declarations
import ContractAudit.Proofs.Detector.Registry
import ContractAudit.Proofs.Detector.Reentrancy
import ContractAudit.Proofs.Detector.AccessControl
import ContractAudit.Proofs.Concrete.Callee
import ContractAudit.Proofs.Timestamp
import ContractAudit.Proofs.Json.Record
import ContractAudit.Proofs.Report.Json
import ContractAudit.Proofs.Node.Json
import ContractAudit.Proofs.Files.Path
import ContractAudit.Proofs.Files.Tree
import ContractAudit.Proofs.Files.Listing
import ContractAudit.Proofs.Command.Audit
import ContractAudit.Proofs.Command.Config
import ContractAudit.Proofs.Config.DetectorList
import ContractAudit.Proofs.Pragma.Written
import ContractAudit.Proofs.Pragma.Conjunction
import ContractAudit.Proofs.Pragma.Range
import ContractAudit.Proofs.Pragma.Layout
import ContractAudit.Proofs.Report.Narrative
import ContractAudit.Proofs.Concrete.SyntaxError
import ContractAudit.Proofs.Detector.Occurrences
import ContractAudit.Proofs.Detector.Guards
import ContractAudit.Proofs.Report.Table
