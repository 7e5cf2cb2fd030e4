import ContractAudit.Files.Tree
import ContractAudit.Narrative.Analysis
import ContractAudit.Text.Blank

namespace ContractAudit.Narrative

inductive AnalyzerError where
  | unavailable (path : String) (cause : IoError)
  | malformed (reason : String)
  | empty (path : String)
  | failed (reason : String)
  deriving DecidableEq, Repr

def AnalyzerError.message : AnalyzerError → String
  | .unavailable path cause => "narrative source unavailable: " ++ path ++ ": " ++ cause.message
  | .malformed reason => "invalid narrative payload: " ++ reason
  | .empty path => "invalid narrative payload: " ++ path ++ " is empty"
  | .failed reason => "narrative analyzer failed: " ++ reason

/-- Reads the JSON of an analysis, or says what is wrong with it. -/
abbrev Decoder := String → Except String Analysis

/-- An analysis that was written ahead of time: a file `*.json` holds it with its model, any other
file holds its text. `elapsedMs` is how long the reading took. -/
def readFile (decode : Decoder) (elapsedMs : Nat) (disk : Disk) (path : String) :
    Except AnalyzerError Analysis :=
  match disk.readText path with
  | .error cause => .error (.unavailable path cause)
  | .ok content =>
    if Path.extension? path = some "json" then (decode content).mapError .malformed
    else if (Text.trimmed content).isEmpty then .error (.empty path)
    else .ok { analysis := Text.trimmed content, model := "file", elapsedMs := elapsedMs }

inductive Analyzer where
  /-- Gives the same response to every source, or always fails if there is none, and counts how
  often it was asked. -/
  | scripted (response : Option String) (calls : Nat)
  | file (path : String)
  deriving DecidableEq, Repr

namespace Analyzer

def defaultResponse : String := "No additional concerns beyond the reported findings."

def model : Analyzer → String
  | .scripted _ _ => "mock-model"
  | .file _ => "file"

def analyze (decode : Decoder) (elapsedMs : Nat) (disk : Disk) (analyzer : Analyzer)
    (_source : String) : Except AnalyzerError Analysis :=
  match analyzer with
  | .scripted (some response) _ => .ok { analysis := response, model := analyzer.model }
  | .scripted none _ => .error (.failed "mock analyzer failure")
  | .file path => readFile decode elapsedMs disk path

def asked : Analyzer → Analyzer
  | .scripted response calls => .scripted response (calls + 1)
  | .file path => .file path

end Analyzer

end ContractAudit.Narrative
