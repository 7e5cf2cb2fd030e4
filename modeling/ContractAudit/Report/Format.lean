import ContractAudit.Report.Json
import ContractAudit.Report.Markdown

namespace ContractAudit

inductive Format where
  | json
  | markdown
  deriving DecidableEq, Repr

namespace Format

def name : Format → String
  | .json => "json"
  | .markdown => "markdown"

def parse (s : String) : Except String Format :=
  match String.ofList (s.toList.map Text.lowerAscii) with
  | "json" => .ok .json
  | "markdown" => .ok .markdown
  | "md" => .ok .markdown
  | other => .error other

def unknownMessage (name : String) : String := "unknown output format '" ++ name ++ "'"

end Format

namespace Report

def render (format : Format) (r : Report) : String :=
  match format with
  | .json => r.toJson.pretty
  | .markdown => Markdown.render r

/-- One report as it stands; several as one JSON array, or as Markdown documents with a rule between
them. -/
def renderAll : Format → List Report → String
  | format, [report] => render format report
  | .json, reports => (Json.array (reports.map toJson)).pretty
  | .markdown, reports => String.intercalate "\n---\n\n" (reports.map Markdown.render)

end Report

end ContractAudit
