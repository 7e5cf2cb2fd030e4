import ContractAudit.Text.Basic

namespace ContractAudit.Path

/-- Whether a path has more bytes than the system takes. -/
def isTooLong (path : String) : Bool := 4095 < path.utf8ByteSize

def isAbsolute (path : String) : Bool := path.toList.head? == some '/'

def pieces (path : String) : List String := (Text.splitAt '/' path.toList).map String.ofList

def fileName? (path : String) : Option String :=
  match ((pieces path).filter fun piece ↦ piece != "" && piece != ".").getLast? with
  | some ".." => none
  | name => name

/-- What follows the last dot of a name. A dot at its start does not count. -/
def nameExtension? (name : String) : Option String :=
  match (Text.splitAt '.' name.toList).reverse with
  | [] => none
  | [_] => none
  | [_, []] => none
  | last :: _ => some (String.ofList last)

def extension? (path : String) : Option String := (fileName? path).bind nameExtension?

def join (directory name : String) : String :=
  if Text.endsWith ['/'] directory.toList then directory ++ name else directory ++ "/" ++ name

end ContractAudit.Path
