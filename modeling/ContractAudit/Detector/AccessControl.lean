import ContractAudit.Detector.Basic
import ContractAudit.Text.Basic

namespace ContractAudit.AccessControl

def guardNames : List String := ["onlyOwner", "onlyAdmin", "onlyRole"]

def ownerNames : List String := ["owner", "_owner"]

def assignmentFinder : Visitor Bool where
  assignment _ _ _ _ _ := true

def containsAssignment (function : Node) : Bool := assignmentFinder.visit function false

def comparesSender : Node → Bool
  | .binary _ operator left right =>
    (operator == "==" || operator == "!=") && (left.isMsgSender || right.isMsgSender)
  | _ => false

def senderCheckFinder : Visitor Bool where
  call _ callee arguments found :=
    found || (callee.identifierName? == some "require" && arguments.head?.any comparesSender)

def hasSenderCheck (function : Node) : Bool := senderCheckFinder.visit function false

def isGuardName (name : String) : Bool := guardNames.any (Text.holds name ·)

/-- Whether a modifier list of the function of the given name holds a guard. The list is read up to
its first guard, and a node on the way that is no modifier is a fault. -/
def hasGuardModifier (functionName : String) : List Node → Except Fault Bool
  | [] => .ok false
  | .modifierInvocation _ name _ :: rest =>
    if isGuardName name then .ok true else hasGuardModifier functionName rest
  | node :: _ =>
    .error ⟨node.kindName, node.line,
      "modifier list of " ++ functionName ++ " holds a non-modifier node"⟩

def finding (line : Nat) (name : String) : Finding where
  detector := .accessControl
  severity := .high
  description := "Missing access control"
  details := "Function " ++ name ++ " modifies state but doesn't have access control checks."
  line := line
  function := some name

/-- The finding about one function, if there is one. The modifiers are read also where nothing is
assigned. -/
def checkFunction (node : Node) (header : FunctionHeader) (modifiers : List Node) :
    Except Fault (Option Finding) :=
  if header.isConstructor || !header.visibility.isCallableExternally then .ok none
  else do
    let guarded ← hasGuardModifier header.displayName modifiers
    if containsAssignment node && !guarded && !hasSenderCheck node then
      return some (finding node.line header.displayName)
    else return none

/-- What is known about a contract from its members alone. No verdict depends on it. -/
structure ContractFacts where
  name : String
  hasOwnerVariable : Bool
  deriving DecidableEq, Repr

def declaresOwner : Node → Bool
  | .declaration _ header _ => ownerNames.contains header.name
  | _ => false

def ContractFacts.ofMembers (name : String) (members : List Node) : ContractFacts :=
  ⟨name, members.any declaresOwner⟩

/-- The findings and the facts of a walk, the last one first, or the first fault that it met. -/
structure Survey where
  findings : List Finding := []
  facts : List ContractFacts := []
  fault : Option Fault := none

def checkMember (survey : Survey) (member : Node) : Survey :=
  match member, survey.fault with
  | .function _ header _ modifiers _, none =>
    match checkFunction member header modifiers with
    | .ok (some found) => { survey with findings := found :: survey.findings }
    | .ok none => survey
    | .error fault => { survey with fault := some fault }
  | _, _ => survey

def surveyor : Visitor Survey where
  sourceUnit _ children survey := children.foldl checkMember survey
  contract _ name members survey :=
    members.foldl checkMember
      { survey with facts := ContractFacts.ofMembers name members :: survey.facts }

def survey (tree : Node) : Survey := surveyor.visit tree {}

def contractFacts (tree : Node) : List ContractFacts := (survey tree).facts.reverse

def detect (tree : Node) (_ : String) : Except Fault (List Finding) :=
  match (survey tree).fault with
  | some fault => .error fault
  | none => .ok (survey tree).findings.reverse

def detector : Detector where
  id := .accessControl
  name := "Access Control Detector"
  description := "Detects public state-changing functions with no owner/admin/role guard"
  severity := .high
  detect := detect

end ContractAudit.AccessControl
