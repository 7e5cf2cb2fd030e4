import ContractAudit.Text.Blank

namespace ContractAudit

/-- A place in a source: lines are counted from one, columns from zero. -/
structure Location where
  line : Nat
  column : Nat
  deriving DecidableEq, Repr, Inhabited

def Location.render (loc : Location) : String := toString loc.line ++ ":" ++ toString loc.column

inductive Visibility where
  | unstated
  | «public»
  | external
  | internal
  | «private»
  deriving DecidableEq, Repr, Inhabited

namespace Visibility

def name : Visibility → String
  | .unstated => "default"
  | .public => "public"
  | .external => "external"
  | .internal => "internal"
  | .private => "private"

def ofKeyword (keyword : String) : Visibility :=
  match Text.trimmed keyword with
  | "public" => .public
  | "external" => .external
  | "internal" => .internal
  | "private" => .private
  | _ => .unstated

def isCallableExternally : Visibility → Bool
  | .internal => false
  | .private => false
  | _ => true

end Visibility

structure FunctionHeader where
  name : Option String
  visibility : Visibility
  isConstructor : Bool
  deriving DecidableEq, Repr, Inhabited

def FunctionHeader.displayName (header : FunctionHeader) : String :=
  match header.name with
  | some name => name
  | none => if header.isConstructor then "constructor" else "fallback"

structure DeclarationHeader where
  name : String
  typeName : Option String
  isState : Bool
  deriving DecidableEq, Repr, Inhabited

inductive Node where
  | sourceUnit (loc : Location) (children : List Node)
  | pragma (loc : Location) (name value : String)
  | contract (loc : Location) (name : String) (members : List Node)
  | function (loc : Location) (header : FunctionHeader) (parameters modifiers : List Node)
      (body : Option Node)
  | modifierDefinition (loc : Location) (name : String) (body : Option Node)
  | modifierInvocation (loc : Location) (name : String) (arguments : List Node)
  | declaration (loc : Location) (header : DeclarationHeader) (initial : Option Node)
  | block (loc : Location) (statements : List Node)
  | binary (loc : Location) (operator : String) (left right : Node)
  | assignment (loc : Location) (operator : String) (left right : Node)
  | call (loc : Location) (callee : Node) (options arguments : List Node)
  | member (loc : Location) (object : Node) (name : String)
  | identifier (loc : Location) (name : String)
  | literal (loc : Location) (value : String)
  | other (loc : Location) (kind : String) (children : List Node)
  deriving Inhabited

namespace Node

def loc : Node → Location
  | .sourceUnit loc _ => loc
  | .pragma loc _ _ => loc
  | .contract loc _ _ => loc
  | .function loc _ _ _ _ => loc
  | .modifierDefinition loc _ _ => loc
  | .modifierInvocation loc _ _ => loc
  | .declaration loc _ _ => loc
  | .block loc _ => loc
  | .binary loc _ _ _ => loc
  | .assignment loc _ _ _ => loc
  | .call loc _ _ _ => loc
  | .member loc _ _ => loc
  | .identifier loc _ => loc
  | .literal loc _ => loc
  | .other loc _ _ => loc

def line (node : Node) : Nat := node.loc.line

def kindName : Node → String
  | .sourceUnit .. => "SourceUnit"
  | .pragma .. => "PragmaDirective"
  | .contract .. => "ContractDefinition"
  | .function .. => "FunctionDefinition"
  | .modifierDefinition .. => "ModifierDefinition"
  | .modifierInvocation .. => "ModifierInvocation"
  | .declaration .. => "VariableDeclaration"
  | .block .. => "Block"
  | .binary .. => "BinaryOperation"
  | .assignment .. => "Assignment"
  | .call .. => "FunctionCall"
  | .member .. => "MemberAccess"
  | .identifier .. => "Identifier"
  | .literal .. => "Literal"
  | .other .. => "Other"

def children : Node → List Node
  | .sourceUnit _ children => children
  | .pragma _ _ _ => []
  | .contract _ _ members => members
  | .function _ _ parameters modifiers body => parameters ++ modifiers ++ body.toList
  | .modifierDefinition _ _ body => body.toList
  | .modifierInvocation _ _ arguments => arguments
  | .declaration _ _ initial => initial.toList
  | .block _ statements => statements
  | .binary _ _ left right => [left, right]
  | .assignment _ _ left right => [left, right]
  | .call _ callee options arguments => callee :: options ++ arguments
  | .member _ object _ => [object]
  | .identifier _ _ => []
  | .literal _ _ => []
  | .other _ _ children => children

def identifierName? : Node → Option String
  | .identifier _ name => some name
  | _ => none

def memberName? : Node → Option String
  | .member _ _ name => some name
  | _ => none

def isMsgSender : Node → Bool
  | .member _ object name => name == "sender" && object.identifierName? == some "msg"
  | _ => false

end Node

/-- The operator that a compound assignment applies before it assigns: `-` for `-=`, none for
`=`. -/
def compoundBase? (operator : String) : Option String :=
  match operator.toList.reverse with
  | '=' :: c :: base => some (String.ofList (c :: base).reverse)
  | _ => none

end ContractAudit
