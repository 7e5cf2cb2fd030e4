import ContractAudit.Node.Basic

namespace ContractAudit.Node.Build

def sourceUnit (children : List Node) : Node := .sourceUnit ⟨1, 0⟩ children

def pragma (line : Nat) (value : String) : Node := .pragma ⟨line, 0⟩ "solidity" value

def contract (line : Nat) (name : String) (members : List Node) : Node :=
  .contract ⟨line, 0⟩ name members

def block (line : Nat) (statements : List Node) : Node := .block ⟨line, 0⟩ statements

def function (line : Nat) (name : String) (visibility : Visibility)
    (modifiers statements : List Node) : Node :=
  .function ⟨line, 4⟩ ⟨some name, visibility, false⟩ [] modifiers (some (block line statements))

def constructor (line : Nat) (statements : List Node) : Node :=
  .function ⟨line, 4⟩ ⟨none, .public, true⟩ [] [] (some (block line statements))

def modifier (line : Nat) (name : String) : Node := .modifierInvocation ⟨line, 0⟩ name []

def stateVariable (line : Nat) (typeName name : String) : Node :=
  .declaration ⟨line, 4⟩ ⟨name, some typeName, true⟩ none

def identifier (line column : Nat) (name : String) : Node := .identifier ⟨line, column⟩ name

def literal (line column : Nat) (value : String) : Node := .literal ⟨line, column⟩ value

def member (line column : Nat) (object : Node) (name : String) : Node :=
  .member ⟨line, column⟩ object name

def msgSender (line column : Nat) : Node :=
  member line column (identifier line column "msg") "sender"

def binary (line column : Nat) (operator : String) (left right : Node) : Node :=
  .binary ⟨line, column⟩ operator left right

def assignment (line column : Nat) (operator : String) (left right : Node) : Node :=
  .assignment ⟨line, column⟩ operator left right

def call (line column : Nat) (callee : Node) (arguments : List Node) : Node :=
  .call ⟨line, column⟩ callee [] arguments

def memberCall (line column : Nat) (target name : String) (arguments : List Node) : Node :=
  call line column (member line column (identifier line column target) name) arguments

def require (line column : Nat) (condition : Node) : Node :=
  call line column (identifier line column "require") [condition]

def other (line column : Nat) (kind : String) (children : List Node) : Node :=
  .other ⟨line, column⟩ kind children

end ContractAudit.Node.Build
