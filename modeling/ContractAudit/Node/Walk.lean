import ContractAudit.Node.Basic

namespace ContractAudit

/-- What a walk does at each form of node. A handler that is not given leaves the state as it is. -/
structure Visitor (σ : Type) where
  sourceUnit : (node : Node) → (children : List Node) → σ → σ := fun _ _ ↦ id
  pragma : (node : Node) → (value : String) → σ → σ := fun _ _ ↦ id
  contract : (node : Node) → (name : String) → (members : List Node) → σ → σ := fun _ _ _ ↦ id
  function : (node : Node) → FunctionHeader → (modifiers : List Node) → σ → σ := fun _ _ _ ↦ id
  modifierDefinition : (node : Node) → (name : String) → σ → σ := fun _ _ ↦ id
  modifierInvocation : (node : Node) → (name : String) → σ → σ := fun _ _ ↦ id
  declaration : (node : Node) → DeclarationHeader → σ → σ := fun _ _ ↦ id
  block : (node : Node) → σ → σ := fun _ ↦ id
  binary : (node : Node) → (operator : String) → (left right : Node) → σ → σ := fun _ _ _ _ ↦ id
  assignment : (node : Node) → (operator : String) → (left right : Node) → σ → σ :=
    fun _ _ _ _ ↦ id
  call : (node : Node) → (callee : Node) → (arguments : List Node) → σ → σ := fun _ _ _ ↦ id
  member : (node : Node) → (object : Node) → (name : String) → σ → σ := fun _ _ _ ↦ id
  identifier : (node : Node) → (name : String) → σ → σ := fun _ _ ↦ id
  literal : (node : Node) → (value : String) → σ → σ := fun _ _ ↦ id

namespace Visitor

variable {σ : Type}

def dispatch (v : Visitor σ) (node : Node) : σ → σ :=
  match node with
  | .sourceUnit _ children => v.sourceUnit node children
  | .pragma _ _ value => v.pragma node value
  | .contract _ name members => v.contract node name members
  | .function _ header _ modifiers _ => v.function node header modifiers
  | .modifierDefinition _ name _ => v.modifierDefinition node name
  | .modifierInvocation _ name _ => v.modifierInvocation node name
  | .declaration _ header _ => v.declaration node header
  | .block _ _ => v.block node
  | .binary _ operator left right => v.binary node operator left right
  | .assignment _ operator left right => v.assignment node operator left right
  | .call _ callee _ arguments => v.call node callee arguments
  | .member _ object name => v.member node object name
  | .identifier _ name => v.identifier node name
  | .literal _ value => v.literal node value
  | .other _ _ _ => id

mutual

def visit (v : Visitor σ) : Node → σ → σ
  | .sourceUnit loc children, s =>
    visitAll v children (v.dispatch (.sourceUnit loc children) s)
  | .pragma loc name value, s => v.dispatch (.pragma loc name value) s
  | .contract loc name members, s => visitAll v members (v.dispatch (.contract loc name members) s)
  | .function loc header parameters modifiers body, s =>
    visitOption v body (visitAll v modifiers (visitAll v parameters
      (v.dispatch (.function loc header parameters modifiers body) s)))
  | .modifierDefinition loc name body, s =>
    visitOption v body (v.dispatch (.modifierDefinition loc name body) s)
  | .modifierInvocation loc name arguments, s =>
    visitAll v arguments (v.dispatch (.modifierInvocation loc name arguments) s)
  | .declaration loc header initial, s =>
    visitOption v initial (v.dispatch (.declaration loc header initial) s)
  | .block loc statements, s => visitAll v statements (v.dispatch (.block loc statements) s)
  | .binary loc operator left right, s =>
    visit v right (visit v left (v.dispatch (.binary loc operator left right) s))
  | .assignment loc operator left right, s =>
    visit v right (visit v left (v.dispatch (.assignment loc operator left right) s))
  | .call loc callee options arguments, s =>
    visitAll v arguments (visitAll v options (visit v callee
      (v.dispatch (.call loc callee options arguments) s)))
  | .member loc object name, s => visit v object (v.dispatch (.member loc object name) s)
  | .identifier loc name, s => v.dispatch (.identifier loc name) s
  | .literal loc value, s => v.dispatch (.literal loc value) s
  | .other loc kind children, s => visitAll v children (v.dispatch (.other loc kind children) s)

def visitAll (v : Visitor σ) : List Node → σ → σ
  | [], s => s
  | node :: nodes, s => visitAll v nodes (visit v node s)

def visitOption (v : Visitor σ) : Option Node → σ → σ
  | none, s => s
  | some node, s => visit v node s

end

end Visitor

namespace Node

mutual

/-- A node and all nodes below it, parents before children. -/
def preorder : Node → List Node
  | .sourceUnit loc children => .sourceUnit loc children :: preorderAll children
  | .pragma loc name value => [.pragma loc name value]
  | .contract loc name members => .contract loc name members :: preorderAll members
  | .function loc header parameters modifiers body =>
    .function loc header parameters modifiers body ::
      (preorderAll parameters ++ (preorderAll modifiers ++ preorderOption body))
  | .modifierDefinition loc name body => .modifierDefinition loc name body :: preorderOption body
  | .modifierInvocation loc name arguments =>
    .modifierInvocation loc name arguments :: preorderAll arguments
  | .declaration loc header initial => .declaration loc header initial :: preorderOption initial
  | .block loc statements => .block loc statements :: preorderAll statements
  | .binary loc operator left right =>
    .binary loc operator left right :: (preorder left ++ preorder right)
  | .assignment loc operator left right =>
    .assignment loc operator left right :: (preorder left ++ preorder right)
  | .call loc callee options arguments =>
    .call loc callee options arguments ::
      (preorder callee ++ (preorderAll options ++ preorderAll arguments))
  | .member loc object name => .member loc object name :: preorder object
  | .identifier loc name => [.identifier loc name]
  | .literal loc value => [.literal loc value]
  | .other loc kind children => .other loc kind children :: preorderAll children

def preorderAll : List Node → List Node
  | [] => []
  | node :: nodes => preorder node ++ preorderAll nodes

def preorderOption : Option Node → List Node
  | none => []
  | some node => preorder node

end

mutual

def count : Node → Nat
  | .sourceUnit _ children => 1 + countAll children
  | .pragma _ _ _ => 1
  | .contract _ _ members => 1 + countAll members
  | .function _ _ parameters modifiers body =>
    1 + (countAll parameters + (countAll modifiers + countOption body))
  | .modifierDefinition _ _ body => 1 + countOption body
  | .modifierInvocation _ _ arguments => 1 + countAll arguments
  | .declaration _ _ initial => 1 + countOption initial
  | .block _ statements => 1 + countAll statements
  | .binary _ _ left right => 1 + (count left + count right)
  | .assignment _ _ left right => 1 + (count left + count right)
  | .call _ callee options arguments => 1 + (count callee + (countAll options + countAll arguments))
  | .member _ object _ => 1 + count object
  | .identifier _ _ => 1
  | .literal _ _ => 1
  | .other _ _ children => 1 + countAll children

def countAll : List Node → Nat
  | [] => 0
  | node :: nodes => count node + countAll nodes

def countOption : Option Node → Nat
  | none => 0
  | some node => count node

end

end Node

end ContractAudit
