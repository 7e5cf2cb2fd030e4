import ContractAudit.Concrete.Tree
import ContractAudit.Text.Basic

namespace ContractAudit.Concrete

/-- A concrete tree in which each node carries its lowering. -/
inductive Lowered where
  | node (info : Info) (lowering : Node) (children : List Lowered)
  deriving Inhabited

namespace Lowered

def info : Lowered → Info
  | .node info _ _ => info

def lowering : Lowered → Node
  | .node _ lowering _ => lowering

def children : Lowered → List Lowered
  | .node _ _ children => children

end Lowered

def constructs (children : List Lowered) : List Lowered := children.filter (·.info.isConstruct)

def constructsOf (kind : String) (children : List Lowered) : List Lowered :=
  (constructs children).filter (·.info.kind == kind)

def lowerings (nodes : List Lowered) : List Node := nodes.map Lowered.lowering

def child? (field : String) (children : List Lowered) : Option Lowered :=
  children.find? (·.info.field == some field)

def childText? (source field : String) (children : List Lowered) : Option String :=
  (child? field children).map fun child ↦ Text.trimmed (child.info.text source)

def childLowering? (field : String) (children : List Lowered) : Option Node :=
  (child? field children).map Lowered.lowering

/-- The kinds of node that stand for the single construct which they may hold. -/
def wrapperKinds : List String :=
  ["expression", "expression_statement", "call_argument", "parenthesized_expression"]

/-- The two words of a directive such as `pragma solidity ^0.8.0;`, of which the second may be
long. -/
def pragmaWords (text : List Char) : List Char × List Char :=
  let text := Text.trim text
  let body := Text.trim ((Text.dropWord? "pragma".toList text).getD text)
  let body := Text.trim (body.reverse.dropWhile (· == ';')).reverse
  (body.takeWhile (!Text.isBlank ·), Text.trim (body.dropWhile (!Text.isBlank ·)))

def lowerPragma (source : String) (info : Info) : Node :=
  let (name, value) := pragmaWords (info.text source).toList
  .pragma info.loc (String.ofList name) (String.ofList value)

def lowerContract (source : String) (info : Info) (children : List Lowered) : Node :=
  let members := (child? "body" children).map fun body ↦ lowerings (constructs body.children)
  .contract info.loc ((childText? source "name" children).getD "") (members.getD [])

def visibilityKinds : List String := ["visibility", "public", "private", "internal", "external"]

def visibilityOf (source : String) (children : List Lowered) : Visibility :=
  match children.find? (visibilityKinds.contains ·.info.kind) with
  | some child => Visibility.ofKeyword (child.info.text source)
  | none => .unstated

def specialName (source : String) (info : Info) : String :=
  if "receive".toList.isPrefixOf (Text.trimStart (info.text source).toList) then "receive"
  else "fallback"

def lowerFunction (source : String) (info : Info) (children : List Lowered) : Node :=
  let header : FunctionHeader :=
    { name :=
        if info.kind == "fallback_receive_definition" then some (specialName source info)
        else childText? source "name" children
      visibility := visibilityOf source children
      isConstructor := info.kind == "constructor_definition" }
  .function info.loc header (lowerings (constructsOf "parameter" children))
    (lowerings (constructsOf "modifier_invocation" children)) (childLowering? "body" children)

def modifierName (source : String) (info : Info) (children : List Lowered) : String :=
  match (constructs children).find? (·.info.kind == "identifier") with
  | some child => child.info.text source
  | none => String.ofList (Text.trim ((info.text source).toList.takeWhile (· != '(')))

def lowerModifierInvocation (source : String) (info : Info) (children : List Lowered) : Node :=
  .modifierInvocation info.loc (modifierName source info children)
    (lowerings (constructsOf "call_argument" children))

def lowerDeclaration? (source : String) (info : Info) (declared children : List Lowered)
    (isState : Bool) : Option Node := do
  let header : DeclarationHeader :=
    { name := ← childText? source "name" declared
      typeName := childText? source "type" declared
      isState := isState }
  return .declaration info.loc header (childLowering? "value" children)

def lowerDeclarationStatement? (source : String) (info : Info) (children : List Lowered) :
    Option Node :=
  match constructsOf "variable_declaration" children with
  | declaration :: _ => lowerDeclaration? source info declaration.children children false
  | [] => none

/-- The operator of a binary operation: the child that is said to be it, or else the first token
that is no bracket. -/
def binaryOperator? (source : String) (children : List Lowered) : Option String :=
  match child? "operator" children with
  | some child => some (child.info.text source)
  | none =>
    (children.find? fun child ↦
      !child.info.isNamed && child.info.kind != "(" && child.info.kind != ")").map
      (·.info.text source)

def lowerBinary? (source : String) (info : Info) (children : List Lowered) : Option Node := do
  return .binary info.loc (← binaryOperator? source children) (← childLowering? "left" children)
    (← childLowering? "right" children)

def assignmentOperator (children : List Lowered) : String :=
  match children.find? fun child ↦
    !child.info.isNamed && Text.endsWith ['='] child.info.kind.toList with
  | some child => child.info.kind
  | none => "="

def lowerAssignment? (info : Info) (children : List Lowered) : Option Node := do
  return .assignment info.loc (assignmentOperator children) (← childLowering? "left" children)
    (← childLowering? "right" children)

def unwrapExpression : Lowered → Lowered
  | .node info lowering children =>
    if info.kind == "expression" then
      match unwrapOnly children with
      | some only => only
      | none => .node info lowering children
    else .node info lowering children
where
  unwrapOnly : List Lowered → Option Lowered
    | [] => none
    | child :: rest =>
      if child.info.isConstruct then
        if rest.any (·.info.isConstruct) then none else some (unwrapExpression child)
      else unwrapOnly rest

def lowerCall? (info : Info) (children : List Lowered) : Option Node := do
  let callee := unwrapExpression (← child? "function" children)
  let arguments := lowerings (constructsOf "call_argument" children)
  if callee.info.kind == "struct_expression" then
    return .call info.loc (← childLowering? "type" callee.children)
      (lowerings (constructsOf "struct_field_assignment" callee.children)) arguments
  else return .call info.loc callee.lowering [] arguments

def lowerMember? (source : String) (info : Info) (children : List Lowered) : Option Node := do
  return .member info.loc (← childLowering? "object" children)
    (← childText? source "property" children)

/-- The lowering of a node that is no wrapper, if its kind has a form of its own and its parts are
there. -/
def lowerKind? (source : String) (info : Info) (children : List Lowered) : Option Node :=
  match info.kind with
  | "source_file" => some (.sourceUnit info.loc (lowerings (constructs children)))
  | "pragma_directive" => some (lowerPragma source info)
  | "contract_declaration" => some (lowerContract source info children)
  | "library_declaration" => some (lowerContract source info children)
  | "interface_declaration" => some (lowerContract source info children)
  | "function_definition" => some (lowerFunction source info children)
  | "constructor_definition" => some (lowerFunction source info children)
  | "fallback_receive_definition" => some (lowerFunction source info children)
  | "modifier_definition" =>
    some (.modifierDefinition info.loc ((childText? source "name" children).getD "")
      (childLowering? "body" children))
  | "modifier_invocation" => some (lowerModifierInvocation source info children)
  | "state_variable_declaration" => lowerDeclaration? source info children children true
  | "variable_declaration_statement" => lowerDeclarationStatement? source info children
  | "parameter" => lowerDeclaration? source info children children false
  | "function_body" => some (.block info.loc (lowerings (constructs children)))
  | "block_statement" => some (.block info.loc (lowerings (constructs children)))
  | "unchecked_block" => some (.block info.loc (lowerings (constructs children)))
  | "binary_expression" => lowerBinary? source info children
  | "assignment_expression" => lowerAssignment? info children
  | "augmented_assignment_expression" => lowerAssignment? info children
  | "call_expression" => lowerCall? info children
  | "member_expression" => lowerMember? source info children
  | "identifier" => some (.identifier info.loc (info.text source))
  | kind =>
    if Text.endsWith "_literal".toList kind.toList then
      some (.literal info.loc (info.text source))
    else none

def lowerConstruct (source : String) (info : Info) (children : List Lowered) : Node :=
  match lowerKind? source info children with
  | some node => node
  | none => .other info.loc info.kind (lowerings (constructs children))

def lowerNode (source : String) (info : Info) (children : List Lowered) : Node :=
  if wrapperKinds.contains info.kind then
    match constructs children with
    | [only] => only.lowering
    | _ => lowerConstruct source info children
  else lowerConstruct source info children

namespace Tree

mutual

def annotate (source : String) : Tree → Lowered
  | .node info children =>
    let children := annotateAll source children
    .node info (lowerNode source info children) children

def annotateAll (source : String) : List Tree → List Lowered
  | [] => []
  | child :: rest => annotate source child :: annotateAll source rest

end

/-- The syntax tree of a concrete tree over its source. -/
def lower (source : String) (tree : Tree) : Node := (annotate source tree).lowering

end Tree

structure SyntaxError where
  loc : Location
  message : String
  deriving DecidableEq, Repr

/-- What is wrong at a node: a token that is missing, or up to forty characters that do not fit. -/
def SyntaxError.ofInfo (source : String) (info : Info) : SyntaxError where
  loc := info.loc
  message :=
    if info.isMissing then "missing " ++ info.kind
    else "unexpected `" ++
      String.ofList (Text.trim ((info.text source).toList.take 40)) ++ "`"

def Tree.parse (source : String) (root : Tree) : Except SyntaxError Node :=
  if root.info.hasError then .error (.ofInfo source (root.firstError?.getD root).info)
  else .ok (root.lower source)

end ContractAudit.Concrete
