import ContractAudit.Json.Record
import ContractAudit.Node.Basic

namespace ContractAudit

namespace Location

def toJson (loc : Location) : Json :=
  .object [("line", .nat loc.line), ("column", .nat loc.column)]

def ofJson? (json : Json) : Option Location := do
  match ← json.record? ["line", "column"] 2 with
  | [some line, some column] => return ⟨← line.nat64?, ← column.nat64?⟩
  | _ => none

end Location

namespace Visibility

def ofName? : String → Option Visibility
  | "default" => some .unstated
  | "public" => some .public
  | "external" => some .external
  | "internal" => some .internal
  | "private" => some .private
  | _ => none

def toJson (visibility : Visibility) : Json := .text visibility.name

def ofJson? (json : Json) : Option Visibility := do ofName? (← json.tag?)

end Visibility

namespace Json

def optionalText (s : Option String) : Json := (s.map Json.text).getD .null

end Json

namespace Node

def jsonAt (loc : Location) (kind : String) (parts : List (String × Json)) : Json :=
  .object [("loc", loc.toJson), ("kind", .object [(kind, .object parts)])]

mutual

def toJson : Node → Json
  | .sourceUnit loc children => jsonAt loc "SourceUnit" [("children", .array (toJsonAll children))]
  | .pragma loc name value =>
    jsonAt loc "PragmaDirective" [("name", .text name), ("value", .text value)]
  | .contract loc name members =>
    jsonAt loc "ContractDefinition"
      [("name", .text name), ("sub_nodes", .array (toJsonAll members))]
  | .function loc header parameters modifiers body =>
    jsonAt loc "FunctionDefinition"
      [("name", .optionalText header.name), ("visibility", header.visibility.toJson),
        ("is_constructor", .bool header.isConstructor),
        ("parameters", .array (toJsonAll parameters)),
        ("modifiers", .array (toJsonAll modifiers)), ("body", toJsonOption body)]
  | .modifierDefinition loc name body =>
    jsonAt loc "ModifierDefinition" [("name", .text name), ("body", toJsonOption body)]
  | .modifierInvocation loc name arguments =>
    jsonAt loc "ModifierInvocation"
      [("name", .text name), ("arguments", .array (toJsonAll arguments))]
  | .declaration loc header initial =>
    jsonAt loc "VariableDeclaration"
      [("name", .text header.name), ("type_name", .optionalText header.typeName),
        ("is_state_var", .bool header.isState), ("initial_value", toJsonOption initial)]
  | .block loc statements => jsonAt loc "Block" [("statements", .array (toJsonAll statements))]
  | .binary loc operator left right =>
    jsonAt loc "BinaryOperation"
      [("operator", .text operator), ("left", toJson left), ("right", toJson right)]
  | .assignment loc operator left right =>
    jsonAt loc "Assignment"
      [("operator", .text operator), ("left", toJson left), ("right", toJson right)]
  | .call loc callee options arguments =>
    jsonAt loc "FunctionCall"
      [("expression", toJson callee), ("options", .array (toJsonAll options)),
        ("arguments", .array (toJsonAll arguments))]
  | .member loc object name =>
    jsonAt loc "MemberAccess" [("expression", toJson object), ("member_name", .text name)]
  | .identifier loc name => jsonAt loc "Identifier" [("name", .text name)]
  | .literal loc value => jsonAt loc "Literal" [("value", .text value)]
  | .other loc kind children =>
    jsonAt loc "Other" [("kind", .text kind), ("children", .array (toJsonAll children))]

def toJsonAll : List Node → List Json
  | [] => []
  | node :: nodes => toJson node :: toJsonAll nodes

def toJsonOption : Option Node → Json
  | none => .null
  | some node => toJson node

end

def parts? (names : List String) : Json → Option (List (Option Json))
  | .object fields => (Json.object fields).record? names names.length
  | _ => none

def construct? (read : Json → Option Node) (loc : Location) (kind : String) (parts : Json) :
    Option Node :=
  match kind with
  | "SourceUnit" => do
    let [some children] ← parts? ["children"] parts | none
    return .sourceUnit loc (← children.list? read)
  | "PragmaDirective" => do
    let [some name, some value] ← parts? ["name", "value"] parts | none
    return .pragma loc (← name.text?) (← value.text?)
  | "ContractDefinition" => do
    let [some name, some members] ← parts? ["name", "sub_nodes"] parts | none
    return .contract loc (← name.text?) (← members.list? read)
  | "FunctionDefinition" => do
    let [name, some visibility, some isConstructor, some parameters, some modifiers, body] ←
      parts.record? ["name", "visibility", "is_constructor", "parameters", "modifiers", "body"] 6
      | none
    let header := ⟨← Json.optional? Json.text? name, ← Visibility.ofJson? visibility,
      ← isConstructor.bool?⟩
    return .function loc header (← parameters.list? read) (← modifiers.list? read)
      (← Json.optional? read body)
  | "ModifierDefinition" => do
    let [some name, body] ← parts? ["name", "body"] parts | none
    return .modifierDefinition loc (← name.text?) (← Json.optional? read body)
  | "ModifierInvocation" => do
    let [some name, some arguments] ← parts? ["name", "arguments"] parts | none
    return .modifierInvocation loc (← name.text?) (← arguments.list? read)
  | "VariableDeclaration" => do
    let [some name, typeName, some isState, initial] ←
      parts? ["name", "type_name", "is_state_var", "initial_value"] parts | none
    let header := ⟨← name.text?, ← Json.optional? Json.text? typeName, ← isState.bool?⟩
    return .declaration loc header (← Json.optional? read initial)
  | "Block" => do
    let [some statements] ← parts? ["statements"] parts | none
    return .block loc (← statements.list? read)
  | "BinaryOperation" => do
    let [some operator, some left, some right] ← parts? ["operator", "left", "right"] parts | none
    return .binary loc (← operator.text?) (← read left) (← read right)
  | "Assignment" => do
    let [some operator, some left, some right] ← parts? ["operator", "left", "right"] parts | none
    return .assignment loc (← operator.text?) (← read left) (← read right)
  | "FunctionCall" => do
    let [some callee, some options, some arguments] ←
      parts? ["expression", "options", "arguments"] parts | none
    return .call loc (← read callee) (← options.list? read) (← arguments.list? read)
  | "MemberAccess" => do
    let [some object, some name] ← parts? ["expression", "member_name"] parts | none
    return .member loc (← read object) (← name.text?)
  | "Identifier" => do
    let [some name] ← parts? ["name"] parts | none
    return .identifier loc (← name.text?)
  | "Literal" => do
    let [some value] ← parts? ["value"] parts | none
    return .literal loc (← value.text?)
  | "Other" => do
    let [some kind, some children] ← parts? ["kind", "children"] parts | none
    return .other loc (← kind.text?) (← children.list? read)
  | _ => none

def ofJsonWithin? : Nat → Json → Option Node
  | 0, _ => none
  | fuel + 1, json => do
    let [some loc, some (.object [(kind, parts)])] ← json.record? ["loc", "kind"] 2 | none
    construct? (ofJsonWithin? fuel) (← Location.ofJson? loc) kind parts

def ofJson? (json : Json) : Option Node := ofJsonWithin? json.depth json

end Node

end ContractAudit
