import ContractAudit.Json.Record
import ContractAudit.Node.Basic

namespace ContractAudit.Concrete

/-- What a node is, apart from its children. -/
structure Info where
  kind : String
  isNamed : Bool
  isError : Bool
  isMissing : Bool
  /-- Whether something in the node, itself included, is an error or missing. -/
  hasError : Bool
  field : Option String
  start : Nat
  stop : Nat
  /-- The place of the first byte, both numbers counted from zero. -/
  row : Nat
  column : Nat
  deriving DecidableEq, Repr, Inhabited

namespace Info

def loc (info : Info) : Location := ⟨info.row + 1, info.column⟩

def text (source : String) (info : Info) : String :=
  String.Pos.Raw.extract source ⟨info.start⟩ ⟨info.stop⟩

def isConstruct (info : Info) : Bool := info.isNamed && info.kind != "comment"

def isComment (info : Info) : Bool := info.isNamed && info.kind == "comment"

end Info

inductive Tree where
  | node (info : Info) (children : List Tree)
  deriving Inhabited

namespace Tree

def info : Tree → Info
  | .node info _ => info

def children : Tree → List Tree
  | .node _ children => children

mutual

/-- The first node, parents before children, that is an error or missing. Only the children that are
said to hold one are searched. -/
def firstError? : Tree → Option Tree
  | .node info children =>
    if info.isError || info.isMissing then some (.node info children) else firstErrorIn? children

def firstErrorIn? : List Tree → Option Tree
  | [] => none
  | child :: rest =>
    if child.info.hasError || child.info.isMissing then
      match firstError? child with
      | some found => some found
      | none => firstErrorIn? rest
    else firstErrorIn? rest

end

/-- The tree of a value `[kind, flags, field, start, stop, row, column, [children]]` whose nesting
is at most `fuel`. The flags add 1 for a named node, 2 for an error, 4 for a missing one and 8 for
one that holds an error. -/
def ofJsonWithin? : Nat → Json → Option Tree
  | 0, _ => none
  | fuel + 1, json => do
    let .array [kind, flags, field, start, stop, row, column, .array children] := json | none
    let flags ← flags.nat64?
    let info : Info :=
      { kind := ← kind.text?
        isNamed := flags.testBit 0
        isError := flags.testBit 1
        isMissing := flags.testBit 2
        hasError := flags.testBit 3
        field := ← Json.optional? Json.text? (some field)
        start := ← start.nat64?
        stop := ← stop.nat64?
        row := ← row.nat64?
        column := ← column.nat64? }
    return .node info (← children.mapM (ofJsonWithin? fuel))

def ofJson? (json : Json) : Option Tree := ofJsonWithin? json.depth json

end Tree

end ContractAudit.Concrete
