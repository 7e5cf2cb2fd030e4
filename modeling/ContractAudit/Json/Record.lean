import ContractAudit.Json.Basic

namespace ContractAudit.Json

def field? (fields : List (String × Json)) (name : String) : Option Json :=
  match fields with
  | [] => none
  | (key, value) :: fields => if key = name then some value else field? fields name

def occurrences (fields : List (String × Json)) (name : String) : Nat :=
  fields.countP (·.1 == name)

/-- The fields of a record in the order of `names`, with `none` for one that is not given. An array
gives at least `least` of them. -/
def record? (names : List String) (least : Nat) : Json → Option (List (Option Json))
  | .object fields =>
    if names.all (occurrences fields · ≤ 1) then some (names.map (field? fields)) else none
  | .array items =>
    if least ≤ items.length ∧ items.length ≤ names.length then
      some (items.map some ++ List.replicate (names.length - items.length) none)
    else none
  | _ => none

def optional? {α : Type} (read : Json → Option α) : Option Json → Option (Option α)
  | none => some none
  | some .null => some none
  | some value => (read value).map some

def defaulted? {α : Type} (default : α) (read : Json → Option α) : Option Json → Option α
  | none => some default
  | some value => read value

def text? : Json → Option String
  | .text s => some s
  | _ => none

def bool? : Json → Option Bool
  | .bool b => some b
  | _ => none

def nat64? : Json → Option Nat
  | .int (.ofNat n) => if n < UInt64.size then some n else none
  | _ => none

def tag? : Json → Option String
  | .text s => some s
  | .object [(name, .null)] => some name
  | _ => none

def list? {α : Type} (read : Json → Option α) : Json → Option (List α)
  | .array items => items.mapM read
  | _ => none

end ContractAudit.Json
