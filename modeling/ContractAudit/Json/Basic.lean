namespace ContractAudit

inductive Json where
  | null
  | bool (value : Bool)
  | int (value : Int)
  /-- A number written with a fraction or an exponent, or a negative zero. No record holds one. -/
  | decimal (written : String)
  | text (value : String)
  /-- A string, or an object with a name, in which an escape stands for half of a surrogate pair.
  Such a string is no text, and the value serves only where nobody looks at it. -/
  | broken
  | array (items : List Json)
  | object (fields : List (String × Json))
  deriving Inhabited

namespace Json

def nat (n : Nat) : Json := .int n

mutual

def depth : Json → Nat
  | .array items => depthItems items + 1
  | .object fields => depthFields fields + 1
  | _ => 1

def depthItems : List Json → Nat
  | [] => 0
  | item :: items => max (depth item) (depthItems items)

def depthFields : List (String × Json) → Nat
  | [] => 0
  | (_, value) :: fields => max (depth value) (depthFields fields)

end

end Json

end ContractAudit
