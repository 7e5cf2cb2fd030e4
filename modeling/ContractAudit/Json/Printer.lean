import ContractAudit.Json.Basic

namespace ContractAudit.Json

def hexDigit (n : Nat) : Char := Nat.digitChar n

def escape (c : Char) : List Char :=
  match c with
  | '"' => ['\\', '"']
  | '\\' => ['\\', '\\']
  | '\x08' => ['\\', 'b']
  | '\x0c' => ['\\', 'f']
  | '\n' => ['\\', 'n']
  | '\r' => ['\\', 'r']
  | '\t' => ['\\', 't']
  | c =>
    if c.toNat < 0x20 then
      ['\\', 'u', '0', '0', hexDigit (c.toNat / 16), hexDigit (c.toNat % 16)]
    else [c]

def quote (s : String) : String := String.ofList ('"' :: s.toList.flatMap escape ++ ['"'])

structure Layout where
  lead : Nat → String
  colon : String

def Layout.indented : Layout where
  lead depth := "\n" ++ String.ofList (List.replicate (2 * depth) ' ')
  colon := ": "

mutual

def render (layout : Layout) (depth : Nat) : Json → String
  | .null => "null"
  | .bool true => "true"
  | .bool false => "false"
  | .int n => toString n
  | .decimal s => s
  | .text s => quote s
  | .broken => quote ""
  | .array [] => "[]"
  | .array (item :: items) =>
    "[" ++ layout.lead (depth + 1) ++ render layout (depth + 1) item ++
      renderItems layout (depth + 1) items ++ layout.lead depth ++ "]"
  | .object [] => "\x7b\x7d"
  | .object (field :: fields) =>
    "\x7b" ++ layout.lead (depth + 1) ++ renderField layout (depth + 1) field ++
      renderFields layout (depth + 1) fields ++ layout.lead depth ++ "\x7d"

def renderItems (layout : Layout) (depth : Nat) : List Json → String
  | [] => ""
  | item :: items =>
    "," ++ layout.lead depth ++ render layout depth item ++ renderItems layout depth items

def renderField (layout : Layout) (depth : Nat) : String × Json → String
  | (name, value) => quote name ++ layout.colon ++ render layout depth value

def renderFields (layout : Layout) (depth : Nat) : List (String × Json) → String
  | [] => ""
  | field :: fields =>
    "," ++ layout.lead depth ++ renderField layout depth field ++ renderFields layout depth fields

end

def pretty (value : Json) : String := render .indented 0 value

end ContractAudit.Json
