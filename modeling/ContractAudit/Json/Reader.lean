import ContractAudit.Json.Token

namespace ContractAudit.Json

def withField (name : Option String) (value : Json) (done : Option (List (String × Json))) :
    Option (List (String × Json)) := do
  return (← name, value) :: (← done)

mutual

def read : Nat → List Token → Option (Json × List Token)
  | 0, _ => none
  | _ + 1, [] => none
  | fuel + 1, token :: rest =>
    match token with
    | .null => some (.null, rest)
    | .bool b => some (.bool b, rest)
    | .int n => some (.int n, rest)
    | .decimal s => some (.decimal s, rest)
    | .text (some s) => some (.text s, rest)
    | .text none => some (.broken, rest)
    | .leftBracket =>
      match rest with
      | .rightBracket :: rest => some (.array [], rest)
      | _ => readItems fuel [] rest
    | .leftBrace =>
      match rest with
      | .rightBrace :: rest => some (.object [], rest)
      | _ => readFields fuel (some []) rest
    | _ => none

def readItems : Nat → List Json → List Token → Option (Json × List Token)
  | 0, _, _ => none
  | fuel + 1, done, tokens =>
    match read fuel tokens with
    | some (item, .comma :: rest) => readItems fuel (item :: done) rest
    | some (item, .rightBracket :: rest) => some (.array (item :: done).reverse, rest)
    | _ => none

def readFields : Nat → Option (List (String × Json)) → List Token → Option (Json × List Token)
  | 0, _, _ => none
  | fuel + 1, done, tokens =>
    match tokens with
    | .text name :: .colon :: rest =>
      match read fuel rest with
      | some (value, .comma :: rest) => readFields fuel (withField name value done) rest
      | some (value, .rightBrace :: rest) =>
        some (match withField name value done with
          | some fields => .object fields.reverse
          | none => .broken, rest)
      | _ => none
    | _ => none

end

def parse? (s : String) : Option Json := do
  let tokens ← tokens? s.toList
  match read (tokens.length + 1) tokens with
  | some (value, []) => some value
  | _ => none

end ContractAudit.Json
