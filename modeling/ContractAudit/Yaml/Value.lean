import ContractAudit.Yaml.Token

namespace ContractAudit

inductive Yaml where
  /-- A scalar, and whether it stands without quotes. An absent value is the empty plain scalar. -/
  | scalar (isPlain : Bool) (text : String)
  | sequence (items : List Yaml)
  | mapping (entries : List (Yaml × Yaml))
  deriving Inhabited

namespace Yaml

def absent : Yaml := .scalar true ""

inductive Place where
  | flow
  | block
  | entry
  deriving DecidableEq, Repr

def afterFlow (stop : Token) : List Token → Option (List Token)
  | .comma :: rest => some rest
  | token :: rest => if token = stop then some (token :: rest) else none
  | [] => none

mutual

/-- The value that starts with the first token, and the tokens after it. -/
def valueFrom : Nat → Place → List Token → Option (Yaml × List Token)
  | 0, _, _ => none
  | fuel + 1, place, tokens =>
    match tokens with
    | .scalar isPlain text :: rest => some (.scalar isPlain text, rest)
    | .flowSequenceStart :: rest => flowItems fuel [] rest
    | .flowMappingStart :: rest => flowEntries fuel [] rest
    | .blockSequenceStart :: rest => if place = .flow then none else blockItems fuel [] rest
    | .blockMappingStart :: rest => if place = .flow then none else blockEntries fuel [] rest
    | .item :: rest => if place = .entry then entryItems fuel [] (.item :: rest) else none
    | _ => none

def optionalFrom : Nat → Place → List Token → List Token → Option (Yaml × List Token)
  | 0, _, _, _ => none
  | fuel + 1, place, stops, tokens =>
    if stops.any (tokens.head? == some ·) then some (absent, tokens)
    else valueFrom fuel place tokens

def blockItems : Nat → (read : List Yaml) → List Token → Option (Yaml × List Token)
  | 0, _, _ => none
  | fuel + 1, read, tokens =>
    match tokens with
    | .item :: rest => do
      let (item, rest) ← optionalFrom fuel .block [.item, .blockEnd] rest
      blockItems fuel (item :: read) rest
    | .blockEnd :: rest => some (.sequence read.reverse, rest)
    | _ => none

def entryItems : Nat → (read : List Yaml) → List Token → Option (Yaml × List Token)
  | 0, _, _ => none
  | fuel + 1, read, tokens =>
    match tokens with
    | .item :: rest => do
      let (item, rest) ← optionalFrom fuel .block [.item, .key, .value, .blockEnd] rest
      entryItems fuel (item :: read) rest
    | _ => some (.sequence read.reverse, tokens)

def blockEntries : Nat → (read : List (Yaml × Yaml)) → List Token → Option (Yaml × List Token)
  | 0, _, _ => none
  | fuel + 1, read, tokens =>
    match tokens with
    | .key :: rest => do
      let (key, rest) ← optionalFrom fuel .entry [.key, .value, .blockEnd] rest
      let (value, rest) ← match rest with
        | .value :: rest => optionalFrom fuel .entry [.key, .value, .blockEnd] rest
        | _ => some (absent, rest)
      blockEntries fuel ((key, value) :: read) rest
    | .blockEnd :: rest => some (.mapping read.reverse, rest)
    | _ => none

def flowItems : Nat → (read : List Yaml) → List Token → Option (Yaml × List Token)
  | 0, _, _ => none
  | fuel + 1, read, tokens =>
    match tokens with
    | .flowSequenceEnd :: rest => some (.sequence read.reverse, rest)
    | .key :: rest => do
      let (key, rest) ←
        if [.value, .comma, .flowSequenceEnd].any (rest.head? == some ·) then
          some (absent, rest.tail)
        else valueFrom fuel .flow rest
      let (value, rest) ← match rest with
        | .value :: rest => optionalFrom fuel .flow [.comma, .flowSequenceEnd] rest
        | _ => some (absent, rest)
      let rest ← afterFlow .flowSequenceEnd rest
      flowItems fuel (.mapping [(key, value)] :: read) rest
    | _ => do
      let (item, rest) ← valueFrom fuel .flow tokens
      flowItems fuel (item :: read) (← afterFlow .flowSequenceEnd rest)

def flowEntries : Nat → (read : List (Yaml × Yaml)) → List Token → Option (Yaml × List Token)
  | 0, _, _ => none
  | fuel + 1, read, tokens =>
    match tokens with
    | .flowMappingEnd :: rest => some (.mapping read.reverse, rest)
    | .key :: rest => do
      let (key, rest) ← optionalFrom fuel .flow [.value, .comma, .flowMappingEnd] rest
      let (value, rest) ← match rest with
        | .value :: rest => optionalFrom fuel .flow [.comma, .flowMappingEnd] rest
        | _ => some (absent, rest)
      flowEntries fuel ((key, value) :: read) (← afterFlow .flowMappingEnd rest)
    | _ => do
      let (key, rest) ← valueFrom fuel .flow tokens
      flowEntries fuel ((key, absent) :: read) (← afterFlow .flowMappingEnd rest)

end

def documentFrom (tokens : List Token) : Option (Yaml × List Token) :=
  let fuel := 2 * tokens.length + 2
  match tokens with
  | [] => some (absent, [])
  | [.documentStart] => some (absent, [])
  | .documentStart :: rest => optionalFrom fuel .block [.documentStart, .documentEnd] rest
  | _ => valueFrom fuel .block tokens

def parse? (text : String) : Option Yaml := do
  let (value, rest) ← documentFrom (← tokens? text)
  if rest.all (· = .documentEnd) then return value else none

end Yaml

end ContractAudit
