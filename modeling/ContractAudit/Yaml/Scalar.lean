import ContractAudit.Yaml.Cursor

namespace ContractAudit.Yaml

/-- What stands between two words of a scalar: blanks, or one line break and more after it. The
lists have the last character first. -/
structure Gap where
  blanks : List Char := []
  first : Option (List Char) := none
  further : List Char := []

namespace Gap

def hasBreak (gap : Gap) : Bool := gap.first.isSome

def isEmpty (gap : Gap) : Bool := gap.blanks.isEmpty && !gap.hasBreak

def blank (c : Char) (gap : Gap) : Gap :=
  if gap.hasBreak then gap else { gap with blanks := c :: gap.blanks }

def lineBreak (c : Char) (gap : Gap) : Gap :=
  match gap.first with
  | none => { blanks := [], first := some [c] }
  | some _ => { gap with further := c :: gap.further }

def folded (gap : Gap) : List Char :=
  match gap.first with
  | none => gap.blanks
  | some first =>
    if first == ['\n'] then if gap.further.isEmpty then [' '] else gap.further
    else gap.further ++ first

end Gap

def isFlowIndicator (c : Char) : Bool :=
  c == ',' || c == '[' || c == ']' || c == '\x7b' || c == '\x7d'

def indicators : List Char :=
  ['-', '?', ':', ',', '[', ']', '\x7b', '\x7d', '#', '&', '*', '!', '|', '>', '\'', '"', '%', '@',
    '`']

def startsPlain (inFlow : Bool) : List Char → Bool
  | [] => false
  | c :: rest =>
    if c == '-' then !atGap rest
    else if c == '?' || c == ':' then !inFlow && !atGap rest
    else !atGap (c :: rest) && !indicators.contains c

def endsPlain (inFlow : Bool) : List Char → Bool
  | [] => true
  | c :: rest => (c == ':' && atGap rest) || (inFlow && isFlowIndicator c)

def isUnclear (inFlow : Bool) : List Char → Bool
  | ':' :: c :: _ => inFlow && (isFlowIndicator c || c == '?')
  | _ => false

/-- A plain scalar after the characters in `read` (the last first) and a gap. Its later lines stand
at the column `indent` or further right, brackets apart, and hold no tab before that column. The
result also says whether lines have ended after the scalar. -/
def plainFrom (inFlow : Bool) (indent : Nat) :
    Nat → (read : List Char) → Gap → Cursor → Option (List Char × Bool × Cursor)
  | 0, _, _, _ => none
  | fuel + 1, read, gap, cur =>
    match cur.rest with
    | [] => some (read, gap.hasBreak, cur)
    | c :: _ =>
      if isBlank c then
        if gap.hasBreak && c == '\t' && cur.column < indent then none
        else plainFrom inFlow indent fuel read (gap.blank c) cur.advance
      else if isBreak c then plainFrom inFlow indent fuel read (gap.lineBreak c) cur.advance
      else if !gap.isEmpty && (c == '#' || cur.atMarker || (!inFlow && cur.column < indent)) then
        some (read, gap.hasBreak, cur)
      else if isUnclear inFlow cur.rest then none
      else if endsPlain inFlow cur.rest then some (read, gap.hasBreak, cur)
      else plainFrom inFlow indent fuel (c :: gap.folded ++ read) {} cur.advance

def plain? (inFlow : Bool) (indent : Nat) (cur : Cursor) : Option (String × Bool × Cursor) := do
  guard (startsPlain inFlow cur.rest)
  let (read, hasBreak, stop) ← plainFrom inFlow indent (cur.left + 1) [] {} cur
  return (String.ofList read.reverse, hasBreak, stop)

def hexDigit? (c : Char) : Option Nat :=
  if '0' ≤ c ∧ c ≤ '9' then some (c.toNat - '0'.toNat)
  else if 'a' ≤ c ∧ c ≤ 'f' then some (c.toNat - 'a'.toNat + 10)
  else if 'A' ≤ c ∧ c ≤ 'F' then some (c.toNat - 'A'.toNat + 10)
  else none

def codePoint? (digits : List Char) : Option Char := do
  let n ← digits.foldlM (fun n c ↦ (hexDigit? c).map (16 * n + ·)) 0
  if n.isValidChar then some (Char.ofNat n) else none

def escape? : List Char → Option (Char × Nat)
  | [] => none
  | c :: rest =>
    match c with
    | '0' => some ('\x00', 1)
    | 'a' => some ('\x07', 1)
    | 'b' => some ('\x08', 1)
    | 't' => some ('\t', 1)
    | '\t' => some ('\t', 1)
    | 'n' => some ('\n', 1)
    | 'v' => some ('\x0b', 1)
    | 'f' => some ('\x0c', 1)
    | 'r' => some ('\r', 1)
    | 'e' => some ('\x1b', 1)
    | ' ' => some (' ', 1)
    | '"' => some ('"', 1)
    | '/' => some ('/', 1)
    | '\\' => some ('\\', 1)
    | 'N' => some ('\u0085', 1)
    | '_' => some ('\u00a0', 1)
    | 'L' => some ('\u2028', 1)
    | 'P' => some ('\u2029', 1)
    | 'x' => hex rest 2
    | 'u' => hex rest 4
    | 'U' => hex rest 8
    | _ => none
where
  hex (rest : List Char) (width : Nat) : Option (Char × Nat) :=
    if (rest.take width).length < width then none
    else (codePoint? (rest.take width)).map (·, width + 1)

def quotedFrom (isDouble : Bool) :
    Nat → (read : List Char) → Gap → Cursor → Option (String × Cursor)
  | 0, _, _, _ => none
  | fuel + 1, read, gap, cur =>
    match cur.rest with
    | [] => none
    | c :: rest =>
      if isBlank c then quotedFrom isDouble fuel read (gap.blank c) cur.advance
      else if isBreak c then quotedFrom isDouble fuel read (gap.lineBreak c) cur.advance
      else if cur.atMarker then none
      else
        let read := gap.folded ++ read
        if c == (if isDouble then '"' else '\'') then
          if !isDouble && rest.head? == some '\'' then
            quotedFrom isDouble fuel ('\'' :: read) {} (cur.advanceBy 2)
          else some (String.ofList read.reverse, cur.advance)
        else if isDouble && c == '\\' then
          if rest.head?.any isBreak then
            quotedFrom isDouble fuel read { first := some [] } (cur.advanceBy 2)
          else do
            let (char, width) ← escape? rest
            quotedFrom isDouble fuel (char :: read) {} (cur.advanceBy (width + 1))
        else quotedFrom isDouble fuel (c :: read) {} cur.advance

def quoted? (cur : Cursor) : Option (String × Cursor) :=
  match cur.rest with
  | '"' :: _ => quotedFrom true (cur.left + 1) [] {} cur.advance
  | '\'' :: _ => quotedFrom false (cur.left + 1) [] {} cur.advance
  | _ => none

end ContractAudit.Yaml
