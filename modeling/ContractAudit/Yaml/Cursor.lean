namespace ContractAudit.Yaml

def isAllowed (c : Char) : Bool :=
  let n := c.toNat
  n == 0x09 || n == 0x0A || n == 0x0D || (0x20 ≤ n && n ≤ 0x7E) || n == 0x85 ||
    (0xA0 ≤ n && n ≤ 0xD7FF) || (0xE000 ≤ n && n ≤ 0xFFFD) || 0x10000 ≤ n

/-- The text with a line feed for each carriage return, for each of the two together, and for each
next line character. -/
def unifyBreaks : List Char → List Char
  | [] => []
  | '\r' :: '\n' :: rest => '\n' :: unifyBreaks rest
  | '\r' :: rest => '\n' :: unifyBreaks rest
  | c :: rest => (if c == '\u0085' then '\n' else c) :: unifyBreaks rest

def isBlank (c : Char) : Bool := c == ' ' || c == '\t'

def isBreak (c : Char) : Bool := c == '\n' || c == '\u2028' || c == '\u2029'

def atGap : List Char → Bool
  | [] => true
  | c :: _ => isBlank c || isBreak c

structure Cursor where
  offset : Nat := 0
  line : Nat := 0
  column : Nat := 0
  rest : List Char
  left : Nat := rest.length
  deriving Inhabited

namespace Cursor

def advance (cur : Cursor) : Cursor :=
  match cur.rest with
  | [] => cur
  | c :: rest =>
    if isBreak c then ⟨cur.offset + c.utf8Size, cur.line + 1, 0, rest, cur.left - 1⟩
    else ⟨cur.offset + c.utf8Size, cur.line, cur.column + 1, rest, cur.left - 1⟩

def advanceBy (n : Nat) (cur : Cursor) : Cursor := n.repeat advance cur

def skipWhile (p : Char → Bool) (cur : Cursor) : Cursor :=
  cur.advanceBy (cur.rest.takeWhile p).length

def atMarker (cur : Cursor) : Bool :=
  cur.column == 0 &&
    match cur.rest with
    | '-' :: '-' :: '-' :: rest => atGap rest
    | '.' :: '.' :: '.' :: rest => atGap rest
    | _ => false

end Cursor

end ContractAudit.Yaml
