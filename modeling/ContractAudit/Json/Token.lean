import ContractAudit.Json.Basic
import ContractAudit.Text.Digit

namespace ContractAudit.Json

inductive Token where
  | leftBracket
  | rightBracket
  | leftBrace
  | rightBrace
  | comma
  | colon
  | null
  | bool (value : Bool)
  | int (value : Int)
  | decimal (written : String)
  | text (value : Option String)
  deriving DecidableEq, Repr

namespace Token

def isBlank (c : Char) : Bool := c == ' ' || c == '\n' || c == '\t' || c == '\r'

def hexValue? (c : Char) : Option Nat :=
  if '0' ≤ c ∧ c ≤ '9' then some (c.toNat - '0'.toNat)
  else if 'a' ≤ c ∧ c ≤ 'f' then some (c.toNat - 'a'.toNat + 10)
  else if 'A' ≤ c ∧ c ≤ 'F' then some (c.toNat - 'A'.toNat + 10)
  else none

def unit? (a b c d : Char) : Option Nat := do
  return (((← hexValue? a) * 16 + (← hexValue? b)) * 16 + (← hexValue? c)) * 16 + (← hexValue? d)

def escaped? : Char → Option Char
  | '"' => some '"'
  | '\\' => some '\\'
  | '/' => some '/'
  | 'b' => some '\x08'
  | 'f' => some '\x0c'
  | 'n' => some '\n'
  | 'r' => some '\r'
  | 't' => some '\t'
  | _ => none

/-- The code points of a string up to its closing quote, and what follows the quote. An escape may
give half of a surrogate pair. `read` holds the points so far, the last one first. -/
def readPoints (read : List Nat) : List Char → Option (List Nat × List Char)
  | [] => none
  | '"' :: rest => some (read.reverse, rest)
  | '\\' :: 'u' :: a :: b :: c :: d :: rest => do readPoints ((← unit? a b c d) :: read) rest
  | '\\' :: c :: rest => do readPoints ((← escaped? c).toNat :: read) rest
  | c :: rest => if c.toNat < 0x20 || c == '\\' then none else readPoints (c.toNat :: read) rest

/-- The text of a list of code points, in which a high surrogate and the low one after it stand for
one character. `read` holds the characters so far, the last one first. -/
def joinSurrogates (read : List Char) : List Nat → Option String
  | [] => some (String.ofList read.reverse)
  | [n] =>
    if 0xD800 ≤ n ∧ n ≤ 0xDFFF then none else some (String.ofList (Char.ofNat n :: read).reverse)
  | high :: low :: rest =>
    if 0xD800 ≤ high ∧ high ≤ 0xDBFF then
      if 0xDC00 ≤ low ∧ low ≤ 0xDFFF then
        let char := Char.ofNat (0x10000 + (high - 0xD800) * 0x400 + (low - 0xDC00))
        joinSurrogates (char :: read) rest
      else none
    else if 0xDC00 ≤ high ∧ high ≤ 0xDFFF then none
    else joinSurrogates (Char.ofNat high :: read) (low :: rest)

def digits? (cs : List Char) : Option (List Char × List Char) :=
  match cs.span Text.isAsciiDigit with
  | ([], _) => none
  | (digits, rest) => some (digits, rest)

def whole? : List Char → Option (List Char × List Char)
  | '0' :: rest => some (['0'], rest)
  | cs => digits? cs

def fraction? : List Char → Option (List Char × List Char)
  | '.' :: rest => do
    let (digits, rest) ← digits? rest
    return ('.' :: digits, rest)
  | cs => some ([], cs)

def exponent? : List Char → Option (List Char × List Char)
  | e :: rest =>
    if e == 'e' || e == 'E' then
      let (sign, rest) := match rest with
        | '+' :: rest => (['+'], rest)
        | '-' :: rest => (['-'], rest)
        | _ => ([], rest)
      (digits? rest).map fun (digits, rest) ↦ (e :: sign ++ digits, rest)
    else some ([], e :: rest)
  | [] => some ([], [])

def number? (negative : Bool) (cs : List Char) : Option (Token × List Char) := do
  let (whole, cs) ← whole? cs
  let (fraction, cs) ← fraction? cs
  let (exponent, cs) ← exponent? cs
  let written := String.ofList ((if negative then ['-'] else []) ++ whole ++ fraction ++ exponent)
  let token := match fraction, exponent, Text.readNat? whole with
    | [], [], some n =>
      if negative then (if n = 0 then .decimal written else .int (-n)) else .int n
    | _, _, _ => .decimal written
  return (token, cs)

def next? : List Char → Option (Token × List Char)
  | '[' :: rest => some (.leftBracket, rest)
  | ']' :: rest => some (.rightBracket, rest)
  | '\x7b' :: rest => some (.leftBrace, rest)
  | '\x7d' :: rest => some (.rightBrace, rest)
  | ',' :: rest => some (.comma, rest)
  | ':' :: rest => some (.colon, rest)
  | 'n' :: 'u' :: 'l' :: 'l' :: rest => some (.null, rest)
  | 't' :: 'r' :: 'u' :: 'e' :: rest => some (.bool true, rest)
  | 'f' :: 'a' :: 'l' :: 's' :: 'e' :: rest => some (.bool false, rest)
  | '"' :: rest => do
    let (points, rest) ← readPoints [] rest
    return (.text (joinSurrogates [] points), rest)
  | '-' :: rest => number? true rest
  | cs => number? false cs

/-- The tokens of a text, after those of `read` (the last one first). Every token takes at least one
character, so the length of the text is enough `fuel`. -/
def scan : Nat → List Token → List Char → Option (List Token)
  | 0, _, _ => none
  | fuel + 1, read, cs =>
    match cs.dropWhile isBlank with
    | [] => some read.reverse
    | c :: cs => do
      let (token, rest) ← next? (c :: cs)
      scan fuel (token :: read) rest

end Token

def tokens? (cs : List Char) : Option (List Token) := Token.scan (cs.length + 1) [] cs

end ContractAudit.Json
