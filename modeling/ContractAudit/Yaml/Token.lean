import ContractAudit.Yaml.Scalar

namespace ContractAudit.Yaml

inductive Token where
  | documentStart
  | documentEnd
  | blockSequenceStart
  | blockMappingStart
  | blockEnd
  | flowSequenceStart
  | flowSequenceEnd
  | flowMappingStart
  | flowMappingEnd
  | item
  | comma
  | key
  | value
  | scalar (isPlain : Bool) (text : String)
  deriving DecidableEq, Repr

structure Candidate where
  isRequired : Bool
  index : Nat
  offset : Nat
  line : Nat
  column : Nat

def keyLimit : Nat := 1024

def Candidate.isStale (candidate : Candidate) (cur : Cursor) : Bool :=
  candidate.line < cur.line || candidate.offset + keyLimit < cur.offset

/-- The tokens of a text up to a place in it. -/
structure Scan where
  cursor : Cursor
  tokens : List Token := []
  count : Nat := 0
  columns : List Nat := []
  allowsKey : Bool := true
  candidate : Option Candidate := none
  outer : List (Option Candidate) := []

namespace Scan

def inFlow (scan : Scan) : Bool := !scan.outer.isEmpty

def emit (token : Token) (scan : Scan) : Scan :=
  { scan with tokens := token :: scan.tokens, count := scan.count + 1 }

def advanceBy (n : Nat) (scan : Scan) : Scan := { scan with cursor := scan.cursor.advanceBy n }

def insertAt (index : Nat) (token : Token) (scan : Scan) : Scan :=
  let later := scan.count - index
  { scan with
    tokens := scan.tokens.take later ++ token :: scan.tokens.drop later
    count := scan.count + 1 }

def isDeeper (column : Nat) (scan : Scan) : Bool := scan.columns.head?.all (· < column)

def closeWhile (p : Nat → Bool) (scan : Scan) : Scan :=
  if scan.inFlow then scan
  else
    let closed := (scan.columns.takeWhile p).length
    closed.repeat (emit .blockEnd) { scan with columns := scan.columns.drop closed }

def openAt (column index : Nat) (start : Token) (scan : Scan) : Scan :=
  if !scan.inFlow && scan.isDeeper column then
    { scan.insertAt index start with columns := column :: scan.columns }
  else scan

def dropCandidate (scan : Scan) : Option Scan :=
  if scan.candidate.any (·.isRequired) then none else some { scan with candidate := none }

/-- Gives up the candidate if it is too far away. Those outside the open brackets are looked at when
their bracket closes: they are no nearer then. -/
def dropStale (scan : Scan) : Option Scan :=
  if scan.candidate.any (·.isStale scan.cursor) then scan.dropCandidate else some scan

def noteCandidate (scan : Scan) : Option Scan :=
  if scan.allowsKey then do
    let cur := scan.cursor
    let isRequired := !scan.inFlow && scan.columns.head? == some cur.column
    let scan ← scan.dropCandidate
    return { scan with
      candidate := some ⟨isRequired, scan.count, cur.offset, cur.line, cur.column⟩ }
  else some scan

def openFlow (start : Token) (scan : Scan) : Option Scan := do
  let scan ← scan.noteCandidate
  return { scan.advanceBy 1 |>.emit start with
    candidate := none, outer := scan.candidate :: scan.outer, allowsKey := true }

def closeFlow (stop : Token) (scan : Scan) : Option Scan := do
  let scan ← scan.dropCandidate
  return { scan.advanceBy 1 |>.emit stop with
    candidate := scan.outer.head?.getD none, outer := scan.outer.tail, allowsKey := false }

def comma (scan : Scan) : Option Scan := do
  let scan ← scan.dropCandidate
  return { scan.advanceBy 1 |>.emit .comma with allowsKey := true }

def item (scan : Scan) : Option Scan := do
  guard (scan.inFlow || scan.allowsKey)
  let scan ← (scan.openAt scan.cursor.column scan.count .blockSequenceStart).dropCandidate
  return { scan.advanceBy 1 |>.emit .item with allowsKey := true }

def explicitKey (scan : Scan) : Option Scan := do
  guard (scan.inFlow || scan.allowsKey)
  let scan ← (scan.openAt scan.cursor.column scan.count .blockMappingStart).dropCandidate
  return { scan.advanceBy 1 |>.emit .key with allowsKey := !scan.inFlow }

def colon (scan : Scan) : Option Scan := do
  let scan ← match scan.candidate with
    | some key =>
      let scan := (scan.insertAt key.index .key).openAt key.column key.index .blockMappingStart
      some { scan with candidate := none, allowsKey := false }
    | none => do
      guard (scan.inFlow || scan.allowsKey)
      let scan := scan.openAt scan.cursor.column scan.count .blockMappingStart
      some { scan with allowsKey := !scan.inFlow }
  return scan.advanceBy 1 |>.emit .value

def marker (token : Token) (scan : Scan) : Option Scan := do
  let scan ← (scan.closeWhile fun _ ↦ true).dropCandidate
  return { scan.advanceBy 3 |>.emit token with allowsKey := false }

def quoted (scan : Scan) : Option Scan := do
  let scan ← scan.noteCandidate
  let (text, stop) ← quoted? scan.cursor
  return { scan.emit (.scalar false text) with cursor := stop, allowsKey := false }

def plain (scan : Scan) : Option Scan := do
  let scan ← scan.noteCandidate
  let indent := (scan.columns.head?.map (· + 1)).getD 0
  let (text, hasBreak, stop) ← plain? scan.inFlow indent scan.cursor
  return { scan.emit (.scalar true text) with cursor := stop, allowsKey := hasBreak }

/-- Skips blanks, comments and line breaks. A tab is no blank where a key of a block may start, and
a byte order mark may start a line. -/
def skipGap : Nat → Scan → Scan
  | 0, scan => scan
  | fuel + 1, scan =>
    let cur := scan.cursor
    let cur := if cur.column == 0 && cur.rest.head? == some '\ufeff' then cur.advance else cur
    let cur := cur.skipWhile fun c ↦ c == ' ' || (c == '\t' && (scan.inFlow || !scan.allowsKey))
    let cur := if cur.rest.head? == some '#' then cur.skipWhile (!isBreak ·) else cur
    if cur.rest.head?.any isBreak then
      skipGap fuel { scan with cursor := cur.advance, allowsKey := scan.allowsKey || !scan.inFlow }
    else { scan with cursor := cur }

def approach (scan : Scan) : Option Scan := do
  let scan ← (scan.skipGap (scan.cursor.left + 1)).dropStale
  return scan.closeWhile (scan.cursor.column < ·)

def next (scan : Scan) : Option Scan :=
  match scan.cursor.rest with
  | [] => none
  | c :: rest =>
    if scan.cursor.column == 0 && c == '%' then none
    else if scan.cursor.atMarker then
      scan.marker (if c == '-' then .documentStart else .documentEnd)
    else if c == '[' then scan.openFlow .flowSequenceStart
    else if c == '\x7b' then scan.openFlow .flowMappingStart
    else if c == ']' then scan.closeFlow .flowSequenceEnd
    else if c == '\x7d' then scan.closeFlow .flowMappingEnd
    else if c == ',' then scan.comma
    else if c == '-' && atGap rest then scan.item
    else if c == '?' && (scan.inFlow || atGap rest) then scan.explicitKey
    else if c == ':' && (scan.inFlow || atGap rest) then scan.colon
    else if c == '"' || c == '\'' then scan.quoted
    else scan.plain

def run : Nat → Scan → Option (List Token)
  | 0, _ => none
  | fuel + 1, scan => do
    let scan ← scan.approach
    if scan.cursor.rest.isEmpty then
      let scan ← (scan.closeWhile fun _ ↦ true).dropCandidate
      return scan.tokens.reverse
    else run fuel (← scan.next)

end Scan

def tokens? (text : String) : Option (List Token) :=
  let chars := text.toList
  if chars.all isAllowed then
    let chars := unifyBreaks chars
    Scan.run (chars.length + 1) { cursor := { rest := chars } }
  else none

end ContractAudit.Yaml
