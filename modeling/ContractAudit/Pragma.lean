import ContractAudit.Text.Basic
import ContractAudit.Text.Blank
import ContractAudit.Text.Digit

namespace ContractAudit.Pragma

structure Version where
  major : Nat
  minor : Nat
  patch : Nat
  deriving DecidableEq, Repr

inductive Comparator where
  | caret
  | tilde
  | greaterEq
  | lessEq
  | greater
  | less
  | exact
  deriving DecidableEq, Repr

structure Constraint where
  comparator : Comparator
  version : Version
  deriving DecidableEq, Repr

def afterWord? (word : String) (cs : List Char) : Option (List Char) := do
  match ← Text.dropWord? word.toList cs with
  | c :: rest => if Text.isBlank c then some (rest.dropWhile Text.isBlank) else none
  | [] => none

def directive? : List Char → Option (List Char)
  | [] => none
  | c :: cs =>
    match (afterWord? "pragma" (c :: cs)).bind (afterWord? "solidity") with
    | some constraint => some constraint
    | none => directive? cs

/-- The constraint of each directive, in the order of the source. A directive ends at a semicolon,
so each piece between semicolons holds at most one. -/
def directives (source : List Char) : List (List Char) :=
  (Text.splitAt ';' source).filterMap directive?

def comparator : List Char → Comparator × List Char
  | '^' :: rest => (.caret, rest)
  | '~' :: rest => (.tilde, rest)
  | '>' :: '=' :: rest => (.greaterEq, rest)
  | '<' :: '=' :: rest => (.lessEq, rest)
  | '>' :: rest => (.greater, rest)
  | '<' :: rest => (.less, rest)
  | '=' :: rest => (.exact, rest)
  | cs => (.exact, cs)

/-- The digits after a point, or none if there is no point with a digit after it. -/
def part (cs : List Char) : List Char × List Char :=
  match cs with
  | '.' :: rest =>
    match rest.span Text.isDecimalDigit with
    | ([], _) => ([], cs)
    | (digits, rest) => (digits, rest)
  | _ => ([], cs)

def number? (digits : List Char) : Option Nat := do
  let n ← Text.readNat? digits
  if n < UInt32.size then some n else none

def comparison? (cs : List Char) : Option (Comparator × List Char × List Char × List Char) :=
  let (operator, rest) := comparator cs
  match (rest.dropWhile Text.isBlank).span Text.isDecimalDigit with
  | ([], _) => none
  | (major, rest) =>
    let (minor, rest) := part rest
    let (patch, _) := part rest
    some (operator, major, minor, patch)

def leading? : List Char → Option (Comparator × List Char × List Char × List Char)
  | [] => none
  | c :: cs =>
    match comparison? (c :: cs) with
    | some found => some found
    | none => leading? cs

/-- The constraint that the leading comparator states. A major number that cannot be read leaves
none; of the other two, one that is left out or cannot be read counts as zero. -/
def constraint? (text : List Char) : Option Constraint := do
  let (operator, major, minor, patch) ← leading? text
  return ⟨operator, ⟨← number? major, (number? minor).getD 0, (number? patch).getD 0⟩⟩

def constraints (source : String) : List Constraint :=
  (directives source.toList).filterMap constraint?

def Constraint.pinsCheckedArithmetic (c : Constraint) : Bool :=
  (c.comparator == .caret || c.comparator == .greaterEq) && c.version.major == 0 &&
    c.version.minor == 8

def pinsCheckedArithmetic (source : String) : Bool :=
  (constraints source).any Constraint.pinsCheckedArithmetic

/-- Whether the library `SafeMath` or the compiler guards the arithmetic of a source. -/
def protectsArithmetic (source : String) : Bool :=
  Text.holds source "SafeMath" || pinsCheckedArithmetic source

end ContractAudit.Pragma
