import ContractAudit.Text.Basic
import ContractAudit.Text.Blank
import ContractAudit.Text.Digit

namespace ContractAudit

namespace Timestamp

def isLeapYear (year : Int) : Bool := year % 4 == 0 && (year % 100 != 0 || year % 400 == 0)

def daysInMonth (year : Int) (month : Nat) : Nat :=
  if month = 2 then (if isLeapYear year then 29 else 28)
  else if month = 4 ∨ month = 6 ∨ month = 9 ∨ month = 11 then 30
  else 31

/-- The dates and times that exist. The second after the 59th is a leap second, which any minute may
have. -/
def Valid (year : Int) (month day hour minute second nanosecond : Nat) : Prop :=
  (-262143 ≤ year ∧ year ≤ 262142) ∧ (1 ≤ month ∧ month ≤ 12) ∧
    (1 ≤ day ∧ day ≤ daysInMonth year month) ∧ hour < 24 ∧ minute < 60 ∧ second ≤ 60 ∧
    nanosecond < 1000000000

instance (year : Int) (month day hour minute second nanosecond : Nat) :
    Decidable (Valid year month day hour minute second nanosecond) :=
  inferInstanceAs (Decidable (_ ∧ _))

end Timestamp

structure Timestamp where
  year : Int
  month : Nat
  day : Nat
  hour : Nat
  minute : Nat
  second : Nat
  nanosecond : Nat
  valid : Timestamp.Valid year month day hour minute second nanosecond
  deriving DecidableEq

namespace Timestamp

def ofFields? (year : Int) (month day hour minute second nanosecond : Nat) : Option Timestamp :=
  if h : Valid year month day hour minute second nanosecond then
    some ⟨year, month, day, hour, minute, second, nanosecond, h⟩
  else none

def epoch : Timestamp := ⟨1970, 1, 1, 0, 0, 0, 0, by decide⟩

/-- The moment that is a number of nanoseconds after the start of 1970. Years are counted from
March, so that a leap day is the last of its year, in cycles of 400 years or 146097 days. -/
def ofNanoseconds? (nanoseconds : Int) : Option Timestamp :=
  let seconds := nanoseconds / 1000000000
  let days := seconds / 86400 + 719468
  let dayOfCycle := days % 146097
  let yearOfCycle :=
    (dayOfCycle - dayOfCycle / 1460 + dayOfCycle / 36524 - dayOfCycle / 146096) / 365
  let dayOfYear := dayOfCycle - (365 * yearOfCycle + yearOfCycle / 4 - yearOfCycle / 100)
  let monthFromMarch := (5 * dayOfYear + 2) / 153
  let day := dayOfYear - (153 * monthFromMarch + 2) / 5 + 1
  let month := if monthFromMarch < 10 then monthFromMarch + 3 else monthFromMarch - 9
  let year := yearOfCycle + days / 146097 * 400 + (if month ≤ 2 then 1 else 0)
  let second := seconds % 86400
  ofFields? year month.toNat day.toNat (second / 3600).toNat (second % 3600 / 60).toNat
    (second % 60).toNat (nanoseconds % 1000000000).toNat

def renderYear (year : Int) : String :=
  if 0 ≤ year ∧ year ≤ 9999 then Text.padZeros 4 year.toNat
  else (if year < 0 then "-" else "+") ++ Text.padZeros 4 year.natAbs

def renderFraction (nanosecond : Nat) : String :=
  if nanosecond = 0 then ""
  else if nanosecond % 1000000 = 0 then "." ++ Text.padZeros 3 (nanosecond / 1000000)
  else if nanosecond % 1000 = 0 then "." ++ Text.padZeros 6 (nanosecond / 1000)
  else "." ++ Text.padZeros 9 nanosecond

def renderDate (t : Timestamp) : String :=
  renderYear t.year ++ "-" ++ Text.padZeros 2 t.month ++ "-" ++ Text.padZeros 2 t.day

def renderTime (t : Timestamp) : String :=
  Text.padZeros 2 t.hour ++ ":" ++ Text.padZeros 2 t.minute ++ ":" ++ Text.padZeros 2 t.second

def render (t : Timestamp) : String :=
  t.renderDate ++ "T" ++ t.renderTime ++ renderFraction t.nanosecond ++ "Z"

def renderPlain (t : Timestamp) : String := t.renderDate ++ " " ++ t.renderTime ++ " UTC"

def number? (limit : Nat) (cs : List Char) : Option (Nat × List Char) :=
  let (digits, rest) := Text.takeDigits limit (Text.trimStart cs)
  (Text.readNat? digits).map (·, rest)

def year? (cs : List Char) : Option (Int × List Char) :=
  match Text.trimStart cs with
  | '-' :: rest => do
    let (digits, rest) := Text.takeDigits rest.length rest
    return (-(← Text.readNat? digits), rest)
  | '+' :: rest => do
    let (digits, rest) := Text.takeDigits rest.length rest
    return (← Text.readNat? digits, rest)
  | cs => (number? 4 cs).map fun (n, rest) ↦ ((n : Int), rest)

def mark? (mark : Char) (cs : List Char) : Option (List Char) :=
  match Text.trimStart cs with
  | c :: rest => if c = mark then some rest else none
  | [] => none

def fraction? : List Char → Option (Nat × List Char)
  | '.' :: rest => do
    let (digits, rest) := Text.takeDigits 9 rest
    return ((← Text.readNat? digits) * Nat.pow 10 (9 - digits.length),
      rest.dropWhile Text.isAsciiDigit)
  | cs => some (0, cs)

def twoDigits? : List Char → Option (Nat × List Char)
  | a :: b :: rest => (Text.readNat? [a, b]).map (·, rest)
  | _ => none

def hoursAndMinutes? (cs : List Char) : Option (Int × List Char) := do
  let (hours, rest) ← twoDigits? cs
  let (minutes, rest) ← twoDigits? (rest.dropWhile fun c ↦ c == ':' || Text.isBlank c)
  if hours < 24 ∧ minutes < 60 then some (((hours * 60 + minutes : Nat) : Int), rest) else none

def offset? : List Char → Option (Int × List Char)
  | 'Z' :: rest => some (0, rest)
  | 'z' :: rest => some (0, rest)
  | '+' :: rest => hoursAndMinutes? rest
  | '-' :: rest => (hoursAndMinutes? rest).map fun (n, rest) ↦ (-n, rest)
  | '−' :: rest => (hoursAndMinutes? rest).map fun (n, rest) ↦ (-n, rest)
  | a :: b :: c :: rest =>
    if [a, b, c].map Text.lowerAscii = ['u', 't', 'c'] then some (0, rest) else none
  | _ => none

def nextDay (year : Int) (month day : Nat) : Int × Nat × Nat :=
  if day < daysInMonth year month then (year, month, day + 1)
  else if month < 12 then (year, month + 1, 1)
  else (year + 1, 1, 1)

def previousDay (year : Int) (month day : Nat) : Int × Nat × Nat :=
  if 1 < day then (year, month, day - 1)
  else if 1 < month then (year, month - 1, daysInMonth year (month - 1))
  else (year - 1, 12, 31)

/-- The moment in universal time of a clock that is `offset` minutes ahead, less than a day. -/
def moveBack? (t : Timestamp) (offset : Int) : Option Timestamp :=
  let minutes : Int := (t.hour * 60 + t.minute : Nat) - offset
  let (year, month, day) :=
    if minutes < 0 then previousDay t.year t.month t.day
    else if 1440 ≤ minutes then nextDay t.year t.month t.day
    else (t.year, t.month, t.day)
  let minutes := (minutes % 1440).toNat
  ofFields? year month day (minutes / 60) (minutes % 60) t.second t.nanosecond

def parse? (s : String) : Option Timestamp := do
  let (year, cs) ← year? s.toList
  let (month, cs) ← number? 2 (← mark? '-' cs)
  let (day, cs) ← number? 2 (← mark? '-' cs)
  let c :: cs := cs | none
  guard (c = 'T' ∨ c = 't' ∨ c = ' ')
  let (hour, cs) ← number? 2 cs
  let (minute, cs) ← number? 2 (← mark? ':' cs)
  let (second, cs) ← number? 2 (← mark? ':' cs)
  let (nanosecond, cs) ← fraction? cs
  let (offset, cs) ← offset? (Text.trimStart cs)
  guard (Text.trimStart cs).isEmpty
  (← ofFields? year month day hour minute second nanosecond).moveBack? offset

end Timestamp

end ContractAudit
