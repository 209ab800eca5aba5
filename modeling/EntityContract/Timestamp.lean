/-!
Timestamps: a date, a time of day and the distance from universal time, read and written as
RFC 3339 has them. A leap second may stand in any minute.
-/

namespace EntityContract

inductive TimestampError where
  | prematureEnd
  | invalidCharacters
  | outOfRange
  | trailingInput
  deriving DecidableEq, Repr

def TimestampError.message : TimestampError → String
  | .prematureEnd => "premature end of input"
  | .invalidCharacters => "input contains invalid characters"
  | .outOfRange => "input is out of range"
  | .trailingInput => "trailing input"

/-- A point in time as it is written; the offset is in minutes. -/
structure Timestamp where
  year : Nat
  month : Nat
  day : Nat
  hour : Nat
  minute : Nat
  second : Nat
  nanosecond : Nat
  offset : Int
  deriving DecidableEq, Repr

namespace Timestamp

def isLeapYear (year : Nat) : Bool := year % 4 == 0 && (year % 100 != 0 || year % 400 == 0)

def daysInMonth (year month : Nat) : Nat :=
  if month = 2 then (if isLeapYear year then 29 else 28)
  else if month = 4 ∨ month = 6 ∨ month = 9 ∨ month = 11 then 30
  else 31

def isDate (year month day : Nat) : Bool :=
  1 ≤ month && month ≤ 12 && 1 ≤ day && day ≤ daysInMonth year month

/-- A reader takes from the front of a text. -/
abbrev Reader := StateT (List Char) (Except TimestampError)

def digitValue (c : Char) : Nat := c.toNat - '0'.toNat

def number : Nat → Reader Nat
  | 0 => pure 0
  | count + 1 => do
    let value ← number count
    match ← get with
    | c :: rest =>
      if c.isDigit then
        set rest
        pure (value * 10 + digitValue c)
      else throw .invalidCharacters
    | [] => throw .prematureEnd

def oneOf (choices : List Char) : Reader Char := do
  match ← get with
  | c :: rest => if choices.contains c then set rest; pure c else throw .invalidCharacters
  | [] => throw .prematureEnd

def require (condition : Bool) : Reader Unit :=
  if condition then pure () else throw .outOfRange

/-- The nine first digits of a fraction are nanoseconds; further ones are read and dropped. -/
def nanoseconds (digits : List Char) : Nat :=
  (digits ++ List.replicate 9 '0').take 9 |>.foldl (fun value c => value * 10 + digitValue c) 0

def fraction : Reader Nat := do
  match ← get with
  | '.' :: rest =>
    let (digits, behind) := rest.span Char.isDigit
    match digits, rest with
    | [], [] => throw .prematureEnd
    | [], _ => throw .invalidCharacters
    | digits, _ =>
      set behind
      pure (nanoseconds digits)
  | _ => pure 0

/-- Two digits, which need two bytes to be there before they are looked at. -/
def twoDigits : Reader Nat := do
  let rest ← get
  if (String.ofList rest).utf8ByteSize < 2 then throw .prematureEnd
  number 2

def minusSign : Char := '\u2212'

def offsetMinutes : Reader Int := do
  let sign ← oneOf ['Z', 'z', '+', '-', minusSign]
  if sign = 'Z' ∨ sign = 'z' then pure 0
  else
    let hours ← twoDigits
    let _ ← oneOf [':']
    let minutes ← twoDigits
    require (minutes < 60)
    let distance : Int := hours * 60 + minutes
    pure (if sign = '+' then distance else -distance)

def reader : Reader Timestamp := do
  let year ← number 4
  let _ ← oneOf ['-']
  let month ← number 2
  let _ ← oneOf ['-']
  let day ← number 2
  require (isDate year month day)
  let _ ← oneOf ['T', 't', ' ']
  let hour ← number 2
  let _ ← oneOf [':']
  let minute ← number 2
  let _ ← oneOf [':']
  let second ← number 2
  let nanosecond ← fraction
  require (hour < 24 && minute < 60 && second ≤ 60)
  let offset ← offsetMinutes
  unless (← get).isEmpty do throw .trailingInput
  require (offset.natAbs < 24 * 60)
  pure ⟨year, month, day, hour, minute, second, nanosecond, offset⟩

/-- The shortest text that reaches to the seconds. -/
def shortestLength : Nat := 19

/-- Reads a timestamp; the first fault from the left is reported. -/
def ofText (text : String) : Except TimestampError Timestamp :=
  if text.utf8ByteSize < shortestLength then .error .prematureEnd
  else (reader.run text.toList).map (·.1)

/-- Days since the first day of March of the year zero. -/
def dayNumber (year month day : Nat) : Int :=
  let (year, month) :=
    if month ≤ 2 then ((year : Int) - 1, month + 9) else ((year : Int), month - 3)
  365 * year + year / 4 - year / 100 + year / 400 + ((153 * month + 2) / 5 : Nat) + day - 1

/-- Seconds in universal time, and the nanoseconds within: those of a leap second go on counting
in the second before it. -/
def instant (t : Timestamp) : Int × Nat :=
  let (second, extra) := if t.second = 60 then (59, 1000000000) else (t.second, 0)
  let seconds : Int := ((t.hour * 60 + t.minute) * 60 + second : Nat)
  (dayNumber t.year t.month t.day * 86400 + seconds - t.offset * 60, t.nanosecond + extra)

def compare (x y : Timestamp) : Ordering :=
  let (seconds, nanoseconds) := x.instant
  let (seconds', nanoseconds') := y.instant
  (Ord.compare seconds seconds').then (Ord.compare nanoseconds nanoseconds')

def padded (width value : Nat) : String :=
  let digits := Nat.toDigits 10 value
  String.ofList (List.replicate (width - digits.length) '0' ++ digits)

/-- The shortest exact fraction of no, three, six or nine digits. -/
def fractionText (nanosecond : Nat) : String :=
  if nanosecond = 0 then ""
  else if nanosecond % 1000000 = 0 then "." ++ padded 3 (nanosecond / 1000000)
  else if nanosecond % 1000 = 0 then "." ++ padded 6 (nanosecond / 1000)
  else "." ++ padded 9 nanosecond

def offsetText (offset : Int) : String :=
  if offset = 0 then "Z"
  else
    let sign := if offset < 0 then "-" else "+"
    sign ++ padded 2 (offset.natAbs / 60) ++ ":" ++ padded 2 (offset.natAbs % 60)

def text (t : Timestamp) : String :=
  padded 4 t.year ++ "-" ++ padded 2 t.month ++ "-" ++ padded 2 t.day ++ "T" ++
    padded 2 t.hour ++ ":" ++ padded 2 t.minute ++ ":" ++ padded 2 t.second ++
    fractionText t.nanosecond ++ offsetText t.offset

end Timestamp

end EntityContract
