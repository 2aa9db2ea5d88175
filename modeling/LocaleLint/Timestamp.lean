import LocaleLint.Calendar
import LocaleLint.Text.Digit

/-!
# Timestamps

A date and time of day with an offset from universal time, as internet formats write it:
`2024-02-29T23:59:59.5+01:00`. What separates date and time does not matter, an offset of
zero may be written `Z`, and a fraction is kept to nine places. A sixtieth second is taken
where a leap second may stand, at the end of a month in universal time, and is kept as the
last nanosecond of the minute.
-/

set_option autoImplicit false

namespace LocaleLint

/-- A moment, with the offset of its time of day from universal time in minutes. -/
structure Timestamp where
  year : Nat
  month : Nat
  day : Nat
  hour : Nat := 0
  minute : Nat := 0
  second : Nat := 0
  nanosecond : Nat := 0
  offset : Int := 0
deriving DecidableEq, Repr

namespace Timestamp

/-- The moment from which seconds are counted. -/
def epoch : Timestamp where
  year := 1970
  month := 1
  day := 1

/-- The moment a number of nanoseconds after the epoch. -/
def ofNanoseconds (n : Nat) : Timestamp :=
  let seconds := n / 1000000000
  let (year, month, day) := Calendar.ofDays (seconds / 86400)
  { year := year
    month := month
    day := day
    hour := seconds / 3600 % 24
    minute := seconds / 60 % 60
    second := seconds % 60
    nanosecond := n % 1000000000 }

/-- The parts of a timestamp. -/
inductive Component where
  | year
  | month
  | day
  | separator
  | hour
  | minute
  | second
  | subsecond
  | offsetHour
  | offsetMinute
deriving DecidableEq, Repr

/-- The name of a part. -/
def Component.name : Component → String
  | .year => "year"
  | .month => "month"
  | .day => "day"
  | .separator => "separator"
  | .hour => "hour"
  | .minute => "minute"
  | .second => "second"
  | .subsecond => "subsecond"
  | .offsetHour => "offset hour"
  | .offsetMinute => "offset minute"

/-- Why a text is no timestamp. -/
inductive Fault where
  | component (part : Component)
  | literal
  | trailing
  | range (part : Component)
deriving DecidableEq, Repr

/-- What is said about a fault. -/
def Fault.message : Fault → String
  | .component part => "the '" ++ part.name ++ "' component could not be parsed"
  | .literal => "a character literal was not valid"
  | .trailing => "unexpected trailing characters; the end of input was expected"
  | .range part => part.name ++ " was not in range"

/-! ## Reading -/

/-- Reads a number of exactly `n` digits. -/
def takeNumber (part : Component) (n : Nat) (s : List Char) : Except Fault (Nat × List Char) :=
  let digits := s.take n
  if digits.length = n ∧ digits.all Text.isDigit then .ok (Text.decimalValue digits, s.drop n)
  else .error (.component part)

/-- Reads the character that has to stand next. -/
def takeLiteral (c : Char) : List Char → Except Fault (List Char)
  | d :: rest => if c = d then .ok rest else .error .literal
  | [] => .error .literal

/-- Reads whatever separates the date from the time: a single byte. The hour cannot start
inside a character. -/
def takeSeparator : List Char → Except Fault (List Char)
  | c :: rest => if c.toNat < 0x80 then .ok rest else .error (.component .hour)
  | [] => .error (.component .separator)

/-- The nanoseconds of a fraction; digits past the ninth are dropped. -/
def fractionValue (digits : List Char) : Nat :=
  Text.decimalValue ((digits ++ List.replicate 9 '0').take 9)

/-- Reads the fraction of a second, if there is one. -/
def takeFraction : List Char → Except Fault (Nat × List Char)
  | '.' :: rest =>
    let digits := rest.takeWhile Text.isDigit
    if digits.isEmpty then .error (.component .subsecond)
    else .ok (fractionValue digits, rest.dropWhile Text.isDigit)
  | s => .ok (0, s)

/-- Reads an offset after its sign. -/
def takeSignedOffset (sign : Int) (s : List Char) : Except Fault (Int × List Char) := do
  let (hour, s) ← takeNumber .offsetHour 2 s
  if 23 < hour then throw (.component .offsetHour)
  let s ← takeLiteral ':' s
  let (minute, s) ← takeNumber .offsetMinute 2 s
  if 59 < minute then throw (.range .offsetMinute)
  pure (sign * (hour * 60 + minute : Nat), s)

/-- Reads an offset. -/
def takeOffset : List Char → Except Fault (Int × List Char)
  | c :: rest =>
    if c = 'Z' ∨ c = 'z' then .ok (0, rest)
    else if c = '+' then takeSignedOffset 1 rest
    else if c = '-' then takeSignedOffset (-1) rest
    else .error (.component .offsetHour)
  | [] => .error (.component .offsetHour)

/-- The numbers of a timestamp, before it is checked that they are in range. -/
def readNumbers (s : List Char) : Except Fault Timestamp := do
  let (year, s) ← takeNumber .year 4 s
  let s ← takeLiteral '-' s
  let (month, s) ← takeNumber .month 2 s
  if month = 0 then throw (.component .month)
  let s ← takeLiteral '-' s
  let (day, s) ← takeNumber .day 2 s
  let s ← takeSeparator s
  let (hour, s) ← takeNumber .hour 2 s
  let s ← takeLiteral ':' s
  let (minute, s) ← takeNumber .minute 2 s
  let s ← takeLiteral ':' s
  let (second, s) ← takeNumber .second 2 s
  let (nanosecond, s) ← takeFraction s
  let (offset, s) ← takeOffset s
  if !s.isEmpty then throw .trailing
  pure ⟨year, month, day, hour, minute, second, nanosecond, offset⟩

/-- Whether the minute is the last one of a month in universal time. -/
def endsMonth (t : Timestamp) : Bool :=
  let minutes : Int := t.hour * 60 + t.minute - t.offset
  let shift := minutes / 1440
  minutes % 1440 = 1439 &&
    if shift = 0 then t.day = Calendar.monthLength t.year t.month
    else if shift = -1 then t.day = 1
    else t.day + 1 = Calendar.monthLength t.year t.month

/-- Checks the numbers of a timestamp, and settles a leap second. -/
def checked (t : Timestamp) : Except Fault Timestamp :=
  if 12 < t.month then .error (.range .month)
  else if !Calendar.isDate t.year t.month t.day then .error (.range .day)
  else if 23 < t.hour then .error (.range .hour)
  else if 59 < t.minute then .error (.range .minute)
  else if t.second = 60 ∧ t.endsMonth then .ok { t with second := 59, nanosecond := 999999999 }
  else if 59 < t.second then .error (.range .second)
  else .ok t

/-- The timestamp that a text spells. -/
def parse (text : String) : Except Fault Timestamp :=
  readNumbers text.toList >>= checked

/-! ## Writing -/

/-- A number with leading zeros up to a width. -/
def padded (width n : Nat) : String :=
  let digits := Nat.toDigits 10 n
  String.ofList (List.replicate (width - digits.length) '0' ++ digits)

/-- The fraction of a second without trailing zeros, and nothing for a whole second. -/
def fractionText (nanosecond : Nat) : String :=
  if nanosecond = 0 then ""
  else
    "." ++ String.ofList ((padded 9 nanosecond).toList.reverse.dropWhile (· = '0')).reverse

/-- The text of an offset. -/
def offsetText (offset : Int) : String :=
  if offset = 0 then "Z"
  else
    (if offset < 0 then "-" else "+") ++ padded 2 (offset.natAbs / 60) ++ ":" ++
      padded 2 (offset.natAbs % 60)

/-- The text of a timestamp. -/
def text (t : Timestamp) : String :=
  padded 4 t.year ++ "-" ++ padded 2 t.month ++ "-" ++ padded 2 t.day ++ "T" ++
    padded 2 t.hour ++ ":" ++ padded 2 t.minute ++ ":" ++ padded 2 t.second ++
    fractionText t.nanosecond ++ offsetText t.offset

end Timestamp

end LocaleLint
