import LocaleLint.Calendar
import LocaleLint.Text.Digit
import LocaleLint.Toml.Value

/-!
# TOML numbers, dates and times

The values that are written without quotation marks: booleans, integers in four
radices, floating-point numbers, dates, times, and both together.
-/

set_option autoImplicit false

namespace LocaleLint.Toml.Scalar

open Text (isDigit)

/-- The digits of a literal in which single underscores may stand between digits. -/
def ungroup (isDigit : Char → Bool) (s : List Char) : Option (List Char) :=
  match s with
  | [] => none
  | [c] => if isDigit c then some [c] else none
  | c :: '_' :: rest =>
    if isDigit c then (ungroup isDigit rest).map (c :: ·) else none
  | c :: rest => if isDigit c then (ungroup isDigit rest).map (c :: ·) else none

/-- The sign in front of a number, and the rest. -/
def splitSign (s : List Char) : Bool × List Char :=
  match s with
  | '-' :: rest => (true, rest)
  | '+' :: rest => (false, rest)
  | rest => (false, rest)

/-- The number that digits spell in a radix. -/
def value (radix : Nat) (digits : List Char) : Nat :=
  digits.foldl (fun n c => n * radix + (Text.hexValue? c).getD 0) 0

/-- A digit of a radix up to sixteen. -/
def isDigitOf (radix : Nat) (c : Char) : Bool :=
  (Text.hexValue? c).any (· < radix)

/-- An integer within sixty-four bits. -/
def inRange (n : Int) : Option Toml :=
  if -9223372036854775808 ≤ n ∧ n ≤ 9223372036854775807 then some (.integer n) else none

/-- The decimal digits of a whole part, which starts with a zero only when it is one. -/
def whole? (s : List Char) : Option (List Char) :=
  (ungroup isDigit s).filter fun digits => digits.length = 1 || digits.head? ≠ some '0'

/-- An integer literal. A radix other than ten takes no sign. -/
def integer? (s : List Char) : Option Toml :=
  match s with
  | '0' :: 'x' :: rest => (ungroup (isDigitOf 16) rest).bind fun ds => inRange (value 16 ds)
  | '0' :: 'o' :: rest => (ungroup (isDigitOf 8) rest).bind fun ds => inRange (value 8 ds)
  | '0' :: 'b' :: rest => (ungroup (isDigitOf 2) rest).bind fun ds => inRange (value 2 ds)
  | s =>
    let (negative, rest) := splitSign s
    (whole? rest).bind fun ds =>
      inRange (if negative then -(value 10 ds : Int) else value 10 ds)

/-- The exponent of a floating-point literal. -/
def exponent? (s : List Char) : Option Int :=
  let (negative, rest) := splitSign s
  (ungroup isDigit rest).map fun ds =>
    if negative then -(value 10 ds : Int) else value 10 ds

/-- The floating-point number `n * 10 ^ exponent`; none when it is not finite. An exponent
that leaves no doubt is not raised to. -/
def scaled (n : Nat) (exponent : Int) : Option Float :=
  let leading : Int := exponent + (Nat.toDigits 10 n).length
  if n = 0 ∨ leading < -400 then some 0
  else if 400 < leading then none
  else
    let size := Float.ofScientific n (decide (exponent < 0)) exponent.natAbs
    if size.isInf then none else some size

/-- A floating-point number with its sign. -/
def signed (negative : Bool) (size : Float) : Toml :=
  .float (if negative then -size else size).toBits

/-- A floating-point literal: a fraction, an exponent, or both, or one of the special names. -/
def float? (s : List Char) : Option Toml :=
  let (negative, rest) := splitSign s
  if rest = ['i', 'n', 'f'] then some (signed negative (1.0 / 0.0))
  else if rest = ['n', 'a', 'n'] then some (signed negative (0.0 / 0.0))
  else
    let isMark (c : Char) : Bool := c = 'e' || c = 'E'
    let mantissa := rest.takeWhile fun c => !isMark c
    let power : Option Int :=
      match rest.dropWhile fun c => !isMark c with
      | [] => some 0
      | _ :: exponent => exponent? exponent
    let wholePart := mantissa.takeWhile (· ≠ '.')
    let fraction : Option (List Char) :=
      match mantissa.dropWhile (· ≠ '.') with
      | [] => some []
      | _ :: digits => ungroup isDigit digits
    match whole? wholePart, fraction, power with
    | some ds, some fs, some power =>
      if fs.isEmpty ∧ mantissa.length = rest.length then none
      else (scaled (value 10 (ds ++ fs)) (power - fs.length)).map (signed negative)
    | _, _, _ => none

/-- The number that `count` decimal digits at the front of a text spell, and the rest. -/
def fixed (count : Nat) (s : List Char) : Option (Nat × List Char) :=
  let digits := s.take count
  if digits.length = count ∧ digits.all isDigit then
    some (Text.decimalValue digits, s.drop count)
  else none

/-- Drops one given character. -/
def expect (c : Char) (s : List Char) : Option (List Char) :=
  match s with
  | d :: rest => if d = c then some rest else none
  | [] => none

/-- The date at the front of a text. -/
def date? (s : List Char) : Option (List Char) := do
  let (year, s) ← fixed 4 s
  let s ← expect '-' s
  let (month, s) ← fixed 2 s
  let s ← expect '-' s
  let (day, s) ← fixed 2 s
  if Calendar.isDate year month day then some s else none

/-- The seconds of a time with their fraction, which may be left out. -/
def seconds? (s : List Char) : Option (List Char) :=
  match s with
  | ':' :: s => do
    let (second, s) ← fixed 2 s
    if 60 < second then none
    match s with
    | '.' :: s =>
      let digits := s.takeWhile isDigit
      if digits.isEmpty then none else some (s.dropWhile isDigit)
    | s => some s
  | s => some s

/-- The time at the front of a text. -/
def time? (s : List Char) : Option (List Char) := do
  let (hour, s) ← fixed 2 s
  let s ← expect ':' s
  let (minute, s) ← fixed 2 s
  if 23 < hour ∨ 59 < minute then none
  seconds? s

/-- The offset from universal time at the front of a text. -/
def offset? (s : List Char) : Option (List Char) :=
  match s with
  | [] => some []
  | c :: s =>
    if c = 'Z' ∨ c = 'z' then some s
    else if c = '+' ∨ c = '-' then do
      let (hour, s) ← fixed 2 s
      let s ← expect ':' s
      let (minute, s) ← fixed 2 s
      if 23 < hour ∨ 59 < minute then none
      some s
    else none

/-- The fraction of a second as it is kept: nine digits at most, without zeros at the end. -/
def keptFraction (digits : List Char) : List Char :=
  let kept := ((digits.take 9).reverse.dropWhile (· = '0')).reverse
  if kept.isEmpty then ['0'] else kept

/-- The text of a date or time as it is kept: letters in upper case, with a `T` between
date and time. -/
def normalize (s : List Char) : String :=
  let before := s.takeWhile (· ≠ '.')
  let upper (s : List Char) : List Char :=
    s.map fun c => if c = 't' ∨ c = ' ' then 'T' else if c = 'z' then 'Z' else c
  match s.dropWhile (· ≠ '.') with
  | [] => String.ofList (upper before)
  | _ :: after =>
    String.ofList (upper before ++ '.' :: keptFraction (after.takeWhile isDigit) ++
      upper (after.dropWhile isDigit))

/-- A date, a time, or a date with a time and perhaps an offset. -/
def dateTime? (s : List Char) : Option Toml :=
  let whole : Option (List Char) :=
    match date? s with
    | some [] => some []
    | some (c :: rest) =>
      if c = 'T' ∨ c = 't' ∨ c = ' ' then (time? rest).bind offset? else none
    | none => time? s
  match whole with
  | some [] => some (.dateTime (normalize s))
  | _ => none

/-- The value of a literal. -/
def parse? (s : List Char) : Option Toml :=
  if s = ['t', 'r', 'u', 'e'] then some (.boolean true)
  else if s = ['f', 'a', 'l', 's', 'e'] then some (.boolean false)
  else (integer? s).or ((float? s).or (dateTime? s))

/-- A character of a literal. -/
def inLiteral (c : Char) : Bool :=
  c.isAlphanum || c = '_' || c = '+' || c = '-' || c = '.' || c = ':'

/-- The literal at the front of a text, and the rest. One space may stand between a date and
a time. -/
def split (s : List Char) : List Char × List Char :=
  let first := s.takeWhile inLiteral
  let rest := s.dropWhile inLiteral
  match rest with
  | ' ' :: more =>
    let second := more.takeWhile inLiteral
    if date? first = some [] ∧ ((time? second).bind offset?) = some [] then
      (first ++ ' ' :: second, more.dropWhile inLiteral)
    else (first, rest)
  | _ => (first, rest)

end LocaleLint.Toml.Scalar
