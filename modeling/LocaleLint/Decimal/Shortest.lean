/-!
# Shortest decimals

The shortest decimal that reads back as a given binary floating-point number. The
number is decoded into an integer and a power of two, and with it the interval of
all values that round to it. Grids of decimals are tried from the coarsest on; the
first that has a point in the interval gives the digits, and of two points that do,
the nearer one is taken.
-/

set_option autoImplicit false

namespace LocaleLint.Decimal

/-- What happens to a value halfway between two decimals of the grid. -/
inductive Tie
  | toEven
  | up
deriving DecidableEq, Repr

/-- The decimal `digits * 10 ^ exponent`. -/
structure Scaled where
  digits : Nat
  exponent : Int
deriving DecidableEq, Repr

/-- A positive finite binary number, `mantissa * 2 ^ exponent`; its lower neighbour is
nearer than its upper one when the flag says so. -/
structure Binary where
  mantissa : Nat
  exponent : Int
  narrowBelow : Bool
deriving DecidableEq, Repr

namespace Binary

/-- The number of the sixty-four bits, without their sign; none stands for an infinity or
for no number. -/
def ofBits? (bits : UInt64) : Option Binary :=
  let fraction : Nat := bits.toNat % Nat.pow 2 52
  let biased : Nat := bits.toNat / Nat.pow 2 52 % Nat.pow 2 11
  if biased = 2047 then none
  else if biased = 0 then some ⟨fraction, -1074, false⟩
  else some ⟨Nat.pow 2 52 + fraction, (biased : Int) - 1075, fraction = 0 && decide (1 < biased)⟩

end Binary

/-- A value and the interval around it as multiples of one unit: the numerators of the lower
end, the value and the upper end over one denominator, and whether the ends belong to it. -/
structure Interval where
  low : Nat
  value : Nat
  high : Nat
  denominator : Nat
  closed : Bool
deriving DecidableEq, Repr

namespace Interval

/-- The values that round to a binary number. -/
def ofBinary (b : Binary) : Interval :=
  let up := Nat.pow 2 b.exponent.toNat
  { low := (4 * b.mantissa - if b.narrowBelow then 1 else 2) * up
    value := 4 * b.mantissa * up
    high := (4 * b.mantissa + 2) * up
    denominator := 4 * Nat.pow 2 (-b.exponent).toNat
    closed := b.mantissa % 2 = 0 }

/-- The interval in units of `10 ^ exponent`. -/
def inUnits (i : Interval) (exponent : Int) : Interval :=
  let up := Nat.pow 10 (-exponent).toNat
  { i with
    low := i.low * up
    value := i.value * up
    high := i.high * up
    denominator := i.denominator * Nat.pow 10 exponent.toNat }

/-- Whether the integer `n` lies in the interval. -/
def holds (i : Interval) (n : Nat) : Bool :=
  let n := n * i.denominator
  if i.closed then i.low ≤ n && n ≤ i.high else i.low < n && n < i.high

/-- The integer nearest to the value among those of the interval, if it holds any. -/
def nearest? (i : Interval) (tie : Tie) : Option Nat :=
  let below := i.value / i.denominator
  let rest := i.value % i.denominator
  match i.holds below, i.holds (below + 1) with
  | false, false => none
  | true, false => some below
  | false, true => some (below + 1)
  | true, true =>
    if 2 * rest < i.denominator then some below
    else if i.denominator < 2 * rest then some (below + 1)
    else match tie with
      | .up => some (below + 1)
      | .toEven => some (if below % 2 = 0 then below else below + 1)

end Interval

/-- The number of decimal digits of a natural number. -/
def digitCount (n : Nat) : Nat :=
  (Nat.toDigits 10 n).length

/-- Tries the grids `10 ^ exponent` downwards, `steps` of them. -/
def search (i : Interval) (tie : Tie) (exponent : Int) : Nat → Option Scaled
  | 0 => none
  | steps + 1 =>
    match (i.inUnits exponent).nearest? tie with
    | some digits => some ⟨digits, exponent⟩
    | none => search i tie (exponent - 1) steps

/-- The shortest decimal for a positive number. The search starts above the number's first
digit and goes on far enough for every number; past that the first digits would be taken. -/
def shortest (b : Binary) (tie : Tie) : Scaled :=
  let i := Interval.ofBinary b
  let start : Int := (digitCount i.value : Int) - digitCount i.denominator + 1
  (search i tie start 24).getD ⟨0, 0⟩

end LocaleLint.Decimal
