import LocaleLint.Decimal.Shortest

/-!
# How a number is written

Lays out the digits of a floating-point number. A layout says for which exponents of
the leading digit the number is written without an exponent; an integral number keeps
one decimal place there, and an exponent is written with its sign.
-/

set_option autoImplicit false

namespace LocaleLint.Decimal

/-- The decisions of a way to write numbers. The bounds are on the exponent of the leading
digit; a missing bound admits every exponent on its side. -/
structure Layout where
  plainFrom : Option Int
  plainTo : Option Int
  tie : Tie
deriving DecidableEq, Repr

namespace Layout

/-- Reports write numbers with an exponent outside `10 ^ -5` to `10 ^ 15`. -/
def report : Layout := ⟨some (-5), some 15, .toEven⟩

/-- Messages never write an exponent. -/
def inMessage : Layout := ⟨none, none, .up⟩

/-- Whether a number whose leading digit has the given exponent is written without one. -/
def isPlain (layout : Layout) (exponent : Int) : Bool :=
  layout.plainFrom.all (· ≤ exponent) && layout.plainTo.all (exponent ≤ ·)

/-- The decimal without an exponent. -/
def plain (digits : String) (exponent : Int) : String :=
  let point : Int := digits.length + exponent
  if 0 ≤ exponent then digits ++ String.ofList (List.replicate exponent.toNat '0') ++ ".0"
  else if 0 < point then
    String.ofList (digits.toList.take point.toNat) ++ "." ++
      String.ofList (digits.toList.drop point.toNat)
  else "0." ++ String.ofList (List.replicate (-point).toNat '0') ++ digits

/-- The decimal with the point after its first digit. -/
def scientific (digits : String) (exponent : Int) : String :=
  let leading : Int := exponent + digits.length - 1
  let mantissa :=
    match digits.toList with
    | [] => ""
    | [c] => c.toString
    | c :: rest => c.toString ++ "." ++ String.ofList rest
  mantissa ++ "e" ++ (if leading < 0 then "-" else "+") ++ toString leading.natAbs

/-- The text of a positive decimal. -/
def positive (layout : Layout) (decimal : Scaled) : String :=
  let digits := toString decimal.digits
  if layout.isPlain (decimal.exponent + digits.length - 1) then plain digits decimal.exponent
  else scientific digits decimal.exponent

/-- The text of the number of sixty-four bits. -/
def text (layout : Layout) (bits : UInt64) : String :=
  let sign := if bits.toNat / Nat.pow 2 63 = 1 then "-" else ""
  match Binary.ofBits? bits with
  | none => if bits.toNat % Nat.pow 2 52 = 0 then sign ++ "inf" else "NaN"
  | some b =>
    if b.mantissa = 0 then sign ++ "0.0" else sign ++ layout.positive (shortest b layout.tie)

end Layout

end LocaleLint.Decimal
