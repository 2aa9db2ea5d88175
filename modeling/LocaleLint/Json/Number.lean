import LocaleLint.Json.Value
import LocaleLint.Text.Digit

/-!
# JSON numbers

Reads the number that a literal spells. An integer literal within the signed or the
unsigned range of sixty-four bits is an integer. For any other literal the digits are
taken as long as the number they spell fits sixty-four bits; further digits before the
point count as a power of ten, further digits after it are dropped, and the result is
scaled by a table of powers. A literal past the greatest finite number is refused.
-/

set_option autoImplicit false

namespace LocaleLint.Json

open Text (isDigit digitValue decimalValue)

/-- The parts of a number literal. -/
structure Literal where
  negative : Bool
  whole : List Char
  fraction : Option (List Char)
  exponent : Option (Bool × List Char)
deriving DecidableEq, Repr

namespace Literal

/-- A whole part is not empty, and starts with a zero only when it is one digit. -/
def isWhole (digits : List Char) : Bool :=
  match digits with
  | [] => false
  | [_] => true
  | c :: _ => c ≠ '0'

/-- The fraction at the front of a text, and what follows it; none when a point has no digits. -/
def splitFraction (s : List Char) : Option (Option (List Char) × List Char) :=
  match s with
  | '.' :: s =>
    let digits := s.takeWhile isDigit
    if digits.isEmpty then none else some (some digits, s.dropWhile isDigit)
  | s => some (none, s)

/-- The sign and the digits after an exponent mark, and what follows them. -/
def splitExponentDigits (negative : Bool) (s : List Char) :
    Option (Option (Bool × List Char) × List Char) :=
  let digits := s.takeWhile isDigit
  if digits.isEmpty then none else some (some (negative, digits), s.dropWhile isDigit)

/-- The exponent at the front of a text, and what follows it; none when it has no digits. -/
def splitExponent (s : List Char) : Option (Option (Bool × List Char) × List Char) :=
  match s with
  | c :: s =>
    if c = 'e' ∨ c = 'E' then
      match s with
      | '-' :: s => splitExponentDigits true s
      | '+' :: s => splitExponentDigits false s
      | s => splitExponentDigits false s
    else some (none, c :: s)
  | [] => some (none, [])

/-- Whether a text starts with a minus sign, and the text without it. -/
def splitSign (s : List Char) : Bool × List Char :=
  match s with
  | '-' :: s => (true, s)
  | s => (false, s)

/-- The literal at the front of a text, and what follows it. -/
def split (s : List Char) : Option (Literal × List Char) :=
  let signed := splitSign s
  let whole := signed.2.takeWhile isDigit
  if isWhole whole then
    (splitFraction (signed.2.dropWhile isDigit)).bind fun (fraction, s) =>
      (splitExponent s).map fun (exponent, s) => (⟨signed.1, whole, fraction, exponent⟩, s)
  else none

/-- Splitting off a sign never lengthens what is left to read. -/
theorem length_le_of_splitSign (s : List Char) : (splitSign s).2.length ≤ s.length := by
  unfold splitSign
  split <;> simp

/-- Splitting off a fraction never lengthens what is left to read. -/
theorem length_le_of_splitFraction {s rest : List Char} {digits : Option (List Char)}
    (h : splitFraction s = some (digits, rest)) : rest.length ≤ s.length := by
  unfold splitFraction at h
  split at h
  · next s =>
    simp only at h
    split at h
    · cases h
    · cases h
      have := (List.dropWhile_sublist isDigit (l := s)).length_le
      simp only [List.length_cons]
      omega
  · cases h
    exact Nat.le_refl _

/-- Splitting off the digits of an exponent never lengthens what is left to read. -/
theorem length_le_of_splitExponentDigits {negative : Bool} {s rest : List Char}
    {exponent : Option (Bool × List Char)}
    (h : splitExponentDigits negative s = some (exponent, rest)) : rest.length ≤ s.length := by
  unfold splitExponentDigits at h
  simp only at h
  split at h
  · cases h
  · cases h
    exact (List.dropWhile_sublist isDigit).length_le

/-- Splitting off an exponent with its sign never lengthens what is left to read. -/
theorem length_le_of_splitExponent {s rest : List Char} {exponent : Option (Bool × List Char)}
    (h : splitExponent s = some (exponent, rest)) : rest.length ≤ s.length := by
  unfold splitExponent at h
  split at h
  · split at h
    · split at h
      all_goals
        have := length_le_of_splitExponentDigits h
        simp only [List.length_cons]
        omega
    · cases h
      exact Nat.le_refl _
  · cases h
    exact Nat.le_refl _

/-- A literal has a digit, so reading one leaves less to read. -/
theorem length_lt_of_split {s rest : List Char} {literal : Literal}
    (h : split s = some (literal, rest)) : rest.length < s.length := by
  simp only [split] at h
  have hs := length_le_of_splitSign s
  split at h
  · next hw =>
    obtain ⟨⟨fraction, s₁⟩, hf, h⟩ := Option.bind_eq_some_iff.1 h
    obtain ⟨⟨exponent, s₂⟩, he, h⟩ := Option.map_eq_some_iff.1 h
    cases h
    have h₁ := length_le_of_splitFraction hf
    have h₂ := length_le_of_splitExponent he
    have h₃ := congrArg List.length
      (List.takeWhile_append_dropWhile (p := isDigit) (l := (splitSign s).2))
    have h₄ : 0 < ((splitSign s).2.takeWhile isDigit).length := by
      cases hd : (splitSign s).2.takeWhile isDigit with
      | nil => simp [hd, isWhole] at hw
      | cons => simp
    simp only [List.length_append] at h₂ h₃ ⊢
    omega
  · cases h

/-- The greatest number of sixty-four bits. -/
def limit : Nat := 18446744073709551615

/-- Adds digits to a number as long as it fits sixty-four bits: the number, how many digits
it took, and how many are left. -/
def absorb (n taken : Nat) : List Char → Nat × Nat × Nat
  | [] => (n, taken, 0)
  | c :: rest =>
    let next := n * 10 + digitValue c
    if next ≤ limit then absorb next (taken + 1) rest else (n, taken, rest.length + 1)

/-- The digits that count, and the power of ten that the point leaves them. -/
def significand (literal : Literal) : Nat × Int :=
  let (n, _, left) := absorb 0 0 literal.whole
  let (n, taken, _) := absorb n 0 (literal.fraction.getD [])
  (n, (left : Int) - taken)

/-- The greatest exponent, of thirty-two bits with a sign. -/
def exponentLimit : Int := 2147483647

/-- A sum of exponents stays within the thirty-two bits. -/
def clampExponent (n : Int) : Int :=
  max (-exponentLimit - 1) (min exponentLimit n)

/-- The floating-point number `n * 10 ^ exponent`, scaled in at most two steps; none when it
is not finite. -/
def scale (n : Nat) (exponent : Int) : Option Float :=
  let whole := n.toUInt64.toFloat
  let power (k : Nat) : Float := Float.ofScientific 1 false k
  if exponent < 0 then
    let k := exponent.natAbs
    if k ≤ 308 then some (whole / power k)
    else if k ≤ 616 then some (whole / power 308 / power (k - 308))
    else some 0
  else
    let k := exponent.toNat
    if k ≤ 308 then
      let scaled := whole * power k
      if scaled.isInf then none else some scaled
    else if n = 0 then some 0
    else none

/-- The floating-point number of a literal. -/
def float? (literal : Literal) : Option UInt64 :=
  let (n, power) := literal.significand
  let size : Option Float :=
    match literal.exponent with
    | none => scale n power
    | some (negative, digits) =>
      let exponent : Int := decimalValue digits
      if exponentLimit < exponent then
        if n ≠ 0 ∧ !negative then none else some 0
      else scale n (clampExponent (if negative then power - exponent else power + exponent))
  size.map fun size => (if literal.negative then -size else size).toBits

/-- The value of a literal. Minus zero is a floating-point number. -/
def json? (literal : Literal) : Option Json :=
  let n := decimalValue literal.whole
  if literal.fraction.isNone && literal.exponent.isNone then
    if literal.negative then
      if 0 < n ∧ n ≤ 9223372036854775808 then some (.int (-(n : Int)))
      else literal.float?.map Json.float
    else if n ≤ limit then some (.int n)
    else literal.float?.map Json.float
  else literal.float?.map Json.float

end Literal

end LocaleLint.Json
