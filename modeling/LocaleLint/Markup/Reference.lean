import LocaleLint.Text.Digit
import LocaleLint.Text.Length

/-!
# References

Replaces the references of a text or of an attribute value: the five predefined
entities, and characters by their decimal or hexadecimal code. A text without an
ampersand is its own replacement.
-/

set_option autoImplicit false

namespace LocaleLint.Markup

open Text (byteLength)

/-- Why a reference cannot be replaced. The ranges are byte offsets into the text. -/
inductive ReferenceFault where
  | unterminated (start stop : Nat)
  | unknown (start stop : Nat) (name : List Char)
  | sign
  | noDigits
  | badDigit
  | tooLarge
  | zero
  | notScalar (code : Nat)
deriving DecidableEq, Repr

namespace Reference

/-- The value of a digit of the radix, which is ten or sixteen. -/
def digitValue? (radix : Nat) (c : Char) : Option Nat :=
  (Text.hexValue? c).filter (· < radix)

/-- Reads digits after those that give `value`. The number has to fit thirty-two bits, and
the first character that is no digit, or exceeds them, decides the fault. -/
def digits (radix value : Nat) : List Char → Except ReferenceFault Nat
  | [] => .ok value
  | c :: rest =>
    match digitValue? radix c with
    | none => .error .badDigit
    | some digit =>
      let next := value * radix + digit
      if next ≤ 4294967295 then digits radix next rest else .error .tooLarge

/-- Reads an unsigned number. -/
def number (radix : Nat) : List Char → Except ReferenceFault Nat
  | [] => .error .noDigits
  | c :: rest => if c = '+' ∨ c = '-' then .error .sign else digits radix 0 (c :: rest)

/-- The character with the given code. -/
def ofCode (code : Nat) : Except ReferenceFault Char :=
  if code = 0 then .error .zero
  else if code.isValidChar then .ok (Char.ofNat code)
  else .error (.notScalar code)

/-- The predefined entity of a name. -/
def entity? (name : List Char) : Option Char :=
  match name with
  | ['l', 't'] => some '<'
  | ['g', 't'] => some '>'
  | ['a', 'm', 'p'] => some '&'
  | ['a', 'p', 'o', 's'] => some '\''
  | ['q', 'u', 'o', 't'] => some '"'
  | _ => none

/-- The character that the reference `name` stands for; its name starts at the byte
offset `start`. -/
def resolve (start : Nat) (name : List Char) : Except ReferenceFault Char :=
  match name with
  | '#' :: 'x' :: hex => (number 16 hex).bind ofCode
  | '#' :: decimal => (number 10 decimal).bind ofCode
  | name =>
    match entity? name with
    | some c => .ok c
    | none => .error (.unknown start (start + byteLength name) name)

/-- Whether a reference goes on after `c`. -/
def continues (c : Char) : Bool :=
  c ≠ '&' && c ≠ ';'

/-- Replaces the references of `s`, which starts at the byte offset `start` of a text that
is `total` bytes long; `done` holds the characters before it, the latest first. -/
def replace (total start : Nat) (done : List Char) (s : List Char) :
    Except ReferenceFault (List Char) :=
  match s with
  | [] => .ok done.reverse
  | c :: s =>
    if c = '&' then
      let name := s.takeWhile continues
      match _h : s.dropWhile continues with
      | ';' :: rest =>
        match resolve (start + 1) name with
        | .ok c => replace total (start + 2 + byteLength name) (c :: done) rest
        | .error fault => .error fault
      | _ => .error (.unterminated start total)
    else replace total (start + c.utf8Size) (c :: done) s
termination_by s.length
decreasing_by
  · have hs := congrArg List.length (List.takeWhile_append_dropWhile (p := continues) (l := s))
    simp only [List.length_append, _h, List.length_cons] at hs ⊢
    omega
  · simp

/-- The text `s` with its references replaced. -/
def unescape (s : List Char) : Except ReferenceFault (List Char) :=
  replace (byteLength s) 0 [] s

end Reference

end LocaleLint.Markup
