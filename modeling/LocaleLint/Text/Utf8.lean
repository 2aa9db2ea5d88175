/-!
# Reading UTF-8

Decodes bytes as UTF-8. At the first ill-formed place the fault gives the byte at
which it starts and the length of its longest part that could begin a character, or
says that the bytes end inside one.
-/

set_option autoImplicit false

namespace LocaleLint.Text.Utf8

/-- Where bytes stop being UTF-8. Without a length, they end within a character. -/
structure Fault where
  index : Nat
  length : Option Nat
deriving DecidableEq, Repr

namespace Fault

/-- What is said about bytes that are not UTF-8. -/
def message (fault : Fault) : String :=
  match fault.length with
  | some length =>
    "invalid utf-8 sequence of " ++ toString length ++ " bytes from index " ++ toString fault.index
  | none => "incomplete utf-8 byte sequence from index " ++ toString fault.index

end Fault

/-- How a character that starts with a byte goes on: the number of bytes after the first,
the least and the greatest second byte, and the bits of the first byte that count. -/
structure Lead where
  more : Nat
  low : UInt8
  high : UInt8
  bits : Nat
deriving DecidableEq, Repr

/-- The form of a character that starts with the byte `b` and has more bytes. The bounds on
the second byte leave out overlong forms, surrogates, and what is past the last character. -/
def lead? (b : UInt8) : Option Lead :=
  if b < 0xC2 then none
  else if b < 0xE0 then some ⟨1, 0x80, 0xBF, b.toNat % 32⟩
  else if b < 0xF0 then
    some ⟨2, if b = 0xE0 then 0xA0 else 0x80, if b = 0xED then 0x9F else 0xBF, b.toNat % 16⟩
  else if b < 0xF5 then
    some ⟨3, if b = 0xF0 then 0x90 else 0x80, if b = 0xF4 then 0x8F else 0xBF, b.toNat % 8⟩
  else none

/-- Reads `more` bytes of a character of which `read` bytes are read; the next has to lie
between `low` and `high`, and later ones among the continuation bytes. Gives the code, or
the length of what is ill-formed. -/
def follow (more read : Nat) (low high : UInt8) (code : Nat) :
    List UInt8 → Except (Option Nat) Nat
  | [] => if more = 0 then .ok code else .error none
  | b :: rest =>
    match more with
    | 0 => .ok code
    | more + 1 =>
      if low ≤ b ∧ b ≤ high then
        follow more (read + 1) 0x80 0xBF (code * 64 + b.toNat % 64) rest
      else .error (some read)

/-- Reads the characters of `bytes`, the first of which has the index `index`; `done` holds
the characters before it, the latest first. -/
def decodeFrom (index : Nat) (done : List Char) (bytes : List UInt8) :
    Except Fault (List Char) :=
  match bytes with
  | [] => .ok done.reverse
  | b :: rest =>
    if b < 0x80 then decodeFrom (index + 1) (Char.ofNat b.toNat :: done) rest
    else
      match lead? b with
      | none => .error ⟨index, some 1⟩
      | some lead =>
        match follow lead.more 1 lead.low lead.high lead.bits rest with
        | .ok code =>
          decodeFrom (index + 1 + lead.more) (Char.ofNat code :: done) (rest.drop lead.more)
        | .error length => .error ⟨index, length⟩
termination_by bytes.length
decreasing_by
  · simp
  · simp only [List.length_drop, List.length_cons]
    omega

/-- The characters that `bytes` spell. -/
def decode (bytes : List UInt8) : Except Fault (List Char) :=
  decodeFrom 0 [] bytes

end LocaleLint.Text.Utf8
