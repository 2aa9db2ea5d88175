import LocaleLint.Count

/-!
# Lines and columns

Turns a byte offset into a line and a column. Both are counted from one, columns
in characters, and both stop at the limit of a counter. An offset inside a
character counts that character, and an offset past the end is the end.
-/

set_option autoImplicit false

namespace LocaleLint.Markup

/-- A place in a text. -/
structure Position where
  line : Count
  column : Count
deriving DecidableEq, Repr

namespace Position

/-- Walks over the characters that start before the offset, from a line and column. -/
def walk (line column : Nat) (offset : Nat) : List Char → Nat × Nat
  | [] => (line, column)
  | c :: rest =>
    if offset = 0 then (line, column)
    else if c = '\n' then walk (line + 1) 1 (offset - c.utf8Size) rest
    else walk line (column + 1) (offset - c.utf8Size) rest

/-- The place at a byte offset of the text. -/
def ofOffset (text : List Char) (offset : Nat) : Position :=
  let place := walk 1 1 offset text
  ⟨Count.ofNat place.1, Count.ofNat place.2⟩

end Position

end LocaleLint.Markup
