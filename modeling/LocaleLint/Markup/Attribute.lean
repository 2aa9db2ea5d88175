import LocaleLint.Markup.Event
import LocaleLint.Markup.Reference

/-!
# Attributes

Reads the attributes of a tag from left to right. A key runs to the first equals
sign or blank after its first character, a value stands in quotation marks, and no
key occurs twice. Offsets are counted in bytes from the start of the tag's name.
-/

set_option autoImplicit false

namespace LocaleLint.Markup

open Text (byteLength)

/-- Why the attributes of a tag cannot be read. -/
inductive AttributeFault where
  | noEquals (offset : Nat)
  | noValue (offset : Nat)
  | unquoted (offset : Nat)
  | unclosedQuote (offset : Nat) (quote : Char)
  | duplicate (offset earlier : Nat)
  | inReference (fault : ReferenceFault)
deriving DecidableEq, Repr

/-- An attribute with its value replaced. -/
structure Attribute where
  key : List Char
  value : List Char
deriving DecidableEq, Repr

namespace Attribute

/-- Drops the blanks at the front of a text, and moves the offset past them. -/
def skipBlanks (offset : Nat) (s : List Char) : Nat × List Char :=
  (offset + byteLength (s.takeWhile Text.isMarkupBlank), s.dropWhile Text.isMarkupBlank)

/-- Whether a key goes on with `c`. -/
def inKey (c : Char) : Bool :=
  c ≠ '=' && !Text.isMarkupBlank c

/-- A value in quotation marks, at the byte offset `offset`: the value as it is written,
the offset after it and the rest. -/
def quoted (offset : Nat) : List Char → Except AttributeFault (List Char × Nat × List Char)
  | [] => .error (.noValue offset)
  | c :: s =>
    if c = '"' ∨ c = '\'' then
      let value := s.takeWhile (· ≠ c)
      match s.dropWhile (· ≠ c) with
      | [] => .error (.unclosedQuote (offset + 1 + byteLength value) c)
      | _ :: rest => .ok (value, offset + 2 + byteLength value, rest)
    else .error (.unquoted offset)

/-- What follows the equals sign after a key that ends at the byte offset `offset`. -/
def afterEquals (offset : Nat) (s : List Char) : Except AttributeFault (Nat × List Char) :=
  match skipBlanks offset s with
  | (offset, '=' :: rest) => .ok (skipBlanks (offset + 1) rest)
  | (offset, _) => .error (.noEquals offset)

/-- The offset at which an earlier attribute with the key starts. -/
def earlier? (seen : List (List Char × Nat)) (key : List Char) : Option Nat :=
  seen.lookup key

/-- An attribute read from the front of a text: its offset, its key, its value as it is
written, and what follows. -/
structure Cut where
  start : Nat
  key : List Char
  raw : List Char
  stop : Nat
  rest : List Char
deriving DecidableEq, Repr

/-- Reads the attribute that starts with `c` at the byte offset `start`. The keys before it
are in `seen`, with their offsets. -/
def cut (seen : List (List Char × Nat)) (start : Nat) (c : Char) (s : List Char) :
    Except AttributeFault Cut :=
  let key := c :: s.takeWhile inKey
  match afterEquals (start + byteLength key) (s.dropWhile inKey) with
  | .error fault => .error fault
  | .ok (offset, s) =>
    match earlier? seen key with
    | some earlier => .error (.duplicate start earlier)
    | none =>
      match quoted offset s with
      | .error fault => .error fault
      | .ok (raw, stop, rest) => .ok ⟨start, key, raw, stop, rest⟩

/-- Dropping characters in front never lengthens a text. -/
theorem length_dropWhile_le (p : Char → Bool) (s : List Char) :
    (s.dropWhile p).length ≤ s.length :=
  (List.dropWhile_sublist p).length_le

/-- Reading a quoted value never lengthens what is left to read. -/
theorem length_le_of_quoted {offset stop : Nat} {s raw rest : List Char}
    (h : quoted offset s = .ok (raw, stop, rest)) : rest.length ≤ s.length := by
  unfold quoted at h
  split at h
  · cases h
  · next c s =>
    split at h
    · split at h
      · cases h
      · next tail hd =>
        cases h
        have := length_dropWhile_le (· ≠ c) s
        rw [hd] at this
        simp only [List.length_cons] at this ⊢
        omega
    · cases h

/-- Reading what stands behind an equals sign never lengthens what is left to read. -/
theorem length_le_of_afterEquals {offset stop : Nat} {s rest : List Char}
    (h : afterEquals offset s = .ok (stop, rest)) : rest.length ≤ s.length := by
  unfold afterEquals at h
  split at h
  · next offset' tail hs =>
    simp only [skipBlanks, Prod.mk.injEq] at hs
    simp only [skipBlanks, Except.ok.injEq, Prod.mk.injEq] at h
    obtain ⟨_, rfl⟩ := h
    have h₁ := length_dropWhile_le Text.isMarkupBlank s
    have h₂ := length_dropWhile_le Text.isMarkupBlank tail
    rw [hs.2] at h₁
    simp only [List.length_cons] at h₁
    omega
  · cases h

/-- Cutting off an attribute never lengthens what is left of the tag. -/
theorem length_le_of_cut {seen : List (List Char × Nat)} {start : Nat} {c : Char} {s : List Char}
    {result : Cut} (h : cut seen start c s = .ok result) : result.rest.length ≤ s.length := by
  simp only [cut] at h
  split at h
  · cases h
  · next offset s' he =>
    split at h
    · cases h
    · split at h
      · cases h
      · next raw stop rest hq =>
        cases h
        exact Nat.le_trans (length_le_of_quoted hq)
          (Nat.le_trans (length_le_of_afterEquals he) (length_dropWhile_le _ _))

/-- Reads the attributes of the text `s`, which starts at the byte offset `start`. The keys
before it are in `seen`, and the attributes before it in `found`, the latest first. -/
def readAll (seen : List (List Char × Nat)) (found : List Attribute) (start : Nat)
    (s : List Char) : Except AttributeFault (List Attribute) :=
  match _hs : skipBlanks start s with
  | (_, []) => .ok found.reverse
  | (start, c :: rest) =>
    match _hc : cut seen start c rest with
    | .error fault => .error fault
    | .ok result =>
      match Reference.unescape result.raw with
      | .error fault => .error (.inReference fault)
      | .ok value =>
        readAll ((result.key, start) :: seen) (⟨result.key, value⟩ :: found) result.stop result.rest
termination_by s.length
decreasing_by
  have h₁ := length_le_of_cut _hc
  have h₂ := length_dropWhile_le Text.isMarkupBlank s
  simp only [skipBlanks, Prod.mk.injEq] at _hs
  rw [_hs.2] at h₂
  simp only [List.length_cons] at h₂
  omega

/-- The attributes of a tag. -/
def ofTag (tag : Tag) : Except AttributeFault (List Attribute) :=
  readAll [] [] (byteLength tag.name) tag.attributes

end Attribute

end LocaleLint.Markup
