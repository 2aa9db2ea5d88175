import LocaleLint.Json.Number
import LocaleLint.Text.Digit

/-!
# JSON tokens

The lexical pieces of a JSON text: brackets, separators and scalars. Strings hold no
control characters, and an escaped surrogate has to be half of a pair.
-/

set_option autoImplicit false

namespace LocaleLint.Json

/-- A lexical piece of a JSON text. -/
inductive Token where
  | arrayStart
  | arrayEnd
  | objectStart
  | objectEnd
  | colon
  | comma
  | scalar (value : Json)
deriving BEq, Repr

namespace Token

/-- The blanks between tokens. -/
def isBlank (c : Char) : Bool :=
  c = ' ' || c = '\n' || c = '\t' || c = '\r'

/-- The code unit that four hexadecimal digits spell, and what follows them. -/
def hexUnit? : List Char → Option (Nat × List Char)
  | a :: b :: c :: d :: rest => do
    let a ← Text.hexValue? a
    let b ← Text.hexValue? b
    let c ← Text.hexValue? c
    let d ← Text.hexValue? d
    pure (((a * 16 + b) * 16 + c) * 16 + d, rest)
  | _ => none

/-- The character of a code unit, which the second unit of a pair may complete. -/
def unicodeEscape (s : List Char) : Option (Char × List Char) :=
  match hexUnit? s with
  | none => none
  | some (unit, rest) =>
    if unit < 0xD800 ∨ 0xDFFF < unit then some (Char.ofNat unit, rest)
    else if 0xDC00 ≤ unit then none
    else match rest with
      | '\\' :: 'u' :: rest =>
        match hexUnit? rest with
        | some (low, rest) =>
          if 0xDC00 ≤ low ∧ low ≤ 0xDFFF then
            some (Char.ofNat (0x10000 + (unit - 0xD800) * 0x400 + (low - 0xDC00)), rest)
          else none
        | none => none
      | _ => none

/-- The escapes of one letter, with the characters they stand for. -/
def shortEscapes : List (Char × Char) :=
  [('"', '"'), ('\\', '\\'), ('/', '/'), ('b', '\x08'), ('f', '\x0c'), ('n', '\n'), ('r', '\r'),
    ('t', '\t')]

/-- The character that the escape after a backslash spells, and what follows it. -/
def escape : List Char → Option (Char × List Char)
  | [] => none
  | c :: rest =>
    if c = 'u' then unicodeEscape rest
    else (shortEscapes.lookup c).map fun meaning => (meaning, rest)

/-- Reading four hexadecimal digits leaves less to read. -/
theorem length_lt_of_hexUnit? {s rest : List Char} {unit : Nat}
    (h : hexUnit? s = some (unit, rest)) : rest.length < s.length := by
  unfold hexUnit? at h
  split at h
  · simp only [Option.bind_eq_bind, Option.bind_eq_some_iff] at h
    obtain ⟨_, _, _, _, _, _, _, _, h⟩ := h
    cases h
    simp only [List.length_cons]
    omega
  · cases h

/-- Reading a code unit, or a pair of them, leaves less to read. -/
theorem length_lt_of_unicodeEscape {s rest : List Char} {c : Char}
    (h : unicodeEscape s = some (c, rest)) : rest.length < s.length := by
  unfold unicodeEscape at h
  split at h
  · cases h
  next unit after hu =>
  have h₁ := length_lt_of_hexUnit? hu
  split at h
  · simp only [Option.some.injEq, Prod.mk.injEq] at h
    obtain ⟨_, rfl⟩ := h
    exact h₁
  split at h
  · cases h
  split at h
  · split at h
    · next low rest' hl =>
      have h₂ := length_lt_of_hexUnit? hl
      split at h
      · simp only [Option.some.injEq, Prod.mk.injEq] at h
        obtain ⟨_, rfl⟩ := h
        simp only [List.length_cons] at h₁ h₂ ⊢
        omega
      · cases h
    · cases h
  · cases h

/-- Reading an escape leaves less to read, so the string around it is read to its end. -/
theorem length_lt_of_escape {s rest : List Char} {c : Char}
    (h : escape s = some (c, rest)) : rest.length < s.length := by
  unfold escape at h
  split at h
  · cases h
  · split at h
    · have := length_lt_of_unicodeEscape h
      simp only [List.length_cons]
      omega
    · obtain ⟨_, _, h⟩ := Option.map_eq_some_iff.1 h
      cases h
      simp

/-- Reads a string up to its closing quotation mark; `done` holds the characters before, the
latest first. -/
def readString (done : List Char) (s : List Char) : Option (List Char × List Char) :=
  match s with
  | [] => none
  | c :: rest =>
    if c = '"' then some (done.reverse, rest)
    else if c = '\\' then
      match _h : escape rest with
      | some (c, rest) => readString (c :: done) rest
      | none => none
    else if c.toNat < 0x20 then none
    else readString (c :: done) rest
termination_by s.length
decreasing_by
  · have := length_lt_of_escape _h
    simp only [List.length_cons]
    omega
  · simp

/-- The scalar that a word names. -/
def word (name : List Char) (value : Json) (s : List Char) : Option (Token × List Char) :=
  if name.isPrefixOf s then some (.scalar value, s.drop name.length) else none

/-- The brackets and separators. -/
def marks : List (Char × Token) :=
  [('[', .arrayStart), (']', .arrayEnd), ('{', .objectStart), ('}', .objectEnd), (':', .colon),
    (',', .comma)]

/-- The scalar that starts with `c`, and what follows it. -/
def nextScalar (c : Char) (s : List Char) : Option (Token × List Char) :=
  if c = '"' then
    (readString [] s).map fun (text, rest) => (.scalar (.string (String.ofList text)), rest)
  else if c = 'n' then word ['u', 'l', 'l'] .null s
  else if c = 't' then word ['r', 'u', 'e'] (.bool true) s
  else if c = 'f' then word ['a', 'l', 's', 'e'] (.bool false) s
  else
    (Literal.split (c :: s)).bind fun (literal, rest) =>
      literal.json?.map fun value => (.scalar value, rest)

/-- The token that starts with `c`, and what follows it. -/
def next (c : Char) (s : List Char) : Option (Token × List Char) :=
  match marks.lookup c with
  | some token => some (token, s)
  | none => nextScalar c s

/-- Reading a string never lengthens what is left to read. -/
theorem length_le_of_readString {done s text rest : List Char}
    (h : readString done s = some (text, rest)) : rest.length ≤ s.length := by
  fun_induction readString done s with
  | case1 => cases h
  | case2 => cases h; simp
  | case3 _ _ _ _ he _ ih =>
    have h₁ := ih h
    have h₂ := length_lt_of_escape he
    simp only [List.length_cons]
    omega
  | case4 => cases h
  | case5 => cases h
  | case6 _ _ _ _ _ _ ih =>
    have h₁ := ih h
    simp only [List.length_cons]
    omega

/-- Reading one of the words of the language never lengthens what is left to read. -/
theorem length_le_of_word {name s rest : List Char} {value : Json} {token : Token}
    (h : word name value s = some (token, rest)) : rest.length ≤ s.length := by
  unfold word at h
  split at h
  · cases h
    simp
  · cases h

/-- Reading a scalar never lengthens what stands behind its first character. -/
theorem length_le_of_nextScalar {c : Char} {s rest : List Char} {token : Token}
    (h : nextScalar c s = some (token, rest)) : rest.length ≤ s.length := by
  unfold nextScalar at h
  split at h
  · obtain ⟨⟨text, rest'⟩, hr, h⟩ := Option.map_eq_some_iff.1 h
    cases h
    exact length_le_of_readString hr
  split at h
  · exact length_le_of_word h
  split at h
  · exact length_le_of_word h
  split at h
  · exact length_le_of_word h
  · obtain ⟨⟨literal, rest'⟩, hl, h⟩ := Option.bind_eq_some_iff.1 h
    obtain ⟨value, _, h⟩ := Option.map_eq_some_iff.1 h
    cases h
    have := Literal.length_lt_of_split hl
    simp only [List.length_cons] at this
    omega

/-- Every token takes up its first character. -/
theorem length_le_of_next {c : Char} {s rest : List Char} {token : Token}
    (h : next c s = some (token, rest)) : rest.length ≤ s.length := by
  unfold next at h
  split at h
  · cases h
    exact Nat.le_refl _
  · exact length_le_of_nextScalar h

/-- Reads the tokens of the text `s`; `found` holds the tokens before it, the latest first. -/
def readAll (found : List Token) (s : List Char) : Option (List Token) :=
  match s with
  | [] => some found.reverse
  | c :: s =>
    if isBlank c then readAll found s
    else
      match _h : next c s with
      | none => none
      | some (token, rest) => readAll (token :: found) rest
termination_by s.length
decreasing_by
  · simp
  · have := length_le_of_next _h
    simp only [List.length_cons]
    omega

/-- The tokens of a text. -/
def ofText (s : List Char) : Option (List Token) :=
  readAll [] s

end Token

end LocaleLint.Json
