import LocaleLint.Text.Digit

/-!
# TOML strings

Strings in single and in double quotation marks, on one line or over several. Only
double marks have escapes. A string over several lines drops a line break right after
its opening marks, and a backslash at the end of a line drops what is blank after it.
-/

set_option autoImplicit false

namespace LocaleLint.Toml.Quoted

/-- A character that no string and no comment may hold. -/
def isControl (c : Char) : Bool :=
  (c.toNat < 0x20 && c ≠ '\t') || c = '\x7f'

/-- A line break at the front of a text, and the rest. -/
def lineBreak? : List Char → Option (List Char)
  | '\n' :: rest => some rest
  | '\r' :: '\n' :: rest => some rest
  | _ => none

/-- The number that exactly `count` hexadecimal digits spell, and the rest. -/
def hex? (count : Nat) (s : List Char) : Option (Nat × List Char) :=
  let digits := s.take count
  if digits.length = count ∧ digits.all fun c => (Text.hexValue? c).isSome then
    some (digits.foldl (fun n c => n * 16 + (Text.hexValue? c).getD 0) 0, s.drop count)
  else none

/-- The character of a code, and the rest. -/
def scalar? : Nat × List Char → Option (Char × List Char)
  | (code, rest) => if code.isValidChar then some (Char.ofNat code, rest) else none

/-- The escapes of one letter, with the characters they stand for. -/
def shortEscapes : List (Char × Char) :=
  [('b', '\x08'), ('t', '\t'), ('n', '\n'), ('f', '\x0c'), ('r', '\r'), ('e', '\x1b'), ('"', '"'),
    ('\\', '\\')]

/-- The character that the escape after a backslash spells, and the rest. -/
def escape? : List Char → Option (Char × List Char)
  | [] => none
  | c :: rest =>
    if c = 'x' then (hex? 2 rest).bind scalar?
    else if c = 'u' then (hex? 4 rest).bind scalar?
    else if c = 'U' then (hex? 8 rest).bind scalar?
    else (shortEscapes.lookup c).map fun meaning => (meaning, rest)

/-- Reads a string on one line up to its closing mark; `done` holds the characters before,
the latest first. -/
def oneLine (mark : Char) : Nat → List Char → List Char → Option (List Char × List Char)
  | 0, _, _ => none
  | _ + 1, _, [] => none
  | fuel + 1, done, c :: rest =>
    if c = mark then some (done.reverse, rest)
    else if isControl c then none
    else if c = '\\' ∧ mark = '"' then
      (escape? rest).bind fun (c, rest) => oneLine mark fuel (c :: done) rest
    else oneLine mark fuel (c :: done) rest

/-- Drops what is blank, over line breaks too. -/
def dropBlankLines : Nat → List Char → List Char
  | 0, s => s
  | fuel + 1, s =>
    let rest := s.dropWhile fun c => c = ' ' || c = '\t'
    match lineBreak? rest with
    | some rest => dropBlankLines fuel rest
    | none => rest

/-- Drops the blanks after a backslash at the end of a line, if it is one. -/
def continued? (s : List Char) : Option (List Char) :=
  (lineBreak? (s.dropWhile fun c => c = ' ' || c = '\t')).map fun rest =>
    dropBlankLines rest.length rest

/-- Reads a string over several lines up to its three closing marks, which up to two more
marks of the string itself may precede. -/
def manyLines (mark : Char) : Nat → List Char → List Char → Option (List Char × List Char)
  | 0, _, _ => none
  | _ + 1, _, [] => none
  | fuel + 1, done, c :: rest =>
    if [mark, mark, mark].isPrefixOf (c :: rest) then
      let marks := ((c :: rest).takeWhile (· = mark)).length
      if marks ≤ 5 then
        some ((List.replicate (marks - 3) mark ++ done).reverse, (c :: rest).drop marks)
      else none
    else
      match lineBreak? (c :: rest) with
      | some rest => manyLines mark fuel ('\n' :: done) rest
      | none =>
        if isControl c then none
        else if c = '\\' ∧ mark = '"' then
          match continued? rest with
          | some rest => manyLines mark fuel done rest
          | none => (escape? rest).bind fun (c, rest) => manyLines mark fuel (c :: done) rest
        else manyLines mark fuel (c :: done) rest

/-- The string at the front of a text that starts with a mark, and the rest. -/
def string? (mark : Char) (s : List Char) : Option (List Char × List Char) :=
  if [mark, mark, mark].isPrefixOf s then
    let body := s.drop 3
    let body := (lineBreak? body).getD body
    manyLines mark (body.length + 1) [] body
  else oneLine mark (s.length + 1) [] (s.drop 1)

end LocaleLint.Toml.Quoted
