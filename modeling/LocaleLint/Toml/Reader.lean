import LocaleLint.Text.Blank
import LocaleLint.Toml.Quoted
import LocaleLint.Toml.Scalar

/-!
# Reading TOML

Reads a document line by line: a header opens a table, and a key with a value is stored
in the table that is open. Arrays and tables in braces may go over several lines, with
comments and a comma after the last item. Every step takes up characters, so the length
of the text bounds their number.
-/

set_option autoImplicit false

namespace LocaleLint.Toml

namespace Reader

/-- Drops spaces and tabs. -/
def dropBlank (s : List Char) : List Char :=
  s.dropWhile fun c => c = ' ' || c = '\t'

/-- Drops the comment that a text starts with, up to the line break. A comment holds no
control characters; a carriage return only belongs to the break. -/
def dropComment? (s : List Char) : Option (List Char) :=
  match s with
  | '#' :: rest =>
    let rest := rest.dropWhile fun c => !Quoted.isControl c
    if rest.isEmpty || (Quoted.lineBreak? rest).isSome then some rest else none
  | s => some s

/-- Drops the rest of a line that has nothing more to say, with its break. -/
def endLine? (s : List Char) : Option (List Char) :=
  (dropComment? (dropBlank s)).bind fun rest =>
    if rest.isEmpty then some [] else Quoted.lineBreak? rest

/-- Drops blanks, line breaks and comments. -/
def dropSpace? : Nat → List Char → Option (List Char)
  | 0, s => some s
  | fuel + 1, s =>
    (dropComment? (dropBlank s)).bind fun rest =>
      match Quoted.lineBreak? rest with
      | some rest => dropSpace? fuel rest
      | none => some rest

/-- A character of a key without quotation marks. -/
def inKey (c : Char) : Bool :=
  c.isAlphanum || c = '_' || c = '-'

/-- One part of a key, and the rest. -/
def keyPart? (s : List Char) : Option (String × List Char) :=
  match s with
  | [] => none
  | c :: rest =>
    if c = '"' ∨ c = '\'' then
      (Quoted.oneLine c (s.length + 1) [] rest).map fun (key, rest) => (String.ofList key, rest)
    else
      let key := s.takeWhile inKey
      if key.isEmpty then none else some (String.ofList key, s.dropWhile inKey)

/-- A key with its parts, and the rest; the parts before the last stand apart. -/
def key? : Nat → List String → List Char → Option (List String × String × List Char)
  | 0, _, _ => none
  | fuel + 1, parts, s =>
    (keyPart? (dropBlank s)).bind fun (part, rest) =>
      match dropBlank rest with
      | '.' :: rest => key? fuel (part :: parts) rest
      | rest => some (parts.reverse, part, rest)

/-- How deep arrays and tables in braces may nest. -/
def depthLimit : Nat := 80

mutual

/-- A value, and the rest, inside `depth` arrays and tables. -/
def value? (fuel depth : Nat) (s : List Char) : Option (Toml × List Char) :=
  match fuel with
  | 0 => none
  | fuel + 1 =>
    match s with
    | [] => none
    | c :: rest =>
      if c = '"' ∨ c = '\'' then
        (Quoted.string? c s).map fun (text, rest) => (.string (String.ofList text), rest)
      else if c = '[' then
        if depth < depthLimit then items? fuel (depth + 1) [] rest else none
      else if c = '{' then
        if depth < depthLimit then entries? fuel (depth + 1) ⟨.inline, []⟩ rest else none
      else
        let (literal, rest) := Scalar.split s
        (Scalar.parse? literal).map fun value => (value, rest)

/-- The items of an array up to its closing bracket, after the items `done`, the latest first. -/
def items? (fuel depth : Nat) (done : List Toml) (s : List Char) : Option (Toml × List Char) :=
  match fuel with
  | 0 => none
  | fuel + 1 =>
    match dropSpace? s.length s with
    | some (']' :: rest) => some (.array false done.reverse, rest)
    | some s =>
      match value? fuel depth s with
      | none => none
      | some (item, rest) =>
        match dropSpace? rest.length rest with
        | some (',' :: rest) => items? fuel depth (item :: done) rest
        | some (']' :: rest) => some (.array false (item :: done).reverse, rest)
        | _ => none
    | none => none

/-- The entries of a table in braces up to its closing brace, added to the table `base`. -/
def entries? (fuel depth : Nat) (base : Table) (s : List Char) : Option (Toml × List Char) :=
  match fuel with
  | 0 => none
  | fuel + 1 =>
    match dropSpace? s.length s with
    | some ('}' :: rest) => some (base.toml, rest)
    | some s =>
      match key? (s.length + 1) [] s with
      | some (path, key, '=' :: rest) =>
        match value? fuel depth (dropBlank rest) with
        | none => none
        | some (value, rest) =>
          match base.assign path key value, dropSpace? rest.length rest with
          | some base, some (',' :: rest) => entries? fuel depth base rest
          | some base, some ('}' :: rest) => some (base.toml, rest)
          | _, _ => none
      | _ => none
    | none => none

end

/-- What has been read of a document: its tables, and the header of the open one. -/
structure Reading where
  root : Table := ⟨.header, []⟩
  header : List String := []
deriving BEq, Repr

/-- The key of a header, whose brackets may have blanks inside, and the rest after them. -/
def header? (closing : List Char) (s : List Char) :
    Option (List String × String × List Char) :=
  (key? (s.length + 1) [] s).bind fun (path, key, rest) =>
    if closing.isPrefixOf rest then some (path, key, rest.drop closing.length) else none

/-- Reads one line that is not empty. -/
def line? (reading : Reading) (s : List Char) : Option (Reading × List Char) :=
  match s with
  | '[' :: '[' :: rest =>
    (header? [']', ']'] rest).bind fun (path, key, rest) =>
      (reading.root.openItem path key).bind fun root =>
        (endLine? rest).map fun rest => (⟨root, path ++ [key]⟩, rest)
  | '[' :: rest =>
    (header? [']'] rest).bind fun (path, key, rest) =>
      (reading.root.openTable path key).bind fun root =>
        (endLine? rest).map fun rest => (⟨root, path ++ [key]⟩, rest)
  | s =>
    match key? (s.length + 1) [] s with
    | some (path, key, '=' :: rest) =>
      (value? (rest.length + 1) 0 (dropBlank rest)).bind fun (value, rest) =>
        (Table.alter false (·.assign path key value) reading.header reading.root).bind fun root =>
          (endLine? rest).map fun rest => (⟨root, reading.header⟩, rest)
    | _ => none

/-- Reads the lines of a text. -/
def lines? : Nat → Reading → List Char → Option Reading
  | 0, _, _ => none
  | fuel + 1, reading, s =>
    match dropSpace? s.length s with
    | none => none
    | some [] => some reading
    | some s => (line? reading s).bind fun (reading, rest) => lines? fuel reading rest

end Reader

/-- The entries of the document that a text spells; a byte order mark at its start counts
for nothing. -/
def parse? (text : String) : Option (List (String × Toml)) :=
  let s := match text.toList with
    | c :: rest => if c = Text.byteOrderMark then rest else c :: rest
    | [] => []
  (Reader.lines? (s.length + 1) {} s).map (·.root.entries)

end LocaleLint.Toml
