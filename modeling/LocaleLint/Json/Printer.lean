import LocaleLint.Decimal.Layout
import LocaleLint.Json.Value
import LocaleLint.Text.Digit

/-!
# Writing JSON

Lays a value out over lines, two spaces deeper at each level. An empty array or object
stays on one line. Only quotation marks, backslashes and control characters are
escaped, so a text keeps its characters.
-/

set_option autoImplicit false

namespace LocaleLint.Json

/-- How a character is written inside a string. -/
def escapeChar (c : Char) : List Char :=
  if c = '"' then ['\\', '"']
  else if c = '\\' then ['\\', '\\']
  else if c = '\x08' then ['\\', 'b']
  else if c = '\x0c' then ['\\', 'f']
  else if c = '\n' then ['\\', 'n']
  else if c = '\r' then ['\\', 'r']
  else if c = '\t' then ['\\', 't']
  else if c.toNat < 0x20 then
    ['\\', 'u', '0', '0', Text.hexDigit (c.toNat / 16), Text.hexDigit (c.toNat % 16)]
  else [c]

/-- The text of a string, in quotation marks. -/
def quote (text : String) : String :=
  "\"" ++ String.ofList (text.toList.flatMap escapeChar) ++ "\""

/-- The break before a line at the given level. -/
def lineBreak (level : Nat) : String :=
  "\n" ++ String.ofList (List.replicate (2 * level) ' ')

mutual

/-- Appends a value to the text before it; its lines are at the given level. -/
def write (level : Nat) (before : String) : Json → String
  | .null => before ++ "null"
  | .bool value => before ++ (if value then "true" else "false")
  | .int value => before ++ toString value
  | .float bits => before ++ Decimal.Layout.report.text bits
  | .string value => before ++ quote value
  | .array [] => before ++ "[]"
  | .array (item :: rest) =>
    let first := write (level + 1) (before ++ "[" ++ lineBreak (level + 1)) item
    writeItems (level + 1) first rest ++ lineBreak level ++ "]"
  | .object [] => before ++ "\x7b\x7d"
  | .object ((key, value) :: rest) =>
    let first :=
      write (level + 1) (before ++ "\x7b" ++ lineBreak (level + 1) ++ quote key ++ ": ") value
    writeMembers (level + 1) first rest ++ lineBreak level ++ "\x7d"

/-- Appends the items that follow another. -/
def writeItems (level : Nat) (before : String) : List Json → String
  | [] => before
  | item :: rest =>
    writeItems level (write level (before ++ "," ++ lineBreak level) item) rest

/-- Appends the members that follow another. -/
def writeMembers (level : Nat) (before : String) : List (String × Json) → String
  | [] => before
  | (key, value) :: rest =>
    writeMembers level
      (write level (before ++ "," ++ lineBreak level ++ quote key ++ ": ") value) rest

end

/-- The text of a value over lines. -/
def pretty (value : Json) : String :=
  write 0 "" value

end LocaleLint.Json
