import LocaleLint.Entries

/-!
# JSON values

A JSON document as a value. An integer literal within sixty-four bits is an
integer; any other number is a binary floating-point number, kept as its sixty-four
bits so that values can be told apart. The members of an object stand in a list:
a writer chooses their order, and a reader sorts them by key.
-/

set_option autoImplicit false

namespace LocaleLint

/-- A JSON value. -/
inductive Json where
  | null
  | bool (value : Bool)
  | int (value : Int)
  | float (bits : UInt64)
  | string (value : String)
  | array (items : List Json)
  | object (members : List (String × Json))
deriving Inhabited, BEq, Repr

namespace Json

/-- The member of an object under `key`; any other value has none. -/
def member? (value : Json) (key : String) : Option Json :=
  match value with
  | .object members => Entries.get? members key
  | _ => none

/-- The text of a string; any other value has none. -/
def text? : Json → Option String
  | .string value => some value
  | _ => none

/-- Whether the value is null. -/
def isNull : Json → Bool
  | .null => true
  | _ => false

end Json

end LocaleLint
