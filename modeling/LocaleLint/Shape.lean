import LocaleLint.Text.Quoted

/-!
# Shape faults

What can be wrong with a value that is well formed as data, but is not of the shape
that a reader asks for: a value of another kind, a number out of range, a field that is
unknown or missing, a name that is no variant, a list of another length.
-/

set_option autoImplicit false

namespace LocaleLint

/-- The kind of a value, as a fault names it. A number is given by its text. -/
inductive Kind where
  | null
  | boolean (value : Bool)
  | integer (value : Int)
  | float (text : String)
  | string (value : String)
  | sequence
  | map
deriving DecidableEq, Repr

/-- Why a value does not have the expected shape. -/
inductive ShapeFault where
  | invalidType (found : Kind) (expected : String)
  | invalidValue (found : Kind) (expected : String)
  | unknownField (name : String) (expected : List String)
  | unknownVariant (name : String) (expected : List String)
  | missingField (name : String)
  | invalidLength (length : Nat) (expected : String)
  | other (reason : String)
deriving DecidableEq, Repr

namespace Kind

/-- The words for a kind of value. -/
def words : Kind → String
  | .null => "null"
  | .boolean value => "boolean `" ++ toString value ++ "`"
  | .integer value => "integer `" ++ toString value ++ "`"
  | .float text => "floating point `" ++ text ++ "`"
  | .string value => "string " ++ Text.quoted value
  | .sequence => "sequence"
  | .map => "map"

end Kind

namespace ShapeFault

/-- A name in the marks that set it off. -/
def marked (name : String) : String :=
  "`" ++ name ++ "`"

/-- The names of which one is expected. -/
def oneOf (names : List String) : String :=
  match names with
  | [name] => marked name
  | names => "one of " ++ ", ".intercalate (names.map marked)

/-- What is said about a fault of shape. -/
def message : ShapeFault → String
  | .invalidType found expected => "invalid type: " ++ found.words ++ ", expected " ++ expected
  | .invalidValue found expected => "invalid value: " ++ found.words ++ ", expected " ++ expected
  | .unknownField name expected =>
    "unknown field " ++ marked name ++ ", expected " ++ oneOf expected
  | .unknownVariant name expected =>
    "unknown variant " ++ marked name ++ ", expected " ++ oneOf expected
  | .missingField name => "missing field " ++ marked name
  | .invalidLength length expected =>
    "invalid length " ++ toString length ++ ", expected " ++ expected
  | .other reason => reason

end ShapeFault

end LocaleLint
