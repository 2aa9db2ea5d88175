import LocaleLint.Count
import LocaleLint.Decimal.Layout
import LocaleLint.Json.Value
import LocaleLint.Shape

/-!
# The shape of JSON values

Readers for values of an expected shape. A structure may be given as an object or as the
array of its fields. The members of an object are checked in their order, then the fields
that are missing are found in the order of the structure. A name out of a list may also be
given as the only key of an object, with null as its value.
-/

set_option autoImplicit false

namespace LocaleLint.Json

/-- A reader for values of some shape. -/
abbrev Shape (α : Type) : Type := Json → Except ShapeFault α

/-- The kind of a value. -/
def kind : Json → Kind
  | .null => .null
  | .bool value => .boolean value
  | .int value => .integer value
  | .float bits => .float (Decimal.Layout.report.text bits)
  | .string value => .string value
  | .array _ => .sequence
  | .object _ => .map

/-- A value of another kind than the expected one. -/
def mistyped {α : Type} (value : Json) (expected : String) : Except ShapeFault α :=
  .error (.invalidType value.kind expected)

namespace Shape

/-- Any value. -/
def any : Shape Json := .ok

/-- A string. -/
def string : Shape String
  | .string value => .ok value
  | value => mistyped value "a string"

/-- A counter. -/
def count : Shape Count
  | .int value =>
    match (if 0 ≤ value then Count.ofNat? value.toNat else none) with
    | some n => .ok n
    | none => .error (.invalidValue (.integer value) "u32")
  | value => mistyped value "u32"

/-- A list of values of one shape. -/
def list {α : Type} (item : Shape α) : Shape (List α)
  | .array items => items.mapM item
  | value => mistyped value "a sequence"

/-- A value that may be null. -/
def nullable {α : Type} (shape : Shape α) : Shape (Option α)
  | .null => .ok none
  | value => (shape value).map some

/-- A name out of a list of names with their meanings. -/
def variant {α : Type} (names : List (String × α)) (name : String) : Except ShapeFault α :=
  match names.lookup name with
  | some meaning => .ok meaning
  | none => .error (.unknownVariant name (names.map (·.1)))

/-- A name out of a list, by itself or as the only key of an object. -/
def oneOf {α : Type} (names : List (String × α)) : Shape α
  | .string name => variant names name
  | .object [(name, value)] => do
    let meaning ← variant names name
    if value.isNull then pure meaning else mistyped value "unit"
  | .object _ => .error (.invalidValue .map "map with a single key")
  | value => mistyped value "string or map"

/-- Checks that a value has a shape. -/
def check {α : Type} (shape : Shape α) : Shape Unit :=
  fun value => (shape value).map fun _ => ()

end Shape

/-- The fields of a structure, by name or by position. Those by position come with what is
said when one is missing. -/
inductive Fields where
  | named (members : List (String × Json))
  | listed (items : List Json) (expected : String)
deriving BEq, Repr

namespace Fields

/-- The value of the field at a position, if it is given. -/
def find? : Fields → Nat → String → Option Json
  | .named members, _, name => members.lookup name
  | .listed items _, position, _ => items[position]?

/-- The fault that a field is missing. -/
def missing : Fields → Nat → String → ShapeFault
  | .named _, _, name => .missingField name
  | .listed _ expected, position, _ => .invalidLength position expected

/-- Reads a field that has to be given. -/
def required {α : Type} (fields : Fields) (position : Nat) (name : String) (shape : Shape α) :
    Except ShapeFault α :=
  match fields.find? position name with
  | some value => shape value
  | none => .error (fields.missing position name)

/-- Reads a field that may be null. By name it may also be missing. -/
def optional {α : Type} (fields : Fields) (position : Nat) (name : String) (shape : Shape α) :
    Except ShapeFault (Option α) :=
  match fields, fields.find? position name with
  | _, some value => shape.nullable value
  | .named _, none => .ok none
  | .listed _ _, none => .error (fields.missing position name)

end Fields

/-- A structure: its name, the checks on its fields in their order, and how it is built. -/
structure Structure (α : Type) where
  name : String
  fields : List (String × Shape Unit)
  build : Fields → Except ShapeFault α

namespace Structure

variable {α : Type}

/-- What is said when a field by position is missing. -/
def expectation (layout : Structure α) : String :=
  "struct " ++ layout.name ++ " with " ++ toString layout.fields.length ++ " elements"

/-- Checks the members that are fields, in the order of the members. -/
def checkMembers (layout : Structure α) (members : List (String × Json)) :
    Except ShapeFault Unit :=
  members.forM fun member =>
    match layout.fields.lookup member.1 with
    | some check => check member.2
    | none => .ok ()

/-- Reads a structure. -/
def shape (layout : Structure α) : Shape α
  | .object members => do
    layout.checkMembers members
    layout.build (.named members)
  | .array items => do
    let value ← layout.build (.listed items layout.expectation)
    if layout.fields.length < items.length then
      throw (.invalidLength items.length "fewer elements in array")
    pure value
  | value => mistyped value ("struct " ++ layout.name)

end Structure

end LocaleLint.Json
