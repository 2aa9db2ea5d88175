import LocaleLint.Shape
import LocaleLint.Count
import LocaleLint.Toml.Reader
import LocaleLint.Decimal.Layout

/-!
# Configuration

The settings of a configuration file: extra ignored tags, whether attributes are checked,
how many findings are kept, and the targets, each a name with file patterns. The shape of
a file is checked in the order of its keys, and a key without a meaning is a fault.
-/

set_option autoImplicit false

namespace LocaleLint

/-- The settings of a configuration file. Targets ascend by name. -/
structure Config where
  schema : Option String := none
  ignoreTags : List String := []
  checkAttributes : Option Bool := none
  maxFindings : Option Count := none
  targets : List (String × List String) := []
deriving DecidableEq, Repr

namespace Config

/-- The kind of a TOML value. A date or time counts as a map. -/
def kind : Toml → Kind
  | .string value => .string value
  | .integer value => .integer value
  | .float bits => .float (Decimal.Layout.inMessage.text bits)
  | .boolean value => .boolean value
  | .dateTime _ => .map
  | .array _ _ => .sequence
  | .table _ _ => .map

/-- A value of another kind than the expected one. -/
def mistyped {α : Type} (value : Toml) (expected : String) : Except ShapeFault α :=
  .error (.invalidType (kind value) expected)

/-- Reads a string. -/
def string : Toml → Except ShapeFault String
  | .string value => .ok value
  | value => mistyped value "a string"

/-- Reads a list of strings. -/
def strings : Toml → Except ShapeFault (List String)
  | .array _ items => items.mapM string
  | value => mistyped value "a sequence"

/-- Reads a truth value. -/
def boolean : Toml → Except ShapeFault Bool
  | .boolean value => .ok value
  | value => mistyped value "a boolean"

/-- Reads a counter. -/
def count : Toml → Except ShapeFault Count
  | .integer value =>
    match (if 0 ≤ value then Count.ofNat? value.toNat else none) with
    | some n => .ok n
    | none => .error (.invalidValue (.integer value) "u32")
  | value => mistyped value "u32"

/-- The key under which a date or time shows its text when it is read as a map. -/
def dateTimeKey : String := "$__toml_private_datetime"

/-- The entries of a value that is read as a map. -/
def entries? : Toml → Option (List (String × Toml))
  | .table _ entries => some entries
  | .dateTime text => some [(dateTimeKey, .string text)]
  | _ => none

/-- The keys of a target. -/
def targetKeys : List String := ["src"]

/-- Reads the patterns of a target, which may stand in an array by themselves. -/
def target (value : Toml) : Except ShapeFault (List String) :=
  match value with
  | .array _ [] => .ok []
  | .array _ (patterns :: _) => strings patterns
  | value =>
    match entries? value with
    | none => mistyped value "struct TargetConfig"
    | some entries =>
      entries.foldlM
        (fun _ entry =>
          if entry.1 = "src" then strings entry.2
          else .error (.unknownField entry.1 targetKeys))
        []

/-- Reads the targets in the order of their names. -/
def targetMap (value : Toml) : Except ShapeFault (List (String × List String)) :=
  match entries? value with
  | none => mistyped value "a map"
  | some entries => entries.mapM fun entry => (target entry.2).map fun patterns => (entry.1, patterns)

/-- The keys of a configuration file. -/
def keys : List String :=
  ["schema", "ignore_tags", "check_attributes", "max_findings", "targets"]

/-- Adds what one entry sets. -/
def set (config : Config) (key : String) (value : Toml) : Except ShapeFault Config :=
  if key = "schema" then (string value).map fun v => { config with schema := some v }
  else if key = "ignore_tags" then (strings value).map fun v => { config with ignoreTags := v }
  else if key = "check_attributes" then
    (boolean value).map fun v => { config with checkAttributes := some v }
  else if key = "max_findings" then
    (count value).map fun v => { config with maxFindings := some v }
  else if key = "targets" then (targetMap value).map fun v => { config with targets := v }
  else .error (.unknownField key keys)

/-- The configuration that the entries of a file give. -/
def ofEntries (entries : List (String × Toml)) : Except ShapeFault Config :=
  entries.foldlM (fun config entry => config.set entry.1 entry.2) {}

end Config

end LocaleLint
