import LocaleLint.Entries

/-!
# TOML values

A TOML document as a value, and the rules by which its tables grow. Every table knows
how it came about: written in braces, opened by a header, passed through by a header,
or made by a dotted key. That decides what may still be added to it. Keys ascend.
-/

set_option autoImplicit false

namespace LocaleLint

/-- How a table came about. -/
inductive Toml.Origin
  | inline
  | header
  | implied
  | dotted
deriving DecidableEq, Repr

/-- A TOML value. A date or a time is kept as its text, and an array that grows by headers
is told from one that is written in brackets. -/
inductive Toml where
  | string (value : String)
  | integer (value : Int)
  | float (bits : UInt64)
  | boolean (value : Bool)
  | dateTime (text : String)
  | array (ofTables : Bool) (items : List Toml)
  | table (origin : Toml.Origin) (entries : List (String × Toml))
deriving Inhabited, BEq, Repr

namespace Toml

/-- A table under construction. -/
structure Table where
  origin : Origin
  entries : List (String × Toml) := []
deriving BEq, Repr

namespace Table

/-- The table as a value. -/
def toml (table : Table) : Toml :=
  .table table.origin table.entries

/-- Whether a path may lead through a table of this origin: headers pass all but inline
tables, and dotted keys pass only tables that no header or braces have defined. -/
def passes (dotted : Bool) : Origin → Bool
  | .inline => false
  | .header => !dotted
  | .implied => true
  | .dotted => true

/-- Changes the table at the end of a path by `change`. Missing tables on the way are made,
and a path through an array of tables leads to its last table. -/
def alter (dotted : Bool) (change : Table → Option Table) :
    List String → Table → Option Table
  | [], base => change base
  | key :: path, base =>
    let store (value : Toml) : Table :=
      { base with entries := Entries.putSorted base.entries key value }
    match Entries.get? base.entries key with
    | none =>
      (alter dotted change path ⟨if dotted then .dotted else .implied, []⟩).map fun child =>
        store child.toml
    | some (.table origin entries) =>
      if passes dotted origin then
        (alter dotted change path ⟨origin, entries⟩).map fun child => store child.toml
      else none
    | some (.array true items) =>
      match items.getLast? with
      | some (.table origin entries) =>
        (alter dotted change path ⟨origin, entries⟩).map fun child =>
          store (.array true (items.dropLast ++ [child.toml]))
      | _ => none
    | some _ => none

/-- Stores a value under a key that is new. -/
def define (key : String) (value : Toml) (base : Table) : Option Table :=
  match Entries.get? base.entries key with
  | some _ => none
  | none => some { base with entries := Entries.putSorted base.entries key value }

/-- Stores a value under a dotted key. The table that the last part goes into was made by
dotted keys exactly when there are other parts. -/
def assign (path : List String) (key : String) (value : Toml) (base : Table) : Option Table :=
  alter true
    (fun inner =>
      if (inner.origin == .dotted) == !path.isEmpty then inner.define key value else none)
    path base

/-- Opens the table that a header names. It may have been passed through, but not defined. -/
def openTable (path : List String) (key : String) (base : Table) : Option Table :=
  alter false
    (fun inner =>
      match Entries.get? inner.entries key with
      | none => inner.define key (.table .header [])
      | some (.table .implied entries) =>
        some { inner with entries := Entries.putSorted inner.entries key (.table .header entries) }
      | some _ => none)
    path base

/-- Adds a table to the array of tables that a header names. -/
def openItem (path : List String) (key : String) (base : Table) : Option Table :=
  alter false
    (fun inner =>
      match Entries.get? inner.entries key with
      | none => inner.define key (.array true [.table .header []])
      | some (.array true items) =>
        let more := items ++ [.table .header []]
        some { inner with entries := Entries.putSorted inner.entries key (.array true more) }
      | some _ => none)
    path base

end Table

end Toml

end LocaleLint
