import LocaleLint.Proofs.Entries
import LocaleLint.Toml.Reader
import Mathlib.Tactic.Common

/-!
# The order of keys in a document

In a document that has been read, the keys of every table ascend (`ordered_of_parse`): what is
stored in a table goes to the place of its key, and that is all that ever changes a table. A change
at the end of a path keeps every table on the way in order (`ordered_alter`), and with it each line.
-/

set_option autoImplicit false

namespace LocaleLint.Toml

/-- Whether the keys of every table in a value ascend. -/
inductive Ordered : Toml → Prop
  | string (value : String) : Ordered (.string value)
  | integer (value : Int) : Ordered (.integer value)
  | float (bits : UInt64) : Ordered (.float bits)
  | boolean (value : Bool) : Ordered (.boolean value)
  | dateTime (text : String) : Ordered (.dateTime text)
  | array {ofTables : Bool} {items : List Toml} (hitems : ∀ item ∈ items, Ordered item) :
      Ordered (.array ofTables items)
  | table {origin : Origin} {entries : List (String × Toml)}
      (hkeys : (entries.map Prod.fst).Pairwise (· < ·))
      (hvalues : ∀ entry ∈ entries, Ordered entry.2) : Ordered (.table origin entries)

/-- What is found in an ordered table is ordered. -/
theorem Ordered.of_get? {origin : Origin} {entries : List (String × Toml)} {key : String}
    {value : Toml} (h : Ordered (.table origin entries))
    (hget : Entries.get? entries key = some value) : Ordered value := by
  cases h with
  | table _ hvalues =>
    obtain ⟨before, after, rfl, -⟩ := List.lookup_eq_some_iff.1 hget
    exact hvalues (key, value) (by simp)

/-- A table stays in order when a value in order is stored in it. -/
theorem Ordered.putSorted {origin origin' : Origin} {entries : List (String × Toml)}
    (h : Ordered (.table origin entries)) (key : String) {value : Toml} (hvalue : Ordered value) :
    Ordered (.table origin' (Entries.putSorted entries key value)) := by
  cases h with
  | table hkeys hvalues =>
    refine .table (Entries.pairwise_keys_putSorted key value hkeys) fun entry hentry => ?_
    rcases Entries.mem_of_mem_putSorted hentry with rfl | hentry
    · exact hvalue
    · exact hvalues entry hentry

/-- A table without entries is ordered. -/
theorem ordered_empty (origin : Origin) : Ordered (.table origin []) :=
  .table .nil fun _ h => absurd h List.not_mem_nil

/-! ## Changes of a table -/

namespace Table

variable {base changed : Table}

/-- A change at the end of a path keeps the order if it does so where it is made. The induction is
on the path: the changed table is stored in the one that it was found in. -/
theorem ordered_alter {dotted : Bool} {change : Table → Option Table}
    (hchange : ∀ inner inner', change inner = some inner' → Ordered inner.toml →
      Ordered inner'.toml) {path : List String} (h : alter dotted change path base = some changed)
    (hbase : Ordered base.toml) : Ordered changed.toml := by
  induction path generalizing base changed with
  | nil => exact hchange base changed h hbase
  | cons key path ih =>
    rw [alter] at h
    split at h
    · obtain ⟨child, hchild, rfl⟩ := Option.map_eq_some_iff.1 h
      exact hbase.putSorted key (ih hchild (ordered_empty _))
    · next origin entries hget =>
      split at h
      · obtain ⟨child, hchild, rfl⟩ := Option.map_eq_some_iff.1 h
        exact hbase.putSorted key (ih hchild (hbase.of_get? hget))
      · cases h
    · next items hget =>
      have hitems : ∀ item ∈ items, Ordered item := by
        cases hbase.of_get? hget with
        | array hitems => exact hitems
      split at h
      · next origin entries hlast =>
        obtain ⟨child, hchild, rfl⟩ := Option.map_eq_some_iff.1 h
        have hinner := hitems _ (List.mem_of_getLast? hlast)
        refine hbase.putSorted key (.array fun item hitem => ?_)
        rcases List.mem_append.1 hitem with hitem | hitem
        · exact hitems item (List.dropLast_subset _ hitem)
        · exact List.mem_singleton.1 hitem ▸ ih hchild hinner
      · cases h
    · cases h

/-- Defining a key keeps the tables in order. -/
theorem ordered_define {key : String} {value : Toml} (h : base.define key value = some changed)
    (hbase : Ordered base.toml) (hvalue : Ordered value) : Ordered changed.toml := by
  rw [define] at h
  split at h
  · cases h
  · cases h
    exact hbase.putSorted key hvalue

/-- Assigning a value along a path of keys keeps the tables in order. -/
theorem ordered_assign {path : List String} {key : String} {value : Toml}
    (h : base.assign path key value = some changed) (hbase : Ordered base.toml)
    (hvalue : Ordered value) : Ordered changed.toml := by
  refine ordered_alter (fun inner inner' hinner hordered => ?_) h hbase
  split at hinner
  · exact ordered_define hinner hordered hvalue
  · cases hinner

/-- Opening a table keeps the tables in order. -/
theorem ordered_openTable {path : List String} {key : String}
    (h : base.openTable path key = some changed) (hbase : Ordered base.toml) :
    Ordered changed.toml := by
  refine ordered_alter (fun inner inner' hinner hordered => ?_) h hbase
  split at hinner
  · exact ordered_define hinner hordered (ordered_empty _)
  · next entries hget =>
    cases hinner
    cases hordered.of_get? hget with
    | table hkeys hvalues => exact hordered.putSorted key (.table hkeys hvalues)
  · cases hinner

/-- Opening an item of an array of tables keeps the tables in order. -/
theorem ordered_openItem {path : List String} {key : String}
    (h : base.openItem path key = some changed) (hbase : Ordered base.toml) :
    Ordered changed.toml := by
  have hfirst : ∀ item ∈ [Toml.table .header []], Ordered item := by
    simpa using ordered_empty .header
  refine ordered_alter (fun inner inner' hinner hordered => ?_) h hbase
  split at hinner
  · exact ordered_define hinner hordered (.array hfirst)
  · next items hget =>
    cases hinner
    cases hordered.of_get? hget with
    | array hitems =>
      refine hordered.putSorted key (.array fun item hitem => ?_)
      exact (List.mem_append.1 hitem).elim (hitems item) (hfirst item)
  · cases hinner

end Table

/-! ## Reading -/

namespace Scalar

/-- An integer holds no table, so it is ordered. -/
theorem ordered_inRange {n : Int} {value : Toml} (h : inRange n = some value) : Ordered value := by
  rw [inRange] at h
  split at h
  · cases h
    exact .integer n
  · cases h

/-- An integer that is read is ordered. -/
theorem ordered_integer? {s : List Char} {value : Toml} (h : integer? s = some value) :
    Ordered value := by
  rw [integer?.eq_def] at h
  split at h
  all_goals
    obtain ⟨digits, -, hvalue⟩ := Option.bind_eq_some_iff.1 h
    exact ordered_inRange hvalue

/-- A floating-point number that is read is ordered. -/
theorem ordered_float? {s : List Char} {value : Toml} (h : float? s = some value) :
    Ordered value := by
  have hsigned (negative : Bool) (size : Float) : Ordered (signed negative size) := .float _
  rw [float?] at h
  rcases splitSign s with ⟨negative, rest⟩
  dsimp only at h
  split_ifs at h
  · cases h
    exact hsigned _ _
  · cases h
    exact hsigned _ _
  · split at h
    · split at h
      · cases h
      · obtain ⟨size, -, rfl⟩ := Option.map_eq_some_iff.1 h
        exact hsigned _ _
    · cases h

/-- A date or time that is read is ordered. -/
theorem ordered_dateTime? {s : List Char} {value : Toml} (h : dateTime? s = some value) :
    Ordered value := by
  rw [dateTime?] at h
  split at h
  · cases h
    exact .dateTime _
  · cases h

/-- A literal is no array and no table. -/
theorem ordered_parse? {s : List Char} {value : Toml} (h : parse? s = some value) :
    Ordered value := by
  rw [parse?] at h
  split at h
  · cases h
    exact .boolean true
  split at h
  · cases h
    exact .boolean false
  rcases Option.or_eq_some_iff.1 h with h | ⟨-, h⟩
  · exact ordered_integer? h
  rcases Option.or_eq_some_iff.1 h with h | ⟨-, h⟩
  · exact ordered_float? h
  · exact ordered_dateTime? h

end Scalar

namespace Reader

/-- What is read of a value is in order, and so are the items and the entries of one. The induction
is on the fuel, for all three at once. -/
theorem ordered_value? (fuel : Nat) :
    (∀ depth s value rest, value? fuel depth s = some (value, rest) → Ordered value) ∧
    (∀ depth done s value rest, items? fuel depth done s = some (value, rest) →
      (∀ item ∈ done, Ordered item) → Ordered value) ∧
    ∀ depth base s value rest, entries? fuel depth base s = some (value, rest) →
      Ordered base.toml → Ordered value := by
  induction fuel with
  | zero => simp [value?, items?, entries?]
  | succ fuel ih =>
    obtain ⟨ihvalue, ihitems, ihentries⟩ := ih
    refine ⟨fun depth s value rest h => ?_, fun depth done s value rest h hdone => ?_,
      fun depth base s value rest h hbase => ?_⟩
    · cases s with
      | nil => cases h
      | cons c s =>
        rw [value?] at h
        split_ifs at h
        · obtain ⟨⟨text, left⟩, -, heq⟩ := Option.map_eq_some_iff.1 h
          cases heq
          exact .string _
        · exact ihitems _ _ _ _ _ h (by simp)
        · exact ihentries _ _ _ _ _ h (ordered_empty _)
        · obtain ⟨literal, hliteral, heq⟩ := Option.map_eq_some_iff.1 h
          cases heq
          exact Scalar.ordered_parse? hliteral
    · have hreverse {items : List Toml} (hitems : ∀ item ∈ items, Ordered item) :
          Ordered (.array false items.reverse) :=
        .array fun item hitem => hitems item (List.mem_reverse.1 hitem)
      rw [items?] at h
      split at h
      · cases h
        exact hreverse hdone
      · split at h
        · cases h
        · next item left hitem =>
          have hmore := List.forall_mem_cons.2 ⟨ihvalue _ _ _ _ hitem, hdone⟩
          split at h
          · exact ihitems _ _ _ _ _ h hmore
          · cases h
            exact hreverse hmore
          · cases h
      · cases h
    · rw [entries?] at h
      split at h
      · cases h
        exact hbase
      · split at h
        · split at h
          · cases h
          · next value left hvalue =>
            have hread := ihvalue _ _ _ _ hvalue
            split at h
            · next hassign _ =>
              exact ihentries _ _ _ _ _ h (Table.ordered_assign hassign hbase hread)
            · next hassign _ =>
              cases h
              exact Table.ordered_assign hassign hbase hread
            · cases h
        · cases h
      · cases h

variable {reading reading' : Reading}

/-- Reading a line keeps the tables in order. -/
theorem ordered_line? {s rest : List Char} (h : line? reading s = some (reading', rest))
    (hroot : Ordered reading.root.toml) : Ordered reading'.root.toml := by
  rw [line?.eq_def] at h
  split at h
  · obtain ⟨⟨path, key, s⟩, -, h⟩ := Option.bind_eq_some_iff.1 h
    obtain ⟨root, hopen, h⟩ := Option.bind_eq_some_iff.1 h
    obtain ⟨left, -, heq⟩ := Option.map_eq_some_iff.1 h
    cases heq
    exact Table.ordered_openItem hopen hroot
  · obtain ⟨⟨path, key, s⟩, -, h⟩ := Option.bind_eq_some_iff.1 h
    obtain ⟨root, hopen, h⟩ := Option.bind_eq_some_iff.1 h
    obtain ⟨left, -, heq⟩ := Option.map_eq_some_iff.1 h
    cases heq
    exact Table.ordered_openTable hopen hroot
  · split at h
    · obtain ⟨⟨value, s⟩, hvalue, h⟩ := Option.bind_eq_some_iff.1 h
      obtain ⟨root, hassign, h⟩ := Option.bind_eq_some_iff.1 h
      obtain ⟨left, -, heq⟩ := Option.map_eq_some_iff.1 h
      cases heq
      have hread := (ordered_value? _).1 _ _ _ _ hvalue
      exact Table.ordered_alter
        (fun _ _ hinner hordered => Table.ordered_assign hinner hordered hread) hassign hroot
    · cases h

/-- Reading any number of lines keeps the tables in order. -/
theorem ordered_lines? {fuel : Nat} {s : List Char} (h : lines? fuel reading s = some reading')
    (hroot : Ordered reading.root.toml) : Ordered reading'.root.toml := by
  induction fuel generalizing reading s with
  | zero => cases h
  | succ fuel ih =>
    rw [lines?] at h
    split at h
    · cases h
    · cases h
      exact hroot
    · obtain ⟨⟨next, rest⟩, hline, h⟩ := Option.bind_eq_some_iff.1 h
      exact ih h (ordered_line? hline hroot)

end Reader

/-- The keys of a document ascend, and so do those of every table in it. -/
theorem ordered_of_parse {text : String} {entries : List (String × Toml)}
    (h : parse? text = some entries) : Ordered (.table .header entries) := by
  rw [parse?] at h
  obtain ⟨reading, hlines, rfl⟩ := Option.map_eq_some_iff.1 h
  have hread := Reader.ordered_lines? hlines (ordered_empty .header)
  cases hread with
  | table hkeys hvalues => exact .table hkeys hvalues

end LocaleLint.Toml
