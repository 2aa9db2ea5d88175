import LocaleLint.Json.Shape
import LocaleLint.Proofs.Entries
import LocaleLint.Proofs.Except
import LocaleLint.Proofs.Json.RoundTrip
import LocaleLint.Report.Writing

/-!
# Structures that were written

A structure is written as an object that leaves out the members without a value, and it is read
field by field. What a field is written as is read back by the shape of the field
(`Fields.required_eq_ok`, `Fields.optional_eq_ok`), and a whole structure is read from its members
in the order of their keys, since no field depends on where its member stands
(`Structure.shape_sorted`).
-/

set_option autoImplicit false

namespace LocaleLint.Json

variable {α β : Type}

/-! ## Members that may be left out -/

/-- A member that may be missing is found under its own key, if it is there. -/
theorem lookup_optionalMember (key : String) (write : α → Json) (value : Option α)
    (other : String) :
    (optionalMember key write value).lookup other =
      if other = key then value.map write else none := by
  cases value with
  | none => simp [optionalMember]
  | some a =>
    show [(key, write a)].lookup other = _
    rw [Entries.lookup_cons_eq_ite]
    rfl

/-- There is a member exactly if there is a value to write. -/
theorem mem_optionalMember {key : String} {write : α → Json} {value : Option α}
    {member : String × Json} :
    member ∈ optionalMember key write value ↔ ∃ a, value = some a ∧ member = (key, write a) := by
  cases value with
  | none => simp [optionalMember]
  | some a => simp [optionalMember]

/-- A member that may be missing has its key or none. -/
theorem keys_optionalMember_sublist (key : String) (write : α → Json) (value : Option α) :
    ((optionalMember key write value).map Prod.fst).Sublist [key] := by
  cases value with
  | none => exact List.nil_sublist _
  | some a => exact List.Sublist.refl _

/-- Changing a member that may be missing changes how it is written. -/
theorem mapValues_optionalMember (f : Json → Json) (key : String) (write : α → Json)
    (value : Option α) :
    Entries.mapValues f (optionalMember key write value) =
      optionalMember key (fun a => f (write a)) value := by
  cases value <;> rfl

/-- A member that may be missing is plain if every value that it may have is. -/
theorem plain_optionalMember {depth : Nat} {key : String} {write : α → Json}
    {value : Option α} (h : ∀ a, value = some a → Plain depth (write a)) :
    ∀ member ∈ optionalMember key write value, Plain depth member.2 := by
  intro member hmember
  obtain ⟨a, hvalue, rfl⟩ := mem_optionalMember.1 hmember
  exact h a hvalue

/-! ## What parts are written as -/

/-- A written counter is plain, since it is far from the limits of integers. -/
theorem plain_ofCount (depth : Nat) (count : Count) : Plain depth (ofCount count) := by
  have hle := count.val_le
  exact Plain.int (by omega) (by omega)

/-- A list of strings is plain and one deep. -/
theorem plain_ofStrings (depth : Nat) (texts : List String) :
    Plain (depth + 1) (ofStrings texts) := by
  apply Plain.array
  intro item hitem
  obtain ⟨text, -, rfl⟩ := List.mem_map.1 hitem
  exact Plain.string text

/-- A written counter is in canonical form. -/
theorem canonical_ofCount (count : Count) : (ofCount count).canonical = ofCount count := by
  rw [ofCount, canonical]

/-- A written list of strings is in canonical form. -/
theorem canonical_ofStrings (texts : List String) :
    (ofStrings texts).canonical = ofStrings texts := by
  simp [ofStrings, canonical, canonicalItems_eq_map]

/-! ## Reading shapes -/

/-- A value of a shape passes the check for this shape. -/
theorem Shape.check_eq_ok {shape : Shape α} {value : Json} {a : α} (h : shape value = .ok a) :
    shape.check value = .ok () := by
  rw [Shape.check, h]
  rfl

/-- A value of a shape is read as one that may be null, unless it is null. -/
theorem Shape.nullable_eq_ok {shape : Shape α} {value : Json} {a : α} (h : shape value = .ok a)
    (hne : value ≠ .null) : shape.nullable value = .ok (some a) := by
  rw [Shape.nullable, h]
  · rfl
  · exact hne

/-- A string is read as its text. -/
theorem Shape.string_string (text : String) : Shape.string (.string text) = .ok text :=
  rfl

/-- A string that may be missing is read as its text, and is never null. -/
theorem Shape.string_of_some (value : Option String) : ∀ text, value = some text →
    Shape.string (.string text) = .ok text ∧ Json.string text ≠ .null :=
  fun text _ => ⟨rfl, by simp⟩

/-- A written counter is read back. -/
theorem Shape.count_ofCount (count : Count) : Shape.count (ofCount count) = .ok count := by
  have hrange : Count.ofNat? count.val = some count := dif_pos count.val_le
  simp [ofCount, Shape.count, hrange]

/-- A list is read back if its items are. -/
theorem Shape.list_eq_ok {shape : Shape α} {write : α → Json} {values : List α}
    (h : ∀ value ∈ values, shape (write value) = .ok value) :
    Shape.list shape (.array (values.map write)) = .ok values := by
  rw [Shape.list]
  induction values with
  | nil => rfl
  | cons value rest ih =>
    obtain ⟨hvalue, hrest⟩ := List.forall_mem_cons.1 h
    rw [List.map_cons, List.mapM_cons, hvalue, ih hrest]
    rfl

/-- A required field is read from the member under its key. -/
theorem Fields.required_eq_ok {members : List (String × Json)} {position : Nat} {key : String}
    {shape : Shape α} {value : Json} {a : α} (h : shape value = .ok a)
    (hlookup : members.lookup key = some value) :
    (Fields.named members).required position key shape = .ok a := by
  simp only [Fields.required, Fields.find?, hlookup]
  exact h

/-- A field that may be missing is read from the member under its key, or found missing. -/
theorem Fields.optional_eq_ok {members : List (String × Json)} {position : Nat} {key : String}
    {shape : Shape α} {write : α → Json} {value : Option α}
    (h : ∀ a, value = some a → shape (write a) = .ok a ∧ write a ≠ .null)
    (hlookup : members.lookup key = value.map write) :
    (Fields.named members).optional position key shape = .ok value := by
  simp only [Fields.optional, Fields.find?, hlookup]
  cases value with
  | none => rfl
  | some a =>
    obtain ⟨hread, hne⟩ := h a rfl
    exact Shape.nullable_eq_ok hread hne

/-! ## Reading structures -/

/-- Whether a member passes the check of the field that it is, if it is one. -/
def Structure.Passes (layout : Structure α) (member : String × Json) : Prop :=
  ∀ check, layout.fields.lookup member.1 = some check → check member.2 = .ok ()

/-- A member of the shape of its field passes the check of this field. -/
theorem Structure.passes_of_eq_ok {layout : Structure α} {key : String} (shape : Shape β)
    {value : Json} {b : β} (h : shape value = .ok b)
    (hfield : layout.fields.lookup key = some shape.check) : layout.Passes (key, value) := by
  intro check hcheck
  rw [hfield] at hcheck
  cases hcheck
  exact Shape.check_eq_ok h

/-- A member that may be missing passes the check of its field. -/
theorem Structure.passes_of_optional {layout : Structure α} {key : String} {shape : Shape β}
    {write : β → Json} {value : Option β}
    (h : ∀ b, value = some b → shape (write b) = .ok b ∧ write b ≠ .null)
    (hfield : layout.fields.lookup key = some shape.nullable.check) :
    ∀ member ∈ optionalMember key write value, layout.Passes member := by
  intro member hmember
  obtain ⟨b, hvalue, rfl⟩ := mem_optionalMember.1 hmember
  obtain ⟨hread, hne⟩ := h b hvalue
  exact passes_of_eq_ok _ (Shape.nullable_eq_ok hread hne) hfield

/-- A structure is read from an object whose members stand in the order of their keys. -/
theorem Structure.shape_sorted {layout : Structure α} {members : List (String × Json)} {value : α}
    (hkeys : (members.map Prod.fst).Nodup) (hchecks : ∀ member ∈ members, layout.Passes member)
    (hbuild : ∀ sorted : List (String × Json),
      (∀ key, sorted.lookup key = members.lookup key) →
      layout.build (.named sorted) = .ok value) :
    layout.shape (.object (Entries.sorted members)) = .ok value := by
  have hmembers : layout.checkMembers (Entries.sorted members) = .ok () := by
    rw [Structure.checkMembers, forM_eq_ok_iff]
    intro member hmember
    have hcheck := hchecks member (Entries.mem_of_mem_sorted hmember)
    cases hlookup : layout.fields.lookup member.1 with
    | none => rfl
    | some check => exact hcheck check hlookup
  rw [Structure.shape, hmembers]
  exact hbuild _ (Entries.lookup_sorted hkeys)

end LocaleLint.Json
