/-!
# Ignored tags

The set of tag names whose subtrees are exempt from checking. Membership is by
exact match, and the members are kept in ascending order without repetition.
-/

set_option autoImplicit false

namespace LocaleLint

/-- A set of tag names. -/
structure IgnoreSet where
  tags : List String
deriving DecidableEq, Repr

namespace IgnoreSet

/-- The set without members. -/
def empty : IgnoreSet := ⟨[]⟩

/-- Puts a tag at its place among ascending tags, once. -/
def insertTag (tag : String) : List String → List String
  | [] => [tag]
  | other :: rest =>
    if tag < other then tag :: other :: rest
    else if other = tag then other :: rest
    else other :: insertTag tag rest

/-- Adds one tag. -/
def insert (set : IgnoreSet) (tag : String) : IgnoreSet :=
  ⟨insertTag tag set.tags⟩

/-- Adds every tag of a list. -/
def insertMany (set : IgnoreSet) (tags : List String) : IgnoreSet :=
  tags.foldl insert set

/-- Whether `tag` is a member. -/
def contains (set : IgnoreSet) (tag : String) : Bool :=
  set.tags.contains tag

/-- The tags that are ignored unless a caller starts from the empty set: script elements. -/
def standard : IgnoreSet :=
  empty.insertMany ["g:evaluate", "script", "g2:evaluate"]

/-- Inserting a tag adds this tag and loses none, wherever it goes in the order. -/
theorem mem_insertTag {tag other : String} {tags : List String} :
    other ∈ insertTag tag tags ↔ other = tag ∨ other ∈ tags := by
  induction tags with
  | nil => simp [insertTag]
  | cons head rest ih =>
    simp only [insertTag]
    split
    · simp
    · split
      · next h =>
        subst h
        simp
      · simp only [List.mem_cons, ih]
        constructor
        · rintro (h | h | h) <;> simp [h]
        · rintro (h | h | h) <;> simp [h]

/-- Adding a tag makes that tag a member and changes no other membership. -/
@[simp] theorem contains_insert (set : IgnoreSet) (tag other : String) :
    (set.insert tag).contains other = (other == tag || set.contains other) := by
  rw [Bool.eq_iff_iff]
  simp [insert, contains, mem_insertTag]

end IgnoreSet

end LocaleLint
