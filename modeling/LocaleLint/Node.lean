/-!
# Document trees

The parsed shape of one document. Keyed entries stand in source order, repeated
child tags are gathered in a sequence, and two keys are reserved: `$` for the
attributes of an element and `_` for its text.
-/

set_option autoImplicit false

namespace LocaleLint

/-- A document tree. -/
inductive Node where
  | null
  | leaf (text : String)
  | sequence (items : List Node)
  | mapping (entries : List (String × Node))
deriving Inhabited, BEq, Repr

namespace Node

/-- The reserved key under which the attributes of an element stand. -/
def attributeKey : String := "$"

/-- The reserved key of an element's text, when it has attributes or children too. -/
def textKey : String := "_"

/-- Whether the tree is empty because no document was read. -/
def isNull : Node → Bool
  | .null => true
  | _ => false

mutual

/-- Decides whether two trees are the same. -/
def decEq : (a b : Node) → Decidable (a = b)
  | .null, .null => isTrue rfl
  | .leaf a, .leaf b => decidable_of_iff (a = b) ⟨congrArg leaf, leaf.inj⟩
  | .sequence a, .sequence b =>
    have := decEqItems a b
    decidable_of_iff (a = b) ⟨congrArg sequence, sequence.inj⟩
  | .mapping a, .mapping b =>
    have := decEqEntries a b
    decidable_of_iff (a = b) ⟨congrArg mapping, mapping.inj⟩
  | .null, .leaf _ | .null, .sequence _ | .null, .mapping _ => isFalse nofun
  | .leaf _, .null | .leaf _, .sequence _ | .leaf _, .mapping _ => isFalse nofun
  | .sequence _, .null | .sequence _, .leaf _ | .sequence _, .mapping _ => isFalse nofun
  | .mapping _, .null | .mapping _, .leaf _ | .mapping _, .sequence _ => isFalse nofun

/-- Decides whether two lists of trees are the same. -/
def decEqItems : (a b : List Node) → Decidable (a = b)
  | [], [] => isTrue rfl
  | [], _ :: _ | _ :: _, [] => isFalse nofun
  | x :: a, y :: b =>
    have := decEq x y
    have := decEqItems a b
    decidable_of_iff (x = y ∧ a = b) List.cons_eq_cons.symm

/-- Decides whether two lists of keyed trees are the same. -/
def decEqEntries : (a b : List (String × Node)) → Decidable (a = b)
  | [], [] => isTrue rfl
  | [], _ :: _ | _ :: _, [] => isFalse nofun
  | (k, x) :: a, (l, y) :: b =>
    have := decEq x y
    have := decEqEntries a b
    decidable_of_iff (k = l ∧ x = y ∧ a = b) (by simp [and_assoc])

end

instance : DecidableEq Node := decEq

mutual

/-- The number of nodes of a tree. -/
def weight : Node → Nat
  | .null => 1
  | .leaf _ => 1
  | .sequence items => 1 + weightOfItems items
  | .mapping entries => 1 + weightOfEntries entries

/-- The number of nodes of a list of trees. -/
def weightOfItems : List Node → Nat
  | [] => 0
  | node :: rest => weight node + weightOfItems rest

/-- The number of nodes of keyed trees. -/
def weightOfEntries : List (String × Node) → Nat
  | [] => 0
  | (_, node) :: rest => weight node + weightOfEntries rest

end

/-- Sequences that are joined weigh what they weigh apart. -/
theorem weightOfItems_append (first second : List Node) :
    weightOfItems (first ++ second) = weightOfItems first + weightOfItems second := by
  induction first with
  | nil => simp [weightOfItems]
  | cons node rest ih => simp [weightOfItems, ih, Nat.add_assoc]

end Node

end LocaleLint
