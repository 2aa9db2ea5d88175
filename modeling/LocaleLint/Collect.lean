import LocaleLint.Node
import LocaleLint.IgnoreSet

/-!
# The texts of a document

Collects the string leaves of a document tree in document order, without the
subtrees that the options leave out. The definition `leaves` recurses over the
tree; `collectLeaves` walks the tree with a list of the nodes still to visit, so
the depth of a document does not matter to it.
-/

set_option autoImplicit false

namespace LocaleLint

/-- Which entries are visited: ignored tags never, attributes only on request. -/
structure CollectOptions where
  ignore : IgnoreSet := IgnoreSet.standard
  attributes : Bool := false
deriving DecidableEq, Repr

namespace CollectOptions

/-- Whether the entry under `key` is left out, with all that is below it. -/
def skips (options : CollectOptions) (key : String) : Bool :=
  options.ignore.contains key || (key == Node.attributeKey && !options.attributes)

/-- The values of the entries that are visited, in order. -/
def visible (options : CollectOptions) (entries : List (String × Node)) : List Node :=
  (entries.filter fun entry => !options.skips entry.1).map (·.2)

end CollectOptions

namespace Node

mutual

/-- The texts of a tree by recursion over the tree. -/
def leaves (options : CollectOptions) : Node → List String
  | .null => []
  | .leaf text => [text]
  | .sequence items => leavesOfItems options items
  | .mapping entries => leavesOfEntries options entries

/-- The texts of a list of trees, in order. -/
def leavesOfItems (options : CollectOptions) : List Node → List String
  | [] => []
  | node :: rest => leaves options node ++ leavesOfItems options rest

/-- The texts of keyed trees, in order, without the entries that are left out. -/
def leavesOfEntries (options : CollectOptions) : List (String × Node) → List String
  | [] => []
  | (key, node) :: rest =>
    if options.skips key then leavesOfEntries options rest
    else leaves options node ++ leavesOfEntries options rest

end

/-- What is visible of a mapping weighs no more than the mapping does. -/
theorem weightOfItems_visible_le (options : CollectOptions) (entries : List (String × Node)) :
    weightOfItems (options.visible entries) ≤ weightOfEntries entries := by
  induction entries with
  | nil => simp [CollectOptions.visible, weightOfItems]
  | cons entry rest ih =>
    obtain ⟨key, node⟩ := entry
    simp only [CollectOptions.visible] at ih
    by_cases h : options.skips key
    · simp only [CollectOptions.visible, List.filter_cons, h, weightOfEntries]
      simp only [Bool.not_true, Bool.false_eq_true, if_false]
      omega
    · simp only [CollectOptions.visible, List.filter_cons, h, weightOfEntries]
      simp only [Bool.not_false, if_true, List.map_cons, weightOfItems]
      omega

/-- Visits the pending nodes in turn; `found` holds the texts so far, the latest first. -/
def collectPending (options : CollectOptions) (pending : List Node) (found : List String) :
    List String :=
  match pending with
  | [] => found.reverse
  | .null :: rest => collectPending options rest found
  | .leaf text :: rest => collectPending options rest (text :: found)
  | .sequence items :: rest => collectPending options (items ++ rest) found
  | .mapping entries :: rest => collectPending options (options.visible entries ++ rest) found
termination_by weightOfItems pending
decreasing_by
  · simp [weightOfItems, weight]
  · simp [weightOfItems, weight]
  · simp only [weightOfItems, weight, weightOfItems_append]
    omega
  · have := weightOfItems_visible_le options entries
    simp only [weightOfItems, weight, weightOfItems_append]
    omega

/-- The texts of a tree in document order, untrimmed. -/
def collectLeaves (options : CollectOptions) (tree : Node) : List String :=
  collectPending options [tree] []

end Node

end LocaleLint
