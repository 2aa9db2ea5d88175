import LocaleLint.Collect

/-!
# Collecting without a work list

The collector visits the nodes of a work list; what it finds are the texts of these nodes
by recursion (`collectPending_eq`), so what is collected of a tree are its leaves without those
under the entries that are left out. With nothing ignored and with attributes, these are all the
leaves of a tree.

The recursion is also given by its equations (`Recursion`), and the work by single visits over a
stack whose top is its end (`Visit`). Each visit is one turn of the collector and leaves a lighter
stack (`Visit.outcome_eq`, `Visit.weight_lt`). The main result `collects_by_recursion` says that
visits come to an end, after no more of them than a tree has nodes, with the one list of texts that
the equations allow.
-/

set_option autoImplicit false

namespace LocaleLint.Node

/-- The texts of sequences that are joined are those of the first, then those of the second. -/
theorem leavesOfItems_append (options : CollectOptions) (first second : List Node) :
    leavesOfItems options (first ++ second) =
      leavesOfItems options first ++ leavesOfItems options second := by
  induction first with
  | nil => rfl
  | cons node rest ih => simp [leavesOfItems, ih, List.append_assoc]

/-- The values that are visited have the texts of the entries. -/
theorem leavesOfItems_visible (options : CollectOptions) (entries : List (String × Node)) :
    leavesOfItems options (options.visible entries) = leavesOfEntries options entries := by
  induction entries with
  | nil => rfl
  | cons entry rest ih =>
    obtain ⟨key, node⟩ := entry
    simp only [CollectOptions.visible] at ih
    simp only [CollectOptions.visible, List.filter_cons, leavesOfEntries]
    cases options.skips key with
    | true => simpa using ih
    | false => simpa [leavesOfItems] using ih

/-- A run over a work list finds the texts of the nodes that are pending, in order, after those
that it has found. -/
theorem collectPending_eq (options : CollectOptions) (pending : List Node)
    (found : List String) :
    collectPending options pending found = found.reverse ++ leavesOfItems options pending := by
  fun_induction collectPending options pending found with
  | case1 found => simp [leavesOfItems]
  | case2 found rest ih => rw [ih, leavesOfItems, leaves, List.nil_append]
  | case3 found text rest ih => rw [ih, leavesOfItems, leaves, List.reverse_cons, List.append_assoc]
  | case4 found items rest ih => rw [ih, leavesOfItems_append, leavesOfItems, leaves]
  | case5 found entries rest ih =>
    rw [ih, leavesOfItems_append, leavesOfItems_visible, leavesOfItems, leaves]

/-- The walk with a stack collects what the recursion over the tree collects. -/
theorem collectLeaves_eq_leaves (options : CollectOptions) (tree : Node) :
    collectLeaves options tree = leaves options tree := by
  simp [collectLeaves, collectPending_eq, leavesOfItems]

/-- The texts of a sequence are those of its items, one item after the other. -/
theorem leavesOfItems_eq_flatMap (options : CollectOptions) (items : List Node) :
    leavesOfItems options items = items.flatMap (leaves options) := by
  induction items with
  | nil => rfl
  | cons node rest ih => rw [leavesOfItems, ih, List.flatMap_cons]

/-- The entries that are not left out have the texts of all entries. -/
theorem leavesOfEntries_eq_flatMap (options : CollectOptions) (entries : List (String × Node)) :
    leavesOfEntries options entries =
      (entries.filter fun entry => !options.skips entry.1).flatMap
        fun entry => leaves options entry.2 := by
  rw [← leavesOfItems_visible, leavesOfItems_eq_flatMap, CollectOptions.visible, List.flatMap_map]

/-! ## All leaves -/

/-- The options under which nothing is left out. -/
def everything : CollectOptions := ⟨.empty, true⟩

/-- The options that collect everything skip no key. -/
theorem skips_everything (key : String) : everything.skips key = false := by
  simp [CollectOptions.skips, everything, IgnoreSet.contains, IgnoreSet.empty]

/-- All texts of a sequence are all texts of its items. -/
theorem leavesOfItems_everything (items : List Node) :
    leavesOfItems everything items = items.flatMap (leaves everything) :=
  leavesOfItems_eq_flatMap everything items

/-- All texts of a mapping are all texts of its values, whatever their keys are. -/
theorem leavesOfEntries_everything (entries : List (String × Node)) :
    leavesOfEntries everything entries = entries.flatMap fun entry => leaves everything entry.2 := by
  rw [leavesOfEntries_eq_flatMap, List.filter_eq_self.2 (by simp [skips_everything])]

/-- The walk collects all texts of a tree when it skips nothing. -/
theorem collectLeaves_everything (tree : Node) :
    collectLeaves everything tree = leaves everything tree :=
  collectLeaves_eq_leaves everything tree

/-! ## The equations of the recursion -/

/-- A key is skipped if it is ignored, or if it holds the attributes and these are not asked for. -/
theorem skips_eq (options : CollectOptions) (key : String) :
    options.skips key =
      decide (key ∈ options.ignore.tags ∨ key = attributeKey ∧ options.attributes = false) := by
  rw [Bool.eq_iff_iff]
  simp [CollectOptions.skips, IgnoreSet.contains]

/-- What a recursion over the tree finds: nothing in the empty tree, in a leaf its text as it is, in
a sequence the texts of its items in order, and in a mapping those of its entries in order, but not
of entries that are ignored or that hold attributes which are not asked for. -/
structure Recursion (options : CollectOptions) (collect : Node → List String) : Prop where
  null : collect .null = []
  leaf : ∀ text, collect (.leaf text) = [text]
  sequence : ∀ items, collect (.sequence items) = items.flatMap collect
  mapping : ∀ entries, collect (.mapping entries) =
    (entries.filter fun entry => ¬(entry.1 ∈ options.ignore.tags ∨
      entry.1 = attributeKey ∧ options.attributes = false)).flatMap fun entry => collect entry.2

/-- What is left of a mapping are the entries whose keys are not skipped. -/
theorem filter_skips (options : CollectOptions) (entries : List (String × Node)) :
    (entries.filter fun entry => !options.skips entry.1) =
      entries.filter fun entry => ¬(entry.1 ∈ options.ignore.tags ∨
        entry.1 = attributeKey ∧ options.attributes = false) := by
  apply List.filter_congr
  intro entry _
  rw [skips_eq, decide_not]

/-- The texts that are specified obey the recursion themselves. -/
theorem recursion_leaves (options : CollectOptions) : Recursion options (leaves options) where
  null := rfl
  leaf _ := rfl
  sequence items := by rw [leaves, leavesOfItems_eq_flatMap]
  mapping entries := by rw [leaves, leavesOfEntries_eq_flatMap, filter_skips]

namespace Recursion

variable {options : CollectOptions} {collect : Node → List String}

mutual

/-- The equations leave no choice, by induction on the tree. -/
theorem eq_leaves (h : Recursion options collect) (node : Node) :
    collect node = leaves options node := by
  cases node with
  | null => rw [h.null, leaves]
  | leaf text => rw [h.leaf, leaves]
  | sequence items => rw [h.sequence, leaves, flatMap_eq_leavesOfItems h items]
  | mapping entries => rw [h.mapping, leaves, ← filter_skips, flatMap_eq_leavesOfEntries h entries]

/-- Whatever obeys the recursion collects the texts of a sequence. -/
theorem flatMap_eq_leavesOfItems (h : Recursion options collect) (items : List Node) :
    items.flatMap collect = leavesOfItems options items := by
  cases items with
  | nil => rfl
  | cons node rest =>
    rw [List.flatMap_cons, leavesOfItems, eq_leaves h node, flatMap_eq_leavesOfItems h rest]

/-- Whatever obeys the recursion collects the texts of a mapping, without its skipped entries. -/
theorem flatMap_eq_leavesOfEntries (h : Recursion options collect)
    (entries : List (String × Node)) :
    ((entries.filter fun entry => !options.skips entry.1).flatMap fun entry => collect entry.2) =
      leavesOfEntries options entries := by
  match entries with
  | [] => rfl
  | (key, node) :: rest =>
    have hrest := flatMap_eq_leavesOfEntries h rest
    rw [leavesOfEntries, List.filter_cons]
    cases options.skips key with
    | true => simpa using hrest
    | false => simpa [eq_leaves h node] using hrest

end

end Recursion

/-! ## One visit after the other -/

/-- A walk under way: the nodes that are pending, the next one last, and the texts found so far. -/
structure Walk where
  pending : List Node
  found : List String

/-- One visit takes the last pending node away. A leaf adds its text to those found; a container
puts its children in its own place in reverse, so that the first of them comes next. -/
inductive Visit (options : CollectOptions) : Walk → Walk → Prop
  | null (pending : List Node) (found : List String) :
      Visit options ⟨pending ++ [.null], found⟩ ⟨pending, found⟩
  | leaf (pending : List Node) (found : List String) (text : String) :
      Visit options ⟨pending ++ [.leaf text], found⟩ ⟨pending, found ++ [text]⟩
  | sequence (pending : List Node) (found : List String) (items : List Node) :
      Visit options ⟨pending ++ [.sequence items], found⟩ ⟨pending ++ items.reverse, found⟩
  | mapping (pending : List Node) (found : List String) (entries : List (String × Node)) :
      Visit options ⟨pending ++ [.mapping entries], found⟩
        ⟨pending ++ (options.visible entries).reverse, found⟩

/-- A number of visits in a row. -/
inductive Visits (options : CollectOptions) : Nat → Walk → Walk → Prop
  | none (walk : Walk) : Visits options 0 walk walk
  | more {n : Nat} {walk next last : Walk} : Visit options walk next → Visits options n next last →
      Visits options (n + 1) walk last

/-- What the collector makes of a walk under way. -/
def Walk.outcome (options : CollectOptions) (walk : Walk) : List String :=
  collectPending options walk.pending.reverse walk.found.reverse

/-- A walk with nothing pending ends with the texts that it has found. -/
theorem outcome_of_nil (options : CollectOptions) (found : List String) :
    Walk.outcome options ⟨[], found⟩ = found := by
  simp [Walk.outcome, collectPending]

/-- A tree that is pushed adds its weight to the stack. -/
theorem weightOfItems_concat (pending : List Node) (node : Node) :
    weightOfItems (pending ++ [node]) = weightOfItems pending + node.weight := by
  rw [weightOfItems_append, weightOfItems, weightOfItems, Nat.add_zero]

/-- Items weigh the same in whatever direction they are pushed. -/
theorem weightOfItems_reverse (items : List Node) :
    weightOfItems items.reverse = weightOfItems items := by
  induction items with
  | nil => rfl
  | cons node rest ih =>
    rw [List.reverse_cons, weightOfItems_concat, ih, weightOfItems, Nat.add_comm]

/-- There is a next visit as long as a node is pending. -/
theorem exists_visit (options : CollectOptions) {walk : Walk} (h : walk.pending ≠ []) :
    ∃ next, Visit options walk next := by
  obtain ⟨pending, found⟩ := walk
  rcases List.eq_nil_or_concat pending with rfl | ⟨pending, node, rfl⟩
  · exact absurd rfl h
  · rw [List.concat_eq_append]
    cases node with
    | null => exact ⟨_, .null pending found⟩
    | leaf text => exact ⟨_, .leaf pending found text⟩
    | sequence items => exact ⟨_, .sequence pending found items⟩
    | mapping entries => exact ⟨_, .mapping pending found entries⟩

section

variable {options : CollectOptions} {walk next last : Walk} {n : Nat}

/-- Each visit is one turn of the collector. -/
theorem Visit.outcome_eq (h : Visit options walk next) :
    walk.outcome options = next.outcome options := by
  cases h with
  | null pending found => simp [Walk.outcome, collectPending]
  | leaf pending found text => simp [Walk.outcome, collectPending]
  | sequence pending found items => simp [Walk.outcome, collectPending]
  | mapping pending found entries => simp [Walk.outcome, collectPending]

/-- Each visit leaves fewer nodes to visit. -/
theorem Visit.weight_lt (h : Visit options walk next) :
    weightOfItems next.pending < weightOfItems walk.pending := by
  cases h with
  | null pending found => simp [weightOfItems_concat, weight]
  | leaf pending found text => simp [weightOfItems_concat, weight]
  | sequence pending found items =>
    rw [weightOfItems_concat, weight, weightOfItems_append, weightOfItems_reverse]
    omega
  | mapping pending found entries =>
    have hvisible := weightOfItems_visible_le options entries
    rw [weightOfItems_concat, weight, weightOfItems_append, weightOfItems_reverse]
    omega

/-- A walk comes to the same texts from all states that it goes through. -/
theorem Visits.outcome_eq (h : Visits options n walk last) :
    walk.outcome options = last.outcome options := by
  induction h with
  | none walk => rfl
  | more hvisit _ ih => rw [hvisit.outcome_eq, ih]

/-- No more visits are made than there are nodes. -/
theorem Visits.add_weight_le (h : Visits options n walk last) :
    n + weightOfItems last.pending ≤ weightOfItems walk.pending := by
  induction h with
  | none walk => omega
  | more hvisit _ ih =>
    have := hvisit.weight_lt
    omega

/-- When nothing is pending any more, what is found is what the collector finds in the tree. -/
theorem Visits.eq_of_pending_eq_nil {tree : Node} (h : Visits options n ⟨[tree], []⟩ last)
    (hlast : last.pending = []) : last = ⟨[], collectLeaves options tree⟩ := by
  obtain ⟨pending, found⟩ := last
  subst hlast
  have houtcome := h.outcome_eq
  rw [outcome_of_nil] at houtcome
  rw [← houtcome]
  rfl

end

/-- Visits go on until nothing is pending, by induction on the weight of what is pending. -/
theorem exists_visits (options : CollectOptions) (walk : Walk) :
    ∃ n found, Visits options n walk ⟨[], found⟩ := by
  generalize hweight : weightOfItems walk.pending = weight
  induction weight using Nat.strongRecOn generalizing walk with
  | ind weight ih =>
    by_cases hpending : walk.pending = []
    · obtain ⟨pending, found⟩ := walk
      subst hpending
      exact ⟨0, found, .none _⟩
    · obtain ⟨next, hvisit⟩ := exists_visit options hpending
      obtain ⟨n, found, hvisits⟩ := ih _ (hweight ▸ hvisit.weight_lt) next rfl
      exact ⟨n + 1, found, .more hvisit hvisits⟩

/-- The collector is the one function that keeps to the equations of the recursion. It gets there by
visits from the root, which come to an end: never are more visits made than the tree has nodes, and
wherever no visit can follow, nothing is pending and the collected texts are found. -/
theorem collects_by_recursion (options : CollectOptions) :
    (∀ collect : Node → List String,
      Recursion options collect ↔ collect = collectLeaves options) ∧
    ∀ tree : Node,
      (∃ n, Visits options n ⟨[tree], []⟩ ⟨[], collectLeaves options tree⟩) ∧
      ∀ n walk, Visits options n ⟨[tree], []⟩ walk →
        n ≤ tree.weight ∧
          ((∀ next, ¬Visit options walk next) → walk = ⟨[], collectLeaves options tree⟩) := by
  have heq : collectLeaves options = leaves options := funext (collectLeaves_eq_leaves options)
  refine ⟨fun collect => ⟨fun h => ?_, fun h => ?_⟩, fun tree => ⟨?_, fun n walk h => ⟨?_, ?_⟩⟩⟩
  · rw [heq]
    exact funext h.eq_leaves
  · rw [h, heq]
    exact recursion_leaves options
  · obtain ⟨n, found, hvisits⟩ := exists_visits options ⟨[tree], []⟩
    exact ⟨n, hvisits.eq_of_pending_eq_nil rfl ▸ hvisits⟩
  · have hweight := h.add_weight_le
    rw [weightOfItems, weightOfItems] at hweight
    omega
  · intro hstopped
    by_cases hpending : walk.pending = []
    · exact h.eq_of_pending_eq_nil hpending
    · obtain ⟨next, hvisit⟩ := exists_visit options hpending
      exact absurd hvisit (hstopped next)

/-- Of a page with attributes, a script and two other elements, two texts are found by six visits.
-/
theorem collects_by_recursion_of_page :
    let options : CollectOptions := { ignore := ⟨["script"]⟩ }
    let page : Node := .mapping [("$", .mapping [("title", .leaf "Hi")]), ("_", .leaf " Hello "),
      ("script", .leaf "x"), ("p", .sequence [.null, .mapping [("b", .leaf "you")]])]
    Visits options 6 ⟨[page], []⟩ ⟨[], [" Hello ", "you"]⟩ ∧ 6 ≤ page.weight ∧
      collectLeaves options page = [" Hello ", "you"] := by
  intro options page
  let bold : Node := .mapping [("b", .leaf "you")]
  have hvisits : Visits options 6 ⟨[page], []⟩ ⟨[], [" Hello ", "you"]⟩ :=
    .more (.mapping [] [] _) <| .more (.leaf [.sequence [.null, bold]] [] " Hello ") <|
      .more (.sequence [] [" Hello "] [.null, bold]) <| .more (.null [bold] [" Hello "]) <|
      .more (.mapping [] [" Hello "] _) <| .more (.leaf [] [" Hello "] "you") <| .none _
  obtain ⟨hweight, hcollected⟩ := ((collects_by_recursion options).2 page).2 6 _ hvisits
  have hstopped (next : Walk) : ¬Visit options ⟨[], [" Hello ", "you"]⟩ next := by
    intro hvisit
    have := hvisit.weight_lt
    simp [weightOfItems] at this
  exact ⟨hvisits, hweight, ((Walk.mk.injEq ..).mp (hcollected hstopped)).2.symm⟩

end LocaleLint.Node
