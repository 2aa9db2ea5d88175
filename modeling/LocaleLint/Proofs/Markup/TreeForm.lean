import LocaleLint.Proofs.Markup.Content
import Mathlib.Data.List.Nodup

/-!
# The form of document trees

The tree of an element is a text, or a mapping of what the element holds: its text under `_`, its
attributes under `$`, and the elements of each tag in a sequence under that tag. `Node.IsElement`
says so, and the main result `parse_has_form` that the tree of every accepted text is a mapping from
the tag of its root to such a tree, whatever the tags are called. A child element may be named like
a reserved key; its sequence then stands under that key, and the form is kept.

The invariant of a run is that the open frames hold nothing else and that the root, once it is
complete, is such a tree (`Building.Sound`). Every event keeps it, so it holds of all lists of
events, those of no document included.
-/

set_option autoImplicit false

namespace LocaleLint

namespace Node

/-! ## Trees of elements -/

/-- Entries of a mapping that is not empty: no two have one key. -/
structure IsFilledMap (entries : List (String × Node)) : Prop where
  ne_nil : entries ≠ []
  nodup : (entries.map Prod.fst).Nodup

mutual

/-- The tree of an element: its text, or a mapping of what it holds. -/
inductive IsElement : Node → Prop
  | leaf (text : String) : IsElement (.leaf text)
  | mapping {entries : List (String × Node)} : IsFilledMap entries →
      (∀ entry ∈ entries, IsEntry entry.1 entry.2) → IsElement (.mapping entries)

/-- What the mapping of an element holds under a key: its text, its attributes, or its child
elements with one tag. -/
inductive IsEntry : String → Node → Prop
  | text (text : String) : IsEntry textKey (.leaf text)
  | attributes {values : List (String × Node)} : IsFilledMap values →
      (∀ value ∈ values, ∃ text, value.2 = .leaf text) → IsEntry attributeKey (.mapping values)
  | children {items : List Node} (tag : String) : items ≠ [] →
      (∀ item ∈ items, IsElement item) → IsEntry tag (.sequence items)

end

/-! ## Parts of trees -/

/-- The parts of a tree: the tree, and the parts of its items and values. -/
inductive Part : Node → Node → Prop
  | refl (node : Node) : Part node node
  | item {part item : Node} {items : List Node} : item ∈ items → Part part item →
      Part part (.sequence items)
  | value {part : Node} {entry : String × Node} {entries : List (String × Node)} :
      entry ∈ entries → Part part entry.2 → Part part (.mapping entries)

/-- A node that is not null, neither an empty sequence nor an empty mapping, and no sequence with
a sequence for an item. -/
structure IsSolid (node : Node) : Prop where
  ne_null : node ≠ .null
  ne_sequence_nil : node ≠ .sequence []
  ne_mapping_nil : node ≠ .mapping []
  flat : ∀ items inner, node = .sequence items → .sequence inner ∉ items

/-- A text is solid, even an empty one. -/
theorem isSolid_leaf (text : String) : IsSolid (.leaf text) := by
  constructor <;> simp

/-- A mapping that is not empty is solid. -/
theorem isSolid_mapping {entries : List (String × Node)} (h : entries ≠ []) :
    IsSolid (.mapping entries) := by
  constructor <;> simp [h]

/-- The tree of an element is solid. -/
theorem IsElement.isSolid {node : Node} (h : node.IsElement) : node.IsSolid := by
  cases h with
  | leaf text => exact isSolid_leaf text
  | mapping hmap _ => exact isSolid_mapping hmap.ne_nil

/-- What an element holds under a key is solid. -/
theorem IsEntry.isSolid {key : String} {node : Node} (h : IsEntry key node) : node.IsSolid := by
  cases h with
  | text text => exact isSolid_leaf text
  | attributes hmap _ => exact isSolid_mapping hmap.ne_nil
  | @children items _ hne hitems =>
    refine ⟨by simp, by simp [hne], by simp, ?_⟩
    rintro _ inner ⟨⟩ hmem
    cases hitems _ hmem

/-- All parts of an element's tree, and of what its mapping holds, are solid. -/
theorem Part.isSolid {part node : Node} (hpart : Part part node)
    (h : node.IsElement ∨ ∃ key, IsEntry key node) : part.IsSolid := by
  induction hpart with
  | refl =>
    rcases h with h | ⟨key, h⟩
    · exact h.isSolid
    · exact h.isSolid
  | item hitem _ ih =>
    rcases h with h | ⟨key, h⟩
    · cases h
    · cases h with
      | children _ _ hitems => exact ih (.inl (hitems _ hitem))
  | value hentry _ ih =>
    rcases h with h | ⟨key, h⟩
    · cases h with
      | mapping _ hentries => exact ih (.inr ⟨_, hentries _ hentry⟩)
    · cases h with
      | attributes _ hvalues =>
        obtain ⟨text, hleaf⟩ := hvalues _ hentry
        exact ih (.inl (hleaf ▸ .leaf text))

end Node

namespace Markup

/-! ## Attributes -/

namespace Attribute

/-- A key that has been read before is not read again. -/
theorem key_not_mem_of_cut {seen : List (List Char × Nat)} {start : Nat} {c : Char} {s : List Char}
    {result : Cut} (h : cut seen start c s = .ok result) : result.key ∉ seen.map Prod.fst := by
  simp only [cut] at h
  split at h
  · cases h
  · split at h
    · cases h
    · next hearlier =>
      split at h
      · cases h
      · cases h
        intro hmem
        obtain ⟨entry, hentry, hkey⟩ := List.mem_map.1 hmem
        have hne := List.lookup_eq_none_iff.1 hearlier entry hentry
        simp [hkey] at hne

/-- The attributes of a tag that is read have different names. -/
theorem nodup_keys_of_readAll {seen : List (List Char × Nat)} {found attributes : List Attribute}
    {start : Nat} {s : List Char} (h : readAll seen found start s = .ok attributes)
    (hseen : seen.map Prod.fst = found.map Attribute.key)
    (hnodup : (found.map Attribute.key).Nodup) : (attributes.map Attribute.key).Nodup := by
  fun_induction readAll seen found start s with
  | case1 =>
    cases h
    rw [List.map_reverse]
    exact List.nodup_reverse.2 hnodup
  | case2 => cases h
  | case3 => cases h
  | case4 seen found _ _ _ _ _ _ result hcut _ _ ih =>
    refine ih h ?_ ?_
    · rw [List.map_cons, List.map_cons, hseen]
    · rw [List.map_cons, List.nodup_cons, ← hseen]
      exact ⟨key_not_mem_of_cut hcut, hseen ▸ hnodup⟩

/-- No two attributes of a tag have one key. -/
theorem nodup_keys_of_ofTag {tag : Tag} {attributes : List Attribute}
    (h : ofTag tag = .ok attributes) : (attributes.map Attribute.key).Nodup :=
  nodup_keys_of_readAll h rfl List.nodup_nil

end Attribute

/-! ## Frames -/

namespace Frame

/-- What a frame may hold: attributes with different names and texts for values, and under each
tag one or more trees of elements. -/
structure Sound (frame : Frame) : Prop where
  names : (frame.attributes.map Prod.fst).Nodup
  values : ∀ value ∈ frame.attributes, ∃ text, value.2 = .leaf text
  tags : (frame.children.map Prod.fst).Nodup
  children : ∀ child ∈ frame.children, child.2 ≠ [] ∧ ∀ item ∈ child.2, item.IsElement

/-- A frame that was just opened holds what it may hold. -/
theorem sound_opened {tag : Tag} {attributes : List Attribute}
    (h : Attribute.ofTag tag = .ok attributes) : (opened tag.name attributes).Sound where
  names := by
    have hinjective : Function.Injective String.ofList := fun _ _ => String.ofList_injective
    have hnodup := (Attribute.nodup_keys_of_ofTag h).map hinjective
    rw [List.map_map] at hnodup
    rw [opened, List.map_map]
    exact hnodup
  values value hvalue := by
    obtain ⟨found, -, rfl⟩ := List.mem_map.1 hvalue
    exact ⟨_, rfl⟩
  tags := List.nodup_nil
  children _ hchild := by cases hchild

namespace Sound

variable {frame : Frame}

/-- Texts and character data are no part of what a frame holds under keys. -/
theorem addText (h : frame.Sound) (content : List Char) : (frame.addText content).Sound :=
  ⟨h.names, h.values, h.tags, h.children⟩

/-- Character data may be added to a frame. -/
theorem addCdata (h : frame.Sound) (content : List Char) : (frame.addCdata content).Sound :=
  ⟨h.names, h.values, h.tags, h.children⟩

/-- A child is added to those of its tag, or starts the sequence of a new tag. -/
theorem addChild (h : frame.Sound) (tag : String) {node : Node} (hnode : node.IsElement) :
    (frame.addChild tag node).Sound where
  names := h.names
  values := h.values
  tags := by
    rw [Frame.addChild, Entries.alter_eq_put]
    exact Entries.nodup_keys_put tag _ h.tags
  children child hchild := by
    rw [Frame.addChild, Entries.alter_eq_put] at hchild
    rcases Entries.eq_or_mem_of_mem_put hchild with rfl | hchild
    · refine ⟨by simp, fun item hitem => ?_⟩
      rcases List.mem_append.1 hitem with hearlier | hitem
      · cases hget : Entries.get? frame.children tag with
        | none => simp [hget] at hearlier
        | some items =>
          obtain ⟨before, after, hchildren, -⟩ := List.lookup_eq_some_iff.1 hget
          rw [hget] at hearlier
          exact (h.children (tag, items) (by simp [hchildren])).2 item hearlier
      · exact List.mem_singleton.1 hitem ▸ hnode
    · exact h.children child hchild

/-- Under the reserved keys a frame holds a text or attributes. -/
theorem isEntry_reserved (h : frame.Sound) {entry : String × Node}
    (hentry : entry ∈ frame.reserved) : Node.IsEntry entry.1 entry.2 := by
  rcases List.mem_append.1 hentry with htext | hattributes
  · split at htext
    · rw [List.mem_singleton.1 htext]
      exact .text frame.text
    · cases htext
  · split at hattributes
    · cases hattributes
    · next hne =>
      rw [List.mem_singleton.1 hattributes]
      exact .attributes ⟨by simpa using hne, h.names⟩ h.values

/-- A frame becomes the tree of an element. A child element with a reserved name takes the place
of the text or of the attributes, as a sequence. -/
theorem isElement_node (h : frame.Sound) : frame.node.IsElement := by
  rw [node]
  split
  · exact .leaf frame.text
  · next hholds =>
    have htags : ((frame.children.map fun child => (child.1, Node.sequence child.2)).map
        Prod.fst).Nodup := by
      simpa [Function.comp_def] using h.tags
    have hperm := Entries.putAll_perm frame.nodup_keys_reserved htags
    rw [← entries_eq] at hperm
    refine .mapping ⟨fun hnil => hholds ?_, ?_⟩ fun entry hentry => ?_
    · rw [hnil, List.nil_perm, List.append_eq_nil_iff, List.map_eq_nil_iff] at hperm
      obtain ⟨hreserved, hchildren⟩ := hperm
      rw [hchildren, List.map_nil, List.map_nil, List.filter_eq_self.2 (by simp), reserved,
        List.append_eq_nil_iff] at hreserved
      simpa [hchildren] using hreserved.2
    · rw [entries_eq]
      exact Entries.nodup_keys_putAll _ frame.nodup_keys_reserved
    · rcases List.mem_append.1 (hperm.mem_iff.1 hentry) with hreserved | hchild
      · exact h.isEntry_reserved (List.mem_filter.1 hreserved).1
      · obtain ⟨child, hmem, rfl⟩ := List.mem_map.1 hchild
        obtain ⟨hne, hitems⟩ := h.children child hmem
        exact .children child.1 hne hitems

end Sound

end Frame

/-! ## Runs -/

namespace Building

/-- The invariant of a run: the open frames hold what they may hold, and the root is the tree of an
element once it is complete. -/
structure Sound (building : Building) : Prop where
  frames : ∀ frame ∈ building.frames, frame.Sound
  root : ∀ tag node, building.root = some (tag, node) → node.IsElement

variable {building next : Building}

/-- The invariant holds where nothing has been built. -/
theorem sound_nothing : Sound {} where
  frames _ hframe := by cases hframe
  root _ _ hroot := by cases hroot

/-- What a tag opens holds its attributes. -/
theorem sound_of_opening {tag : Tag} {frame : Frame} (h : building.opening tag = .ok frame) :
    frame.Sound := by
  obtain ⟨attributes, htag, rfl, -⟩ := exists_of_opening h
  exact Frame.sound_opened htag

/-- A complete element goes into the innermost open element or becomes the root. -/
theorem Sound.attach (h : building.Sound) (tag : String) {node : Node} (hnode : node.IsElement) :
    (building.attach tag node).Sound := by
  obtain ⟨frames, root⟩ := building
  cases frames with
  | nil =>
    refine ⟨h.frames, fun _ _ hroot => ?_⟩
    cases hroot
    exact hnode
  | cons frame outer =>
    obtain ⟨hframe, houter⟩ := List.forall_mem_cons.1 h.frames
    exact ⟨List.forall_mem_cons.2 ⟨hframe.addChild tag hnode, houter⟩, h.root⟩

/-- One event keeps the invariant. -/
theorem Sound.step (h : building.Sound) {event : Event} (hstep : building.step event = .ok next) :
    next.Sound := by
  obtain ⟨frames, root⟩ := building
  cases event with
  | text content =>
    cases frames with
    | nil =>
      simp only [Building.step] at hstep
      split at hstep
      · cases hstep
        exact h
      · cases hstep
    | cons frame outer =>
      obtain ⟨hframe, houter⟩ := List.forall_mem_cons.1 h.frames
      simp only [Building.step] at hstep
      split at hstep
      · cases hstep
        exact ⟨List.forall_mem_cons.2 ⟨hframe.addText _, houter⟩, h.root⟩
      · cases hstep
  | cdata content =>
    cases frames with
    | nil => cases hstep
    | cons frame outer =>
      obtain ⟨hframe, houter⟩ := List.forall_mem_cons.1 h.frames
      cases hstep
      exact ⟨List.forall_mem_cons.2 ⟨hframe.addCdata content, houter⟩, h.root⟩
  | start tag =>
    obtain ⟨frame, hopening, rfl⟩ := exists_of_map_ok hstep
    exact ⟨List.forall_mem_cons.2 ⟨sound_of_opening hopening, h.frames⟩, h.root⟩
  | empty tag =>
    obtain ⟨frame, hopening, rfl⟩ := exists_of_map_ok hstep
    exact h.attach frame.name (sound_of_opening hopening).isElement_node
  | stop =>
    cases frames with
    | nil =>
      cases hstep
      exact h
    | cons frame outer =>
      obtain ⟨hframe, houter⟩ := List.forall_mem_cons.1 h.frames
      cases hstep
      have hrest : Sound ⟨outer, root⟩ := ⟨houter, h.root⟩
      exact hrest.attach frame.name hframe.isElement_node

/-- A run keeps the invariant. -/
theorem Sound.steps (h : building.Sound) {events : List Event}
    (hsteps : building.steps events = .ok next) : next.Sound := by
  induction events generalizing building with
  | nil =>
    cases hsteps
    exact h
  | cons event events ih =>
    obtain ⟨middle, hstep, hrest⟩ := exists_of_bind_ok hsteps
    exact ih (h.step hstep) hrest

/-- A finished run has one root, and nothing is open. -/
theorem Sound.finish (h : building.Sound) {node : Node} (hfinish : building.finish = .ok node) :
    ∃ tag tree, node = .mapping [(tag, tree)] ∧ tree.IsElement := by
  obtain ⟨frames, root⟩ := building
  cases frames with
  | cons frame outer => cases hfinish
  | nil =>
    cases root with
    | none => cases hfinish
    | some root =>
      cases hfinish
      exact ⟨root.1, root.2, rfl, h.root _ _ rfl⟩

end Building

/-- Whatever events have a tree, it is a mapping from one tag to the tree of an element. -/
theorem exists_isElement_of_treeOf {events : List Event} {node : Node}
    (h : treeOf events = .ok node) :
    ∃ tag tree, node = .mapping [(tag, tree)] ∧ tree.IsElement := by
  obtain ⟨building, hsteps, hfinish⟩ := exists_of_bind_ok h
  exact (Building.sound_nothing.steps hsteps).finish hfinish

/-! ## Documents -/

/-- **The tree of an accepted text** is a mapping with one entry, from the tag of the root to the
tree of an element. No part of it is null, an empty sequence or an empty mapping, and no sequence
has a sequence for an item. -/
theorem parse_has_form {text : String} {node : Node} (h : parse text = .ok node) :
    (∃ root tree, IsDocument (eventsOf (dropMark text.toList)) root ∧
      node = .mapping [(String.ofList root.name, tree)] ∧ tree.IsElement) ∧
      ∀ part, Node.Part part node → part.IsSolid := by
  have hevents := (parseList_eq_ok_iff.1 h).2
  obtain ⟨tag, tree, hnode, htree⟩ := exists_isElement_of_treeOf hevents
  obtain ⟨-, root, hroot, hnamed⟩ := parse_eq_ok_iff.1 h
  constructor
  · have hroottree : tree = root.tree := by
      rw [hnode] at hnamed
      simp only [Node.mapping.injEq, List.cons.injEq, Prod.mk.injEq, and_true] at hnamed
      exact hnamed.2
    exact ⟨root, tree, hroot, hroottree ▸ hnamed, htree⟩
  · intro part hpart
    rw [hnode] at hpart
    cases hpart with
    | refl => exact Node.isSolid_mapping (by simp)
    | value hentry hpart =>
      rw [List.mem_singleton.1 hentry] at hpart
      exact hpart.isSolid (.inl htree)

/-- Child elements with the names of both reserved keys, next to a text and an attribute. -/
theorem parse_has_form_of_reserved_tags :
    let text := "<a b=\"x\">t<_>u<c/></_><$/></a>"
    let node := Node.mapping [("a", .mapping
      [("_", .sequence [.mapping [("_", .leaf "u"), ("c", .sequence [.leaf ""])]]),
        ("$", .sequence [.leaf ""])])]
    parse text = .ok node ∧
      (∃ root tree, IsDocument (eventsOf (dropMark text.toList)) root ∧
        node = .mapping [(String.ofList root.name, tree)] ∧ tree.IsElement) ∧
      ∀ part, Node.Part part node → part.IsSolid := by
  intro text node
  have hparse : parse text = .ok node := by decide +kernel
  exact ⟨hparse, parse_has_form hparse⟩

end Markup

end LocaleLint
