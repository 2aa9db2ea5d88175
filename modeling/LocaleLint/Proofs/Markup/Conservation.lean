import LocaleLint.Proofs.Collect
import LocaleLint.Proofs.Markup.Content

/-!
# What the tree keeps of the texts of a document

Every element of a document has a text of its own and the values of its attributes. The
tree keeps them under two reserved keys, beside its child elements, so a child whose tag
is a reserved key takes the place of what stands there. The main result
`collected_perm_iff` says that this is the only loss: what is collected of an accepted
document, together with what such children shadow, is exactly the texts and attribute
values of its elements, up to order and space, and nothing is lost exactly when no child
shadows anything but space.

The induction is over the content of elements (`leaves_children_perm`); its step is
`leaves_node_perm`, which accounts for one frame.
-/

set_option autoImplicit false

namespace LocaleLint.Markup

/-! ## The texts of an element -/

/-- The texts that are more than space. -/
def nonblank (texts : List String) : List String :=
  texts.filter fun text => !Text.isAll Text.isSpace text

namespace Content

/-- The tag of a piece that is an element. -/
def tag? : Content → Option String
  | .element name _ _ => some (String.ofList name)
  | _ => none

end Content

namespace Element

/-- The text that stands directly in the element. -/
def text (element : Element) : String :=
  String.ofList (Content.textOf element.content)

/-- The values of the attributes. -/
def values (element : Element) : List String :=
  element.attributes.map fun found => String.ofList found.value

/-- The texts of the element itself: what stands directly in it and its attribute values. -/
def texts (element : Element) : List String :=
  element.text :: element.values

/-- The tags of the child elements. -/
def childTags (element : Element) : List String :=
  element.content.filterMap Content.tag?

/-- The texts of the element itself whose place in the tree a child element takes. -/
def shadowed (element : Element) : List String :=
  nonblank
    ((if Node.textKey ∈ element.childTags then [element.text] else []) ++
      if Node.attributeKey ∈ element.childTags then element.values else [])

end Element

namespace Content

/-- The texts and attribute values of all elements of content. -/
def allTexts (contents : List Content) : List String :=
  (elements contents).flatMap Element.texts

/-- All texts whose place a child element takes. -/
def allShadowed (contents : List Content) : List String :=
  (elements contents).flatMap Element.shadowed

/-- The child elements of content are those of its pieces that have a tag. -/
theorem tags_children (contents : List Content) :
    (children contents).map Prod.fst = contents.filterMap tag? := by
  induction contents using inductionOn with
  | nil => simp [children]
  | text content rest ih =>
    rw [children, ih, List.filterMap_cons_none (by rfl)]
  | cdata content rest ih =>
    rw [children, ih, List.filterMap_cons_none (by rfl)]
  | comment content rest ih =>
    rw [children, ih, List.filterMap_cons_none (by rfl)]
  | element name attributes content rest _ ih =>
    rw [children, List.map_cons, ih, List.filterMap_cons_some (by rfl)]

end Content

/-- The texts of joined lists that are more than space are those of both. -/
theorem nonblank_append (first second : List String) :
    nonblank (first ++ second) = nonblank first ++ nonblank second :=
  List.filter_append ..

/-! ## One frame -/

namespace Frame

/-- What is found under the reserved keys of a frame is its text and its attribute values, but
for space, without those whose key is among `tags`. -/
theorem nonblank_leaves_reserved (element : Element) (children : List (String × Node))
    (tags : List String) :
    let frame := (Frame.opened element.name element.attributes).extend element.content children
    nonblank ((frame.reserved.filter fun entry => entry.1 ∉ tags).flatMap
        fun entry => Node.leaves Node.everything entry.2) =
      nonblank ((if Node.textKey ∈ tags then [] else [element.text]) ++
        if Node.attributeKey ∈ tags then [] else element.values) := by
  intro frame
  have htext : frame.text = element.text := by
    simp [frame, opened, extend, Element.text]
  have hvalues : Node.leaves Node.everything (.mapping frame.attributes) = element.values := by
    rw [Node.leaves, Node.leavesOfEntries_everything]
    simp only [frame, opened, extend, Element.values, Node.leaves, List.flatMap_map]
    exact (List.map_eq_flatMap ..).symm
  have hfirst : nonblank
      (((if frame.keepsText then [(Node.textKey, Node.leaf frame.text)] else []).filter
        fun entry => entry.1 ∉ tags).flatMap fun entry => Node.leaves Node.everything entry.2) =
      nonblank (if Node.textKey ∈ tags then [] else [element.text]) := by
    by_cases hkey : Node.textKey ∈ tags
    · split <;> simp [hkey]
    · rw [if_neg hkey, ← htext]
      split
      · simp [hkey, Node.leaves]
      · next hkeeps =>
        have hspace : Text.isAll Text.isSpace frame.text = true := by
          simp only [keepsText, Bool.or_eq_true, not_or, Bool.not_eq_true', Bool.not_eq_false]
            at hkeeps
          exact hkeeps.2
        simp [nonblank, hspace]
  have hsecond : nonblank
      (((if frame.attributes.isEmpty then []
        else [(Node.attributeKey, Node.mapping frame.attributes)]).filter
        fun entry => entry.1 ∉ tags).flatMap fun entry => Node.leaves Node.everything entry.2) =
      nonblank (if Node.attributeKey ∈ tags then [] else element.values) := by
    by_cases hkey : Node.attributeKey ∈ tags
    · split <;> simp [hkey]
    · rw [if_neg hkey, ← hvalues]
      split
      · next hempty => simp [List.isEmpty_iff.1 hempty, Node.leaves, Node.leavesOfEntries]
      · simp [hkey]
  rw [reserved, List.filter_append, List.flatMap_append, nonblank_append, hfirst, hsecond,
    nonblank_append]

end Frame

/-- The groups of child elements have what the child elements have, up to order. -/
theorem leaves_grouped_perm (children : List (String × Node)) :
    (((Entries.grouped children).map fun child => (child.1, Node.sequence child.2)).flatMap
        fun entry => Node.leaves Node.everything entry.2).Perm
      (children.flatMap fun child => Node.leaves Node.everything child.2) := by
  have hgroups := Entries.grouped_flatMap_perm (Node.leaves Node.everything) children
  simpa only [List.flatMap_map, Node.leaves, Node.leavesOfItems_everything] using hgroups

/-- What is kept of the texts of an element, and what is shadowed of them, are all of them. -/
theorem kept_append_shadowed_perm (element : Element) :
    (nonblank ((if Node.textKey ∈ element.childTags then [] else [element.text]) ++
        if Node.attributeKey ∈ element.childTags then [] else element.values) ++
      element.shadowed).Perm (nonblank element.texts) := by
  rw [Element.shadowed, ← nonblank_append]
  refine List.Perm.filter _ ?_
  rw [Element.texts]
  split
  · split
    · simp
    · simp
  · split <;> simp

namespace Frame

/-- The tree of a frame has the texts of the element, without those that its child elements
shadow, and what the child elements have. -/
theorem leaves_node_perm (element : Element) :
    (nonblank (Node.leaves Node.everything element.tree) ++ element.shadowed).Perm
      (nonblank element.texts ++ nonblank ((Content.children element.content).flatMap
        fun child => Node.leaves Node.everything child.2)) := by
  have htags := Content.tags_children element.content
  generalize hchildren : Content.children element.content = children at htags
  let frame := (opened element.name element.attributes).extend element.content children
  have hgroups : frame.children = Entries.grouped children := children_opened ..
  have htree : element.tree = frame.node := by rw [Element.tree, hchildren]
  rw [htree, node]
  split
  · next hleaf =>
    simp only [Bool.and_eq_true, List.isEmpty_iff] at hleaf
    have hnone : children = [] := Entries.grouped_eq_nil_iff.1 (hgroups ▸ hleaf.2)
    have hvalues : element.values = [] := by
      simpa [frame, opened, extend, Element.values] using hleaf.1
    have htext : frame.text = element.text := by
      simp [frame, opened, extend, Element.text]
    have htagless : element.childTags = [] := by
      rw [Element.childTags, ← htags, hnone, List.map_nil]
    simp [Node.leaves, Element.shadowed, Element.texts, htagless, hvalues, hnone, htext, nonblank]
  · have hnews : ((Entries.grouped children).map fun child =>
        (child.1, Node.sequence child.2)).map Prod.fst = element.childTags.eraseDups := by
      rw [Element.childTags, ← htags, ← Entries.keys_grouped, List.map_map]
      rfl
    have hentries := Entries.putAll_perm frame.nodup_keys_reserved
      (hnews ▸ Entries.nodup_eraseDups element.childTags)
    rw [hnews] at hentries
    simp only [List.mem_eraseDups] at hentries
    have hleaves := hentries.flatMap_right fun entry => Node.leaves Node.everything entry.2
    rw [List.flatMap_append] at hleaves
    have hkept := nonblank_leaves_reserved element children element.childTags
    have hsplit := (hleaves.trans ((leaves_grouped_perm children).append_left _)).filter
      fun text => !Text.isAll Text.isSpace text
    rw [Node.leaves, Node.leavesOfEntries_everything, entries_eq, hgroups]
    refine (hsplit.append_right _).trans ?_
    rw [List.filter_append]
    show (nonblank _ ++ nonblank _ ++ _).Perm _
    rw [hkept]
    refine .trans ?_ ((kept_append_shadowed_perm element).append_right _)
    rw [List.append_assoc, List.append_assoc]
    exact List.perm_append_comm.append_left _

end Frame

/-! ## All elements -/

/-- What is found in the trees of child elements, with what is shadowed anywhere below, are the
texts of all elements below. -/
theorem leaves_children_perm (contents : List Content) :
    (nonblank ((Content.children contents).flatMap
        fun child => Node.leaves Node.everything child.2) ++ Content.allShadowed contents).Perm
      (nonblank (Content.allTexts contents)) := by
  induction contents using Content.inductionOn with
  | nil => simp [Content.children, Content.allShadowed, Content.allTexts, Content.elements, nonblank]
  | text s rest ih => simpa [Content.children, Content.allShadowed, Content.allTexts,
      Content.elements] using ih
  | cdata s rest ih => simpa [Content.children, Content.allShadowed, Content.allTexts,
      Content.elements] using ih
  | comment s rest ih => simpa [Content.children, Content.allShadowed, Content.allTexts,
      Content.elements] using ih
  | element name attributes content rest ihinner ih =>
    let element : Element := ⟨name, attributes, content⟩
    have hnode := Frame.leaves_node_perm element
    rw [show element.content = content from rfl] at hnode
    have hchildren : Content.children (.element name attributes content :: rest) =
        (String.ofList name, element.tree) :: Content.children rest := by
      rw [Content.children]
      rfl
    have helements : Content.elements (.element name attributes content :: rest) =
        element :: (Content.elements content ++ Content.elements rest) := by
      rw [Content.elements]
      rfl
    rw [Content.allShadowed, Content.allTexts] at ihinner ih ⊢
    rw [hchildren, helements]
    simp only [List.flatMap_cons, List.flatMap_append, nonblank_append]
    -- text by text, the three permutations are sums of counts
    rw [List.perm_iff_count] at hnode ihinner ih ⊢
    intro text
    have hnode := hnode text
    have hinner := ihinner text
    have hrest := ih text
    simp only [List.count_append] at hnode hinner hrest ⊢
    omega

/-- Whether a child element takes the place of a text that is more than space. -/
def Element.Shadows (element : Element) : Prop :=
  (Node.textKey ∈ element.childTags ∧ Text.isAll Text.isSpace element.text = false) ∨
    (Node.attributeKey ∈ element.childTags ∧
      ∃ value ∈ element.values, Text.isAll Text.isSpace value = false)

/-- No text of an element is lost exactly if no child takes the place of one. -/
theorem Element.shadowed_eq_nil_iff (element : Element) :
    element.shadowed = [] ↔ ¬element.Shadows := by
  have hvalues : nonblank element.values = [] ↔
      ¬∃ value ∈ element.values, Text.isAll Text.isSpace value = false := by
    simp [nonblank]
  have htext : nonblank [element.text] = [] ↔ ¬Text.isAll Text.isSpace element.text = false := by
    simp [nonblank]
  rw [shadowed, nonblank_append, List.append_eq_nil_iff, Shadows, not_or]
  refine and_congr ?_ ?_
  · split
    · next hkey => simpa [hkey] using htext
    · next hkey => simp [hkey, nonblank]
  · split
    · next hkey => simpa [hkey] using hvalues
    · next hkey => simp [hkey, nonblank]

/-- No text of content is lost exactly if this holds for each of its elements. -/
theorem Content.allShadowed_eq_nil_iff (contents : List Content) :
    allShadowed contents = [] ↔ ∀ element ∈ elements contents, ¬element.Shadows := by
  simp only [allShadowed, List.flatMap_eq_nil_iff, Element.shadowed_eq_nil_iff]

/-! ## The document -/

/-- Whether what is collected of a tree, with nothing ignored and with attributes, are the texts
and attribute values of all elements of a document, up to order and space. -/
def Conserves (node : Node) (root : Element) : Prop :=
  (nonblank (Node.collectLeaves Node.everything node)).Perm
    (nonblank (Content.allTexts [root.toContent]))

/-- An accepted text spells a document. What is collected of its tree are the texts and
attribute values of its elements without those that child elements with reserved names
shadow, and it is all of them exactly when no child element shadows more than space. -/
theorem collected_perm_iff {text : String} {node : Node} (h : parse text = .ok node) :
    (∃ root, IsDocument (eventsOf (dropMark text.toList)) root) ∧
      ∀ root, IsDocument (eventsOf (dropMark text.toList)) root →
        (nonblank (Node.collectLeaves Node.everything node) ++
            Content.allShadowed [root.toContent]).Perm
          (nonblank (Content.allTexts [root.toContent])) ∧
        (Conserves node root ↔
          ∀ element ∈ Content.elements [root.toContent], ¬element.Shadows) := by
  obtain ⟨hfault, root, hroot, -⟩ := parse_eq_ok_iff.1 h
  refine ⟨⟨root, hroot⟩, fun root hroot => ?_⟩
  have hnode : node = .mapping [(String.ofList root.name, root.tree)] := by
    rw [parse_eq_ok_iff.2 ⟨hfault, root, hroot, rfl⟩] at h
    exact (Except.ok.inj h).symm
  have hleaves : Node.collectLeaves Node.everything node =
      (Content.children [root.toContent]).flatMap
        fun child => Node.leaves Node.everything child.2 := by
    rw [hnode, Node.collectLeaves_everything, Node.leaves, Node.leavesOfEntries_everything,
      Content.children_element]
  have hperm := leaves_children_perm [root.toContent]
  rw [← hleaves] at hperm
  refine ⟨hperm, ?_⟩
  rw [← Content.allShadowed_eq_nil_iff, Conserves]
  constructor
  · intro hall
    have hlength := hperm.length_eq
    rw [List.length_append, hall.length_eq] at hlength
    exact List.eq_nil_of_length_eq_zero (by omega)
  · intro hnone
    rwa [hnone, List.append_nil] at hperm

/-- A document with mixed text and a child element is collected in full. -/
theorem conserves_mixed_element :
    ∃ node root, parse "<a>x<b>y</b>z</a>" = .ok node ∧
      IsDocument (eventsOf (dropMark "<a>x<b>y</b>z</a>".toList)) root ∧
      Conserves node root := by
  have hfault : (Events.ofText (dropMark "<a>x<b>y</b>z</a>".toList)).fault = none := by
    decide +kernel
  have hevents : eventsOf (dropMark "<a>x<b>y</b>z</a>".toList) =
      [] ++ (.start ⟨['a'], []⟩ :: [.text ['x'], .start ⟨['b'], []⟩, .text ['y'], .stop,
        .text ['z']] ++ [.stop]) ++ [] := by
    decide +kernel
  have hcontent : Spells [.text ['x'], .start ⟨['b'], []⟩, .text ['y'], .stop, .text ['z']]
      [.text ['x'], .element ['b'] [] [.text ['y']], .text ['z']] :=
    .text (Reference.unescape_of_not_mem (by decide)) <|
      .element (Attribute.ofTag_nil _) (.text (Reference.unescape_of_not_mem (by decide)) .nil) <|
        .text (Reference.unescape_of_not_mem (by decide)) .nil
  have hroot : IsDocument (eventsOf (dropMark "<a>x<b>y</b>z</a>".toList))
      ⟨['a'], [], [.text ['x'], .element ['b'] [] [.text ['y']], .text ['z']]⟩ :=
    ⟨_, _, _, hevents, blank_nil, blank_nil, .element (Attribute.ofTag_nil _) hcontent .nil⟩
  have hparse := parse_eq_ok_iff.2 ⟨hfault, _, hroot, rfl⟩
  refine ⟨_, _, hparse, hroot, ((collected_perm_iff hparse).2 _ hroot).2.2 ?_⟩
  simp [Element.toContent, Content.elements, Element.Shadows, Element.childTags, Content.tag?,
    Node.textKey, Node.attributeKey]

/-- The text of an element with a child element `_` is lost. -/
theorem not_conserves_child_of_text_key :
    ∃ node root, parse "<a>Hello<_/></a>" = .ok node ∧
      IsDocument (eventsOf (dropMark "<a>Hello<_/></a>".toList)) root ∧
      ¬Conserves node root := by
  have hfault : (Events.ofText (dropMark "<a>Hello<_/></a>".toList)).fault = none := by
    decide +kernel
  have hevents : eventsOf (dropMark "<a>Hello<_/></a>".toList) =
      [] ++ (.start ⟨['a'], []⟩ :: [.text "Hello".toList, .empty ⟨['_'], []⟩] ++ [.stop]) ++ [] := by
    decide +kernel
  have hcontent : Spells [.text "Hello".toList, .empty ⟨['_'], []⟩]
      [.text "Hello".toList, .element ['_'] [] []] :=
    .text (Reference.unescape_of_not_mem (by decide)) (.empty (Attribute.ofTag_nil _) .nil)
  have hroot : IsDocument (eventsOf (dropMark "<a>Hello<_/></a>".toList))
      ⟨['a'], [], [.text "Hello".toList, .element ['_'] [] []]⟩ :=
    ⟨_, _, _, hevents, blank_nil, blank_nil, .element (Attribute.ofTag_nil _) hcontent .nil⟩
  have hparse := parse_eq_ok_iff.2 ⟨hfault, _, hroot, rfl⟩
  have htree : Element.tree ⟨['a'], [], [.text "Hello".toList, .element ['_'] [] []]⟩ =
      .mapping [("_", .sequence [.leaf ""])] := by
    simp only [Element.tree, Content.children]
    rfl
  rw [htree] at hparse
  refine ⟨_, _, hparse, hroot, fun hall => ?_⟩
  have hlost : "Hello" ∈ nonblank (Content.allTexts
      [Element.toContent ⟨['a'], [], [.text "Hello".toList, .element ['_'] [] []]⟩]) := by
    simp only [Element.toContent, Content.allTexts, Content.elements]
    decide +kernel
  have hfound := hall.mem_iff.2 hlost
  rw [Node.collectLeaves_everything] at hfound
  revert hfound
  decide +kernel

end LocaleLint.Markup
