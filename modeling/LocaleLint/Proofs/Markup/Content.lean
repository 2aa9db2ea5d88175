import LocaleLint.Proofs.Entries
import LocaleLint.Proofs.Markup.Reading

/-!
# Elements and their content

The elements that a document spells: their names, attributes, texts, character data,
comments and child elements, in the order of the source, with references replaced.
`Spells` is the grammar of the events of content, and `Element.tree` is the tree that is
built of an element. The main statement is `treeOf_eq_ok_iff`: events have a tree exactly
when they are blank text, one complete element and blank text, and then the tree is that
of the element (`parse_eq_ok_iff` for a whole text).

An open element is a frame to which a part of its content has been added, so the
invariant of a run (`Nested`) is a stack of such parts.
-/

set_option autoImplicit false

namespace LocaleLint.Markup

/-- A piece of the content of an element. -/
inductive Content where
  | text (content : List Char)
  | cdata (content : List Char)
  | comment (content : List Char)
  | element (name : List Char) (attributes : List Attribute) (content : List Content)
deriving Repr

/-- An element. -/
structure Element where
  name : List Char
  attributes : List Attribute
  content : List Content
deriving Repr

/-- The element as a piece of content. -/
def Element.toContent (element : Element) : Content :=
  .element element.name element.attributes element.content

namespace Content

/-- Induction over a list of pieces, one piece at a time, with the content of an element
before the pieces that follow it. -/
@[elab_as_elim]
theorem inductionOn {motive : List Content → Prop} (contents : List Content)
    (nil : motive [])
    (text : ∀ content rest, motive rest → motive (.text content :: rest))
    (cdata : ∀ content rest, motive rest → motive (.cdata content :: rest))
    (comment : ∀ content rest, motive rest → motive (.comment content :: rest))
    (element : ∀ name attributes content rest, motive content → motive rest →
      motive (.element name attributes content :: rest)) : motive contents :=
  match contents with
  | [] => nil
  | .text s :: rest => text s rest (inductionOn rest nil text cdata comment element)
  | .cdata s :: rest => cdata s rest (inductionOn rest nil text cdata comment element)
  | .comment s :: rest => comment s rest (inductionOn rest nil text cdata comment element)
  | .element name attributes content :: rest =>
    element name attributes content rest (inductionOn content nil text cdata comment element)
      (inductionOn rest nil text cdata comment element)

/-- The characters that a piece adds to the text of the element it stands in. -/
def characters : Content → List Char
  | .text content => content
  | .cdata content => content
  | _ => []

/-- Whether a piece is character data. -/
def isCdata : Content → Bool
  | .cdata _ => true
  | _ => false

/-- The text that stands directly in an element: its texts and character data, joined. -/
def textOf (contents : List Content) : List Char :=
  contents.flatMap characters

/-- The elements of a list of pieces at any depth, in the order of their start tags. -/
def elements : List Content → List Element
  | [] => []
  | .text _ :: rest => elements rest
  | .cdata _ :: rest => elements rest
  | .comment _ :: rest => elements rest
  | .element name attributes content :: rest =>
    ⟨name, attributes, content⟩ :: elements content ++ elements rest

end Content

/-! ## What is built of content -/

namespace Frame

/-- An element of which nothing but the start tag has been read. -/
def opened (name : List Char) (attributes : List Attribute) : Frame :=
  { name := String.ofList name
    attributes := attributes.map fun found =>
      (String.ofList found.key, .leaf (String.ofList found.value)) }

/-- The frame after content whose child elements have the trees `children`. -/
def extend (frame : Frame) (contents : List Content) (children : List (String × Node)) : Frame :=
  { frame with
    text := frame.text ++ String.ofList (Content.textOf contents)
    hasCdata := frame.hasCdata || contents.any Content.isCdata
    children := children.foldl Entries.addToGroup frame.children }

/-- The child elements of an element are gathered under their tags. -/
theorem children_opened (name : List Char) (attributes : List Attribute) (contents : List Content)
    (children : List (String × Node)) :
    ((opened name attributes).extend contents children).children = Entries.grouped children :=
  Entries.foldl_addToGroup children

/-- The entries of a frame under the reserved keys. -/
def reserved (frame : Frame) : List (String × Node) :=
  (if frame.keepsText then [(Node.textKey, Node.leaf frame.text)] else []) ++
    if frame.attributes.isEmpty then []
    else [(Node.attributeKey, Node.mapping frame.attributes)]

/-- The entries of a frame are those under reserved keys, with the child elements put among them. -/
theorem entries_eq (frame : Frame) :
    frame.entries =
      Entries.putAll frame.reserved
        (frame.children.map fun child => (child.1, Node.sequence child.2)) := by
  rw [entries, Entries.putAll, List.foldl_map]
  rfl

/-- The reserved keys differ. -/
theorem nodup_keys_reserved (frame : Frame) : (frame.reserved.map Prod.fst).Nodup := by
  rw [reserved]
  split <;> split <;> simp [Node.textKey, Node.attributeKey]

/-- Only the keys of text and of attributes are reserved. -/
theorem mem_keys_reserved {frame : Frame} {key : String} (h : key ∈ frame.reserved.map Prod.fst) :
    key = Node.textKey ∨ key = Node.attributeKey := by
  rw [reserved] at h
  split at h <;> split at h <;> simp_all

end Frame

/-- The child elements of content, each with its tag and the tree that is built of it. -/
def Content.children : List Content → List (String × Node)
  | [] => []
  | .text _ :: rest => children rest
  | .cdata _ :: rest => children rest
  | .comment _ :: rest => children rest
  | .element name attributes content :: rest =>
    (String.ofList name, ((Frame.opened name attributes).extend content (children content)).node) ::
      children rest

/-- The tree that is built of an element. -/
def Element.tree (element : Element) : Node :=
  ((Frame.opened element.name element.attributes).extend element.content
    (Content.children element.content)).node

/-- Adds content to an open element. -/
def Frame.add (frame : Frame) (contents : List Content) : Frame :=
  frame.extend contents (Content.children contents)

/-- The tree of an element is that of its frame, after all its content. -/
theorem Element.tree_eq_add (element : Element) :
    element.tree = ((Frame.opened element.name element.attributes).add element.content).node :=
  rfl

namespace Content

/-- The child elements of joined content are those of both parts. -/
theorem children_append (first second : List Content) :
    children (first ++ second) = children first ++ children second := by
  induction first using inductionOn with
  | nil => simp [children]
  | text content rest ih => simpa [children] using ih
  | cdata content rest ih => simpa [children] using ih
  | comment content rest ih => simpa [children] using ih
  | element name attributes content rest _ ih => simpa [children] using ih

/-- An element is its only child element as content, with its tree under its tag. -/
theorem children_element (element : Element) :
    children [element.toContent] = [(String.ofList element.name, element.tree)] := by
  simp [Element.toContent, Element.tree, children]

end Content

namespace Frame

/-- Adding nothing changes no frame. -/
theorem add_nil (frame : Frame) : frame.add [] = frame := by
  simp [add, extend, Content.textOf, Content.children]

/-- Joined content is added part by part. -/
theorem add_append (frame : Frame) (first second : List Content) :
    frame.add (first ++ second) = (frame.add first).add second := by
  simp [add, extend, Content.textOf, Content.children_append, Bool.or_assoc, String.append_assoc]

/-- Adding a text is adding content that is this text. -/
theorem addText_eq_add (frame : Frame) (content : List Char) :
    frame.addText content = frame.add [.text content] := by
  simp [add, extend, addText, Content.textOf, Content.characters, Content.children,
    Content.isCdata]

/-- Adding character data is adding content that is this data. -/
theorem addCdata_eq_add (frame : Frame) (content : List Char) :
    frame.addCdata content = frame.add [.cdata content] := by
  simp [add, extend, addCdata, addText, Content.textOf, Content.characters, Content.children,
    Content.isCdata]

/-- Adding the tree of a child is adding content that is this child. -/
theorem addChild_eq_add (frame : Frame) (element : Element) :
    frame.addChild (String.ofList element.name) element.tree = frame.add [element.toContent] := by
  simp only [add, Content.children_element]
  simp [extend, addChild, Entries.addToGroup, Content.textOf, Content.characters, Content.isCdata,
    Element.toContent]

end Frame

/-! ## The grammar of events -/

/-- The events that spell content. References in texts and in attributes are replaced, and a
comment has no event. -/
inductive Spells : List Event → List Content → Prop
  | nil : Spells [] []
  | text {raw s : List Char} {events : List Event} {contents : List Content} :
      Reference.unescape raw = .ok s → Spells events contents →
      Spells (.text raw :: events) (.text s :: contents)
  | cdata {s : List Char} {events : List Event} {contents : List Content} :
      Spells events contents → Spells (.cdata s :: events) (.cdata s :: contents)
  | empty {tag : Tag} {attributes : List Attribute} {events : List Event}
      {contents : List Content} :
      Attribute.ofTag tag = .ok attributes → Spells events contents →
      Spells (.empty tag :: events) (.element tag.name attributes [] :: contents)
  | element {tag : Tag} {attributes : List Attribute} {inner events : List Event}
      {content contents : List Content} :
      Attribute.ofTag tag = .ok attributes → Spells inner content → Spells events contents →
      Spells (.start tag :: inner ++ .stop :: events)
        (.element tag.name attributes content :: contents)

/-- Events one after the other spell content one after the other. -/
theorem Spells.append {events events' : List Event} {contents contents' : List Content}
    (h : Spells events contents) (h' : Spells events' contents') :
    Spells (events ++ events') (contents ++ contents') := by
  induction h with
  | nil => exact h'
  | text hs _ ih => exact .text hs ih
  | cdata _ ih => exact .cdata ih
  | empty htag _ ih => exact .empty htag ih
  | element htag hinner _ _ ih =>
    rw [List.append_assoc, List.cons_append]
    exact .element htag hinner ih

/-- What spells one element is a tag without content, or a start tag, the content and an end
tag. -/
theorem Spells.element_cases {events : List Event} {root : Element}
    (h : Spells events [root.toContent]) :
    (∃ tag, events = [.empty tag] ∧ tag.name = root.name ∧
      Attribute.ofTag tag = .ok root.attributes ∧ root.content = []) ∨
    ∃ tag inner, events = .start tag :: inner ++ [.stop] ∧ tag.name = root.name ∧
      Attribute.ofTag tag = .ok root.attributes ∧ Spells inner root.content := by
  obtain ⟨name, attributes, content⟩ := root
  generalize hcontents : [Element.toContent ⟨name, attributes, content⟩] = contents at h
  cases h with
  | nil => cases hcontents
  | text _ _ => cases hcontents
  | cdata _ => cases hcontents
  | @empty tag found events contents htag hrest =>
    cases hcontents
    cases hrest
    exact .inl ⟨tag, rfl, rfl, htag, rfl⟩
  | @element tag found inner events content contents htag hinner hrest =>
    cases hcontents
    cases hrest
    exact .inr ⟨tag, inner, rfl, rfl, htag, hinner⟩

/-- Events that are texts of ASCII blanks alone. -/
def Blank (events : List Event) : Prop :=
  ∀ event ∈ events, ∃ content, event = .text content ∧ content.all Text.isAsciiBlank = true

/-- No events are blank. -/
theorem blank_nil : Blank [] := by
  simp [Blank]

/-- One more text of blanks keeps events blank. -/
theorem Blank.concat {events : List Event} (h : Blank events) {content : List Char}
    (hcontent : content.all Text.isAsciiBlank = true) : Blank (events ++ [.text content]) := by
  intro event hevent
  rcases List.mem_append.1 hevent with hevent | hevent
  · exact h event hevent
  · exact ⟨content, List.mem_singleton.1 hevent, hcontent⟩

/-- The events of a document: blank text, one complete element, and blank text. -/
def IsDocument (events : List Event) (root : Element) : Prop :=
  ∃ lead body trail, events = lead ++ body ++ trail ∧ Blank lead ∧ Blank trail ∧
    Spells body [root.toContent]

/-! ## Events of content, added in turn -/

namespace Building

/-- A tag whose attributes can be read opens a frame with these. -/
theorem ofTag_eq_opened {tag : Tag} {attributes : List Attribute}
    (h : Attribute.ofTag tag = .ok attributes) :
    Frame.ofTag tag = .ok (Frame.opened tag.name attributes) := by
  rw [Frame.ofTag, h]
  rfl

/-- A start tag whose attributes can be read opens an element, unless the root is complete. -/
theorem opening_of_ofTag {building : Building} {tag : Tag} {attributes : List Attribute}
    (h : Attribute.ofTag tag = .ok attributes)
    (hroom : building.frames ≠ [] ∨ building.root = none) :
    building.opening tag = .ok (Frame.opened tag.name attributes) := by
  have hfirst : (building.frames.isEmpty && building.root.isSome) = false := by
    rcases hroom with hframes | hroot
    · simp [hframes]
    · simp [hroot]
  rw [opening, hfirst, ofTag_eq_opened h]
  rfl

/-- Only a start tag whose attributes can be read opens an element. -/
theorem exists_of_opening {building : Building} {tag : Tag} {frame : Frame}
    (h : building.opening tag = .ok frame) :
    ∃ attributes, Attribute.ofTag tag = .ok attributes ∧
      frame = Frame.opened tag.name attributes ∧
      (building.frames ≠ [] ∨ building.root = none) := by
  unfold opening at h
  split at h
  · cases h
  · next hroom =>
    cases hattributes : Attribute.ofTag tag with
    | error fault =>
      rw [Frame.ofTag, hattributes] at h
      cases h
    | ok attributes =>
      rw [ofTag_eq_opened hattributes] at h
      cases h
      refine ⟨attributes, rfl, rfl, ?_⟩
      by_cases hframes : building.frames = []
      · exact .inr (by simpa [hframes] using hroom)
      · exact .inl hframes

/-- A complete element goes into the innermost open element. -/
theorem attach_element (frame : Frame) (outer : List Frame) (root : Option (String × Node))
    (element : Element) :
    attach ⟨frame :: outer, root⟩ (String.ofList element.name) element.tree =
      ⟨frame.add [element.toContent] :: outer, root⟩ := by
  rw [← Frame.addChild_eq_add]
  rfl

/-- Content is added to the innermost open element and changes nothing else. -/
theorem steps_of_spells {events : List Event} {contents : List Content}
    (h : Spells events contents) (frame : Frame) (outer : List Frame)
    (root : Option (String × Node)) :
    steps ⟨frame :: outer, root⟩ events = .ok ⟨frame.add contents :: outer, root⟩ := by
  induction h generalizing frame outer with
  | nil => rw [Frame.add_nil]; rfl
  | @text raw s events contents hs _ ih =>
    have hstep : step ⟨frame :: outer, root⟩ (.text raw) =
        .ok ⟨frame.addText s :: outer, root⟩ := by
      simp only [step, hs]
    rw [steps, hstep, Frame.addText_eq_add]
    show steps _ _ = _
    rw [ih, ← Frame.add_append]
    rfl
  | @cdata s events contents _ ih =>
    have hstep : step ⟨frame :: outer, root⟩ (.cdata s) =
        .ok ⟨frame.addCdata s :: outer, root⟩ := rfl
    rw [steps, hstep, Frame.addCdata_eq_add]
    show steps _ _ = _
    rw [ih, ← Frame.add_append]
    rfl
  | @empty tag attributes events contents htag _ ih =>
    have hstep : step ⟨frame :: outer, root⟩ (.empty tag) =
        .ok ⟨frame.add [.element tag.name attributes []] :: outer, root⟩ := by
      have hattach := attach_element frame outer root ⟨tag.name, attributes, []⟩
      rw [Element.tree_eq_add, Frame.add_nil] at hattach
      rw [step, opening_of_ofTag htag (.inl (List.cons_ne_nil _ _))]
      exact congrArg Except.ok hattach
    rw [steps, hstep]
    show steps _ _ = _
    rw [ih, ← Frame.add_append]
    rfl
  | @element tag attributes inner events content contents htag _ _ ihinner ih =>
    have hstart : step ⟨frame :: outer, root⟩ (.start tag) =
        .ok ⟨Frame.opened tag.name attributes :: frame :: outer, root⟩ := by
      rw [step, opening_of_ofTag htag (.inl (List.cons_ne_nil _ _))]
      rfl
    have hstop : step ⟨(Frame.opened tag.name attributes).add content :: frame :: outer, root⟩
        .stop = .ok ⟨frame.add [.element tag.name attributes content] :: outer, root⟩ :=
      congrArg Except.ok (attach_element frame outer root ⟨tag.name, attributes, content⟩)
    rw [List.cons_append, steps, hstart]
    show steps _ _ = _
    rw [steps_append, ihinner]
    show steps _ _ = _
    rw [steps, hstop]
    show steps _ _ = _
    rw [ih, ← Frame.add_append]
    rfl

end Building

/-! ## What a run has built -/

/-- The events of elements that are open, with what has been read of their content, and the
frames of these elements. -/
inductive Nested : List Event → List Frame → Prop
  | nil : Nested [] []
  | inside {events inner : List Event} {frames : List Frame} {tag : Tag}
      {attributes : List Attribute} {content : List Content} :
      Nested events frames → Attribute.ofTag tag = .ok attributes → Spells inner content →
      Nested (events ++ .start tag :: inner)
        ((Frame.opened tag.name attributes).add content :: frames)

/-- The invariant of a run: after blank text, the open elements are under construction, or the
root is complete and blank text follows it. -/
inductive Grown : List Event → Building → Prop
  | growing {lead events : List Event} {frames : List Frame} :
      Blank lead → Nested events frames → Grown (lead ++ events) ⟨frames, none⟩
  | complete {lead body trail : List Event} {root : Element} :
      Blank lead → Spells body [root.toContent] → Blank trail →
      Grown (lead ++ body ++ trail) ⟨[], some (String.ofList root.name, root.tree)⟩

/-- Without open frames there are no events of open elements. -/
theorem Nested.eq_nil {events : List Event} (h : Nested events []) : events = [] := by
  cases h
  rfl

/-- Content is added to the innermost open element. -/
theorem Nested.add {events inner : List Event} {frame : Frame} {outer : List Frame}
    {content : List Content} (h : Nested events (frame :: outer)) (hinner : Spells inner content) :
    Nested (events ++ inner) (frame.add content :: outer) := by
  cases h with
  | inside houter htag hbefore =>
    rw [List.append_assoc, List.cons_append, ← Frame.add_append]
    exact .inside houter htag (hbefore.append hinner)

/-- Balanced content leaves open what was open before it. -/
theorem openAfter_of_spells {events : List Event} {contents : List Content}
    (h : Spells events contents) (names : List (List Char)) : openAfter names events = names := by
  induction h generalizing names with
  | nil => rfl
  | text _ _ ih => exact ih names
  | cdata _ ih => exact ih names
  | empty _ _ ih => exact ih names
  | element _ _ _ ihinner ih =>
    rw [List.cons_append, openAfter, openAfter_append, ihinner, openAfter]
    exact ih names

/-- Blank text leaves open what was open before. -/
theorem openAfter_of_blank {events : List Event} (h : Blank events) (names : List (List Char)) :
    openAfter names events = names := by
  induction events with
  | nil => rfl
  | cons event events ih =>
    obtain ⟨content, rfl, -⟩ := h event List.mem_cons_self
    exact ih fun other hother => h other (List.mem_cons_of_mem _ hother)

/-- The frames of open elements have the names that the reader has open. -/
theorem Nested.names {events : List Event} {frames : List Frame} (h : Nested events frames) :
    frames.map (·.name) = (openAfter [] events).map String.ofList := by
  induction h with
  | nil => rfl
  | inside _ _ hinner ih =>
    rw [openAfter_append, openAfter, openAfter_of_spells hinner, List.map_cons, List.map_cons, ih]
    rfl

/-- At every step the frames list the names of the elements that the reader has open. -/
theorem Grown.names {before : List Event} {building : Building} (h : Grown before building) :
    building.frames.map (·.name) = (openAfter [] before).map String.ofList := by
  cases h with
  | growing hlead hnested =>
    rw [openAfter_append, openAfter_of_blank hlead]
    exact hnested.names
  | complete hlead hbody htrail =>
    rw [openAfter_append, openAfter_append, openAfter_of_blank hlead, openAfter_of_spells hbody,
      openAfter_of_blank htrail]
    rfl

/-- Before the root there is blank text, until a tag opens it. -/
theorem grown_before_root {lead : List Event} {next : Building} {event : Event}
    (hlead : Blank lead) (hstep : Building.step ⟨[], none⟩ event = .ok next)
    (hstop : event ≠ .stop) : Grown (lead ++ [event]) next := by
  cases event with
  | text raw =>
    simp only [Building.step] at hstep
    split at hstep
    · next hblank =>
      cases hstep
      rw [← List.append_nil (lead ++ _)]
      exact .growing (hlead.concat hblank) .nil
    · cases hstep
  | cdata content => cases hstep
  | start tag =>
    obtain ⟨frame, hopening, rfl⟩ := exists_of_map_ok hstep
    obtain ⟨attributes, htag, rfl, -⟩ := Building.exists_of_opening hopening
    have hopened := Nested.inside .nil htag .nil
    rw [Frame.add_nil] at hopened
    exact .growing hlead hopened
  | empty tag =>
    obtain ⟨frame, hopening, rfl⟩ := exists_of_map_ok hstep
    obtain ⟨attributes, htag, rfl, -⟩ := Building.exists_of_opening hopening
    have hbody : Spells [.empty tag] [Element.toContent ⟨tag.name, attributes, []⟩] :=
      .empty htag .nil
    have hcomplete := Grown.complete hlead hbody blank_nil
    rw [Element.tree_eq_add, Frame.add_nil, List.append_nil] at hcomplete
    exact hcomplete
  | stop => exact absurd rfl hstop

/-- While an element is open, an event adds to it, opens a child, or completes it. -/
theorem grown_inside {lead events : List Event} {frame : Frame} {outer : List Frame}
    {next : Building} {event : Event} (hlead : Blank lead) (hnested : Nested events (frame :: outer))
    (hstep : Building.step ⟨frame :: outer, none⟩ event = .ok next) :
    Grown (lead ++ (events ++ [event])) next := by
  cases event with
  | text raw =>
    simp only [Building.step] at hstep
    split at hstep
    · next s hs =>
      cases hstep
      rw [Frame.addText_eq_add]
      exact .growing hlead (hnested.add (.text hs .nil))
    · cases hstep
  | cdata content =>
    cases hstep
    rw [Frame.addCdata_eq_add]
    exact .growing hlead (hnested.add (.cdata .nil))
  | start tag =>
    obtain ⟨opened, hopening, rfl⟩ := exists_of_map_ok hstep
    obtain ⟨attributes, htag, rfl, -⟩ := Building.exists_of_opening hopening
    have hopened := Nested.inside hnested htag .nil
    rw [Frame.add_nil] at hopened
    exact .growing hlead hopened
  | empty tag =>
    obtain ⟨opened, hopening, rfl⟩ := exists_of_map_ok hstep
    obtain ⟨attributes, htag, rfl, -⟩ := Building.exists_of_opening hopening
    have hattach := Building.attach_element frame outer none ⟨tag.name, attributes, []⟩
    rw [Element.tree_eq_add, Frame.add_nil] at hattach
    exact hattach ▸ .growing hlead (hnested.add (.empty htag .nil))
  | stop =>
    cases hstep
    cases hnested with
    | @inside events inner _ tag attributes content hnested htag hinner =>
      rw [List.append_assoc]
      have hbody : Spells (.start tag :: inner ++ [.stop])
          [Element.toContent ⟨tag.name, attributes, content⟩] := .element htag hinner .nil
      cases outer with
      | nil =>
        rw [hnested.eq_nil, List.nil_append]
        have hcomplete := Grown.complete hlead hbody blank_nil
        rw [List.append_nil] at hcomplete
        exact hcomplete
      | cons parent outer =>
        have hattach := Building.attach_element parent outer none ⟨tag.name, attributes, content⟩
        exact hattach ▸ .growing hlead (hnested.add hbody)

/-- After the root there is nothing but blank text. -/
theorem grown_after_root {lead body trail : List Event} {root : Element} {next : Building}
    {event : Event} (hlead : Blank lead) (hbody : Spells body [root.toContent])
    (htrail : Blank trail)
    (hstep : Building.step ⟨[], some (String.ofList root.name, root.tree)⟩ event = .ok next)
    (hstop : event ≠ .stop) : Grown (lead ++ body ++ trail ++ [event]) next := by
  cases event with
  | text raw =>
    simp only [Building.step] at hstep
    split at hstep
    · next hblank =>
      cases hstep
      rw [List.append_assoc]
      exact .complete hlead hbody (htrail.concat hblank)
    · cases hstep
  | cdata content => cases hstep
  | start tag => cases hstep
  | empty tag => cases hstep
  | stop => exact absurd rfl hstop

/-- One event keeps the invariant. -/
theorem Grown.step {before : List Event} {building next : Building} {event : Event}
    (h : Grown before building) (hstep : building.step event = .ok next)
    (hstop : event = .stop → openAfter [] before ≠ []) : Grown (before ++ [event]) next := by
  have hnames := h.names
  have hout (hframes : building.frames = []) : event ≠ .stop := by
    intro hevent
    refine hstop hevent ?_
    simpa [hframes] using hnames.symm
  cases h with
  | @growing lead events frames hlead hnested =>
    cases frames with
    | nil =>
      rw [hnested.eq_nil, List.append_nil]
      exact grown_before_root hlead hstep (hout rfl)
    | cons frame outer =>
      rw [List.append_assoc]
      exact grown_inside hlead hnested hstep
  | complete hlead hbody htrail => exact grown_after_root hlead hbody htrail hstep (hout rfl)

/-- A run keeps the invariant. -/
theorem Grown.steps {before events : List Event} {building next : Building}
    (h : Grown before building) (hsteps : building.steps events = .ok next)
    (hcloses : Closes [] (before ++ events)) : Grown (before ++ events) next := by
  induction events generalizing before building with
  | nil =>
    cases hsteps
    rwa [List.append_nil]
  | cons event events ih =>
    obtain ⟨middle, hstep, hsteps⟩ := exists_of_bind_ok hsteps
    have hmiddle := h.step hstep fun hstop => hcloses before events (by rw [hstop])
    rw [List.append_cons] at hcloses ⊢
    exact ih hmiddle hsteps hcloses

/-- The invariant at the start. -/
theorem grown_nil : Grown [] {} :=
  have h : Grown ([] ++ []) ⟨[], none⟩ := .growing blank_nil .nil
  h

/-! ## Documents -/

namespace Building

/-- Blank text outside the root is passed over. -/
theorem steps_of_blank {events : List Event} (h : Blank events) (root : Option (String × Node)) :
    steps ⟨[], root⟩ events = .ok ⟨[], root⟩ := by
  induction events with
  | nil => rfl
  | cons event events ih =>
    obtain ⟨content, rfl, hblank⟩ := h event List.mem_cons_self
    have hstep : step ⟨[], root⟩ (.text content) = .ok ⟨[], root⟩ := by
      simp only [step, hblank, if_true]
    rw [steps, hstep]
    exact ih fun other hother => h other (List.mem_cons_of_mem _ hother)

/-- The first complete element is the root. -/
theorem steps_of_element {events : List Event} {root : Element}
    (h : Spells events [root.toContent]) :
    steps {} events = .ok ⟨[], some (String.ofList root.name, root.tree)⟩ := by
  rcases h.element_cases with ⟨tag, rfl, hname, htag, hcontent⟩ | ⟨tag, inner, rfl, hname, htag, hinner⟩
  · have hstep : step {} (.empty tag) = .ok (attach {} (String.ofList tag.name)
        (Frame.opened tag.name root.attributes).node) := by
      rw [step, opening_of_ofTag htag (.inr rfl)]
      rfl
    rw [steps, hstep, Element.tree_eq_add, hcontent, Frame.add_nil, ← hname]
    rfl
  · have hstep : step {} (.start tag) = .ok ⟨[Frame.opened tag.name root.attributes], none⟩ := by
      rw [step, opening_of_ofTag htag (.inr rfl)]
      rfl
    rw [List.cons_append, steps, hstep]
    show steps _ _ = _
    rw [steps_append, steps_of_spells hinner, Element.tree_eq_add, ← hname]
    rfl

end Building

/-- The events of a document leave nothing open, and the root complete. -/
theorem IsDocument.steps_eq {events : List Event} {root : Element} (h : IsDocument events root) :
    Building.steps {} events = .ok ⟨[], some (String.ofList root.name, root.tree)⟩ := by
  obtain ⟨lead, body, trail, rfl, hlead, htrail, hbody⟩ := h
  rw [Building.steps_append, Building.steps_append, Building.steps_of_blank hlead]
  show Except.bind (Building.steps {} body) _ = _
  rw [Building.steps_of_element hbody]
  exact Building.steps_of_blank htrail _

/-- **Events have a tree exactly when they are those of a document**, and it is the tree of the
root under the root's tag. -/
theorem treeOf_eq_ok_iff {events : List Event} (hcloses : Closes [] events) {node : Node} :
    treeOf events = .ok node ↔
      ∃ root, IsDocument events root ∧
        node = .mapping [(String.ofList root.name, root.tree)] := by
  constructor
  · intro h
    obtain ⟨building, hsteps, hfinish⟩ := exists_of_bind_ok h
    have hgrown := grown_nil.steps hsteps hcloses
    rw [List.nil_append] at hgrown
    cases hgrown with
    | @growing lead events frames hlead hnested =>
      cases frames <;> cases hfinish
    | complete hlead hbody htrail =>
      cases hfinish
      exact ⟨_, ⟨_, _, _, rfl, hlead, htrail, hbody⟩, rfl⟩
  · rintro ⟨root, hdocument, rfl⟩
    rw [treeOf, hdocument.steps_eq]
    rfl

/-- A text is accepted exactly when the reader meets no fault and its events spell a document. -/
theorem parse_eq_ok_iff {text : String} {node : Node} :
    parse text = .ok node ↔ (Events.ofText (dropMark text.toList)).fault = none ∧
      ∃ root, IsDocument (eventsOf (dropMark text.toList)) root ∧
        node = .mapping [(String.ofList root.name, root.tree)] := by
  rw [parse, parseList_eq_ok_iff, treeOf_eq_ok_iff (closes_eventsOf _)]

end LocaleLint.Markup
