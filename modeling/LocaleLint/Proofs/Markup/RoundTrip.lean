import LocaleLint.Proofs.Markup.Content
import LocaleLint.Proofs.Markup.Writing

/-!
# Reading what was written

A document can be written in many ways (`Written`), and each of them is read as the same tree,
whose shape is told by `Element.shape`. The main result is `parse_written`.

A text piece has no end of its own: the reader joins it with the text pieces that follow, and
a comment cuts the text in two. So the induction over what is written carries the text that is
pending, and content is compared by what an open element becomes when it is added (`Alike`).
-/

set_option autoImplicit false

namespace LocaleLint.Markup

/-! ## Well-formed content and its shape -/

/-- Whether an element may have the name and the attributes. -/
structure TagWellFormed (name : List Char) (attributes : List Attribute) : Prop where
  isTagName : IsTagName name
  ne_textKey : String.ofList name ≠ Node.textKey
  ne_attributeKey : String.ofList name ≠ Node.attributeKey
  isName : ∀ found ∈ attributes, IsName found.key
  nodup : (attributes.map Attribute.key).Nodup

/-- Whether an element can be written with the name and the attributes. The name may be a
reserved one. -/
structure TagWritable (name : List Char) (attributes : List Attribute) : Prop where
  isTagName : IsTagName name
  isName : ∀ found ∈ attributes, IsName found.key
  nodup : (attributes.map Attribute.key).Nodup

/-- A well-formed tag can be written. -/
theorem TagWellFormed.writable {name : List Char} {attributes : List Attribute}
    (h : TagWellFormed name attributes) : TagWritable name attributes :=
  ⟨h.isTagName, h.isName, h.nodup⟩

namespace Content

/-- Whether content can be written: no element has a reserved name, and neither character data
nor a comment holds its own end. -/
def WellFormed : List Content → Prop
  | [] => True
  | .text _ :: rest => WellFormed rest
  | .cdata content :: rest => ¬[']', ']', '>'] <:+: content ∧ WellFormed rest
  | .comment content :: rest => ¬['-', '-', '>'] <:+: content ∧ WellFormed rest
  | .element name attributes content :: rest =>
    TagWellFormed name attributes ∧ WellFormed content ∧ WellFormed rest

/-- Whether content can be written, elements with reserved names among it. -/
def Writable : List Content → Prop
  | [] => True
  | .text _ :: rest => Writable rest
  | .cdata content :: rest => ¬[']', ']', '>'] <:+: content ∧ Writable rest
  | .comment content :: rest => ¬['-', '-', '>'] <:+: content ∧ Writable rest
  | .element name attributes content :: rest =>
    TagWritable name attributes ∧ Writable content ∧ Writable rest

/-- Well-formed content can be written. -/
theorem WellFormed.writable {contents : List Content} (h : WellFormed contents) :
    Writable contents := by
  induction contents using inductionOn with
  | nil => simp [Writable]
  | text s rest ih =>
    rw [WellFormed] at h
    rw [Writable]
    exact ih h
  | cdata s rest ih =>
    rw [WellFormed] at h
    rw [Writable]
    exact ⟨h.1, ih h.2⟩
  | comment s rest ih =>
    rw [WellFormed] at h
    rw [Writable]
    exact ⟨h.1, ih h.2⟩
  | element name attributes content rest ihinner ih =>
    rw [WellFormed] at h
    rw [Writable]
    exact ⟨h.1.writable, ihinner h.2.1, ih h.2.2⟩

end Content

/-- The shape of an element whose child elements have the shapes `children`, each under its tag.
Without attributes and child elements it is a leaf. Otherwise its text comes first, unless it is
space alone and no character data, then its attributes, and then one sequence for each tag, in the
order in which the tags appear first. -/
def shapeOf (attributes : List Attribute) (contents : List Content)
    (children : List (String × Node)) : Node :=
  let text := String.ofList (Content.textOf contents)
  if attributes = [] ∧ children = [] then .leaf text
  else .mapping <|
    (if contents.any Content.isCdata || !Text.isAll Text.isSpace text
      then [(Node.textKey, .leaf text)] else []) ++
    (if attributes = [] then []
      else [(Node.attributeKey, .mapping <| attributes.map fun found =>
        (String.ofList found.key, .leaf (String.ofList found.value)))]) ++
    (children.map Prod.fst).eraseDups.map fun tag =>
      (tag, .sequence (Entries.ofKey children tag))

/-- The child elements of content, each with its tag and its shape. -/
def Content.shapes : List Content → List (String × Node)
  | [] => []
  | .text _ :: rest => shapes rest
  | .cdata _ :: rest => shapes rest
  | .comment _ :: rest => shapes rest
  | .element name attributes content :: rest =>
    (String.ofList name, shapeOf attributes content (shapes content)) :: shapes rest

/-- The shape of an element. -/
def Element.shape (element : Element) : Node :=
  shapeOf element.attributes element.content (Content.shapes element.content)

/-- Content and a way to write it. An element without content may be written as one tag. -/
inductive Written : List Content → List Char → Prop
  | nil : Written [] []
  | text {s source after : List Char} {rest : List Content} :
      Escaped none s source → Written rest after → Written (.text s :: rest) (source ++ after)
  | cdata {content after : List Char} {rest : List Content} :
      Written rest after →
      Written (.cdata content :: rest)
        (['<', '!', '[', 'C', 'D', 'A', 'T', 'A', '['] ++ content ++ [']', ']', '>'] ++ after)
  | comment {content after : List Char} {rest : List Content} :
      Written rest after →
      Written (.comment content :: rest)
        (['<', '!', '-', '-'] ++ content ++ ['-', '-', '>'] ++ after)
  | empty {name source after : List Char} {attributes : List Attribute} {rest : List Content} :
      WrittenAttributes attributes source → Written rest after →
      Written (.element name attributes [] :: rest)
        (['<'] ++ name ++ source ++ ['/', '>'] ++ after)
  | element {name source inner after : List Char} {attributes : List Attribute}
      {content rest : List Content} :
      WrittenAttributes attributes source → Written content inner → Written rest after →
      Written (.element name attributes content :: rest)
        (['<'] ++ name ++ source ++ ['>'] ++ inner ++ ['<', '/'] ++ name ++ ['>'] ++ after)

/-- All content can be written. -/
theorem exists_written (contents : List Content) : ∃ source, Written contents source := by
  induction contents using Content.inductionOn with
  | nil => exact ⟨[], .nil⟩
  | text s rest ih =>
    obtain ⟨after, hafter⟩ := ih
    have hquote : ∀ c, some c = none → IsQuotation c := by simp
    obtain ⟨source, hsource⟩ := exists_escaped hquote s
    exact ⟨_, .text hsource hafter⟩
  | cdata s rest ih =>
    obtain ⟨after, hafter⟩ := ih
    exact ⟨_, .cdata hafter⟩
  | comment s rest ih =>
    obtain ⟨after, hafter⟩ := ih
    exact ⟨_, .comment hafter⟩
  | element name attributes content rest ihinner ih =>
    obtain ⟨inner, hinner⟩ := ihinner
    obtain ⟨after, hafter⟩ := ih
    obtain ⟨source, hsource⟩ := exists_writtenAttributes attributes
    exact ⟨_, .element hsource hinner hafter⟩

/-! ## The tree of well-formed content -/

/-- When no child element has a reserved name, the tree of a frame has the shape of its parts. -/
theorem node_eq_shapeOf {name : List Char} {attributes : List Attribute} {contents : List Content}
    {children : List (String × Node)}
    (htags : ∀ tag ∈ children.map Prod.fst, tag ≠ Node.textKey ∧ tag ≠ Node.attributeKey) :
    ((Frame.opened name attributes).extend contents children).node =
      shapeOf attributes contents children := by
  have hgroups := Frame.children_opened name attributes contents children
  have hattributes : ((Frame.opened name attributes).extend contents children).attributes =
      attributes.map fun found => (String.ofList found.key, .leaf (String.ofList found.value)) := rfl
  have htext : ((Frame.opened name attributes).extend contents children).text =
      String.ofList (Content.textOf contents) := by
    simp [Frame.opened, Frame.extend]
  have hkeeps : ((Frame.opened name attributes).extend contents children).hasCdata =
      contents.any Content.isCdata := by
    simp [Frame.opened, Frame.extend]
  generalize (Frame.opened name attributes).extend contents children = frame at *
  rw [Frame.node, shapeOf, hgroups, hattributes, htext]
  by_cases hleaf : attributes = [] ∧ children = []
  · simp [hleaf, Entries.grouped]
  · have hnode : ¬((attributes.map fun found => (String.ofList found.key,
        Node.leaf (String.ofList found.value))).isEmpty && (Entries.grouped children).isEmpty) =
          true := by
      simpa [Entries.grouped_eq_nil_iff] using hleaf
    have hnews : ((Entries.grouped children).map fun child =>
        (child.1, Node.sequence child.2)).map Prod.fst = (children.map Prod.fst).eraseDups := by
      rw [← Entries.keys_grouped, List.map_map]
      rfl
    have hapart : ∀ key ∈ (children.map Prod.fst).eraseDups, key ∉ frame.reserved.map Prod.fst := by
      intro key hkey hmem
      obtain ⟨htext, hattribute⟩ := htags key (List.mem_eraseDups.1 hkey)
      exact (Frame.mem_keys_reserved hmem).elim htext hattribute
    rw [if_neg hnode, if_neg hleaf, Frame.entries_eq, hgroups,
      Entries.putAll_of_disjoint (hnews ▸ Entries.nodup_eraseDups _) (hnews ▸ hapart)]
    simp [Frame.reserved, Frame.keepsText, hattributes, htext, hkeeps, Entries.grouped,
      Function.comp_def]

/-- The child elements of well-formed content have the trees that its shape says, and none has a
reserved tag. -/
theorem children_eq_shapes {contents : List Content} (h : Content.WellFormed contents) :
    Content.children contents = Content.shapes contents ∧
      ∀ tag ∈ (Content.shapes contents).map Prod.fst,
        tag ≠ Node.textKey ∧ tag ≠ Node.attributeKey := by
  induction contents using Content.inductionOn with
  | nil => simp [Content.children, Content.shapes]
  | text s rest ih =>
    rw [Content.WellFormed] at h
    simpa only [Content.children, Content.shapes] using ih h
  | cdata s rest ih =>
    rw [Content.WellFormed] at h
    simpa only [Content.children, Content.shapes] using ih h.2
  | comment s rest ih =>
    rw [Content.WellFormed] at h
    simpa only [Content.children, Content.shapes] using ih h.2
  | element name attributes content rest ihinner ih =>
    rw [Content.WellFormed] at h
    obtain ⟨htag, hcontent, hrest⟩ := h
    obtain ⟨hinner, htags⟩ := ihinner hcontent
    obtain ⟨hafter, hothers⟩ := ih hrest
    rw [Content.children, Content.shapes, hinner, hafter, node_eq_shapeOf htags]
    refine ⟨rfl, List.forall_mem_cons.2 ⟨⟨htag.ne_textKey, htag.ne_attributeKey⟩, hothers⟩⟩

/-- The tree that is built of a well-formed element has the shape of the element. -/
theorem tree_eq_shape {element : Element} (h : Content.WellFormed element.content) :
    element.tree = element.shape := by
  obtain ⟨hchildren, htags⟩ := children_eq_shapes h
  rw [Element.tree, hchildren, node_eq_shapeOf htags, Element.shape]

/-! ## Content that builds the same -/

/-- Whether an open element becomes the same, whichever content is added to it. -/
def Alike (first second : List Content) : Prop :=
  ∀ frame : Frame, frame.add first = frame.add second

namespace Alike

/-- Content builds the same as itself. -/
theorem refl (contents : List Content) : Alike contents contents :=
  fun _ => rfl

/-- Content that builds the same as another builds the same as whatever this one does. -/
theorem trans {first second third : List Content} (h : Alike first second)
    (h' : Alike second third) : Alike first third :=
  fun frame => (h frame).trans (h' frame)

/-- Content whose parts build the same builds the same. -/
theorem append {first second first' second' : List Content} (h : Alike first second)
    (h' : Alike first' second') : Alike (first ++ first') (second ++ second') := by
  intro frame
  rw [Frame.add_append, Frame.add_append, h, h']

end Alike

/-- An empty text builds nothing. -/
theorem alike_text_nil (contents : List Content) : Alike (.text [] :: contents) contents := by
  intro frame
  simp [Frame.add, Frame.extend, Content.textOf, Content.characters, Content.isCdata,
    Content.children]

/-- Text pieces that follow one another are one text. -/
theorem alike_text_append (s s' : List Char) (contents : List Content) :
    Alike (.text (s ++ s') :: contents) (.text s :: .text s' :: contents) := by
  intro frame
  simp [Frame.add, Frame.extend, Content.textOf, Content.characters, Content.isCdata,
    Content.children]

/-- A comment adds nothing. -/
theorem alike_comment (s : List Char) : Alike [] [.comment s] := by
  intro frame
  simp [Frame.add, Frame.extend, Content.textOf, Content.characters, Content.isCdata,
    Content.children]

/-- Elements with the same name and the same tree add the same. -/
theorem alike_element {first second : Element} (hname : first.name = second.name)
    (htree : first.tree = second.tree) : Alike [first.toContent] [second.toContent] := by
  intro frame
  rw [← Frame.addChild_eq_add, ← Frame.addChild_eq_add, hname, htree]

/-! ## Reading what was written -/

/-- Whether a reader that comes over `source` to `rest` meets what builds the same as
`contents`. -/
def TakenBack (names : List (List Char)) (source rest : List Char) (contents : List Content) :
    Prop :=
  ∃ events spelled, Reads ⟨source ++ rest, names⟩ events ⟨rest, names⟩ ∧
    Spells events spelled ∧ Alike spelled contents

section

variable {names : List (List Char)} {rest : List Char}

/-- What is taken back part by part is taken back as a whole. -/
theorem TakenBack.append {first second : List Char} {contents contents' : List Content}
    (h : TakenBack names first (second ++ rest) contents)
    (h' : TakenBack names second rest contents') :
    TakenBack names (first ++ second) rest (contents ++ contents') := by
  obtain ⟨events, spelled, hreads, hspells, halike⟩ := h
  obtain ⟨events', spelled', hreads', hspells', halike'⟩ := h'
  refine ⟨events ++ events', spelled ++ spelled', ?_, hspells.append hspells',
    halike.append halike'⟩
  rw [List.append_assoc]
  exact hreads.trans hreads'

/-- What is taken back is taken back as any content that builds the same. -/
theorem TakenBack.alike {source : List Char} {contents contents' : List Content}
    (h : TakenBack names source rest contents) (h' : Alike contents contents') :
    TakenBack names source rest contents' := by
  obtain ⟨events, spelled, hreads, hspells, halike⟩ := h
  exact ⟨events, spelled, hreads, hspells, halike.trans h'⟩

/-- A text that is pending is read where no text goes on. -/
theorem takenBack_text {s source : List Char} (h : Escaped none s source) (hrest : EndsText rest) :
    TakenBack names source rest [.text s] := by
  cases hsource : source with
  | nil =>
    rw [hsource] at h
    cases h
    exact ⟨[], [], .refl _, .nil, fun frame => (alike_text_nil [] frame).symm⟩
  | cons c tail =>
    rw [← hsource]
    have hne : source ≠ [] := hsource ▸ List.cons_ne_nil c tail
    have hplain : '<' ∉ source := h.not_mem (.inl rfl) (.inl rfl)
    exact ⟨_, _, reads_text hne hplain hrest, .text (unescape_of_escaped h) .nil, .refl _⟩

/-- A written section is taken back as its character data. -/
theorem takenBack_cdata {content : List Char} (h : ¬[']', ']', '>'] <:+: content) :
    TakenBack names
      (['<', '!', '[', 'C', 'D', 'A', 'T', 'A', '['] ++ content ++ [']', ']', '>']) rest
      [.cdata content] :=
  ⟨_, _, reads_cdata h, .cdata .nil, .refl _⟩

/-- A written comment is taken back as a comment. -/
theorem takenBack_comment {content : List Char} (h : ¬['-', '-', '>'] <:+: content) :
    TakenBack names (['<', '!', '-', '-'] ++ content ++ ['-', '-', '>']) rest [.comment content] :=
  ⟨_, _, reads_comment h, .nil, alike_comment content⟩

/-- Whether a reader that comes over `source` to `rest` meets one element, whose name and tree are
those of `element`. -/
def ElementTakenBack (names : List (List Char)) (source rest : List Char) (element : Element) :
    Prop :=
  ∃ events found, Reads ⟨source ++ rest, names⟩ events ⟨rest, names⟩ ∧
    Spells events [Element.toContent found] ∧ found.name = element.name ∧
    found.tree = element.tree

/-- An element that is taken back is taken back as content. -/
theorem ElementTakenBack.takenBack {source : List Char} {element : Element}
    (h : ElementTakenBack names source rest element) :
    TakenBack names source rest [element.toContent] := by
  obtain ⟨events, found, hreads, hspells, hname, htree⟩ := h
  exact ⟨events, _, hreads, hspells, alike_element hname htree⟩

variable {name source : List Char} {attributes : List Attribute}

/-- A written tag that closes itself is taken back as an element without content. -/
theorem elementTakenBack_of_empty (htag : TagWritable name attributes)
    (h : WrittenAttributes attributes source) :
    ElementTakenBack names (['<'] ++ name ++ source ++ ['/', '>']) rest ⟨name, attributes, []⟩ :=
  ⟨_, ⟨name, attributes, []⟩, reads_empty htag.isTagName h htag.isName,
    .empty (ofTag_of_written h htag.isName htag.nodup) .nil, rfl, rfl⟩

/-- A written element is taken back if what is written between its tags is. -/
theorem elementTakenBack_of_content {inner : List Char} {content : List Content}
    (htag : TagWritable name attributes) (h : WrittenAttributes attributes source)
    (hinner : TakenBack (name :: names) inner (['<', '/'] ++ name ++ ['>'] ++ rest) content) :
    ElementTakenBack names
      (['<'] ++ name ++ source ++ ['>'] ++ inner ++ ['<', '/'] ++ name ++ ['>']) rest
      ⟨name, attributes, content⟩ := by
  obtain ⟨events, spelled, hreads, hspells, halike⟩ := hinner
  have hsplit : ['<'] ++ name ++ source ++ ['>'] ++ inner ++ ['<', '/'] ++ name ++ ['>'] ++ rest =
      ['<'] ++ name ++ source ++ ['>'] ++ (inner ++ (['<', '/'] ++ name ++ ['>'] ++ rest)) := by
    simp only [List.append_assoc]
  refine ⟨.start ⟨name, source⟩ :: events ++ [.stop], ⟨name, attributes, spelled⟩, ?_,
    .element (ofTag_of_written h htag.isName htag.nodup) hspells .nil, rfl, ?_⟩
  · rw [hsplit]
    exact (reads_start htag.isTagName h htag.isName).trans
      (hreads.trans (reads_end htag.isTagName.1))
  · rw [Element.tree_eq_add, Element.tree_eq_add]
    exact congrArg Frame.node (halike _)

/-- A construct ends the text that is pending before it. -/
theorem TakenBack.after_text {s raw mark after : List Char} {piece : Content}
    {contents : List Content} (hpending : Escaped none s raw)
    (hmark : EndsText (mark ++ after ++ rest)) (hpiece : TakenBack names mark (after ++ rest) [piece])
    (hafter : TakenBack names after rest (.text [] :: contents)) :
    TakenBack names (raw ++ (mark ++ after)) rest (.text s :: piece :: contents) := by
  have halike : Alike ([piece] ++ .text [] :: contents) (piece :: contents) :=
    (Alike.refl [piece]).append (alike_text_nil contents)
  exact (takenBack_text hpending hmark).append ((hpiece.append hafter).alike halike)

/-- A markup construct is no text. -/
theorem endsText_markup (tail : List Char) : EndsText ('<' :: tail) :=
  fun _ hc => (Option.some.inj hc).symm

end

/-- What was written is taken back, after any text that is pending before it. -/
theorem takenBack_of_written {contents : List Content} {source : List Char}
    (h : Written contents source) (hform : Content.Writable contents) {s raw : List Char}
    (hpending : Escaped none s raw) {rest : List Char} (hrest : EndsText rest)
    (names : List (List Char)) :
    TakenBack names (raw ++ source) rest (.text s :: contents) := by
  -- the reader does not see where a text piece ends, so what is pending grows by it
  induction h generalizing s raw rest names with
  | nil =>
    rw [List.append_nil]
    exact takenBack_text hpending hrest
  | @text t source after contents ht _ ih =>
    rw [Content.Writable] at hform
    rw [← List.append_assoc]
    exact (ih hform (hpending.append ht) hrest names).alike (alike_text_append s t contents)
  | cdata _ ih =>
    rw [Content.Writable] at hform
    exact .after_text hpending (endsText_markup _) (takenBack_cdata hform.1)
      (ih hform.2 .nil hrest names)
  | comment _ ih =>
    rw [Content.Writable] at hform
    exact .after_text hpending (endsText_markup _) (takenBack_comment hform.1)
      (ih hform.2 .nil hrest names)
  | empty hattributes _ ih =>
    rw [Content.Writable] at hform
    obtain ⟨htag, -, hothers⟩ := hform
    exact .after_text hpending (endsText_markup _)
      (elementTakenBack_of_empty htag hattributes).takenBack (ih hothers .nil hrest names)
  | @element name source inner after attributes content contents hattributes _ _ ihinner ih =>
    rw [Content.Writable] at hform
    obtain ⟨htag, hcontent, hothers⟩ := hform
    have hinner : TakenBack (name :: names) inner
        (['<', '/'] ++ name ++ ['>'] ++ (after ++ rest)) content :=
      (ihinner hcontent .nil (endsText_markup _) _).alike (alike_text_nil content)
    exact .after_text hpending (endsText_markup _)
      (elementTakenBack_of_content htag hattributes hinner).takenBack
      (ih hothers .nil hrest names)

/-- A written element is taken back by itself, up to the end of the text. -/
theorem elementTakenBack_of_written {root : Element} {source : List Char}
    (h : Written [root.toContent] source) (hform : Content.Writable [root.toContent]) :
    ElementTakenBack [] source [] root := by
  obtain ⟨name, attributes, content⟩ := root
  rw [Element.toContent] at h hform
  rw [Content.Writable] at hform
  obtain ⟨htag, hcontent, -⟩ := hform
  cases h with
  | empty hattributes hafter =>
    cases hafter
    rw [List.append_nil]
    exact elementTakenBack_of_empty htag hattributes
  | @element _ _ inner _ _ _ _ hattributes hinner hafter =>
    cases hafter
    rw [List.append_nil]
    have hback : TakenBack [name] inner (['<', '/'] ++ name ++ ['>'] ++ []) content :=
      (takenBack_of_written hinner hcontent .nil (endsText_markup _) _).alike
        (alike_text_nil content)
    exact elementTakenBack_of_content htag hattributes hback

/-- A written element starts with markup. -/
theorem exists_cons_of_written {root : Element} {source : List Char}
    (h : Written [root.toContent] source) : ∃ tail, source = '<' :: tail := by
  obtain ⟨name, attributes, content⟩ := root
  rw [Element.toContent] at h
  cases h with
  | empty _ _ => exact ⟨_, rfl⟩
  | element _ _ _ => exact ⟨_, rfl⟩

/-- However an element is written, the text has the tree of the element under its name. -/
theorem parse_of_written {root : Element} {source : List Char}
    (h : Written [root.toContent] source) (hform : Content.Writable [root.toContent]) :
    parse (String.ofList source) = .ok (.mapping [(String.ofList root.name, root.tree)]) := by
  obtain ⟨events, found, hreads, hspells, hname, htree⟩ := elementTakenBack_of_written h hform
  rw [List.append_nil] at hreads
  obtain ⟨hevents, hfault⟩ := eventsOf_of_reads hreads
  have hmark : dropMark source = source := by
    obtain ⟨tail, rfl⟩ := exists_cons_of_written h
    rfl
  have hdocument : IsDocument events found :=
    ⟨[], events, [], by simp, blank_nil, blank_nil, hspells⟩
  rw [parse_eq_ok_iff, String.toList_ofList, hmark, hevents]
  exact ⟨hfault, found, hdocument, by rw [hname, htree]⟩

/-- A well-formed element can be written, and however it is written, the text has the tree whose
shape is that of the element, under its name. -/
theorem parse_written {root : Element} (hform : Content.WellFormed [root.toContent]) :
    (∃ source, Written [root.toContent] source) ∧
      ∀ source, Written [root.toContent] source →
        parse (String.ofList source) =
          .ok (.mapping [(String.ofList root.name, root.shape)]) := by
  refine ⟨exists_written _, fun source h => ?_⟩
  have hparse := parse_of_written h hform.writable
  rw [Element.toContent, Content.WellFormed] at hform
  rw [hparse, tree_eq_shape hform.2.1]

/-- A document with an attribute, a text that a comment cuts in two, character data and a child
element. -/
theorem parse_mixed_document :
    parse "<a k=\"&lt;\">x<!--c-->&amp;<![CDATA[]]><b/></a>" =
      .ok (.mapping [("a", .mapping
        [("_", .leaf "x&"), ("$", .mapping [("k", .leaf "<")]), ("b", .sequence [.leaf ""])])]) := by
  let root : Element := ⟨['a'], [⟨['k'], ['<']⟩],
    [.text ['x'], .comment ['c'], .text ['&'], .cdata [], .element ['b'] [] []]⟩
  have hname : ∀ c, c = 'a' ∨ c = 'b' ∨ c = 'k' → IsName [c] := by
    rintro c (rfl | rfl | rfl) <;> simp [IsName, IsQuotation, Text.isMarkupBlank]
  have hform : Content.WellFormed [root.toContent] := by
    have houter : TagWellFormed root.name root.attributes :=
      ⟨⟨hname 'a' (.inl rfl), by decide, by decide⟩, by decide, by decide,
        by simpa [root] using hname 'k' (.inr (.inr rfl)), by decide⟩
    have hinner : TagWellFormed ['b'] [] :=
      ⟨⟨hname 'b' (.inr (.inl rfl)), by decide, by decide⟩, by decide, by decide, by simp, by simp⟩
    simp only [root, Element.toContent, Content.WellFormed]
    exact ⟨houter, ⟨by decide, by decide, hinner, trivial, trivial⟩, trivial⟩
  have hless : Escaped (some '"') ['<'] "&lt;".toList :=
    .reference (by rfl : Reference.entity? ['l', 't'] = some '<') .nil
  have hamp : Escaped none ['&'] "&amp;".toList :=
    .reference (by rfl : Reference.entity? ['a', 'm', 'p'] = some '&') .nil
  have hx : Escaped none ['x'] ['x'] := .bare (by decide) (by decide) (by decide) .nil
  have hattributes : WrittenAttributes root.attributes " k=\"&lt;\"".toList :=
    .cons (List.cons_ne_nil ' ' []) (List.forall_mem_singleton.2 rfl) (.inl rfl) hless .nil
  have hcontent : Written root.content "x<!--c-->&amp;<![CDATA[]]><b/>".toList :=
    .text hx (.comment (.text hamp (.cdata (.empty .nil .nil))))
  have hwritten : Written [root.toContent]
      "<a k=\"&lt;\">x<!--c-->&amp;<![CDATA[]]><b/></a>".toList :=
    .element hattributes hcontent .nil
  have h := (parse_written hform).2 _ hwritten
  rw [String.ofList_toList] at h
  rw [h]
  simp [root, Element.shape, shapeOf, Content.shapes, Content.textOf, Content.characters,
    Content.isCdata, Entries.ofKey, List.eraseDups_cons, Node.textKey, Node.attributeKey]

end LocaleLint.Markup
