import LocaleLint.Evaluation
import LocaleLint.Proofs.Markup.Conservation
import LocaleLint.Proofs.Markup.RoundTrip
import LocaleLint.Proofs.Wording.Padding

/-!
# Ignored elements

What stands in an element whose tag is ignored has no part in what is reported of a document.
The main result `outcome_of_altered` compares two documents that differ in ignored elements
alone, at any depth: when some are deleted, the literal texts are the same and in the same
order, and when some are refilled, the number of checked texts is the same, too.

A deleted element may turn its parent from a mapping into a leaf. That brings in a text that
was left out because it is space, and space is no literal text. So the proof follows what is
picked of each text (`picked`), and asks of a deletion that nothing is picked of space. What is
picked of an element hangs on its own text and attributes and on what is picked of the child
elements that are visited (`Frame.views_entries`).
-/

set_option autoImplicit false

namespace LocaleLint.Markup

/-- What is done to ignored elements. -/
inductive Change where
  | deletion
  | refilling
deriving DecidableEq, Repr

namespace Content

/-- Content before and after a change of some of its elements whose tags are ignored, at any
depth: they are deleted with all that is in them, or they are given other attributes and other
content. -/
inductive Altered (ignore : IgnoreSet) : Change → List Content → List Content → Prop
  | nil {change : Change} : Altered ignore change [] []
  | piece {change : Change} {piece : Content} {rest rest' : List Content} :
      piece.tag? = none → Altered ignore change rest rest' →
      Altered ignore change (piece :: rest) (piece :: rest')
  | kept {change : Change} {name : List Char} {attributes : List Attribute}
      {content content' rest rest' : List Content} :
      Altered ignore change content content' → Altered ignore change rest rest' →
      Altered ignore change (.element name attributes content :: rest)
        (.element name attributes content' :: rest')
  | deleted {name : List Char} {attributes : List Attribute}
      {content rest rest' : List Content} :
      ignore.contains (String.ofList name) = true → Altered ignore .deletion rest rest' →
      Altered ignore .deletion (.element name attributes content :: rest) rest'
  | refilled {name : List Char} {attributes attributes' : List Attribute}
      {content content' rest rest' : List Content} :
      ignore.contains (String.ofList name) = true → Altered ignore .refilling rest rest' →
      Altered ignore .refilling (.element name attributes content :: rest)
        (.element name attributes' content' :: rest')

/-- A piece without a tag is no child element. -/
theorem children_cons_of_tag?_eq_none {piece : Content} (h : piece.tag? = none)
    (rest : List Content) : children (piece :: rest) = children rest := by
  cases piece with
  | text s => rw [children]
  | cdata s => rw [children]
  | comment s => rw [children]
  | element name attributes content => cases h

/-- Whether content can be written is decided piece by piece where no element comes first. -/
theorem writable_cons_of_tag?_eq_none {piece : Content} (h : piece.tag? = none)
    (rest : List Content) : Writable (piece :: rest) ↔ Writable [piece] ∧ Writable rest := by
  cases piece with
  | text s => simp [Writable]
  | cdata s => simp [Writable]
  | comment s => simp [Writable]
  | element name attributes content => cases h

namespace Altered

variable {ignore : IgnoreSet} {change : Change} {contents contents' : List Content}

/-- The text that stands directly in an element stays as it is. -/
theorem textOf_eq (h : Altered ignore change contents contents') :
    textOf contents = textOf contents' := by
  induction h with
  | nil => rfl
  | piece _ _ ih => rw [textOf, textOf, List.flatMap_cons, List.flatMap_cons, ← textOf, ih, textOf]
  | kept _ _ _ ih => exact ih
  | deleted _ _ ih => exact ih
  | refilled _ _ ih => exact ih

/-- A change of ignored elements neither adds nor removes character data. -/
theorem any_isCdata_eq (h : Altered ignore change contents contents') :
    contents.any isCdata = contents'.any isCdata := by
  induction h with
  | nil => rfl
  | piece _ _ ih => rw [List.any_cons, List.any_cons, ih]
  | kept _ _ _ ih => exact ih
  | deleted _ _ ih => exact ih
  | refilled _ _ ih => exact ih

/-- An element that is refilled is still there. -/
theorem children_eq_nil_iff (h : Altered ignore .refilling contents contents') :
    children contents = [] ↔ children contents' = [] := by
  generalize hchange : Change.refilling = change at h
  induction h with
  | nil => rfl
  | piece hpiece _ ih =>
    rw [children_cons_of_tag?_eq_none hpiece, children_cons_of_tag?_eq_none hpiece]
    exact ih hchange
  | kept _ _ _ _ => simp [children]
  | deleted _ _ _ => cases hchange
  | refilled _ _ _ => simp [children]

/-- What is left after a deletion can be written. -/
theorem writable (h : Altered ignore .deletion contents contents') (hform : Writable contents) :
    Writable contents' := by
  generalize hchange : Change.deletion = change at h
  induction h with
  | nil => exact hform
  | piece hpiece _ ih =>
    rw [writable_cons_of_tag?_eq_none hpiece] at hform ⊢
    exact ⟨hform.1, ih hform.2 hchange⟩
  | kept _ _ ihinner ih =>
    rw [Writable] at hform ⊢
    exact ⟨hform.1, ihinner hform.2.1 hchange, ih hform.2.2 hchange⟩
  | deleted _ _ ih =>
    rw [Writable] at hform
    exact ih hform.2.2 hchange
  | refilled _ _ _ => cases hchange

end Altered

end Content

/-! ## What is picked of a tree -/

section

variable (options : CollectOptions) (pick : String → List String)

/-- What is picked of the texts of a tree. -/
def picked (tree : Node) : List String :=
  (tree.leaves options).flatMap pick

/-- The entries that are visited, with what is picked of each. -/
def views (entries : List (String × Node)) : List (String × List String) :=
  Entries.mapValues (picked options pick) (entries.filter fun entry => !options.skips entry.1)

/-- What is picked of a mapping is picked of the entries that are visited, in turn. -/
theorem picked_mapping (entries : List (String × Node)) :
    picked options pick (.mapping entries) = (views options pick entries).flatMap Prod.snd := by
  rw [picked, Node.leaves, Node.leavesOfEntries_eq_flatMap, List.flatMap_assoc, views,
    Entries.mapValues, List.flatMap_map]
  rfl

/-- What is picked of a sequence is picked of its items, in turn. -/
theorem picked_sequence (items : List Node) :
    picked options pick (.sequence items) = (items.map (picked options pick)).flatten := by
  rw [picked, Node.leaves, Node.leavesOfItems_eq_flatMap, List.flatMap_assoc, ← List.flatMap_def]
  rfl

/-- An entry that is skipped is not visited. -/
theorem views_cons_of_skips {tag : String} (h : options.skips tag = true) (node : Node)
    (rest : List (String × Node)) :
    views options pick ((tag, node) :: rest) = views options pick rest := by
  simp [views, h]

/-- Entries are visited alike if as much is picked of their values. -/
theorem views_cons_congr (tag : String) {node node' : Node} {rest rest' : List (String × Node)}
    (hnode : picked options pick node = picked options pick node')
    (hrest : views options pick rest = views options pick rest') :
    views options pick ((tag, node) :: rest) = views options pick ((tag, node') :: rest') := by
  simp only [views, Entries.mapValues] at hrest ⊢
  cases htag : options.skips tag with
  | true => simpa [htag] using hrest
  | false => simpa [htag, hnode] using hrest

namespace Frame

/-- What is picked of an element that is no leaf hangs on what stands under the reserved keys
and on what is picked of the child elements that are visited. -/
theorem views_entries {frame : Frame} {children : List (String × Node)}
    (h : frame.children = Entries.grouped children) :
    views options pick frame.entries =
      Entries.putAll (views options pick frame.reserved)
        (Entries.mapValues List.flatten (Entries.grouped (views options pick children))) := by
  have hgroups : Entries.mapValues (picked options pick)
      ((frame.children.map fun child => (child.1, Node.sequence child.2)).filter
        fun entry => !options.skips entry.1) =
      Entries.mapValues List.flatten (Entries.grouped (views options pick children)) := by
    rw [views, ← Entries.mapValues_grouped,
      ← Entries.filter_grouped (fun key => !options.skips key),
      ← h, List.filter_map]
    simp only [Entries.mapValues, List.map_map, Function.comp_def, picked_sequence]
  rw [entries_eq, views, Entries.filter_putAll (fun key => !options.skips key),
    Entries.mapValues_putAll, hgroups]
  rfl

variable {options pick}

/-- Where nothing is picked of space, an element may be taken for a mapping in any case. -/
theorem picked_node_of_blank (hkey : options.skips Node.textKey = false)
    (hpick : ∀ text, Text.isAll Text.isSpace text = true → pick text = []) (frame : Frame) :
    picked options pick frame.node = picked options pick (.mapping frame.entries) := by
  rw [node]
  split
  · next hleaf =>
    simp only [Bool.and_eq_true, List.isEmpty_iff] at hleaf
    have hreserved : frame.entries =
        if frame.keepsText then [(Node.textKey, Node.leaf frame.text)] else [] := by
      simp [entries, hleaf.1, hleaf.2]
    rw [picked_mapping, hreserved]
    split
    · simp [views, Entries.mapValues, hkey, picked, Node.leaves]
    · next hkeeps =>
      have hspace : Text.isAll Text.isSpace frame.text = true := by
        simp only [keepsText, Bool.or_eq_true, not_or, Bool.not_eq_true', Bool.not_eq_false]
          at hkeeps
        exact hkeeps.2
      simp [views, Entries.mapValues, picked, Node.leaves, hpick _ hspace]
  · rfl

end Frame

end

/-! ## Changes of ignored elements -/

section

variable {options : CollectOptions} (pick : String → List String) {change : Change}

/-- An element of whose content ignored elements are changed, when what is picked of its child
elements is unchanged. -/
theorem picked_tree_eq (name : List Char) (attributes : List Attribute)
    {content content' : List Content} (h : Content.Altered options.ignore change content content')
    (hkey : options.skips Node.textKey = false)
    (hpick : change = .deletion → ∀ text, Text.isAll Text.isSpace text = true → pick text = [])
    (hviews : views options pick (Content.children content) =
      views options pick (Content.children content')) :
    picked options pick (Element.tree ⟨name, attributes, content⟩) =
      picked options pick (Element.tree ⟨name, attributes, content'⟩) := by
  let frame := (Frame.opened name attributes).add content
  let frame' := (Frame.opened name attributes).add content'
  have hattributes : frame.attributes = frame'.attributes := rfl
  have htext : frame.text = frame'.text := by
    simp [frame, frame', Frame.add, Frame.extend, h.textOf_eq]
  have hcdata : frame.hasCdata = frame'.hasCdata := by
    simp [frame, frame', Frame.add, Frame.extend, h.any_isCdata_eq]
  have hreserved : frame.reserved = frame'.reserved := by
    rw [Frame.reserved, Frame.reserved, Frame.keepsText, Frame.keepsText, htext, hcdata,
      hattributes]
  have hchildren : frame.children = Entries.grouped (Content.children content) :=
    Frame.children_opened ..
  have hchildren' : frame'.children = Entries.grouped (Content.children content') :=
    Frame.children_opened ..
  have hentries : picked options pick (.mapping frame.entries) =
      picked options pick (.mapping frame'.entries) := by
    rw [picked_mapping, picked_mapping, Frame.views_entries options pick hchildren,
      Frame.views_entries options pick hchildren', hreserved, hviews]
  show picked options pick frame.node = picked options pick frame'.node
  cases change with
  | deletion =>
    rw [Frame.picked_node_of_blank hkey (hpick rfl), Frame.picked_node_of_blank hkey (hpick rfl),
      hentries]
  | refilling =>
    have hleaf : frame.children.isEmpty = frame'.children.isEmpty := by
      rw [Bool.eq_iff_iff, List.isEmpty_iff, List.isEmpty_iff, hchildren, hchildren',
        Entries.grouped_eq_nil_iff, Entries.grouped_eq_nil_iff, h.children_eq_nil_iff]
    rw [Frame.node, Frame.node, hleaf, hattributes, htext]
    split
    · rfl
    · exact hentries

/-- What is picked of the child elements that are visited is unchanged. -/
theorem views_children_eq {contents contents' : List Content}
    (h : Content.Altered options.ignore change contents contents')
    (hkey : options.skips Node.textKey = false)
    (hpick : change = .deletion → ∀ text, Text.isAll Text.isSpace text = true → pick text = []) :
    views options pick (Content.children contents) =
      views options pick (Content.children contents') := by
  have hskips {tag : String} (htag : options.ignore.contains tag = true) :
      options.skips tag = true := by
    simp [CollectOptions.skips, htag]
  induction h with
  | nil => rfl
  | piece hpiece _ ih =>
    rw [Content.children_cons_of_tag?_eq_none hpiece, Content.children_cons_of_tag?_eq_none hpiece]
    exact ih hpick
  | @kept _ name attributes content content' rest rest' hcontent _ ihinner ih =>
    have htree : picked options pick (Element.tree ⟨name, attributes, content⟩) =
        picked options pick (Element.tree ⟨name, attributes, content'⟩) :=
      picked_tree_eq pick name attributes hcontent hkey hpick (ihinner hpick)
    rw [Content.children, Content.children]
    exact views_cons_congr options pick _ htree (ih hpick)
  | deleted htag _ ih =>
    rw [Content.children, views_cons_of_skips _ _ (hskips htag)]
    exact ih hpick
  | refilled htag _ ih =>
    rw [Content.children, Content.children, views_cons_of_skips _ _ (hskips htag),
      views_cons_of_skips _ _ (hskips htag)]
    exact ih hpick

/-- Documents that differ in the content of their roots alone. -/
theorem picked_document_eq (name : List Char) (attributes : List Attribute)
    {content content' : List Content} (h : Content.Altered options.ignore change content content')
    (hkey : options.skips Node.textKey = false)
    (hpick : change = .deletion → ∀ text, Text.isAll Text.isSpace text = true → pick text = []) :
    picked options pick
        (.mapping [(String.ofList name, Element.tree ⟨name, attributes, content⟩)]) =
      picked options pick
        (.mapping [(String.ofList name, Element.tree ⟨name, attributes, content'⟩)]) := by
  have htree := picked_tree_eq pick name attributes h hkey hpick
    (views_children_eq pick h hkey hpick)
  rw [picked_mapping, picked_mapping, views_cons_congr options pick _ htree rfl]

end

/-! ## What is reported -/

/-- A text that is space alone is no literal text. -/
theorem literalTexts_of_space {text : String} (h : Text.isAll Text.isSpace text = true) :
    literalTexts [text] = [] := by
  have hlegal : Wording.isLegal text = true :=
    Wording.isLegal_of_letterless fun c hc =>
      Wording.isLetter_of_isSpace (List.all_eq_true.1 h c hc)
  rw [literalTexts_eq]
  simp [hlegal]

/-- Literal texts are told one by one. -/
theorem literalTexts_eq_flatMap (texts : List String) :
    literalTexts texts = texts.flatMap fun text => literalTexts [text] := by
  induction texts with
  | nil => rfl
  | cons text rest ih =>
    rw [List.flatMap_cons, ← ih]
    simp only [literalTexts, ← List.filter_append, ← List.map_append, List.singleton_append]

/-- The outcome of a document that was loaded, with the texts of its tree. -/
theorem outcome_eq (options : CollectOptions) (path : RepoPath) (target : String) (tree : Node) :
    Document.outcome options { path := path, target := target, tree := tree } =
      { path := path
        target := target
        stringsChecked := Count.ofNat (tree.leaves options).length
        failures := literalTexts (tree.leaves options)
        loadError := none } := by
  simp [Document.outcome, Node.collectLeaves_eq_leaves]

/-- Two documents that differ in ignored elements alone can both be written, and however they are
written, both are read and have the same literal texts in the same order. When the elements are
refilled, and not deleted, as many texts are checked in one as in the other. -/
theorem outcome_of_altered (options : CollectOptions)
    (hkey : options.ignore.contains Node.textKey = false) {root : Element}
    (hform : Content.Writable [root.toContent]) {change : Change} {content' : List Content}
    (h : Content.Altered options.ignore change root.content content')
    (hform' : change = .refilling → Content.Writable content') :
    let altered : Element := { root with content := content' }
    (∃ source source', Written [root.toContent] source ∧ Written [altered.toContent] source') ∧
      ∀ source source', Written [root.toContent] source → Written [altered.toContent] source' →
        ∃ tree tree', parse (String.ofList source) = .ok tree ∧
          parse (String.ofList source') = .ok tree' ∧
          ∀ path target,
            let outcome := Document.outcome options ⟨path, target, tree, none⟩
            let outcome' := Document.outcome options ⟨path, target, tree', none⟩
            outcome.failures = outcome'.failures ∧
              (change = .refilling → outcome.stringsChecked = outcome'.stringsChecked) := by
  intro altered
  obtain ⟨name, attributes, content⟩ := root
  have hskips : options.skips Node.textKey = false := by
    rw [CollectOptions.skips, hkey]
    simp [Node.textKey, Node.attributeKey]
  have haltered : Content.Writable [altered.toContent] := by
    rw [Element.toContent, Content.Writable] at hform ⊢
    refine ⟨hform.1, ?_, hform.2.2⟩
    cases change with
    | deletion => exact h.writable hform.2.1
    | refilling => exact hform' rfl
  obtain ⟨source, hsource⟩ := exists_written [Element.toContent ⟨name, attributes, content⟩]
  obtain ⟨source', hsource'⟩ := exists_written [altered.toContent]
  refine ⟨⟨source, source', hsource, hsource'⟩, fun source source' hsource hsource' =>
    ⟨_, _, parse_of_written hsource hform, parse_of_written hsource' haltered,
      fun path target => ?_⟩⟩
  have hliteral := picked_document_eq (fun text => literalTexts [text]) name attributes h hskips
    fun _ _ => literalTexts_of_space
  simp only [picked, ← literalTexts_eq_flatMap] at hliteral
  refine ⟨by rw [outcome_eq, outcome_eq]; exact hliteral, fun hchange => ?_⟩
  have hall := picked_document_eq (fun text => [text]) name attributes h hskips
    (by simp [hchange])
  simp only [picked, List.flatMap_singleton'] at hall
  rw [outcome_eq, outcome_eq, hall]

/-- A script that splits a text and makes its element a mapping is deleted. -/
theorem outcome_without_script :
    ∃ tree tree', parse "<p>Good<script>x</script>bye</p>" = .ok tree ∧
      parse "<p>Goodbye</p>" = .ok tree' ∧
      (Document.outcome {} ⟨⟨"p.xml"⟩, "ui", tree, none⟩).failures =
        (Document.outcome {} ⟨⟨"p.xml"⟩, "ui", tree', none⟩).failures := by
  let script : Content := .element "script".toList [] [.text ['x']]
  let root : Element := ⟨['p'], [], [.text "Good".toList, script, .text "bye".toList]⟩
  have hname : ∀ name ∈ [['p'], "script".toList], IsTagName name := by
    simp [IsTagName, IsName, IsQuotation, Text.isMarkupBlank]
  have htag : ∀ name ∈ [['p'], "script".toList], TagWritable name [] := fun name hname' =>
    ⟨hname name hname', by simp, by simp⟩
  have hform : Content.Writable [root.toContent] := by
    simp only [root, script, Element.toContent, Content.Writable]
    exact ⟨htag _ (by simp), ⟨htag _ (by simp), trivial, trivial⟩, trivial⟩
  have h : Content.Altered IgnoreSet.standard .deletion root.content
      [.text "Good".toList, .text "bye".toList] :=
    .piece rfl (.deleted (by decide +kernel) (.piece rfl .nil))
  have hplain (s : List Char) (hs : s.all fun c => c ≠ '<' ∧ c ≠ '&') : Escaped none s s := by
    induction s with
    | nil => exact .nil
    | cons c s ih =>
      rw [List.all_cons, Bool.and_eq_true, decide_eq_true_iff] at hs
      exact .bare hs.1.1 hs.1.2 (by simp) (ih hs.2)
  have hsource : Written [root.toContent] "<p>Good<script>x</script>bye</p>".toList :=
    .element .nil (.text (hplain "Good".toList (by decide +kernel)) (.element .nil
      (.text (hplain ['x'] (by decide +kernel)) .nil)
      (.text (hplain "bye".toList (by decide +kernel)) .nil))) .nil
  have hsource' : Written [Element.toContent ⟨['p'], [], [.text "Good".toList, .text "bye".toList]⟩]
      "<p>Goodbye</p>".toList :=
    .element .nil (.text (hplain "Good".toList (by decide +kernel))
      (.text (hplain "bye".toList (by decide +kernel)) .nil)) .nil
  obtain ⟨tree, tree', hparse, hparse', hsame⟩ :=
    (outcome_of_altered {} (by decide +kernel) hform h (by simp)).2 _ _ hsource hsource'
  rw [String.ofList_toList] at hparse hparse'
  exact ⟨tree, tree', hparse, hparse', (hsame ⟨"p.xml"⟩ "ui").1⟩

end LocaleLint.Markup
