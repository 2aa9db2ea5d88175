import LocaleLint.Entries
import LocaleLint.Node
import LocaleLint.Markup.Fault

/-!
# Document trees from markup

Builds the tree of a document from its events. An element without attributes and
children is a leaf. Any other element is a mapping: its text stands under `_` when
it is more than space or holds character data, its attributes stand under `$`, and
the children of each tag are a sequence under that tag. The document is a mapping
from the tag of its root to the root.
-/

set_option autoImplicit false

namespace LocaleLint.Markup

/-- An element whose end has not been read. -/
structure Frame where
  name : String
  attributes : List (String × Node) := []
  children : List (String × List Node) := []
  text : String := ""
  hasCdata : Bool := false
deriving BEq, Repr

namespace Frame

/-- The element that a start tag opens. -/
def ofTag (tag : Tag) : Except AttributeFault Frame :=
  (Attribute.ofTag tag).map fun attributes =>
    { name := String.ofList tag.name
      attributes := attributes.map fun found =>
        (String.ofList found.key, .leaf (String.ofList found.value)) }

/-- Adds text to the element. -/
def addText (frame : Frame) (content : List Char) : Frame :=
  { frame with text := frame.text ++ String.ofList content }

/-- Adds character data to the element. -/
def addCdata (frame : Frame) (content : List Char) : Frame :=
  { frame.addText content with hasCdata := true }

/-- Adds a child after the children that the element has under the same tag. -/
def addChild (frame : Frame) (tag : String) (node : Node) : Frame :=
  { frame with
    children := Entries.alter frame.children tag fun earlier => earlier.getD [] ++ [node] }

/-- Whether the element's text is kept next to attributes and children. -/
def keepsText (frame : Frame) : Bool :=
  frame.hasCdata || !Text.isAll Text.isSpace frame.text

/-- The entries of an element that is no leaf. A child may have the name of a reserved key,
and then takes its place. -/
def entries (frame : Frame) : List (String × Node) :=
  let reserved :=
    (if frame.keepsText then [(Node.textKey, Node.leaf frame.text)] else []) ++
      (if frame.attributes.isEmpty then []
        else [(Node.attributeKey, Node.mapping frame.attributes)])
  frame.children.foldl
    (fun entries child => Entries.put entries child.1 (.sequence child.2)) reserved

/-- The tree of the element. -/
def node (frame : Frame) : Node :=
  if frame.attributes.isEmpty && frame.children.isEmpty then .leaf frame.text
  else .mapping frame.entries

end Frame

/-- What has been built: the open elements, the innermost first, and the root once it is
complete. -/
structure Building where
  frames : List Frame := []
  root : Option (String × Node) := none
deriving BEq, Repr

namespace Building

/-- Puts a complete element into the innermost open element, or makes it the root. -/
def attach (building : Building) (tag : String) (node : Node) : Building :=
  match building.frames with
  | [] => { building with root := some (tag, node) }
  | frame :: outer => { building with frames := frame.addChild tag node :: outer }

/-- The element that a tag opens. A second root is a fault before its attributes are read. -/
def opening (building : Building) (tag : Tag) : Except DocumentFault Frame :=
  if building.frames.isEmpty && building.root.isSome then
    .error (.secondRoot (String.ofList tag.name))
  else (Frame.ofTag tag).mapError .inAttribute

/-- What one event adds. -/
def step (building : Building) : Event → Except DocumentFault Building
  | .text content =>
    match building.frames with
    | [] =>
      if content.all Text.isAsciiBlank then .ok building else .error .textOutsideRoot
    | frame :: outer =>
      match Reference.unescape content with
      | .ok content => .ok { building with frames := frame.addText content :: outer }
      | .error fault => .error (.inReference fault)
  | .cdata content =>
    match building.frames with
    | [] => .error .textOutsideRoot
    | frame :: outer => .ok { building with frames := frame.addCdata content :: outer }
  | .start tag =>
    (building.opening tag).map fun frame => { building with frames := frame :: building.frames }
  | .empty tag => (building.opening tag).map fun frame => building.attach frame.name frame.node
  | .stop =>
    match building.frames with
    | [] => .ok building
    | frame :: outer => .ok ({ building with frames := outer }.attach frame.name frame.node)

/-- The document, when the text has ended. -/
def finish (building : Building) : Except DocumentFault Node :=
  match building.frames, building.root with
  | frame :: _, _ => .error (.unclosedElement frame.name)
  | [], some (tag, node) => .ok (.mapping [(tag, node)])
  | [], none => .error .noRoot

/-- Adds the events of a list in turn. A fault has the offset at which its event ends; when
there is none, the fault of reading counts, and then that of the finished text. -/
def run (events : Events) (building : Building) :
    List (Located Event) → Except (DocumentFault × Nat) Node
  | [] =>
    match events.fault with
    | some (fault, offset) => .error (.read fault, offset)
    | none => building.finish.mapError fun fault => (fault, events.stop)
  | event :: rest =>
    match building.step event.item with
    | .ok building => run events building rest
    | .error fault => .error (fault, event.stop)

end Building

/-- The tree of the events, or the first fault with its offset. -/
def treeOfEvents (events : Events) : Except (DocumentFault × Nat) Node :=
  Building.run events {} events.events

/-- A text without a byte order mark at its start. -/
def dropMark : List Char → List Char
  | c :: rest => if c = Text.byteOrderMark then rest else c :: rest
  | [] => []

/-- The tree of the document that the characters `text` spell. One byte order mark is
passed over and counts for no offset, while places are counted in the whole text. -/
def parseList (text : List Char) : Except ParseError Node :=
  (treeOfEvents (Events.ofText (dropMark text))).mapError fun (fault, offset) =>
    ⟨fault, Position.ofOffset text offset⟩

/-- The tree of the document that `text` spells. -/
def parse (text : String) : Except ParseError Node :=
  parseList text.toList

end LocaleLint.Markup
