import LocaleLint.Markup.Token

/-!
# Markup events

Tokens with their nesting checked. Comments, instructions and document types are
dropped, a start tag is divided into its name and the source of its attributes, and
every end tag has to name the innermost open element.
-/

set_option autoImplicit false

namespace LocaleLint.Markup

/-- The name of an element and the source of its attributes, blanks included. -/
structure Tag where
  name : List Char
  attributes : List Char
deriving DecidableEq, Repr

/-- The tag whose content is `content`: the name ends at the first blank. -/
def Tag.ofContent (content : List Char) : Tag :=
  ⟨content.takeWhile fun c => !Text.isMarkupBlank c,
    content.dropWhile fun c => !Text.isMarkupBlank c⟩

/-- What a reader of markup meets. -/
inductive Event where
  | text (content : List Char)
  | cdata (content : List Char)
  | start (tag : Tag)
  | empty (tag : Tag)
  | stop
deriving DecidableEq, Repr

/-- Why reading stops: a construct without an end, an end tag that closes nothing, or one
that closes another element than the innermost. -/
inductive ReadFault where
  | token (fault : TokenFault)
  | unopened (name : List Char)
  | mismatched (expected : List Char) (found : List Char)
deriving DecidableEq, Repr

/-- The events of a text, up to its end or to the first fault, which is given with the
offset at which it is reported. -/
structure Events where
  events : List (Located Event)
  fault : Option (ReadFault × Nat)
  stop : Nat
deriving DecidableEq, Repr

/-- The name in an end tag: its content without the blanks at the end. Content that is all
blank is kept as it is. -/
def endName (content : List Char) : List Char :=
  if content.all Text.isMarkupBlank then content
  else (content.reverse.dropWhile Text.isMarkupBlank).reverse

namespace Events

/-- What one token means while the elements `names` are open, the innermost first: the
event, if the token is not dropped, and the elements that are open after it. -/
def ofToken (names : List (List Char)) :
    Token → Except ReadFault (Option Event × List (List Char))
  | .text content => .ok (some (.text content), names)
  | .cdata content => .ok (some (.cdata content), names)
  | .comment _ => .ok (none, names)
  | .instruction _ => .ok (none, names)
  | .doctype _ => .ok (none, names)
  | .startTag content =>
    if content.getLast? = some '/' then
      .ok (some (.empty (Tag.ofContent content.dropLast)), names)
    else
      let tag := Tag.ofContent content
      .ok (some (.start tag), tag.name :: names)
  | .endTag content =>
    let name := endName content
    match names with
    | [] => .error (.unopened name)
    | expected :: outer =>
      if expected = name then .ok (some .stop, outer)
      else .error (.mismatched expected name)

/-- Reads the events of a list of tokens while the elements `names` are open; `found`
holds the events before them, the latest first. -/
def read (tokens : Tokens) (names : List (List Char)) (found : List (Located Event)) :
    List (Located Token) → Events
  | [] =>
    ⟨found.reverse, tokens.fault.map fun fault => (.token fault.1, fault.2), tokens.stop⟩
  | token :: rest =>
    match ofToken names token.item with
    | .error fault => ⟨found.reverse, some (fault, token.start), token.start⟩
    | .ok (none, names) => read tokens names found rest
    | .ok (some event, names) =>
      read tokens names (⟨event, token.start, token.stop⟩ :: found) rest

/-- The events of a list of tokens. -/
def ofTokens (tokens : Tokens) : Events :=
  read tokens [] [] tokens.tokens

/-- The events of a text. -/
def ofText (s : List Char) : Events :=
  ofTokens (Tokens.ofText s)

end Events

end LocaleLint.Markup
