import LocaleLint.Markup.Attribute
import LocaleLint.Markup.Position

/-!
# Faults of a document

Why a text is no document, where, and in which words that is said. Every cause has
its own constructor; the wording is in the functions `message`.
-/

set_option autoImplicit false

namespace LocaleLint.Markup

namespace TokenFault

/-- What is said about a construct whose end is missing. -/
def unclosed (construct ending : String) : String :=
  "syntax error: " ++ construct ++ " not closed: `" ++ ending ++ "` not found before end of input"

/-- What is said about a fault of a token. -/
def message : TokenFault → String
  | .unclosedTag => unclosed "tag" ">"
  | .unclosedCdata => unclosed "CDATA" "]]>"
  | .unclosedComment => unclosed "comment" "-->"
  | .unclosedInstruction => unclosed "processing instruction or xml declaration" "?>"
  | .unclosedDoctype => unclosed "DOCTYPE" ">"
  | .unknownMarkup => "syntax error: unknown or missed symbol in markup"
  | .unnamedDoctype _ =>
    "ill-formed document: `<!DOCTYPE>` declaration does not contain a name of a document type"

end TokenFault

namespace ReadFault

/-- What is said about a fault of reading. -/
def message : ReadFault → String
  | .token fault => fault.message
  | .unopened name =>
    "ill-formed document: close tag `</" ++ String.ofList name ++ ">` does not match any open tag"
  | .mismatched expected found =>
    "ill-formed document: expected `</" ++ String.ofList expected ++ ">`, but `</" ++
      String.ofList found ++ ">` was found"

end ReadFault

namespace ReferenceFault

/-- What is said about a fault of a character reference. -/
def character (reason : String) : String :=
  "invalid character reference: " ++ reason

/-- What is said about a fault of a reference. -/
def message : ReferenceFault → String
  | .unterminated start stop =>
    "Error while escaping character at range " ++ toString start ++ ".." ++ toString stop ++
      ": Cannot find ';' after '&'"
  | .unknown start stop name =>
    "at " ++ toString start ++ ".." ++ toString stop ++ ": unrecognized entity `" ++
      String.ofList name ++ "`"
  | .sign => character "unexpected number sign"
  | .noDigits => character "cannot parse integer from empty string"
  | .badDigit => character "invalid digit found in string"
  | .tooLarge => character "number too large to fit in target type"
  | .zero => character "0x0 character is not permitted in XML"
  | .notScalar code => character ("`" ++ toString code ++ "` is not a valid codepoint")

end ReferenceFault

namespace AttributeFault

/-- What is said about a fault at an offset in a tag. -/
def atOffset (offset : Nat) (reason : String) : String :=
  "error while parsing attribute: position " ++ toString offset ++ ": " ++ reason

/-- What is said about a fault of an attribute. -/
def message : AttributeFault → String
  | .noEquals offset => atOffset offset "attribute key must be directly followed by `=` or space"
  | .noValue offset => atOffset offset "`=` must be followed by an attribute value"
  | .unquoted offset => atOffset offset "attribute value must be enclosed in `\"` or `'`"
  | .unclosedQuote offset quote =>
    atOffset offset ("missing closing quote `" ++ quote.toString ++ "` in attribute value")
  | .duplicate offset earlier =>
    atOffset offset ("duplicated attribute, previous declaration at position " ++ toString earlier)
  | .inReference fault => fault.message

end AttributeFault

/-- Why a text is no document. -/
inductive DocumentFault where
  | read (fault : ReadFault)
  | inAttribute (fault : AttributeFault)
  | inReference (fault : ReferenceFault)
  | noRoot
  | secondRoot (name : String)
  | textOutsideRoot
  | unclosedElement (name : String)
deriving DecidableEq, Repr

namespace DocumentFault

/-- What is said about a fault, without its place. -/
def message : DocumentFault → String
  | .read fault => fault.message
  | .inAttribute fault => fault.message
  | .inReference fault => fault.message
  | .noRoot => "document has no root element"
  | .secondRoot name => "unexpected second root element <" ++ name ++ ">"
  | .textOutsideRoot => "text outside the root element"
  | .unclosedElement name => "unclosed element <" ++ name ++ ">"

end DocumentFault

/-- A fault with the place at which it is reported. -/
structure ParseError where
  fault : DocumentFault
  position : Position
deriving DecidableEq, Repr

namespace ParseError

/-- What is said about a fault and its place. -/
def message (error : ParseError) : String :=
  error.fault.message ++ " at line " ++ toString error.position.line.val ++ ", column " ++
    toString error.position.column.val

end ParseError

end LocaleLint.Markup
