import LocaleLint.Finding

/-!
# Explanations

What is said about a check or code when one asks for it: what it finds, how to mend it,
and an example before and after.
-/

set_option autoImplicit false

namespace LocaleLint

/-- The explanation of a check or code. -/
structure Explanation where
  title : String
  description : String
  remediation : String
  before : String
  after : String
deriving DecidableEq, Repr

namespace Explanation

/-- Lines as one text. -/
def ofLines (lines : List String) : String :=
  "\n".intercalate lines

/-- The explanation of the check for literal text. -/
def untranslatedText : Explanation where
  title := "Untranslated Text"
  description := ofLines
    ["Detects element text that contains literal natural-language copy instead of a",
      "message lookup or template interpolation.",
      "",
      "Every text node is trimmed and then peeled from both ends: punctuation, digits,",
      "whitespace and `$[SP]` markers are stripped until either nothing alphabetic is",
      "left (legal), the remainder is a full `\x7b\x7b...\x7d\x7d` expression (legal), the remainder",
      "starts with a `$\x7b` interpolation (legal), or a letter is reached at both ends",
      "(illegal).",
      "",
      "Text inside `script`, `g:evaluate` and `g2:evaluate` elements is never checked.",
      "Attribute values are only checked when `check_attributes = true`."]
  remediation := ofLines
    ["Move the copy into a message bundle and reference it through an interpolation:",
      "",
      "    $\x7bgs.getMessage('Welcome')\x7d",
      "",
      "Purely numeric or symbolic text, and text made only of placeholders, passes as is."]
  before := ofLines
    ["<j:jelly xmlns:j=\"jelly:core\">",
      "  <h1>Welcome</h1>",
      "  <span>\x7b\x7bcount\x7d\x7d items</span>",
      "</j:jelly>"]
  after := ofLines
    ["<j:jelly xmlns:j=\"jelly:core\">",
      "  <h1>$\x7bgs.getMessage('Welcome')\x7d</h1>",
      "  <span>\x7b\x7bitemsLabel\x7d\x7d</span>",
      "</j:jelly>"]

/-- The explanation of the check that a document can be read. -/
def documentParse : Explanation where
  title := "XML Parse Failure"
  description := ofLines
    ["Reports documents that could not be read or parsed as well-formed XML.",
      "",
      "A document that fails to parse is not checked for untranslated text, so its",
      "contents are effectively unverified. Parse failures are reported as warnings and",
      "never stop the rest of the batch."]
  remediation := ofLines
    ["Fix the markup at the reported line and column. Common causes are unclosed or",
      "mismatched tags, unescaped `&` and `<` in text, HTML-only entities such as",
      "`&nbsp;`, and more than one root element."]
  before := ofLines
    ["<j:jelly>",
      "  <p>Terms &nbsp; Conditions</p>",
      "</j:jelly"]
  after := ofLines
    ["<j:jelly>",
      "  <p>$\x7bgs.getMessage('Terms and Conditions')\x7d</p>",
      "</j:jelly>"]

/-- The explanation of the code for a document that could not be read. -/
def readError : Explanation where
  title := "Read Error"
  description := ofLines
    ["A document matched a target pattern but could not be read, or its contents were",
      "not valid UTF-8."]
  remediation := ofLines
    ["Check file permissions and re-save the document as UTF-8, or exclude it from the",
      "target with a `!` pattern."]
  before := ofLines ["[targets.ui]", "src = [\"ui/**/*.xml\"]"]
  after := ofLines ["[targets.ui]", "src = [\"ui/**/*.xml\", \"!ui/vendor/**\"]"]

/-- The checks that have an explanation. -/
def checks : List (String × Explanation) :=
  [(CheckId.untranslatedText, untranslatedText), (CheckId.documentParse, documentParse)]

/-- The codes that have an explanation. -/
def codes : List (String × Explanation) :=
  [(Code.literalText, { untranslatedText with title := "Literal Text" }),
    (Code.parseError, { documentParse with title := "Parse Error" }),
    (Code.readError, readError)]

/-- The explanation of a check or code. -/
def find? (identifier : String) : Option Explanation :=
  (checks ++ codes).lookup identifier

/-- The example under a label, set as a block of code. -/
def exampleText (label body : String) : String :=
  label ++ "\n```xml\n" ++ body ++ "\n```\n"

/-- The text of an explanation. -/
def text (explanation : Explanation) : String :=
  explanation.title ++ "\n" ++
    String.ofList (List.replicate explanation.title.utf8ByteSize '=') ++ "\n\n" ++
    explanation.description ++ "\n\n" ++
    "Remediation\n-----------\n" ++ explanation.remediation ++ "\n\n" ++
    "Examples\n--------\n\n" ++
    exampleText "Before (violation):" explanation.before ++ "\n" ++
    exampleText "After (fixed):" explanation.after

/-- What is said about an identifier without an explanation. -/
def unknownText (identifier : String) : String :=
  let items := fun (entries : List (String × Explanation)) =>
    String.join (entries.map fun entry => "  - " ++ entry.1 ++ "\n")
  "Unknown check_id or code: " ++ identifier ++ "\n\n" ++
    "Available check_ids:\n" ++ items checks ++ "\nAvailable codes:\n" ++ items codes

end Explanation

end LocaleLint
