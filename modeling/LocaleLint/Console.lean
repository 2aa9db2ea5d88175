import LocaleLint.Evaluation

/-!
# The console listing

What a run prints for a person: each document that was not loaded or has literal texts,
with the texts, and a closing line. The listing is made of pieces of text with styles. In
color, the codes of its style stand before a styled piece and a reset stands after it;
without color, the pieces are all there is.
-/

set_option autoImplicit false

namespace LocaleLint

/-- A style of text. -/
inductive Style where
  | red
  | green
  | magenta
  | bold
deriving DecidableEq, Repr

/-- The number that stands for a style in an escape sequence. -/
def Style.code : Style → Nat
  | .red => 31
  | .green => 32
  | .magenta => 35
  | .bold => 1

/-- A piece of text with its styles. -/
structure Span where
  text : String
  styles : List Style := []
deriving DecidableEq, Repr

namespace Span

/-- The escape sequence of a number. -/
def sequence (code : Nat) : String :=
  "\x1b[" ++ toString code ++ "m"

/-- A piece of text in color. -/
def colored (span : Span) : String :=
  if span.styles.isEmpty then span.text
  else String.join (span.styles.map fun style => sequence style.code) ++ span.text ++ sequence 0

/-- A piece of text with or without color. -/
def render (color : Bool) (span : Span) : String :=
  if color then span.colored else span.text

end Span

/-- A document in the listing. -/
structure ConsoleDocument where
  path : String
  failures : List String := []
  loadError : Option String := none
deriving DecidableEq, Repr

/-- What the listing of a run shows. -/
structure ConsoleSummary where
  documents : List ConsoleDocument := []
  documentsFailed : Count := 0
deriving DecidableEq, Repr

namespace ConsoleDocument

/-- The document of an outcome. -/
def ofOutcome (outcome : Outcome) : ConsoleDocument where
  path := outcome.path.text
  failures := outcome.failures
  loadError := outcome.loadError

/-- A line with the path and something said about it. -/
def headline (document : ConsoleDocument) (text : String) : List Span :=
  [⟨document.path, [.magenta, .bold]⟩, ⟨" - ", []⟩, ⟨text, [.red]⟩, ⟨"\n", []⟩]

/-- What is said about a document that was not loaded. -/
def loadSpans (document : ConsoleDocument) : List Span :=
  match document.loadError with
  | some error =>
    document.headline "Compile Error..." ++ [⟨">> " ++ error, [.red]⟩, ⟨"\n", []⟩]
  | none => []

/-- What is said about the literal texts of a document. -/
def failureSpans (document : ConsoleDocument) : List Span :=
  if document.failures.isEmpty then []
  else
    document.headline (toString document.failures.length ++ " issue(s)") ++
      document.failures.flatMap fun text => [⟨"\t", []⟩, ⟨"* ", [.red]⟩, ⟨text ++ "\n", []⟩]

/-- All that is said about a document. -/
def spans (document : ConsoleDocument) : List Span :=
  document.loadSpans ++ document.failureSpans

end ConsoleDocument

namespace ConsoleSummary

/-- The listing of an evaluated batch. -/
def ofEvaluation (evaluation : Evaluation) : ConsoleSummary where
  documents := evaluation.outcomes.map ConsoleDocument.ofOutcome
  documentsFailed := evaluation.tally.documentsFailed

/-- What to do about literal texts. -/
def hint : String :=
  "Please wrap these strings in a $\x7bgs.getMessage()\x7d jelly script or equivalent " ++
    "to make them international-friendly."

/-- The closing lines. -/
def closingSpans (summary : ConsoleSummary) : List Span :=
  if 0 < summary.documentsFailed.val then
    [⟨toString summary.documentsFailed.val ++ " files have failed.", [.red]⟩, ⟨"\n", []⟩,
      ⟨hint, [.red]⟩, ⟨"\n", []⟩]
  else [⟨"Complete! :)", [.green]⟩, ⟨"\n", []⟩]

/-- The pieces of the listing. -/
def spans (summary : ConsoleSummary) : List Span :=
  summary.documents.flatMap ConsoleDocument.spans ++ summary.closingSpans

/-- The listing with or without color. -/
def render (color : Bool) (summary : ConsoleSummary) : String :=
  String.join (summary.spans.map (Span.render color))

end ConsoleSummary

end LocaleLint
