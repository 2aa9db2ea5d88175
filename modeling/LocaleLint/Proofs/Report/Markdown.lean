import LocaleLint.Proofs.Evaluation.Findings
import LocaleLint.Proofs.Json.Tokens
import LocaleLint.Proofs.Text.Lines
import LocaleLint.Report.Basic
import LocaleLint.Report.Markdown
import Mathlib.Data.List.SplitBy
import Mathlib.Tactic.TFAE

/-!
# Entries in Markdown

A reader takes the list of findings apart at the lines that start with a dash and a bracket
(`Markdown.entries`). The texts of a notice are written as they are, so each break in one of them
makes a line more (`Notice.sum_breaks_markdownLines`). The main result `one_entry_each_iff` says
that the list has as many lines as there are findings, helps and links and breaks in their texts,
and that each finding is read as one entry just when there are no breaks. A text with a break can
pass for another finding (`entry_passed_off`).
-/

set_option autoImplicit false

namespace LocaleLint

open Text (breaks breaks_append)

/-! ## What a reader takes for an entry -/

namespace Markdown

/-- Whether an entry starts with a line. -/
def startsEntry (line : String) : Bool :=
  "- [".toList.isPrefixOf line.toList

/-- The entries of a list, each as its lines. -/
def entries (list : String) : List (List String) :=
  (Text.lines list).splitBy fun _ line => !startsEntry line

/-- The entries of a list have all of its lines, in order. -/
theorem flatten_entries (list : String) : (entries list).flatten = Text.lines list :=
  List.flatten_splitBy _ _

end Markdown

/-! ## The lines of an entry -/

/-- The label of a severity is one line. -/
theorem Severity.breaks_label (severity : Severity) : breaks severity.label = 0 := by
  cases severity <;> rfl

/-- The text of a number is one line. -/
theorem Text.breaks_toString (n : Nat) : breaks (toString n) = 0 :=
  Text.breaks_eq_zero_iff.2 (Json.not_mem_toString (by decide) n)

/-- A place has the line breaks of its path, and no others. -/
theorem Location.breaks_markdown (location : Location) :
    breaks location.markdown = breaks location.path.text := by
  have hmark : breaks "`" = 0 := rfl
  have hcolon : breaks ":" = 0 := rfl
  rw [Location.markdown]
  cases location.line with
  | none => simp only [breaks_append, hmark, String.append_empty, Nat.zero_add, Nat.add_zero]
  | some line =>
    simp only [breaks_append, hmark, hcolon, Text.breaks_toString, Nat.zero_add, Nat.add_zero]

namespace Notice

/-- The texts of a notice that stand in its entry. -/
def texts (notice : Notice) : List String :=
  notice.checkId.toList ++ [notice.code, notice.message] ++
    (notice.location.map (·.path.text)).toList ++ notice.help.toList ++ notice.url.toList

/-- A title has the line breaks of the texts that are written into it, and no others. -/
theorem breaks_markdownTitle (notice : Notice) :
    breaks notice.markdownTitle =
      ((notice.checkId.toList ++ [notice.code, notice.message] ++
        (notice.location.map (·.path.text)).toList).map breaks).sum := by
  have hplain : breaks "- [" = 0 ∧ breaks "] `" = 0 ∧ breaks "` / `" = 0 ∧ breaks "`: " = 0 ∧
      breaks " (" = 0 ∧ breaks ")" = 0 ∧ breaks "" = 0 := by decide
  rw [markdownTitle]
  cases notice.checkId <;> cases notice.location <;>
    simp [breaks_append, Severity.breaks_label, Location.breaks_markdown, hplain] <;> omega

/-- A prefix without breaks in front of a text that may be there. -/
theorem sum_breaks_map_append {front : String} (h : breaks front = 0) (text : Option String) :
    ((text.map (front ++ ·)).toList.map breaks).sum = (text.toList.map breaks).sum := by
  cases text with
  | none => rfl
  | some text => simp [breaks_append, h]

/-- The breaks in an entry are those of its texts. -/
theorem sum_breaks_markdownLines (notice : Notice) :
    (notice.markdownLines.map breaks).sum = (notice.texts.map breaks).sum := by
  have hhelp := sum_breaks_map_append (rfl : breaks "  - help: " = 0) notice.help
  have hurl := sum_breaks_map_append (rfl : breaks "  - url: " = 0) notice.url
  rw [markdownLines, texts, List.map_cons, List.sum_cons, breaks_markdownTitle]
  simp only [List.map_append, List.sum_append, hhelp, hurl, Nat.add_assoc]

/-- A notice is given a title, and a line each for its help and its link. -/
theorem length_markdownLines (notice : Notice) :
    notice.markdownLines.length =
      1 + (if notice.help.isSome then 1 else 0) + (if notice.url.isSome then 1 else 0) := by
  rw [markdownLines]
  cases notice.help <;> cases notice.url <;> rfl

/-- Every title starts an entry. -/
theorem startsEntry_markdownTitle (notice : Notice) :
    Markdown.startsEntry notice.markdownTitle = true := by
  simp only [Markdown.startsEntry, markdownTitle, String.toList_append, List.append_assoc]
  exact List.isPrefixOf_iff_prefix.2 (List.prefix_append _ _)

/-- No entry starts with a line for help or a link. -/
theorem startsEntry_of_mem_tail {notice : Notice} {line : String}
    (h : line ∈ notice.markdownLines.tail) : Markdown.startsEntry line = false := by
  rw [markdownLines, List.tail_cons, List.mem_append] at h
  rcases h with hhelp | hurl
  · obtain ⟨help, -, rfl⟩ := Option.map_eq_some_iff.1 (Option.mem_toList.1 hhelp)
    rw [Markdown.startsEntry, String.toList_append]
    rfl
  · obtain ⟨url, -, rfl⟩ := Option.map_eq_some_iff.1 (Option.mem_toList.1 hurl)
    rw [Markdown.startsEntry, String.toList_append]
    rfl

end Notice

/-! ## The list of findings -/

namespace ReportView

/-- What stands in front of the list of findings. -/
def preface (view : ReportView) : String :=
  String.join ((view.markdownHeader ++ view.markdownNote).map (· ++ "\n"))

/-- The list of findings. -/
def listing (view : ReportView) : String :=
  String.join ((view.notices.flatMap Notice.markdownLines).map (· ++ "\n"))

/-- The number of lines when each finding, each help and each link takes one. -/
def plainLength (view : ReportView) : Nat :=
  view.notices.length + view.notices.countP (·.help.isSome) + view.notices.countP (·.url.isSome)

/-- A report with findings is its preface, a heading, and the list of findings. -/
theorem markdown_of_notices {view : ReportView} (h : view.notices ≠ []) :
    view.markdown = view.preface ++ "## Findings\n\n" ++ view.listing := by
  have hfindings : view.markdownFindings =
      ["## Findings", ""] ++ view.notices.flatMap Notice.markdownLines := by
    rw [markdownFindings, if_neg (by simpa using h)]
  have hheading : String.join (["## Findings", ""].map (· ++ "\n")) = "## Findings\n\n" := by
    decide
  have hlist : String.join ((["## Findings", ""] ++
      view.notices.flatMap Notice.markdownLines).map (· ++ "\n")) =
        "## Findings\n\n" ++ view.listing := by
    rw [List.map_append, String.join_append, hheading]
    rfl
  rw [markdown, hfindings, List.map_append, String.join_append, hlist, ← String.append_assoc]
  rfl

/-- Notices are given a line each, and one for each help and each link. -/
theorem length_flatMap_markdownLines (notices : List Notice) :
    (notices.flatMap Notice.markdownLines).length = notices.length +
      notices.countP (·.help.isSome) + notices.countP (·.url.isSome) := by
  induction notices with
  | nil => rfl
  | cons notice rest ih =>
    rw [List.flatMap_cons, List.length_append, ih, Notice.length_markdownLines, List.length_cons,
      List.countP_cons, List.countP_cons]
    omega

/-- The lines of notices have the line breaks of their texts, and no others. -/
theorem sum_breaks_flatMap_markdownLines (notices : List Notice) :
    ((notices.flatMap Notice.markdownLines).map breaks).sum =
      ((notices.flatMap Notice.texts).map breaks).sum := by
  induction notices with
  | nil => rfl
  | cons notice rest ih =>
    simp only [List.flatMap_cons, List.map_append, List.sum_append,
      Notice.sum_breaks_markdownLines, ih]

/-- The entries that a reader finds are those that were written, if the lines are. -/
theorem entries_of_lines {view : ReportView}
    (h : Text.lines view.listing = view.notices.flatMap Notice.markdownLines) :
    Markdown.entries view.listing = view.notices.map Notice.markdownLines := by
  have hflatten : view.notices.flatMap Notice.markdownLines =
      (view.notices.map Notice.markdownLines).flatten := rfl
  rw [Markdown.entries, h, hflatten]
  apply List.splitBy_flatten
  · intro hnil
    obtain ⟨notice, -, hnotice⟩ := List.mem_map.1 hnil
    cases hnotice
  · intro lines hlines
    obtain ⟨notice, -, rfl⟩ := List.mem_map.1 hlines
    refine List.Pairwise.isChain (List.pairwise_cons.2 ⟨fun line hline => ?_, ?_⟩)
    · rw [Notice.startsEntry_of_mem_tail hline, Bool.not_false]
    · refine List.pairwise_of_forall_mem_list fun _ _ line hline => ?_
      rw [Notice.startsEntry_of_mem_tail hline, Bool.not_false]
  · refine List.Pairwise.isChain (List.pairwise_of_forall_mem_list ?_)
    intro first hfirst second hsecond
    obtain ⟨notice, -, rfl⟩ := List.mem_map.1 hfirst
    obtain ⟨next, -, rfl⟩ := List.mem_map.1 hsecond
    refine ⟨List.cons_ne_nil _ _, List.cons_ne_nil _ _, ?_⟩
    rw [Bool.not_eq_false']
    exact next.startsEntry_markdownTitle

/-- Every finding, help and link takes a line, and so does every break in one of the texts. -/
theorem length_lines_listing (view : ReportView) :
    (Text.lines view.listing).length =
      view.plainLength + ((view.notices.flatMap Notice.texts).map breaks).sum := by
  rw [listing, Text.length_lines_join, length_flatMap_markdownLines,
    sum_breaks_flatMap_markdownLines]
  rfl

/-- Three ways to say that each finding has one entry, and what they require of its texts. -/
theorem one_entry_each_tfae (view : ReportView) :
    [Markdown.entries view.listing = view.notices.map Notice.markdownLines,
      Text.lines view.listing = view.notices.flatMap Notice.markdownLines,
      (Text.lines view.listing).length = view.plainLength,
      ∀ notice ∈ view.notices, ∀ text ∈ notice.texts, '\n' ∉ text.toList].TFAE := by
  have hbreaks : ((view.notices.flatMap Notice.texts).map breaks).sum = 0 ↔
      ∀ notice ∈ view.notices, ∀ text ∈ notice.texts, '\n' ∉ text.toList := by
    rw [Text.sum_breaks_eq_zero_iff, List.forall_mem_flatMap]
  tfae_have 1 → 2 := by
    intro h
    rw [← Markdown.flatten_entries, h]
    rfl
  tfae_have 2 → 1 := entries_of_lines
  tfae_have 2 ↔ 4 := by
    rw [← hbreaks, ← sum_breaks_flatMap_markdownLines]
    exact Text.lines_join_eq_iff
  tfae_have 3 ↔ 4 := by
    rw [← hbreaks, length_lines_listing]
    omega
  tfae_finish

end ReportView

/-! ## Findings of a batch -/

/-- The texts in the entry of a finding that are the same for all documents: the check, the code,
the help and the link. -/
def Finding.fixedTexts (finding : Finding) : List String :=
  finding.checkId :: finding.code :: (finding.help.toList ++ finding.url.toList)

/-- The texts of a finding are the fixed ones, its message, and the path of its place. -/
theorem forall_mem_texts_notice (finding : Finding) (P : String → Prop) :
    (∀ text ∈ finding.notice.texts, P text) ↔ (∀ text ∈ finding.fixedTexts, P text) ∧
      P finding.message ∧ ∀ location, finding.location = some location → P location.path.text := by
  have htexts : finding.notice.texts = [finding.checkId, finding.code, finding.message] ++
      (finding.location.map (·.path.text)).toList ++ finding.help.toList ++ finding.url.toList := rfl
  rw [htexts, Finding.fixedTexts]
  simp only [List.forall_mem_append, List.forall_mem_cons]
  cases finding.location with
  | none => simp; tauto
  | some location => simp; tauto

/-- Of the texts in an entry of an evaluated batch, only the message and the path depend on the
documents. -/
theorem Batch.forall_mem_texts_iff {policy : Policy} {batch : Batch} {finding : Finding}
    (h : finding ∈ (batch.evaluate policy).findings) :
    (∀ text ∈ finding.notice.texts, '\n' ∉ text.toList) ↔
      '\n' ∉ finding.message.toList ∧
        ∀ location, finding.location = some location → '\n' ∉ location.path.text.toList := by
  have hfixed : ∀ text ∈ finding.fixedTexts, '\n' ∉ text.toList := by
    rcases finding_cases h with ⟨path, failure, rfl⟩ | ⟨outcome, identity, rfl⟩
    · obtain ⟨kind, message, line, column⟩ := failure
      cases kind <;>
        simp [Finding.fixedTexts, Document.failureFinding, CheckId.documentParse, Code.readError,
          Code.parseError]
    · simp [Finding.fixedTexts, Outcome.textFinding, CheckId.untranslatedText, Code.literalText]
  rw [forall_mem_texts_notice]
  exact and_iff_right hfixed

/-! ## One entry for each finding -/

/-- **The list of findings has one entry for each of them just when no break is in their texts.** In
front of the list stands a heading. The list has a line for each finding, each help, each link and
each break in a text of a finding. For a batch that was evaluated, what counts is whether a break is
in the message or the path of a finding. -/
theorem one_entry_each_iff {view : ReportView} (h : view.notices ≠ []) :
    view.markdown = view.preface ++ "## Findings\n\n" ++ view.listing ∧
    (Text.lines view.listing).length =
      view.plainLength + ((view.notices.flatMap Notice.texts).map breaks).sum ∧
    [Markdown.entries view.listing = view.notices.map Notice.markdownLines,
      Text.lines view.listing = view.notices.flatMap Notice.markdownLines,
      (Text.lines view.listing).length = view.plainLength,
      ∀ notice ∈ view.notices, ∀ text ∈ notice.texts, '\n' ∉ text.toList].TFAE ∧
    ∀ (policy : Policy) (batch : Batch) (startedAt finishedAt : Timestamp),
      (Report.ofEvaluation startedAt finishedAt (batch.evaluate policy)).view = view →
      (Markdown.entries view.listing = view.notices.map Notice.markdownLines ↔
        ∀ finding ∈ (batch.evaluate policy).findings, '\n' ∉ finding.message.toList ∧
          ∀ location, finding.location = some location →
            '\n' ∉ location.path.text.toList) := by
  refine ⟨ReportView.markdown_of_notices h, view.length_lines_listing, view.one_entry_each_tfae, ?_⟩
  rintro policy batch startedAt finishedAt rfl
  have hplain : (∀ notice ∈ (batch.evaluate policy).findings.map Finding.notice,
      ∀ text ∈ notice.texts, '\n' ∉ text.toList) ↔
      ∀ finding ∈ (batch.evaluate policy).findings, ∀ text ∈ finding.notice.texts,
        '\n' ∉ text.toList := List.forall_mem_map
  refine ((ReportView.one_entry_each_tfae _).out 0 3 rfl rfl).trans (hplain.trans ?_)
  exact forall₂_congr fun finding hfinding => Batch.forall_mem_texts_iff hfinding

/-- A page with a text that looks like an entry, and a page that was not read to its end. -/
theorem one_entry_each_iff_of_bracket_text :
    let page : Document := {
      path := ⟨"a.xml"⟩, target := "ui", tree := .mapping [("a", .leaf "- [INFO] `a` / `b`: c")] }
    let broken : Document := {
      path := ⟨"b.xml"⟩, target := "ui"
      failure := some { kind := .parse, message := "unclosed element <b>", line := some 2 } }
    let batch : Batch := ⟨⟨"/"⟩, ["ui"], [page, broken]⟩
    let view := (Report.ofEvaluation Timestamp.epoch Timestamp.epoch (batch.evaluate {})).view
    let written : List (List String) := [
      ["- [ERROR] `intl.untranslated_text` / `literal_text`: " ++
          "untranslated text: - [INFO] `a` / `b`: c (`a.xml`)",
        "  - help: Wrap this string in a $\x7bgs.getMessage()\x7d jelly script or equivalent " ++
          "to make it international-friendly."],
      ["- [WARN] `intl.xml_parse` / `parse_error`: unclosed element <b> (`b.xml`:2)",
        "  - help: Fix the markup so the document parses; its text was not checked."]]
    view.notices ≠ [] ∧ view.markdown = view.preface ++ "## Findings\n\n" ++ view.listing ∧
      (∀ finding ∈ (batch.evaluate {}).findings, '\n' ∉ finding.message.toList) ∧
      Markdown.entries view.listing = written := by
  intro page broken batch view written
  have hlines : view.notices.map Notice.markdownLines = written := by decide +kernel
  have hne : view.notices ≠ [] := by
    intro hnil
    rw [hnil] at hlines
    exact List.cons_ne_nil _ _ hlines.symm
  have hplain : ∀ notice ∈ view.notices, ∀ text ∈ notice.texts, '\n' ∉ text.toList := by
    decide +kernel
  obtain ⟨hmarkdown, -, hentries, hevaluated⟩ := one_entry_each_iff hne
  have hsame := (hentries.out 0 3 rfl rfl).2 hplain
  have hmessages := (hevaluated {} batch _ _ rfl).1 hsame
  exact ⟨hne, hmarkdown, fun finding hfinding => (hmessages finding hfinding).1,
    hsame.trans hlines⟩

/-! ## Entries that nothing was found for -/

namespace Notice

/-- A notice with nothing behind its message. -/
def bare (notice : Notice) : Notice :=
  { notice with location := none, help := none, url := none }

/-- A notice with the place, the help and the link of another. -/
def endingLike (notice other : Notice) : Notice :=
  { notice with location := other.location, help := other.help, url := other.url }

/-- A notice whose message goes on, behind a break, like the entry of another. -/
def followedBy (notice other : Notice) : Notice :=
  { notice with message := notice.message ++ "\n" ++ other.bare.markdownTitle }

/-- A message with a break is written like two notices. -/
theorem join_markdownLines_followedBy (notice other : Notice) :
    String.join ((notice.followedBy other).markdownLines.map (· ++ "\n")) =
      String.join ((notice.bare.markdownLines ++
        (other.endingLike notice).markdownLines).map (· ++ "\n")) := by
  have htitle : (notice.followedBy other).markdownTitle =
      notice.bare.markdownTitle ++ "\n" ++ (other.endingLike notice).markdownTitle := by
    simp only [followedBy, bare, endingLike, markdownTitle, String.append_assoc,
      String.append_empty]
  have hfirst : notice.bare.markdownLines = [notice.bare.markdownTitle] := rfl
  rw [hfirst, markdownLines, markdownLines, htitle, List.singleton_append]
  simp only [List.map_cons, String.join_cons, String.append_assoc]
  rfl

end Notice

/-- A text of a document can be so written that behind a break in it stands the entry of another
finding, which has not been found. -/
theorem entry_passed_off :
    let page : Document := {
      path := ⟨"a.xml"⟩, target := "ui"
      tree := .mapping [("a", .leaf
        "Hello\n- [ERROR] `intl.untranslated_text` / `literal_text`: untranslated text: Bye")] }
    let batch : Batch := ⟨⟨"/"⟩, ["ui"], [page]⟩
    let report := Report.ofEvaluation Timestamp.epoch Timestamp.epoch (batch.evaluate {})
    let other := (page.outcome {}).textFinding ⟨page.path, "Bye", 0⟩
    report.findings.length = 1 ∧ (∀ finding ∈ report.findings, finding.message ≠ other.message) ∧
      Markdown.entries report.view.listing = [
        ["- [ERROR] `intl.untranslated_text` / `literal_text`: untranslated text: Hello"],
        other.notice.markdownLines] ∧
      Markdown.entries report.view.listing ≠ report.view.notices.map Notice.markdownLines := by
  intro page batch report other
  let hello : Notice := ((page.outcome {}).textFinding ⟨page.path, "Hello", 0⟩).notice
  have hnotices : report.view.notices = [hello.followedBy other.notice] := by decide +kernel
  have hone : report.findings.length = 1 := by
    have hlength := congrArg List.length hnotices
    rwa [Report.view, List.length_map] at hlength
  have hmessages : ∀ finding ∈ report.findings, finding.message ≠ other.message := by
    intro finding hfinding
    have hnotice : finding.notice ∈ report.view.notices := List.mem_map_of_mem hfinding
    rw [hnotices, List.mem_singleton] at hnotice
    have hmessage : finding.message = (hello.followedBy other.notice).message :=
      congrArg Notice.message hnotice
    rw [hmessage]
    decide +kernel
  -- The listing is that of a report with two findings, the texts of which hold no breaks.
  let view : ReportView := { report.view with notices := [hello.bare, other.notice] }
  have hlisting : report.view.listing = view.listing := by
    have h := hello.join_markdownLines_followedBy other.notice
    rw [ReportView.listing, hnotices, List.flatMap_singleton, h]
    rfl
  have hplain : ∀ notice ∈ view.notices, ∀ text ∈ notice.texts, '\n' ∉ text.toList := by
    decide +kernel
  have hentries : Markdown.entries report.view.listing =
      [hello.bare.markdownLines, other.notice.markdownLines] := by
    rw [hlisting]
    exact (view.one_entry_each_tfae.out 0 3 rfl rfl).2 hplain
  have hbare : hello.bare.markdownLines =
      ["- [ERROR] `intl.untranslated_text` / `literal_text`: untranslated text: Hello"] := by
    decide +kernel
  rw [hbare] at hentries
  refine ⟨hone, hmessages, hentries, fun hsame => ?_⟩
  have hlength : 2 = report.view.notices.length := by
    rw [← List.length_map Notice.markdownLines, ← hsame, hentries]
    rfl
  rw [hnotices] at hlength
  exact absurd hlength (by decide)

end LocaleLint
