import LocaleLint.Proofs.Check
import LocaleLint.Proofs.Evaluation.Verdict
import LocaleLint.Proofs.FileTree.Listing
import LocaleLint.Proofs.Text.Lines

/-!
# The listing and the report

A check is shown in two ways: the report keeps the first findings of the batch, each about a
document that was not loaded or a literal text, and the listing shows each document with its
literal texts and its load error, whatever the limit. Both views are made of the
documents in their order, so that the texts named by the findings are those of the listing as far
as the limit goes, and the load errors are those that findings are about
(`Batch.texts_findings`, `Batch.forall₂_documentParse`). The listing closes with one of two lines,
by the counter that decides on the verdict (`ConsoleSummary.getLast?_lines_render`). The main
result `report_agrees_with_listing` puts this together for every completed check.
-/

set_option autoImplicit false

namespace LocaleLint

/-! ## Texts -/

/-- A finding about a document that was not loaded names no text. -/
theorem Document.text?_failureFinding (path : RepoPath) (failure : LoadFailure) :
    (Document.failureFinding path failure).text? = none := by
  rfl

/-- Counting equal texts keeps the texts themselves. -/
theorem TextIdentity.map_text_ofTexts (path : RepoPath) (texts : List String) :
    (ofTexts path texts).map (·.text) = texts := by
  rw [ofTexts_eq_mapIdx]
  apply List.ext_getElem
  · rw [List.length_map, List.length_mapIdx]
  · intro i hi hi'
    rw [List.getElem_map, List.getElem_mapIdx]

/-- The findings about a document name its literal texts, in order. -/
theorem Document.texts_findings (options : CollectOptions) (document : Document) :
    (document.findings options).filterMap Finding.text? = (document.outcome options).failures := by
  have hloaded : (document.failure.map (failureFinding document.path)).toList.filterMap
      Finding.text? = [] := by
    cases document.failure with
    | none => rfl
    | some failure => simp [text?_failureFinding]
  have htext : Finding.text? ∘ (document.outcome options).textFinding =
      some ∘ TextIdentity.text := by
    funext identity
    exact Outcome.text?_textFinding _ identity
  rw [findings_eq, List.filterMap_append, hloaded, List.nil_append, List.filterMap_map, htext,
    ← List.filterMap_map, List.filterMap_some, TextIdentity.map_text_ofTexts]

/-- The texts that findings name are the literal texts of the documents, in order. -/
theorem Batch.texts_findings (options : CollectOptions) (batch : Batch) :
    (batch.findings options).filterMap Finding.text? =
      batch.documents.flatMap fun document => (document.outcome options).failures := by
  rw [Batch.findings, List.filterMap_flatMap]
  simp only [Document.texts_findings]

/-! ## Load errors -/

/-- Whether a finding says why a listed document was not loaded. -/
structure Finding.IsLoadErrorOf (finding : Finding) (document : ConsoleDocument) : Prop where
  message : document.loadError = some finding.message
  path : finding.location.map (·.path.text) = some document.path

/-- The finding about a document that was not loaded is about the listed one. -/
theorem Document.isLoadErrorOf_failureFinding (options : CollectOptions) {document : Document}
    {failure : LoadFailure} (h : document.failure = some failure) :
    (failureFinding document.path failure).IsLoadErrorOf
      (ConsoleDocument.ofOutcome (document.outcome options)) where
  message := congrArg (Option.map LoadFailure.message) h
  path := rfl

/-- Of the findings about a document only one that it was not loaded is of that check. -/
theorem Document.filter_documentParse (options : CollectOptions) (document : Document) :
    (document.findings options).filter (·.checkId = CheckId.documentParse) =
      (document.failure.map (failureFinding document.path)).toList := by
  have htexts : ((TextIdentity.ofTexts document.path (document.outcome options).failures).map
      (document.outcome options).textFinding).filter (·.checkId = CheckId.documentParse) = [] := by
    rw [List.filter_eq_nil_iff]
    intro finding hfinding
    obtain ⟨identity, -, rfl⟩ := List.mem_map.1 hfinding
    have hcheck : CheckId.untranslatedText ≠ CheckId.documentParse := by decide
    exact fun h => hcheck (of_decide_eq_true h)
  rw [findings_eq, List.filter_append, htexts, List.append_nil]
  cases document.failure with
  | none => rfl
  | some failure => simp [failureFinding]

/-- The documents that are listed with a load error, and the findings about such documents. -/
theorem Batch.forall₂_documentParse (options : CollectOptions) (batch : Batch) :
    List.Forall₂ (fun document finding => finding.IsLoadErrorOf document)
      ((batch.documents.map fun document =>
        ConsoleDocument.ofOutcome (document.outcome options)).filter (·.loadError.isSome))
      ((batch.findings options).filter (·.checkId = CheckId.documentParse)) := by
  unfold Batch.findings
  induction batch.documents with
  | nil => exact .nil
  | cons document rest ih =>
    rw [List.map_cons, List.filter_cons, List.flatMap_cons, List.filter_append,
      Document.filter_documentParse]
    have herror : (ConsoleDocument.ofOutcome (document.outcome options)).loadError =
        document.failure.map (·.message) := rfl
    rw [herror]
    cases hfailure : document.failure with
    | none => exact ih
    | some failure => exact .cons (Document.isLoadErrorOf_failureFinding options hfailure) ih

/-! ## The listing without color -/

namespace Span

/-- Pieces of text one after the other, without color. -/
def plain (spans : List Span) : String :=
  String.join (spans.map (render false))

/-- Without pieces there is no text. -/
theorem plain_nil : plain [] = "" :=
  rfl

/-- The text of the first piece comes first. -/
theorem plain_cons (span : Span) (spans : List Span) :
    plain (span :: spans) = span.text ++ plain spans :=
  String.join_cons

/-- Pieces that are joined show their texts one after the other. -/
theorem plain_append (first second : List Span) :
    plain (first ++ second) = plain first ++ plain second := by
  rw [plain, List.map_append, String.join_append]
  rfl

/-- Pieces that end their lines one by one end them together. -/
theorem endsLine_plain_flatMap {α : Type} {pieces : α → List Span}
    (h : ∀ item, Text.EndsLine (plain (pieces item))) (items : List α) :
    Text.EndsLine (plain (items.flatMap pieces)) := by
  induction items with
  | nil => exact Text.endsLine_empty
  | cons item rest ih =>
    rw [List.flatMap_cons, plain_append]
    exact (h item).append ih

end Span

namespace ConsoleDocument

/-- The headline of a document is its path, a text, and a line break. -/
theorem plain_headline (document : ConsoleDocument) (text : String) :
    Span.plain (document.headline text) = (document.path ++ " - " ++ text) ++ "\n" := by
  simp only [headline, Span.plain_cons, Span.plain_nil, String.append_empty, String.append_assoc]

/-- What is said about a document stands in lines of its own. -/
theorem endsLine_plain_spans (document : ConsoleDocument) :
    Text.EndsLine (Span.plain document.spans) := by
  rw [spans, Span.plain_append]
  apply Text.EndsLine.append
  · rw [loadSpans]
    split
    · next error herror =>
      have hcause : Span.plain [⟨">> " ++ error, [.red]⟩, ⟨"\n", []⟩] =
          (">> " ++ error) ++ "\n" := by
        simp only [Span.plain_cons, Span.plain_nil, String.append_empty]
      rw [Span.plain_append, plain_headline, hcause]
      exact (Text.endsLine_append_break _).append (Text.endsLine_append_break _)
    · exact Text.endsLine_empty
  · rw [failureSpans]
    split
    · exact Text.endsLine_empty
    · rw [Span.plain_append, plain_headline]
      refine (Text.endsLine_append_break _).append (Span.endsLine_plain_flatMap ?_ _)
      intro text
      have hitem : Span.plain [⟨"\t", []⟩, ⟨"* ", [.red]⟩, ⟨text ++ "\n", []⟩] =
          ("\t" ++ "* " ++ text) ++ "\n" := by
        simp only [Span.plain_cons, Span.plain_nil, String.append_empty, String.append_assoc]
      rw [hitem]
      exact Text.endsLine_append_break _

end ConsoleDocument

namespace ConsoleSummary

/-- The last line of a listing: what to do if a document failed, and that all is done if not. -/
def lastLine (summary : ConsoleSummary) : String :=
  if 0 < summary.documentsFailed.val then hint else "Complete! :)"

/-- The last line says that all is done exactly if no document failed. -/
theorem lastLine_eq_iff (summary : ConsoleSummary) :
    summary.lastLine = "Complete! :)" ↔ ¬0 < summary.documentsFailed.val := by
  have hhint : hint ≠ "Complete! :)" := by decide +kernel
  unfold lastLine
  split
  · next hfailed => simp [hhint, hfailed]
  · next hfailed => simp [hfailed]

/-- The last line is one line. -/
theorem not_mem_lastLine (summary : ConsoleSummary) : '\n' ∉ summary.lastLine.toList := by
  unfold lastLine
  split
  · decide +kernel
  · decide +kernel

/-- The listing closes with its last line, whatever stands before that. -/
theorem exists_plain_closingSpans (summary : ConsoleSummary) :
    ∃ front, Text.EndsLine front ∧
      Span.plain summary.closingSpans = front ++ (summary.lastLine ++ "\n") := by
  unfold closingSpans lastLine
  split
  · refine ⟨_, Text.endsLine_append_break
      (toString summary.documentsFailed.val ++ " files have failed."), ?_⟩
    simp only [Span.plain_cons, Span.plain_nil, String.append_empty, String.append_assoc]
  · refine ⟨_, Text.endsLine_empty, ?_⟩
    simp only [Span.plain_cons, Span.plain_nil, String.append_empty, String.empty_append]

/-- However a listing reads, its last line is one of two. -/
theorem getLast?_lines_render (summary : ConsoleSummary) :
    (Text.lines (summary.render false)).getLast? = some summary.lastLine := by
  obtain ⟨front, hfront, hclosing⟩ := exists_plain_closingSpans summary
  have hrender : summary.render false = Span.plain summary.spans := rfl
  rw [hrender, spans, Span.plain_append, hclosing, ← String.append_assoc]
  refine Text.getLast?_lines (.append ?_ hfront) summary.not_mem_lastLine
  exact Span.endsLine_plain_flatMap ConsoleDocument.endsLine_plain_spans summary.documents

/-- The listing shows the documents of the batch in their order. -/
theorem documents_ofEvaluation (policy : Policy) (batch : Batch) :
    (ofEvaluation (batch.evaluate policy)).documents =
      batch.documents.map fun document =>
        ConsoleDocument.ofOutcome (document.outcome policy.collect) := by
  rw [ofEvaluation, Batch.outcomes_evaluate, List.map_map]
  rfl

/-- The listing shows the literal texts of the batch in their order. -/
theorem failures_ofEvaluation (policy : Policy) (batch : Batch) :
    (ofEvaluation (batch.evaluate policy)).documents.flatMap (·.failures) =
      batch.documents.flatMap fun document => (document.outcome policy.collect).failures := by
  rw [documents_ofEvaluation, List.flatMap_map]
  rfl

/-- The counter of failed documents counts the listed documents with literal texts. -/
theorem documentsFailed_ofEvaluation (policy : Policy) (batch : Batch) :
    (ofEvaluation (batch.evaluate policy)).documentsFailed =
      Count.ofNat ((ofEvaluation (batch.evaluate policy)).documents.countP
        fun document => !document.failures.isEmpty) := by
  rw [ofEvaluation, Batch.tally_evaluate, Tally.documentsFailed_ofOutcomes, List.countP_map]
  rfl

end ConsoleSummary

/-! ## Two views of a check -/

namespace CheckInput

/-- The report and the listing of a completed check tell the same. The texts that the findings
of the report name are the first of the listed literal texts, and all of them if no cut is noted.
Of all the findings about the batch, of which the report keeps the first, those about documents
that were not loaded are the listed load errors, one by one. Both count the failed documents
alike, which are the listed documents with a literal text up to the limit of a counter, and the
last line of the listing says that all is done just when the exit code is zero, which
is when the verdict is not that the check failed. -/
theorem report_agrees_with_listing {σ : Type} [Host (StateM σ)] {input : CheckInput}
    {result : CheckResult} {state state' : σ}
    (h : (input.run : ExceptT Failure (StateM σ) CheckResult).run state = (.ok result, state')) :
    let report := result.report
    let listing := result.summary
    let named := report.findings.filterMap Finding.text?
    let listed := listing.documents.flatMap (·.failures)
    named <+: listed ∧
    (report.summary.truncatedReason = none → named = listed) ∧
    (∃ groups batch, input.Stages (σ := σ) result groups batch ∧
      let full := (batch.gather result.plan.policy.collect).findings.reverse
      report.findings = full.take result.plan.policy.maxFindings ∧
      List.Forall₂ (fun document finding => finding.IsLoadErrorOf document)
        (listing.documents.filter (·.loadError.isSome))
        (full.filter (·.checkId = CheckId.documentParse))) ∧
    listing.documentsFailed = report.summary.documentsFailed ∧
    listing.documentsFailed =
      Count.ofNat (listing.documents.countP fun document => !document.failures.isEmpty) ∧
    ((Text.lines (listing.render false)).getLast? = some "Complete! :)" ↔
      result.evaluation.tally.outcomeCode = 0) ∧
    (result.evaluation.tally.outcomeCode = 0 ↔ report.verdict ≠ .fail) := by
  obtain ⟨groups, batch, hstages⟩ := stages_of_run_ok h
  obtain ⟨plan, evaluation, startedAt, finishedAt⟩ := result
  obtain rfl : evaluation = batch.evaluate plan.policy := hstages.evaluated
  intro report listing named listed
  have hfindings : report.findings =
      (batch.findings plan.policy.collect).take plan.policy.maxFindings :=
    Batch.findings_evaluate plan.policy batch
  have htexts : (batch.findings plan.policy.collect).filterMap Finding.text? = listed := by
    rw [Batch.texts_findings, ← ConsoleSummary.failures_ofEvaluation]
    rfl
  refine ⟨?_, ?_, ⟨groups, batch, hstages, ?_, ?_⟩, rfl, ?_, ?_, ?_⟩
  · rw [← htexts]
    simp only [named, hfindings]
    exact (List.take_prefix _ _).filterMap _
  · intro hnone
    rw [← htexts, ← Batch.findings_evaluate_of_no_cut plan.policy batch hnone]
    rfl
  · rw [Batch.findings_gather]
    exact hfindings
  · rw [Batch.findings_gather]
    have hdocuments : listing.documents = _ :=
      ConsoleSummary.documents_ofEvaluation plan.policy batch
    rw [hdocuments]
    exact Batch.forall₂_documentParse plan.policy.collect batch
  · exact ConsoleSummary.documentsFailed_ofEvaluation plan.policy batch
  · rw [ConsoleSummary.getLast?_lines_render, Option.some.injEq, ConsoleSummary.lastLine_eq_iff,
      Tally.outcomeCode_eq_zero_iff]
    exact Iff.rfl
  · rw [Tally.outcomeCode_eq_zero_iff, ← Tally.verdict_eq_fail_iff]
    exact Iff.rfl

/-- A page that is not UTF-8 and a page with a literal text, in a report of one finding. -/
theorem report_agrees_with_listing_of_cut_report :
    let tree : FileTree := ⟨[(["a.xml"], .file [0xff]),
      (["b.xml"], .file "<a>Hello</a>".toUTF8.toList)], []⟩
    let input : CheckInput := {
      root := "/", overrides := { paths := ["*.xml"], maxFindings := some 1 } }
    ∃ result, (input.run : ExceptT Failure (StateM FileTree) CheckResult).run tree =
        (.ok result, tree) ∧
      result.report.findings.filterMap Finding.text? = [] ∧
      result.summary.documents.flatMap (·.failures) = ["Hello"] ∧
      result.report.findings.filterMap Finding.text? <+:
        result.summary.documents.flatMap (·.failures) ∧
      (Text.lines (result.summary.render false)).getLast? ≠ some "Complete! :)" ∧
      result.report.verdict = .fail := by
  intro tree input
  let plan : Plan := ⟨Config.policy {} input.overrides, [⟨"cli", ["*.xml"]⟩]⟩
  have hplan : input.plan = .ok plan := by
    apply CheckInput.plan_of_paths
    · simp
    · decide +kernel
  have hgroups : (plan.targets.mapM (FileGroup.discover "/") :
      ExceptT Failure (StateM FileTree) (List FileGroup)).run tree =
        (.ok [⟨"cli", [⟨"a.xml"⟩, ⟨"b.xml"⟩]⟩], tree) := by
    apply run_discover_of_select
    have hlisted : (tree.filesBelow "/").map RepoPath.ofString = [⟨"a.xml"⟩, ⟨"b.xml"⟩] := by
      rw [tree.filesBelow_root]
      decide +kernel
    have hsorted : [(⟨"a.xml"⟩ : RepoPath), ⟨"b.xml"⟩].mergeSort RepoPath.le =
        [⟨"a.xml"⟩, ⟨"b.xml"⟩] := by
      simp [List.mergeSort, RepoPath.le]
    rw [hlisted, FilePattern.select, hsorted]
    decide +kernel
  let failure : LoadFailure := {
    kind := .read
    message := "document is not valid UTF-8: invalid utf-8 sequence of 1 bytes from index 0" }
  let broken : Document := { path := ⟨"a.xml"⟩, target := "cli", failure := some failure }
  let page : Document := {
    path := ⟨"b.xml"⟩, target := "cli", tree := .mapping [("a", .leaf "Hello")] }
  let batch : Batch := ⟨⟨"/"⟩, ["cli"], [broken, page]⟩
  have hbatch : (Batch.load "/" [⟨"cli", [⟨"a.xml"⟩, ⟨"b.xml"⟩]⟩] : StateM FileTree Batch).run
      tree = (batch, tree) := by
    have hfirst : tree.document "/" "cli" ⟨"a.xml"⟩ = broken := by
      have hdecode : Document.decode [0xff] = .error failure := by decide +kernel
      rw [FileTree.document_of_name (by decide +kernel) rfl, hdecode]
      rfl
    have hsecond : tree.document "/" "cli" ⟨"b.xml"⟩ = page := by
      have hdecode : Document.decode "<a>Hello</a>".toUTF8.toList = .ok page.tree := by
        decide +kernel
      rw [FileTree.document_of_name (by decide +kernel) rfl, hdecode]
      rfl
    have hroot : RepoPath.ofString "/" = ⟨"/"⟩ := by decide +kernel
    rw [run_loadBatch, hroot]
    simp only [List.flatMap_cons, List.flatMap_nil, List.map_cons, List.map_nil, hfirst, hsecond]
    rfl
  have hroot : tree.isDirectory "/" = true := by rw [FileTree.isDirectory, tree.locate_root]
  have hrun := CheckInput.run_of_stages hplan hroot hgroups hbatch
  obtain ⟨hstart, -, -, -, -, hline, hcode⟩ := report_agrees_with_listing hrun
  have hfailures : (page.outcome plan.policy.collect).failures = ["Hello"] := by
    have hleaves : page.tree.leaves plan.policy.collect = ["Hello"] := by decide +kernel
    rw [Document.failures_eq, hleaves]
    decide +kernel
  have hlisted : (ConsoleSummary.ofEvaluation (batch.evaluate plan.policy)).documents.flatMap
      (·.failures) = ["Hello"] := by
    have hbroken : (broken.outcome plan.policy.collect).failures = [] := by
      rw [Document.outcome_of_null plan.policy.collect rfl]
    rw [ConsoleSummary.failures_ofEvaluation, List.flatMap_cons, List.flatMap_cons,
      List.flatMap_nil, hbroken, hfailures]
    rfl
  have hnamed : (batch.evaluate plan.policy).findings.filterMap Finding.text? = [] := by
    have hbroken : broken.findings plan.policy.collect =
        [Document.failureFinding ⟨"a.xml"⟩ failure] := by
      rw [Document.findings_eq, Document.outcome_of_null plan.policy.collect rfl]
      rfl
    have hcut : plan.policy.maxFindings = 1 := rfl
    rw [Batch.findings_evaluate, hcut, Batch.findings, List.flatMap_cons, hbroken,
      List.singleton_append, List.take_succ_cons, List.take_zero, List.filterMap_cons,
      Document.text?_failureFinding, List.filterMap_nil]
  have hfail : (batch.evaluate plan.policy).verdict = .fail := by
    rw [Batch.verdict_evaluate_eq_fail_iff]
    refine ⟨page, by simp [batch], ?_⟩
    rw [← Document.failures_ne_nil_iff, hfailures]
    simp
  refine ⟨_, hrun, hnamed, hlisted, hstart, ?_, hfail⟩
  rw [ne_eq, hline, hcode]
  exact not_not.2 hfail

end CheckInput

end LocaleLint
