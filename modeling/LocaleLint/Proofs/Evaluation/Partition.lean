import LocaleLint.Proofs.Evaluation.Chunks

/-!
# Documents that were not loaded

A document with a failure has no tree, and so nothing in it is checked and all that is found is
that it was not loaded (`Document.onlyWarns`). The documents of a batch that are counted as failed
and those that were not loaded are then different ones, and every finding is about one of the
latter or a literal text (`Batch.counts_of_onlyWarns`).
-/

set_option autoImplicit false

namespace LocaleLint

namespace Document

/-- Whether a document has no tree, and nothing but one warning comes of it: that it was not
loaded. -/
structure OnlyWarns (options : CollectOptions) (document : Document) : Prop where
  tree : document.tree = .null
  stringsChecked : (document.outcome options).stringsChecked = 0
  failures : (document.outcome options).failures = []
  finding : ∃ finding, document.findings options = [finding] ∧ finding.severity = .warning ∧
    finding.checkId = CheckId.documentParse

/-- Nothing but a warning comes of a document that was not loaded. -/
theorem onlyWarns (options : CollectOptions) {document : Document}
    (hfailure : document.failure.isSome = true) (htree : document.tree = .null) :
    document.OnlyWarns options := by
  have houtcome := outcome_of_null options htree
  obtain ⟨failure, hsome⟩ := Option.isSome_iff_exists.1 hfailure
  refine ⟨htree, ?_, ?_, failureFinding document.path failure, ?_, rfl, rfl⟩
  · rw [houtcome]
  · rw [houtcome]
  · rw [findings_eq, hsome, houtcome]
    rfl

/-- A document of which only a warning comes has no literal copy. -/
theorem OnlyWarns.not_hasLiteral {options : CollectOptions} {document : Document}
    (h : document.OnlyWarns options) : ¬document.HasLiteral options := by
  rw [← failures_ne_nil_iff, not_not]
  exact h.failures

/-- There is a finding for a load error, and one for each literal text. -/
theorem length_findings (options : CollectOptions) (document : Document) :
    (document.findings options).length =
      (if document.failure.isSome then 1 else 0) + (document.outcome options).failures.length := by
  rw [findings, List.length_append, List.length_map, List.length_mapIdx]
  cases document.failure with
  | none => rfl
  | some failure => rfl

end Document

namespace Batch

/-- Each finding is about a document that was not loaded, or about a literal text. -/
theorem length_findings (options : CollectOptions) (batch : Batch) :
    (batch.findings options).length =
      batch.documents.countP (fun document => document.failure.isSome) +
        (batch.documents.map fun document => (document.outcome options).failures.length).sum := by
  unfold findings
  induction batch.documents with
  | nil => rfl
  | cons document rest ih =>
    rw [List.flatMap_cons, List.length_append, ih, Document.length_findings, List.countP_cons,
      List.map_cons, List.sum_cons]
    omega

/-- No document is both failed and not loaded. -/
theorem countP_add_countP_le {options : CollectOptions} {documents : List Document}
    (h : ∀ document ∈ documents, document.failure.isSome = true → document.OnlyWarns options) :
    documents.countP (fun document => document.HasLiteral options) +
      documents.countP (fun document => document.failure.isSome) ≤ documents.length := by
  have hloaded : documents.countP (fun document => document.HasLiteral options) ≤
      documents.countP fun document => ¬document.failure.isSome = true := by
    apply List.countP_mono_left
    intro document hmem hliteral
    apply decide_eq_true
    intro hsome
    exact (h document hmem hsome).not_hasLiteral (of_decide_eq_true hliteral)
  have hlength := List.length_eq_countP_add_countP (l := documents)
    fun document => document.failure.isSome
  omega

/-- The counts of a batch below their limit, where documents with a failure have no tree. -/
theorem counts_of_onlyWarns (policy : Policy) (batch : Batch)
    (h : ∀ document ∈ batch.documents, document.failure.isSome = true →
      document.OnlyWarns policy.collect)
    (hdocuments : batch.documents.length ≤ Count.limit)
    (hfindings : (batch.findings policy.collect).length ≤ Count.limit) :
    let summary := (batch.evaluate policy).summary
    summary.documentsFailed.val + summary.parseErrors.val ≤ summary.documentsScanned.val ∧
      summary.documentsScanned.val = batch.documents.length ∧
      summary.findingsTotal.val = summary.parseErrors.val +
        ((batch.evaluate policy).outcomes.map (·.failures.length)).sum := by
  intro summary
  have htally := tally_evaluate_eq policy batch
  have hscanned : summary.documentsScanned = Count.ofNat batch.documents.length :=
    congrArg Tally.documentsScanned htally
  have hfailed : summary.documentsFailed = _ := documentsFailed_evaluate policy batch
  have herrors : summary.parseErrors = _ := parseErrors_evaluate policy batch
  have htotal : summary.findingsTotal = _ := findingsTotal_evaluate policy batch
  have hdisjoint := countP_add_countP_le h
  have hlength := length_findings policy.collect batch
  rw [hscanned, hfailed, herrors, htotal, outcomes_evaluate, List.map_map]
  simp only [Count.val_ofNat, Function.comp_def]
  omega

end Batch

end LocaleLint
