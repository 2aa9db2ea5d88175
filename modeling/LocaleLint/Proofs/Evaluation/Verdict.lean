import LocaleLint.Proofs.Evaluation.Findings
import Mathlib.Algebra.GroupWithZero.Nat
import Mathlib.Tactic.TFAE

/-!
# The verdict of a batch

The counters of a tally are cut-off sums over the documents (`Tally.counter_ofOutcomes`), so
the counters that are positive are those with something to count, however large the batch is.
The main result `verdict_tfae` reads the verdict, the counter of failed documents, the outcome
code and the findings before any cut as one fact: whether a document has literal copy.
-/

set_option autoImplicit false

namespace LocaleLint

/-! ## Counters -/

namespace Tally

/-- A counter that merging adds is the cut-off sum of what the outcomes count. -/
theorem counter_ofOutcomes (counter : Tally → Count) (hzero : counter {} = 0)
    (hmerge : ∀ a b, counter (merge a b) = counter a + counter b) (outcomes : List Outcome) :
    counter (ofOutcomes outcomes) =
      Count.ofNat (outcomes.map fun outcome => (counter (ofOutcome outcome)).val).sum := by
  -- the fold may start from any tally: what it has counted is added before the sum is cut off
  have hfold (tally : Tally) : counter ((outcomes.map ofOutcome).foldl merge tally) =
      Count.ofNat ((counter tally).val +
        (outcomes.map fun outcome => (counter (ofOutcome outcome)).val).sum) := by
    induction outcomes generalizing tally with
    | nil => simp
    | cons outcome rest ih =>
      rw [List.map_cons, List.foldl_cons, ih, hmerge, List.map_cons, List.sum_cons]
      apply Count.ext
      simp only [Count.val_add, Count.val_ofNat]
      omega
  rw [ofOutcomes, hfold, hzero, Count.val_zero, Nat.zero_add]

/-- A counter that is one for some outcomes, and zero for the others, counts those outcomes. -/
theorem sum_flags (flag : Outcome → Bool) (outcomes : List Outcome) :
    (outcomes.map fun outcome => (if flag outcome then 1 else 0 : Count).val).sum =
      outcomes.countP flag := by
  induction outcomes with
  | nil => rfl
  | cons outcome rest ih =>
    rw [List.map_cons, List.sum_cons, ih, List.countP_cons]
    cases flag outcome with
    | true => simp [Nat.add_comm]
    | false => simp

/-- The counter of failed documents counts the outcomes that failed. -/
theorem documentsFailed_ofOutcomes (outcomes : List Outcome) :
    (ofOutcomes outcomes).documentsFailed = Count.ofNat (outcomes.countP Outcome.failed) := by
  rw [counter_ofOutcomes (·.documentsFailed) rfl (fun _ _ => rfl)]
  exact congrArg Count.ofNat (sum_flags Outcome.failed outcomes)

/-- The counter of parse errors counts the outcomes with a load error. -/
theorem parseErrors_ofOutcomes (outcomes : List Outcome) :
    (ofOutcomes outcomes).parseErrors =
      Count.ofNat (outcomes.countP fun outcome => outcome.loadError.isSome) := by
  rw [counter_ofOutcomes (·.parseErrors) rfl (fun _ _ => rfl)]
  exact congrArg Count.ofNat (sum_flags (fun outcome => outcome.loadError.isSome) outcomes)

/-- The verdict is failure exactly if some document failed. -/
theorem verdict_eq_fail_iff (tally : Tally) :
    tally.verdict = .fail ↔ 0 < tally.documentsFailed.val := by
  unfold verdict
  grind

/-- The verdict is a warning exactly if no document failed and some was not loaded. -/
theorem verdict_eq_warn_iff (tally : Tally) :
    tally.verdict = .warn ↔ ¬0 < tally.documentsFailed.val ∧ 0 < tally.parseErrors.val := by
  unfold verdict
  grind

/-- The verdict is a pass exactly if all documents were loaded and none failed. -/
theorem verdict_eq_pass_iff (tally : Tally) :
    tally.verdict = .pass ↔ ¬0 < tally.documentsFailed.val ∧ ¬0 < tally.parseErrors.val := by
  unfold verdict
  grind

/-- The exit code is zero exactly if no document failed. -/
theorem outcomeCode_eq_zero_iff (tally : Tally) :
    tally.outcomeCode = 0 ↔ ¬0 < tally.documentsFailed.val := by
  unfold outcomeCode
  grind

/-- The exit code is one exactly if some document failed. -/
theorem outcomeCode_eq_one_iff (tally : Tally) :
    tally.outcomeCode = 1 ↔ 0 < tally.documentsFailed.val := by
  unfold outcomeCode
  grind

end Tally

/-- The limit hides no count from zero. -/
theorem Count.val_ofNat_pos {n : Nat} : 0 < (Count.ofNat n).val ↔ 0 < n := by
  simp only [Count.val_ofNat, Count.limit]
  omega

/-! ## Literal copy -/

namespace Document

/-- Whether a document has literal copy: a collected text that is not legal when it is trimmed. -/
def HasLiteral (options : CollectOptions) (document : Document) : Prop :=
  ∃ text ∈ document.tree.collectLeaves options,
    Wording.isLegal (Text.trim Text.isMargin text) = false

instance (options : CollectOptions) (document : Document) :
    Decidable (document.HasLiteral options) :=
  inferInstanceAs (Decidable (∃ text ∈ document.tree.collectLeaves options,
    Wording.isLegal (Text.trim Text.isMargin text) = false))

/-- A document has failures exactly if it has literal copy. -/
theorem failures_ne_nil_iff (options : CollectOptions) (document : Document) :
    (document.outcome options).failures ≠ [] ↔ document.HasLiteral options := by
  have hnone : (document.outcome options).failures = [] ↔
      ∀ text ∈ (document.tree.collectLeaves options).map (Text.trim Text.isMargin),
        ¬(!Wording.isLegal text) = true :=
    List.filter_eq_nil_iff
  rw [ne_eq, hnone, HasLiteral]
  simp

/-- The outcome of a document failed exactly if the document has literal copy. -/
theorem failed_outcome_iff (options : CollectOptions) (document : Document) :
    (document.outcome options).failed = true ↔ document.HasLiteral options := by
  rw [← failures_ne_nil_iff, Outcome.failed]
  simp

/-- A document has a finding of an error exactly when it has literal copy: that it was not loaded
is only a warning. -/
theorem exists_error_iff (options : CollectOptions) (document : Document) :
    (∃ finding ∈ document.findings options, finding.severity = .error) ↔
      document.HasLiteral options := by
  rw [← failures_ne_nil_iff, findings]
  constructor
  · rintro ⟨finding, hmem, herror⟩ hnone
    rw [hnone, List.mapIdx_nil, List.map_nil, List.append_nil, Option.mem_toList,
      Option.map_eq_some_iff] at hmem
    obtain ⟨failure, -, rfl⟩ := hmem
    simp [failureFinding] at herror
  · intro hsome
    obtain ⟨text, htext⟩ := List.exists_mem_of_ne_nil _ hsome
    obtain ⟨i, hi, rfl⟩ := List.getElem_of_mem htext
    refine ⟨_, List.mem_append_right _ (List.mem_map_of_mem (List.mem_mapIdx.2 ⟨i, hi, rfl⟩)), ?_⟩
    rfl

end Document

/-! ## The verdict -/

namespace Batch

/-- An evaluation holds the outcome of each document, in order. -/
theorem outcomes_evaluate (policy : Policy) (batch : Batch) :
    (batch.evaluate policy).outcomes =
      batch.documents.map (Document.outcome policy.collect) :=
  outcomes_gather policy.collect batch

/-- The counts of an evaluation are those of its outcomes. -/
theorem tally_evaluate (policy : Policy) (batch : Batch) :
    (batch.evaluate policy).tally = Tally.ofOutcomes (batch.evaluate policy).outcomes :=
  rfl

/-- The counter of failed documents counts the documents with literal copy. -/
theorem documentsFailed_evaluate (policy : Policy) (batch : Batch) :
    (batch.evaluate policy).tally.documentsFailed =
      Count.ofNat (batch.documents.countP fun document => document.HasLiteral policy.collect) := by
  rw [tally_evaluate, Tally.documentsFailed_ofOutcomes, outcomes_evaluate, List.countP_map]
  congr 2
  funext document
  rw [Function.comp_apply, Bool.eq_iff_iff, Document.failed_outcome_iff, decide_eq_true_iff]

/-- The counter of parse errors counts the documents that were not loaded. -/
theorem parseErrors_evaluate (policy : Policy) (batch : Batch) :
    (batch.evaluate policy).tally.parseErrors =
      Count.ofNat (batch.documents.countP fun document => document.failure.isSome) := by
  rw [tally_evaluate, Tally.parseErrors_ofOutcomes, outcomes_evaluate, List.countP_map]
  congr 2
  funext document
  simp [Document.outcome]

/-- Some document counts as failed exactly if one has literal copy. -/
theorem failed_pos_iff (policy : Policy) (batch : Batch) :
    0 < (batch.evaluate policy).tally.documentsFailed.val ↔
      ∃ document ∈ batch.documents, document.HasLiteral policy.collect := by
  rw [documentsFailed_evaluate, Count.val_ofNat_pos, List.countP_pos_iff]
  simp

/-- A batch fails exactly if some document has literal copy. -/
theorem verdict_evaluate_eq_fail_iff (policy : Policy) (batch : Batch) :
    (batch.evaluate policy).verdict = .fail ↔
      ∃ document ∈ batch.documents, document.HasLiteral policy.collect :=
  (Tally.verdict_eq_fail_iff (batch.evaluate policy).tally).trans (failed_pos_iff policy batch)

/-- Some parse error is counted exactly if a document was not loaded. -/
theorem parseErrors_pos_iff (policy : Policy) (batch : Batch) :
    0 < (batch.evaluate policy).tally.parseErrors.val ↔
      ∃ document ∈ batch.documents, document.failure.isSome := by
  rw [parseErrors_evaluate, Count.val_ofNat_pos, List.countP_pos_iff]

/-- One document more is one failed document more when it has literal copy, however many of its
texts are literal, and none when it has none. -/
theorem documentsFailed_insert (policy : Policy) (batch : Batch) (before after : List Document)
    (document : Document) :
    ({ batch with documents := before ++ document :: after }.evaluate
        policy).tally.documentsFailed =
      ({ batch with documents := before ++ after }.evaluate policy).tally.documentsFailed +
        if document.HasLiteral policy.collect then 1 else 0 := by
  rw [documentsFailed_evaluate, documentsFailed_evaluate]
  simp only [List.countP_append, List.countP_cons, decide_eq_true_eq]
  rw [← Nat.add_assoc, ← Count.ofNat_add_ofNat]
  split
  · rfl
  · rfl

/-- The verdict tells whether a document has literal copy, and so do the counter of failed
documents, the outcome code and the findings before any cut; it warns when no document has
literal copy and one was not loaded. A document is counted as failed once. Neither the limit
of the policy nor the size of the batch matters. -/
theorem verdict_tfae (policy : Policy) (batch : Batch) :
    let evaluation := batch.evaluate policy
    [evaluation.verdict = .fail,
      ∃ document ∈ batch.documents, document.HasLiteral policy.collect,
      0 < evaluation.tally.documentsFailed.val,
      evaluation.tally.outcomeCode = 1,
      ∃ finding ∈ (batch.gather policy.collect).findings, finding.severity = .error].TFAE ∧
    (evaluation.verdict = .warn ↔
      (∀ document ∈ batch.documents, ¬document.HasLiteral policy.collect) ∧
        ∃ document ∈ batch.documents, document.failure.isSome) ∧
    (evaluation.verdict = .pass ↔
      (∀ document ∈ batch.documents, ¬document.HasLiteral policy.collect) ∧
        ∀ document ∈ batch.documents, document.failure = none) ∧
    evaluation.tally.documentsFailed =
      Count.ofNat (batch.documents.countP fun document => document.HasLiteral policy.collect) ∧
    ∀ before document after,
      ({ batch with documents := before ++ document :: after }.evaluate
          policy).tally.documentsFailed =
        ({ batch with documents := before ++ after }.evaluate policy).tally.documentsFailed +
          if document.HasLiteral policy.collect then 1 else 0 := by
  intro evaluation
  have hfailed := failed_pos_iff policy batch
  have herrors := parseErrors_pos_iff policy batch
  have hfindings : (∃ finding ∈ (batch.gather policy.collect).findings, finding.severity = .error) ↔
      ∃ document ∈ batch.documents, document.HasLiteral policy.collect := by
    simp only [mem_findings_gather, findings, List.mem_flatMap, ← Document.exists_error_iff]
    constructor
    · rintro ⟨finding, ⟨document, hdocument, hfinding⟩, herror⟩
      exact ⟨document, hdocument, finding, hfinding, herror⟩
    · rintro ⟨document, hdocument, finding, hfinding, herror⟩
      exact ⟨finding, ⟨document, hdocument, hfinding⟩, herror⟩
  refine ⟨?_, ?_, ?_, documentsFailed_evaluate policy batch,
    fun before document after => documentsFailed_insert policy batch before after document⟩
  · tfae_have 1 ↔ 3 := Tally.verdict_eq_fail_iff evaluation.tally
    tfae_have 3 ↔ 2 := hfailed
    tfae_have 4 ↔ 3 := Tally.outcomeCode_eq_one_iff evaluation.tally
    tfae_have 5 ↔ 2 := hfindings
    tfae_finish
  · have hwarn : evaluation.verdict = .warn ↔ _ := Tally.verdict_eq_warn_iff evaluation.tally
    rw [hfailed, herrors, not_exists] at hwarn
    simpa using hwarn
  · have hpass : evaluation.verdict = .pass ↔ _ := Tally.verdict_eq_pass_iff evaluation.tally
    rw [hfailed, herrors, not_exists, not_exists] at hpass
    simpa using hpass

end Batch

end LocaleLint
