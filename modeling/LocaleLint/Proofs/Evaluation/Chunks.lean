import LocaleLint.Proofs.Evaluation.Verdict

/-!
# Batches in chunks

A batch may be evaluated in parts. Findings and outcomes of the parts are those of the batch, one
part after the other, since nothing is carried from one document to the next. The counters stop
at their limit wherever they are added: in a document, in a part, and when the counts of parts are
merged. All the same they are the exact totals over the documents, cut off once
(`Batch.tally_evaluate_eq`), so neither the order nor the grouping in which the counts of parts
are merged matters (`Merging.tally_eq`). The main result `evaluate_in_chunks` puts this together.
-/

set_option autoImplicit false

namespace LocaleLint

/-! ## Adding counters -/

namespace Count

/-- Capped counters may be added in either order. -/
theorem add_comm (a b : Count) : a + b = b + a := by
  apply ext
  rw [val_add, val_add, Nat.add_comm]

/-- Capped counters may be added in any grouping, since the limit is reached in all of them or in
none. -/
theorem add_assoc (a b c : Count) : a + b + c = a + (b + c) := by
  apply ext
  simp only [val_add]
  omega

/-- Counting nothing more changes no counter. -/
theorem zero_add (a : Count) : 0 + a = a := by
  apply ext
  rw [val_add, val_zero, Nat.zero_add]
  exact Nat.min_eq_left a.val_le

/-- Numbers that are cut off before they are added have the sum of the numbers, when it is cut off
itself. -/
theorem ofNat_sum_map_val {α : Type} (f : α → Nat) (items : List α) :
    ofNat (items.map fun item => (ofNat (f item)).val).sum = ofNat (items.map f).sum := by
  induction items with
  | nil => rfl
  | cons item rest ih =>
    rw [List.map_cons, List.sum_cons, List.map_cons, List.sum_cons, ← ofNat_add_ofNat, ih,
      ofNat_val, ofNat_add_ofNat]

end Count

namespace Tally

/-- Counts may be merged in either order. -/
theorem merge_comm (a b : Tally) : a.merge b = b.merge a := by
  unfold merge
  rw [Count.add_comm a.documentsScanned, Count.add_comm a.documentsFailed,
    Count.add_comm a.stringsChecked, Count.add_comm a.parseErrors]

/-- Counts may be merged in any grouping. -/
theorem merge_assoc (a b c : Tally) : (a.merge b).merge c = a.merge (b.merge c) := by
  unfold merge
  simp only [Count.add_assoc]

/-- Merging with the counts of nothing changes nothing. -/
theorem zero_merge (a : Tally) : Tally.merge {} a = a := by
  unfold merge
  simp only [Count.zero_add]

/-! ## Exact totals -/

/-- The counts of documents: what there is to count, cut off at the limit of the counters. -/
def ofDocuments (options : CollectOptions) (documents : List Document) : Tally where
  documentsScanned := Count.ofNat documents.length
  documentsFailed := Count.ofNat (documents.countP fun document => document.HasLiteral options)
  stringsChecked :=
    Count.ofNat (documents.map fun document => (document.tree.collectLeaves options).length).sum
  parseErrors := Count.ofNat (documents.countP fun document => document.failure.isSome)

/-- The counts of documents that are joined are the merged counts of the parts. -/
theorem ofDocuments_append (options : CollectOptions) (first second : List Document) :
    ofDocuments options (first ++ second) =
      (ofDocuments options first).merge (ofDocuments options second) := by
  unfold ofDocuments merge
  simp only [List.length_append, List.countP_append, List.map_append, List.sum_append,
    Count.ofNat_add_ofNat]

/-- The counts do not depend on the order of the documents. -/
theorem ofDocuments_perm (options : CollectOptions) {first second : List Document}
    (h : first.Perm second) : ofDocuments options first = ofDocuments options second := by
  unfold ofDocuments
  rw [h.length_eq, h.countP_eq, h.countP_eq, (h.map _).sum_nat]

/-- Every outcome counts as a document that was scanned. -/
theorem documentsScanned_ofOutcomes (outcomes : List Outcome) :
    (ofOutcomes outcomes).documentsScanned = Count.ofNat outcomes.length := by
  have hone (outcome : Outcome) : (ofOutcome outcome).documentsScanned.val = 1 := rfl
  rw [counter_ofOutcomes (·.documentsScanned) rfl (fun _ _ => rfl)]
  simp only [hone, List.map_const', List.sum_replicate_nat, Nat.mul_one]

end Tally

namespace Batch

/-- The strings that were checked are the collected texts of all documents. -/
theorem stringsChecked_evaluate (policy : Policy) (batch : Batch) :
    (batch.evaluate policy).tally.stringsChecked =
      Count.ofNat (batch.documents.map fun document =>
        (document.tree.collectLeaves policy.collect).length).sum := by
  rw [tally_evaluate, Tally.counter_ofOutcomes (·.stringsChecked) rfl (fun _ _ => rfl),
    outcomes_evaluate, List.map_map]
  exact Count.ofNat_sum_map_val _ batch.documents

/-- The counters are exact totals that are cut off once. -/
theorem tally_evaluate_eq (policy : Policy) (batch : Batch) :
    (batch.evaluate policy).tally = Tally.ofDocuments policy.collect batch.documents := by
  have hscanned : (batch.evaluate policy).tally.documentsScanned =
      Count.ofNat batch.documents.length := by
    rw [tally_evaluate, Tally.documentsScanned_ofOutcomes, outcomes_evaluate, List.length_map]
  unfold Tally.ofDocuments
  rw [← hscanned, ← documentsFailed_evaluate, ← stringsChecked_evaluate, ← parseErrors_evaluate]

/-- The batch with other documents. -/
def withDocuments (batch : Batch) (documents : List Document) : Batch :=
  { batch with documents := documents }

/-- The counts of an evaluation are those of the documents, whatever batch these belong to. -/
theorem tally_withDocuments (policy : Policy) (batch : Batch) (documents : List Document) :
    ((batch.withDocuments documents).evaluate policy).tally =
      Tally.ofDocuments policy.collect documents :=
  tally_evaluate_eq policy (batch.withDocuments documents)

/-- The outcomes of documents that are joined are those of the parts in turn. -/
theorem outcomes_append (policy : Policy) (batch : Batch) (first second : List Document) :
    ((batch.withDocuments (first ++ second)).evaluate policy).outcomes =
      ((batch.withDocuments first).evaluate policy).outcomes ++
        ((batch.withDocuments second).evaluate policy).outcomes := by
  simp only [outcomes_evaluate, withDocuments, List.map_append]

/-- The findings about documents that are joined are those about the parts in turn. -/
theorem findings_append (options : CollectOptions) (batch : Batch) (first second : List Document) :
    (batch.withDocuments (first ++ second)).findings options =
      (batch.withDocuments first).findings options ++
        (batch.withDocuments second).findings options := by
  simp only [findings, withDocuments, List.flatMap_append]

/-- Where the limit cuts nothing off the whole, it cuts nothing off the parts. -/
theorem findings_evaluate_append (policy : Policy) (batch : Batch) (first second : List Document)
    (h : ((batch.withDocuments (first ++ second)).findings policy.collect).length ≤
      policy.maxFindings) :
    ((batch.withDocuments (first ++ second)).evaluate policy).findings =
      ((batch.withDocuments first).evaluate policy).findings ++
        ((batch.withDocuments second).evaluate policy).findings := by
  simp only [findings_evaluate]
  have hparts := h
  rw [findings_append, List.length_append] at hparts
  rw [List.take_of_length_le h, List.take_of_length_le (by omega),
    List.take_of_length_le (by omega), findings_append]

end Batch

/-! ## Merging the counts of parts -/

/-- A way to merge the counts of parts of a batch. -/
inductive Merging where
  | nothing
  | part (documents : List Document)
  | both (first second : Merging)

namespace Merging

/-- The documents whose counts are merged. -/
def documents : Merging → List Document
  | nothing => []
  | part documents => documents
  | both first second => first.documents ++ second.documents

/-- The counts of the parts, each evaluated by itself, as they are merged. -/
def tally (policy : Policy) (batch : Batch) : Merging → Tally
  | nothing => {}
  | part documents => ((batch.withDocuments documents).evaluate policy).tally
  | both first second => (first.tally policy batch).merge (second.tally policy batch)

/-- The counts of parts are merged to the exact totals over their documents. -/
theorem tally_eq (policy : Policy) (batch : Batch) (merging : Merging) :
    merging.tally policy batch = Tally.ofDocuments policy.collect merging.documents := by
  induction merging with
  | nothing => rfl
  | part documents => exact Batch.tally_withDocuments policy batch documents
  | both first second ihfirst ihsecond =>
    rw [tally, ihfirst, ihsecond, documents, Tally.ofDocuments_append]

end Merging

namespace Batch

/-- A batch in two parts has the outcomes of the parts, one after the other, and so with the
findings if the limit cuts none off; its counts are those of the parts, merged. Merging is
associative and commutative and does nothing to the counts of no documents. Into whatever parts a
batch is split, and in whatever order and grouping their counts are merged, the result is the same,
and each counter is the exact total over the documents, cut off at its limit. -/
theorem evaluate_in_chunks (policy : Policy) (batch : Batch) :
    let part := fun documents => (batch.withDocuments documents).evaluate policy
    (∀ first second : List Document,
      (part (first ++ second)).outcomes = (part first).outcomes ++ (part second).outcomes ∧
      (part (first ++ second)).tally = (part first).tally.merge (part second).tally ∧
      (((batch.withDocuments (first ++ second)).findings policy.collect).length ≤
          policy.maxFindings →
        (part (first ++ second)).findings = (part first).findings ++ (part second).findings)) ∧
    (∀ a b c : Tally, (a.merge b).merge c = a.merge (b.merge c)) ∧
    (∀ a b : Tally, a.merge b = b.merge a) ∧ (∀ a : Tally, Tally.merge {} a = a) ∧
    (∀ merging : Merging, merging.documents.Perm batch.documents →
      merging.tally policy batch = (batch.evaluate policy).tally) ∧
    (batch.evaluate policy).tally =
      { documentsScanned := Count.ofNat batch.documents.length
        documentsFailed := Count.ofNat
          (batch.documents.countP fun document => document.HasLiteral policy.collect)
        stringsChecked := Count.ofNat (batch.documents.map fun document =>
          (document.tree.collectLeaves policy.collect).length).sum
        parseErrors := Count.ofNat
          (batch.documents.countP fun document => document.failure.isSome) } := by
  intro part
  refine ⟨fun first second => ⟨?_, ?_, ?_⟩, Tally.merge_assoc, Tally.merge_comm,
    Tally.zero_merge, fun merging hperm => ?_, ?_⟩
  · exact outcomes_append policy batch first second
  · simp only [part, tally_withDocuments]
    exact Tally.ofDocuments_append policy.collect first second
  · exact findings_evaluate_append policy batch first second
  · rw [Merging.tally_eq, tally_evaluate_eq]
    exact Tally.ofDocuments_perm policy.collect hperm
  · rw [tally_evaluate_eq, Tally.ofDocuments]

/-- A page that is evaluated twice, with a text of its own twice, and a page that was not loaded:
the third part comes first when the counts are merged. -/
theorem evaluate_in_chunks_of_repeated_page :
    let page : Document := {
      path := ⟨"page.xml"⟩, target := "ui", tree := .sequence [.leaf "Hello", .leaf "Hello"] }
    let broken : Document := {
      path := ⟨"broken.xml"⟩, target := "ui"
      failure := some { kind := .parse, message := "no root element" } }
    let policy : Policy := ⟨{}, 5⟩
    let batch : Batch := ⟨⟨"."⟩, ["ui"], [page, broken, page]⟩
    let part := fun documents => (batch.withDocuments documents).evaluate policy
    let merging : Merging :=
      .both (.part [page]) (.both (.both .nothing (.part [page])) (.part [broken]))
    ((batch.withDocuments ([page, broken] ++ [page])).findings policy.collect).length ≤
        policy.maxFindings ∧
      (part ([page, broken] ++ [page])).findings =
        (part [page, broken]).findings ++ (part [page]).findings ∧
      merging.documents.Perm batch.documents ∧
      merging.tally policy batch = (batch.evaluate policy).tally ∧
      (batch.evaluate policy).tally = ⟨3, 2, 4, 1⟩ := by
  intro page broken policy batch part merging
  have hlength : ((batch.withDocuments ([page, broken] ++ [page])).findings
      policy.collect).length ≤ policy.maxFindings := by
    decide +kernel
  have hperm : merging.documents.Perm batch.documents :=
    .cons page (.swap broken page [])
  obtain ⟨hparts, -, -, -, hmerged, htotals⟩ := evaluate_in_chunks policy batch
  refine ⟨hlength, (hparts [page, broken] [page]).2.2 hlength, hperm, hmerged merging hperm, ?_⟩
  rw [htotals]
  decide +kernel

end Batch

end LocaleLint
