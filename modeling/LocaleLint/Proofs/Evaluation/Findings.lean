import LocaleLint.Evaluation
import LocaleLint.Proofs.Collect
import LocaleLint.Proofs.Entries

/-!
# The findings of a batch

A run gathers findings document by document, with a count of the texts it has met. What it
gathers is the concatenation of the findings of the documents (`Batch.findings_gather`),
where a literal text is numbered by the equal texts of its document before it. A limit keeps
the first of these findings; the main result `limit_only_cuts_findings` says what else it
decides, which is no more than how many are kept and whether a cut is noted.
-/

set_option autoImplicit false

namespace LocaleLint

/-! ## Numbering equal texts -/

namespace TextIdentity

/-- At the start no text was seen. -/
theorem counts_nil (text : String) :
    (Entries.get? ([] : List (String × Nat)) text).getD 0 = ([] : List String).count text :=
  rfl

/-- A text that is met is counted once more. -/
theorem counts_put {earlier : List String} {seen : List (String × Nat)}
    (hseen : ∀ text, (Entries.get? seen text).getD 0 = earlier.count text) (text other : String) :
    (Entries.get? (Entries.put seen text (earlier.count text + 1)) other).getD 0 =
      (earlier ++ [text]).count other := by
  rw [Entries.get?_put, List.count_append]
  by_cases h : other = text
  · simp [h]
  · simp [h, hseen, Ne.symm h]

/-- Where `seen` counts the texts `earlier`, the occurrence of a text is the number of equal
texts before it, in `earlier` or in the list itself. -/
theorem ofTextsAfter_eq_mapIdx (path : RepoPath) {earlier : List String}
    {seen : List (String × Nat)}
    (hseen : ∀ text, (Entries.get? seen text).getD 0 = earlier.count text)
    (texts : List String) :
    ofTextsAfter path seen texts =
      texts.mapIdx fun i text => ⟨path, text, (earlier ++ texts.take i).count text⟩ := by
  induction texts generalizing earlier seen with
  | nil => rfl
  | cons text rest ih =>
    rw [ofTextsAfter, hseen, ih (counts_put hseen text), List.mapIdx_cons]
    simp

/-- The occurrence of a text is the number of equal texts before it. -/
theorem ofTexts_eq_mapIdx (path : RepoPath) (texts : List String) :
    ofTexts path texts = texts.mapIdx fun i text => ⟨path, text, (texts.take i).count text⟩ := by
  rw [ofTexts, ofTextsAfter_eq_mapIdx path counts_nil]
  simp

/-- Where `seen` counts the texts `earlier`, a text has the occurrences that follow those in
`earlier`, as many as it stands in the list. -/
theorem mem_ofTextsAfter {path : RepoPath} {earlier : List String} {seen : List (String × Nat)}
    (hseen : ∀ text, (Entries.get? seen text).getD 0 = earlier.count text) {texts : List String}
    {identity : TextIdentity} :
    identity ∈ ofTextsAfter path seen texts ↔
      identity.path = path ∧ earlier.count identity.text ≤ identity.occurrence ∧
        identity.occurrence < (earlier ++ texts).count identity.text := by
  induction texts generalizing earlier seen with
  | nil =>
    rw [List.append_nil]
    constructor
    · intro hmem
      cases hmem
    · rintro ⟨-, hfrom, hbelow⟩
      omega
  | cons text rest ih =>
    have hnext := counts_put hseen text
    obtain ⟨path', text', occurrence⟩ := identity
    rw [ofTextsAfter, hseen, List.mem_cons, ih hnext, List.append_assoc, List.singleton_append,
      TextIdentity.mk.injEq]
    by_cases htext : text = text'
    · subst htext
      simp only [List.count_append, List.count_cons_self, List.count_nil, true_and]
      constructor
      · rintro (⟨rfl, rfl⟩ | ⟨rfl, hfrom, hbelow⟩)
        · exact ⟨rfl, by omega, by omega⟩
        · exact ⟨rfl, by omega, hbelow⟩
      · rintro ⟨rfl, hfrom, hbelow⟩
        by_cases hfirst : occurrence = earlier.count text
        · exact .inl ⟨rfl, hfirst⟩
        · exact .inr ⟨rfl, by omega, hbelow⟩
    · have hother : [text].count text' = 0 := List.count_eq_zero.2 (by simpa using Ne.symm htext)
      simp [List.count_append, hother, Ne.symm htext]

/-- Numbering equal texts from the counts of those before keeps all of them apart. -/
theorem nodup_ofTextsAfter (path : RepoPath) {earlier : List String} {seen : List (String × Nat)}
    (hseen : ∀ text, (Entries.get? seen text).getD 0 = earlier.count text) (texts : List String) :
    (ofTextsAfter path seen texts).Nodup := by
  induction texts generalizing earlier seen with
  | nil => exact List.nodup_nil
  | cons text rest ih =>
    have hnext := counts_put hseen text
    rw [ofTextsAfter, hseen, List.nodup_cons, mem_ofTextsAfter hnext]
    refine ⟨?_, ih hnext⟩
    simp

/-- The texts of a document have the occurrences below their number, each once. -/
theorem mem_ofTexts {path : RepoPath} {texts : List String} {identity : TextIdentity} :
    identity ∈ ofTexts path texts ↔
      identity.path = path ∧ identity.occurrence < texts.count identity.text := by
  rw [ofTexts, mem_ofTextsAfter counts_nil]
  simp

/-- The texts of a document are kept apart by their numbers. -/
theorem nodup_ofTexts (path : RepoPath) (texts : List String) : (ofTexts path texts).Nodup :=
  nodup_ofTextsAfter path counts_nil texts

end TextIdentity

/-! ## What is gathered -/

/-- A finding about a text names this text. -/
theorem Outcome.text?_textFinding (outcome : Outcome) (identity : TextIdentity) :
    (outcome.textFinding identity).text? = some identity.text := by
  simp [Outcome.textFinding, Finding.text?, Json.member?, Json.text?, Entries.get?,
    Entries.lookup_cons_eq_ite]

namespace Document

/-- The findings about one document: first that it was not loaded, if so, then one about each of
its literal texts, which is told from equal ones by how many of them come before it. -/
def findings (options : CollectOptions) (document : Document) : List Finding :=
  let outcome := document.outcome options
  let identities : List TextIdentity := outcome.failures.mapIdx fun i text =>
    ⟨document.path, text, (outcome.failures.take i).count text⟩
  (document.failure.map (failureFinding document.path)).toList ++
    identities.map outcome.textFinding

/-- The findings about a document, by the identities of its literal texts. -/
theorem findings_eq (options : CollectOptions) (document : Document) :
    document.findings options =
      (document.failure.map (failureFinding document.path)).toList ++
        (TextIdentity.ofTexts document.path (document.outcome options).failures).map
          (document.outcome options).textFinding := by
  rw [findings, TextIdentity.ofTexts_eq_mapIdx]

/-- The outcome of a document keeps its path. -/
theorem path_outcome (options : CollectOptions) (document : Document) :
    (document.outcome options).path = document.path :=
  rfl

/-- The outcome of a document keeps its target. -/
theorem target_outcome (options : CollectOptions) (document : Document) :
    (document.outcome options).target = document.target :=
  rfl

/-- The failures of a document are the literal ones among the texts of its tree. -/
theorem failures_eq (options : CollectOptions) (document : Document) :
    (document.outcome options).failures = literalTexts (document.tree.leaves options) :=
  congrArg literalTexts (Node.collectLeaves_eq_leaves options document.tree)

/-- Without a tree there is nothing to check. -/
theorem outcome_of_null (options : CollectOptions) {document : Document}
    (h : document.tree = .null) :
    document.outcome options =
      { path := document.path, target := document.target, stringsChecked := 0, failures := []
        loadError := document.failure.map (·.message) } := by
  rw [outcome, h, Node.collectLeaves_eq_leaves]
  rfl

end Document

namespace Gathering

/-- Pushed findings stand in front of those before, the latest first. -/
theorem findings_foldl_push (gathering : Gathering) (findings : List Finding) :
    (findings.foldl push gathering).findings = findings.reverse ++ gathering.findings := by
  induction findings generalizing gathering with
  | nil => rfl
  | cons finding rest ih => simp [ih, push]

/-- Pushing findings leaves the outcomes as they are. -/
theorem outcomes_foldl_push (gathering : Gathering) (findings : List Finding) :
    (findings.foldl push gathering).outcomes = gathering.outcomes := by
  induction findings generalizing gathering with
  | nil => rfl
  | cons finding rest ih => simp [ih, push]

/-- One more document adds its findings behind those before it. -/
theorem findings_add (options : CollectOptions) (gathering : Gathering) (document : Document) :
    (gathering.add options document).findings.reverse =
      gathering.findings.reverse ++ document.findings options := by
  have hidentities :=
    TextIdentity.ofTexts_eq_mapIdx document.path (document.outcome options).failures
  have htexts : (document.outcome options).textFindings =
      (TextIdentity.ofTexts document.path (document.outcome options).failures).map
        (document.outcome options).textFinding := rfl
  rw [Document.findings, ← hidentities, ← htexts, add]
  cases document.failure with
  | none => simp [findings_foldl_push]
  | some failure => simp [findings_foldl_push, push]

/-- One more document adds its outcome behind those before it. -/
theorem outcomes_add (options : CollectOptions) (gathering : Gathering) (document : Document) :
    (gathering.add options document).outcomes.reverse =
      gathering.outcomes.reverse ++ [document.outcome options] := by
  rw [add]
  cases document.failure with
  | none => simp [outcomes_foldl_push]
  | some failure => simp [outcomes_foldl_push, push]

/-- Adding documents one by one adds their findings in order. -/
theorem findings_foldl_add (options : CollectOptions) (gathering : Gathering)
    (documents : List Document) :
    (documents.foldl (add options) gathering).findings.reverse =
      gathering.findings.reverse ++ documents.flatMap (Document.findings options) := by
  induction documents generalizing gathering with
  | nil => simp
  | cons document rest ih =>
    rw [List.foldl_cons, ih, findings_add, List.flatMap_cons, List.append_assoc]

/-- Adding documents one by one adds their outcomes in order. -/
theorem outcomes_foldl_add (options : CollectOptions) (gathering : Gathering)
    (documents : List Document) :
    (documents.foldl (add options) gathering).outcomes.reverse =
      gathering.outcomes.reverse ++ documents.map (Document.outcome options) := by
  induction documents generalizing gathering with
  | nil => simp
  | cons document rest ih =>
    rw [List.foldl_cons, ih, outcomes_add, List.map_cons, List.append_assoc, List.singleton_append]

end Gathering

namespace Batch

/-- The findings about all documents of a batch, in the order of the documents. -/
def findings (options : CollectOptions) (batch : Batch) : List Finding :=
  batch.documents.flatMap (Document.findings options)

/-- What is gathered from a batch are its findings, in order. -/
theorem findings_gather (options : CollectOptions) (batch : Batch) :
    (batch.gather options).findings.reverse = batch.findings options :=
  Gathering.findings_foldl_add options {} batch.documents

/-- What is gathered from a batch are its findings, and no others. -/
theorem mem_findings_gather (options : CollectOptions) (batch : Batch) (finding : Finding) :
    finding ∈ (batch.gather options).findings ↔ finding ∈ batch.findings options := by
  rw [← findings_gather, List.mem_reverse]

/-- What is found in a batch is that a document was not loaded, or a literal text of a document. -/
theorem finding_cases {policy : Policy} {batch : Batch} {finding : Finding}
    (h : finding ∈ (batch.evaluate policy).findings) :
    (∃ path failure, finding = Document.failureFinding path failure) ∨
      ∃ outcome identity, finding = Outcome.textFinding outcome identity := by
  have hmem : finding ∈ batch.findings policy.collect := by
    rw [← mem_findings_gather, ← List.mem_reverse]
    exact List.mem_of_mem_take h
  obtain ⟨document, -, hof⟩ := List.mem_flatMap.1 hmem
  rcases List.mem_append.1 hof with hfailure | htext
  · obtain ⟨failure, -, rfl⟩ : ∃ failure, document.failure = some failure ∧
        Document.failureFinding document.path failure = finding := by simpa using hfailure
    exact .inl ⟨_, _, rfl⟩
  · obtain ⟨identity, -, rfl⟩ := List.mem_map.1 htext
    exact .inr ⟨_, _, rfl⟩

/-- What is gathered from a batch are the outcomes of its documents, in order. -/
theorem outcomes_gather (options : CollectOptions) (batch : Batch) :
    (batch.gather options).outcomes.reverse = batch.documents.map (Document.outcome options) :=
  Gathering.outcomes_foldl_add options {} batch.documents

end Batch

namespace Batch

variable (policy : Policy) (batch : Batch)

/-! ## What is kept -/

/-- An evaluation keeps the first findings of the batch, as many as the policy allows. -/
theorem findings_evaluate :
    (batch.evaluate policy).findings = (batch.findings policy.collect).take policy.maxFindings := by
  simp only [evaluate, findings_gather]

/-- The total counts all findings of the batch, kept or not. -/
theorem findingsTotal_evaluate :
    (batch.evaluate policy).summary.findingsTotal =
      Count.ofNat (batch.findings policy.collect).length := by
  simp only [evaluate, findings_gather]

/-- A cut is noted unless all findings are kept. -/
theorem truncatedReason_evaluate_eq_none_iff :
    (batch.evaluate policy).summary.truncatedReason = none ↔
      (batch.findings policy.collect).length ≤ policy.maxFindings := by
  simp only [evaluate, findings_gather]
  split
  · next hcut => simpa using hcut
  · next hcut => simpa using hcut

/-- All findings are kept unless a cut is noted. -/
theorem findings_evaluate_of_no_cut
    (h : (batch.evaluate policy).summary.truncatedReason = none) :
    (batch.evaluate policy).findings = batch.findings policy.collect := by
  rw [findings_evaluate, List.take_of_length_le]
  exact (truncatedReason_evaluate_eq_none_iff policy batch).1 h

end Batch

/-! ## What a limit decides -/

/-- An evaluation without what a limit decides: the findings that are kept, how many they are,
and the note about a cut. -/
def Evaluation.withoutCut (evaluation : Evaluation) : Evaluation :=
  { evaluation with
    findings := []
    summary := { evaluation.summary with findingsEmitted := 0, truncatedReason := none } }

namespace Batch

/-- Under every limit the first findings of the batch are kept, all are counted, and a cut is
noted when there is one. A greater limit keeps these findings and maybe more, and nothing
else that is said of the batch hangs on the limit. -/
theorem limit_only_cuts_findings (options : CollectOptions) (batch : Batch) :
    (∀ limit,
      let evaluation := batch.evaluate ⟨options, limit⟩
      let full := batch.findings options
      evaluation.findings = full.take limit ∧
        evaluation.summary.findingsTotal = Count.ofNat full.length ∧
        evaluation.summary.findingsEmitted = Count.ofNat (min limit full.length) ∧
        (evaluation.summary.truncatedReason.isSome ↔ limit < full.length)) ∧
    ∀ small large, small ≤ large →
      (batch.evaluate ⟨options, small⟩).findings <+: (batch.evaluate ⟨options, large⟩).findings ∧
        (batch.evaluate ⟨options, small⟩).withoutCut =
          (batch.evaluate ⟨options, large⟩).withoutCut := by
  have hkept (limit : Nat) :
      (batch.evaluate ⟨options, limit⟩).findings = (batch.findings options).take limit := by
    simp only [evaluate, findings_gather]
  refine ⟨fun limit => ⟨hkept limit, ?_, ?_, ?_⟩, fun small large hle => ⟨?_, rfl⟩⟩
  · simp only [evaluate, findings_gather]
  · simp only [evaluate, findings_gather, List.length_take]
  · simp only [evaluate, findings_gather]
    split
    · next hcut => simpa using hcut
    · next hcut => simpa using hcut
  · rw [hkept, hkept]
    exact List.take_prefix_take_left hle

/-- Of three findings, about a document that was not loaded and about two equal texts, two are
kept where one was. -/
theorem limit_only_cuts_findings_of_mixed_batch :
    let broken : Document := {
      path := ⟨"broken.xml"⟩, target := "ui"
      failure := some { kind := .parse, message := "no root element" } }
    let page : Document := {
      path := ⟨"page.xml"⟩, target := "ui", tree := .sequence [.leaf "Hello", .leaf "Hello"] }
    let batch : Batch := ⟨⟨"."⟩, ["ui"], [broken, page]⟩
    1 ≤ 2 ∧ (batch.findings {}).length = 3 ∧
      (batch.evaluate ⟨{}, 1⟩).findings <+: (batch.evaluate ⟨{}, 2⟩).findings ∧
      (batch.evaluate ⟨{}, 1⟩).withoutCut = (batch.evaluate ⟨{}, 2⟩).withoutCut := by
  intro broken page batch
  refine ⟨by decide, ?_, (limit_only_cuts_findings {} batch).2 1 2 (by decide)⟩
  decide +kernel

end Batch

end LocaleLint
