import LocaleLint.Config.Resolve
import LocaleLint.Proofs.Evaluation.Verdict
import Mathlib.Data.List.Perm.Subperm

/-!
# Checking more and checking less

Options that ignore fewer tags, and leave attributes out less often, check more
(`CollectOptions.Within`). Two runs over the same tree then prune at different places and
depths, but the run that checks more never finds less: its texts are those of the other run with
some put in between (`Node.leaves_sublist`), and so are its literal texts. Its findings
are those of the other run and maybe more, as a multiset: a text that is put in front of an equal
one takes over its number, so only without the fingerprints is the order kept, too
(`Document.findings_subperm`, `Document.unnumbered_sublist`). The main result
`checking_more_reports_no_less` adds the verdict, and says which settings check more.
-/

set_option autoImplicit false

namespace LocaleLint

/-- Whether options check nothing that others leave out. -/
structure CollectOptions.Within (narrow wide : CollectOptions) : Prop where
  ignore : ∀ tag, wide.ignore.contains tag = true → narrow.ignore.contains tag = true
  attributes : narrow.attributes = true → wide.attributes = true

namespace CollectOptions.Within

variable {narrow wide : CollectOptions} (h : narrow.Within wide)

include h

/-- What the wider options leave out, the narrower ones leave out. -/
theorem skips {key : String} (hwide : wide.skips key = true) : narrow.skips key = true := by
  unfold CollectOptions.skips at hwide ⊢
  rw [Bool.or_eq_true] at hwide ⊢
  rcases hwide with hignored | hattributes
  · exact .inl (h.ignore key hignored)
  · right
    rw [Bool.and_eq_true, Bool.not_eq_true'] at hattributes ⊢
    refine ⟨hattributes.1, ?_⟩
    by_contra hnarrow
    rw [h.attributes (by simpa using hnarrow)] at hattributes
    cases hattributes.2

end CollectOptions.Within

/-! ## Texts -/

namespace Node

variable {narrow wide : CollectOptions}

mutual

/-- The texts of a tree under options that check less, by induction on the tree. -/
theorem leaves_sublist (h : narrow.Within wide) (node : Node) :
    (leaves narrow node).Sublist (leaves wide node) := by
  cases node with
  | null => exact .refl _
  | leaf text => exact .refl _
  | sequence items => exact leavesOfItems_sublist h items
  | mapping entries => exact leavesOfEntries_sublist h entries

/-- Of a sequence narrower options collect some of the texts that wider ones do, in order. -/
theorem leavesOfItems_sublist (h : narrow.Within wide) (items : List Node) :
    (leavesOfItems narrow items).Sublist (leavesOfItems wide items) := by
  cases items with
  | nil => exact .refl _
  | cons node rest => exact (leaves_sublist h node).append (leavesOfItems_sublist h rest)

/-- Of a mapping narrower options collect some of the texts that wider ones do, in order. -/
theorem leavesOfEntries_sublist (h : narrow.Within wide) (entries : List (String × Node)) :
    (leavesOfEntries narrow entries).Sublist (leavesOfEntries wide entries) := by
  match entries with
  | [] => exact .refl _
  | (key, node) :: rest =>
    have hrest := leavesOfEntries_sublist h rest
    rw [leavesOfEntries, leavesOfEntries]
    -- an entry may be visited by the wider options alone, but not by the narrower ones alone
    by_cases hwide : wide.skips key = true
    · rw [if_pos hwide, if_pos (h.skips hwide)]
      exact hrest
    · rw [if_neg hwide]
      split
      · exact hrest.trans (List.sublist_append_right _ _)
      · exact (leaves_sublist h node).append hrest

end

/-- Of a tree narrower options collect some of the texts that wider ones do, in order. -/
theorem collectLeaves_sublist (h : narrow.Within wide) (tree : Node) :
    (tree.collectLeaves narrow).Sublist (tree.collectLeaves wide) := by
  rw [collectLeaves_eq_leaves, collectLeaves_eq_leaves]
  exact leaves_sublist h tree

end Node

/-- Fewer texts have fewer literal ones among them, in the same order. -/
theorem literalTexts_sublist {texts texts' : List String} (h : texts.Sublist texts') :
    (literalTexts texts).Sublist (literalTexts texts') :=
  (h.map _).filter _

/-- More texts have the identities of fewer texts, and more. -/
theorem TextIdentity.ofTexts_subperm (path : RepoPath) {texts texts' : List String}
    (h : texts.Sublist texts') : (ofTexts path texts).Subperm (ofTexts path texts') := by
  apply List.subperm_of_subset (nodup_ofTexts path texts)
  intro identity hmem
  rw [mem_ofTexts] at hmem ⊢
  exact ⟨hmem.1, Nat.lt_of_lt_of_le hmem.2 (h.count_le _)⟩

/-! ## Findings -/

/-- A finding without what tells it from others about the same text. -/
def Finding.unnumbered (finding : Finding) : Finding :=
  { finding with fingerprint := none }

/-- Without its number a finding about a text is the same for all equal texts. -/
theorem Outcome.unnumbered_textFinding (outcome : Outcome) (path : RepoPath) (text : String)
    (occurrence occurrence' : Nat) :
    (outcome.textFinding ⟨path, text, occurrence⟩).unnumbered =
      (outcome.textFinding ⟨path, text, occurrence'⟩).unnumbered := by
  simp only [textFinding, Finding.unnumbered]

namespace Document

/-- What is said about a text hangs on the path and the target of its document alone. -/
theorem textFinding_outcome (options options' : CollectOptions) (document : Document) :
    (document.outcome options).textFinding = (document.outcome options').textFinding := by
  funext identity
  simp only [Outcome.textFinding, path_outcome, target_outcome]

/-- Without its number, a finding about a text hangs on the document and the text alone. -/
theorem map_unnumbered_findings (options : CollectOptions) (document : Document) :
    (document.findings options).map Finding.unnumbered =
      (document.failure.map (failureFinding document.path)).toList.map Finding.unnumbered ++
        (document.outcome options).failures.map fun text =>
          ((document.outcome {}).textFinding ⟨document.path, text, 0⟩).unnumbered := by
  rw [findings, textFinding_outcome options {}, List.map_append, List.map_map]
  congr 1
  apply List.ext_getElem
  · simp
  · intro i hi hi'
    simp only [List.getElem_map, List.getElem_mapIdx, Function.comp_apply]
    exact Outcome.unnumbered_textFinding _ _ _ _ 0

variable {narrow wide : CollectOptions} (h : narrow.Within wide)

include h

/-- The failures of a document under narrower options are some of those under wider ones, in order.
-/
theorem failures_sublist (document : Document) :
    (document.outcome narrow).failures.Sublist (document.outcome wide).failures := by
  rw [failures_eq, failures_eq]
  exact literalTexts_sublist (Node.leaves_sublist h document.tree)

/-- Each finding about a document under narrower options comes up under wider ones, too. -/
theorem findings_subperm (document : Document) :
    (document.findings narrow).Subperm (document.findings wide) := by
  obtain ⟨identities, hperm, hsublist⟩ :=
    TextIdentity.ofTexts_subperm document.path (failures_sublist h document)
  rw [findings_eq, findings_eq, textFinding_outcome narrow wide]
  apply (List.subperm_append_left _).2
  exact ⟨identities.map _, hperm.map _, hsublist.map _⟩

/-- Without their numbers the findings about a document under narrower options stand in order among
those under wider ones. -/
theorem unnumbered_sublist (document : Document) :
    ((document.findings narrow).map Finding.unnumbered).Sublist
      ((document.findings wide).map Finding.unnumbered) := by
  rw [map_unnumbered_findings, map_unnumbered_findings]
  exact (List.Sublist.refl _).append ((failures_sublist h document).map _)

/-- Literal copy that narrower options find is found by wider ones. -/
theorem hasLiteral_of_within {document : Document} (hnarrow : document.HasLiteral narrow) :
    document.HasLiteral wide := by
  obtain ⟨text, htext, hillegal⟩ := hnarrow
  exact ⟨text, (Node.collectLeaves_sublist h document.tree).subset htext, hillegal⟩

end Document

namespace Batch

variable {narrow wide : CollectOptions} (h : narrow.Within wide) (batch : Batch)

include h

/-- Each finding about a batch under narrower options comes up under wider ones, too. -/
theorem findings_subperm : (batch.findings narrow).Subperm (batch.findings wide) := by
  unfold findings
  induction batch.documents with
  | nil =>
    rw [List.flatMap_nil, List.flatMap_nil]
  | cons document rest ih =>
    rw [List.flatMap_cons, List.flatMap_cons]
    exact (document.findings_subperm h).append ih

/-- Without their numbers the findings about a batch under narrower options stand in order among
those under wider ones. -/
theorem unnumbered_sublist :
    ((batch.findings narrow).map Finding.unnumbered).Sublist
      ((batch.findings wide).map Finding.unnumbered) := by
  unfold findings
  rw [List.map_flatMap, List.map_flatMap]
  induction batch.documents with
  | nil =>
    rw [List.flatMap_nil, List.flatMap_nil]
  | cons document rest ih =>
    rw [List.flatMap_cons, List.flatMap_cons]
    exact (document.unnumbered_sublist h).append ih

/-- A batch that fails under narrower options fails under wider ones, whatever the limits. -/
theorem verdict_eq_fail_of_within {limit limit' : Nat}
    (hnarrow : (batch.evaluate ⟨narrow, limit⟩).verdict = .fail) :
    (batch.evaluate ⟨wide, limit'⟩).verdict = .fail := by
  rw [verdict_evaluate_eq_fail_iff] at hnarrow ⊢
  obtain ⟨document, hmem, hliteral⟩ := hnarrow
  exact ⟨document, hmem, Document.hasLiteral_of_within h hliteral⟩

/-- Where the run that checks more keeps all of its findings, so does the one that checks less. -/
theorem findings_evaluate_subperm {limit : Nat}
    (hall : (batch.evaluate ⟨wide, limit⟩).summary.truncatedReason = none) :
    (batch.evaluate ⟨narrow, limit⟩).findings.Subperm (batch.evaluate ⟨wide, limit⟩).findings := by
  have hsubperm := findings_subperm h batch
  have hlength := (truncatedReason_evaluate_eq_none_iff ⟨wide, limit⟩ batch).1 hall
  have hall' : (batch.evaluate ⟨narrow, limit⟩).summary.truncatedReason = none :=
    (truncatedReason_evaluate_eq_none_iff ⟨narrow, limit⟩ batch).2
      (Nat.le_trans hsubperm.length_le hlength)
  rw [findings_evaluate_of_no_cut _ batch hall, findings_evaluate_of_no_cut _ batch hall']
  exact hsubperm

end Batch

/-! ## Settings -/

namespace IgnoreSet

/-- A set holds the tags that were inserted, and those that it held before. -/
theorem contains_insertMany (set : IgnoreSet) (tags : List String) (tag : String) :
    (set.insertMany tags).contains tag = (tags.contains tag || set.contains tag) := by
  unfold insertMany
  induction tags generalizing set with
  | nil => simp
  | cons first rest ih =>
    rw [List.foldl_cons, ih, contains_insert, List.contains_cons]
    cases tag == first <;> simp

end IgnoreSet

namespace Config

variable (config : Config) (overrides : Overrides)

/-- The ignored tags are the standard ones and those of the configuration. -/
theorem ignore_policy :
    (config.policy overrides).collect.ignore = IgnoreSet.standard.insertMany config.ignoreTags :=
  rfl

/-- Attributes are checked if the caller, or else the configuration, says so. -/
theorem attributes_policy :
    (config.policy overrides).collect.attributes =
      (overrides.checkAttributes.or config.checkAttributes).getD false :=
  rfl

/-- More ignored tags check less. -/
theorem within_of_ignoreTags {tags : List String} (h : config.ignoreTags ⊆ tags) :
    (policy { config with ignoreTags := tags } overrides).collect.Within
      (config.policy overrides).collect where
  ignore := by
    intro tag hignored
    rw [ignore_policy, IgnoreSet.contains_insertMany, Bool.or_eq_true] at hignored ⊢
    refine hignored.imp_left fun hset => ?_
    rw [List.contains_iff_mem] at hset ⊢
    exact h hset
  attributes := by
    rw [attributes_policy, attributes_policy]
    exact id

/-- To ask for attributes in the configuration checks more, unless the caller has settled it. -/
theorem within_of_checkAttributes :
    (config.policy overrides).collect.Within
      (policy { config with checkAttributes := some true } overrides).collect where
  ignore := by
    intro tag
    rw [ignore_policy, ignore_policy]
    exact id
  attributes := by
    rw [attributes_policy, attributes_policy]
    intro hasked
    cases hcaller : overrides.checkAttributes with
    | none => rfl
    | some caller => simpa [hcaller] using hasked

/-- A caller who asks for attributes checks more. -/
theorem within_of_caller_checkAttributes :
    (config.policy overrides).collect.Within
      (config.policy { overrides with checkAttributes := some true }).collect where
  ignore := by
    intro tag
    rw [ignore_policy, ignore_policy]
    exact id
  attributes := by
    rw [attributes_policy]
    exact fun _ => rfl

end Config

/-! ## Checking more -/

/-- Options that leave out less find the same texts and more, in the same order, and so with the
literal texts of a document. They fail every batch that is failed under the others, and
report all findings that are reported under those, if the limit does not cut any off: the
same ones with their fingerprints as a multiset, and without the fingerprints in the same
order. More ignored tags leave out more, and asking for attributes leaves out less. -/
theorem checking_more_reports_no_less :
    (∀ narrow wide : CollectOptions, narrow.Within wide →
      (∀ tree : Node, (tree.collectLeaves narrow).Sublist (tree.collectLeaves wide)) ∧
      (∀ document : Document,
        (document.outcome narrow).failures.Sublist (document.outcome wide).failures) ∧
      ∀ batch : Batch,
        (∀ limit limit', (batch.evaluate ⟨narrow, limit⟩).verdict = .fail →
          (batch.evaluate ⟨wide, limit'⟩).verdict = .fail) ∧
        (batch.findings narrow).Subperm (batch.findings wide) ∧
        ((batch.findings narrow).map Finding.unnumbered).Sublist
          ((batch.findings wide).map Finding.unnumbered) ∧
        ∀ limit, (batch.evaluate ⟨wide, limit⟩).summary.truncatedReason = none →
          (batch.evaluate ⟨narrow, limit⟩).findings.Subperm
            (batch.evaluate ⟨wide, limit⟩).findings) ∧
    ∀ (config : Config) (overrides : Overrides),
      (∀ tags, config.ignoreTags ⊆ tags →
        (Config.policy { config with ignoreTags := tags } overrides).collect.Within
          (config.policy overrides).collect) ∧
      (config.policy overrides).collect.Within
        (Config.policy { config with checkAttributes := some true } overrides).collect ∧
      (config.policy overrides).collect.Within
        (config.policy { overrides with checkAttributes := some true }).collect := by
  refine ⟨fun narrow wide h => ⟨Node.collectLeaves_sublist h, Document.failures_sublist h,
    fun batch => ⟨fun limit limit' => ?_, ?_, ?_, fun limit => ?_⟩⟩,
    fun config overrides => ⟨?_, ?_⟩⟩
  · exact Batch.verdict_eq_fail_of_within h batch
  · exact Batch.findings_subperm h batch
  · exact Batch.unnumbered_sublist h batch
  · exact Batch.findings_evaluate_subperm h batch
  · exact fun tags htags => Config.within_of_ignoreTags config overrides htags
  · exact ⟨Config.within_of_checkAttributes config overrides,
      Config.within_of_caller_checkAttributes config overrides⟩

/-- A note is ignored, and with it an attribute and the first of two equal texts. -/
theorem checking_more_reports_no_less_of_notes :
    let config : Config := { checkAttributes := some true }
    let narrow := (Config.policy { config with ignoreTags := ["note"] } {}).collect
    let wide := (config.policy {}).collect
    let tree : Node := .mapping [("note", .mapping [("$", .mapping [("title", .leaf "Hi")]),
      ("_", .leaf "Hello")]), ("text", .leaf " Hello "), ("code", .leaf "42")]
    let document : Document := { path := ⟨"page.xml"⟩, target := "ui", tree := tree }
    let batch : Batch := ⟨⟨"."⟩, ["ui"], [document]⟩
    narrow.Within wide ∧ (document.outcome narrow).failures = ["Hello"] ∧
      (document.outcome wide).failures = ["Hi", "Hello", "Hello"] ∧
      (document.outcome narrow).failures.Sublist (document.outcome wide).failures ∧
      (batch.evaluate ⟨narrow, 0⟩).verdict = .fail ∧ (batch.evaluate ⟨wide, 2⟩).verdict = .fail := by
  intro config narrow wide tree document batch
  have h : narrow.Within wide :=
    (checking_more_reports_no_less.2 config {}).1 ["note"] (List.nil_subset _)
  have htexts : tree.leaves narrow = [" Hello ", "42"] := by decide +kernel
  have htexts' : tree.leaves wide = ["Hi", "Hello", " Hello ", "42"] := by decide +kernel
  have hnarrow : (document.outcome narrow).failures = ["Hello"] := by
    rw [Document.failures_eq, htexts]
    decide +kernel
  have hwide : (document.outcome wide).failures = ["Hi", "Hello", "Hello"] := by
    rw [Document.failures_eq, htexts']
    decide +kernel
  have hfail : (batch.evaluate ⟨narrow, 0⟩).verdict = .fail := by
    rw [Batch.verdict_evaluate_eq_fail_iff]
    refine ⟨document, List.mem_singleton_self _, ?_⟩
    rw [← Document.failures_ne_nil_iff, hnarrow]
    simp
  obtain ⟨-, hfailures, hbatch⟩ := checking_more_reports_no_less.1 narrow wide h
  exact ⟨h, hnarrow, hwide, hfailures document, hfail, (hbatch batch).1 0 2 hfail⟩

end LocaleLint
