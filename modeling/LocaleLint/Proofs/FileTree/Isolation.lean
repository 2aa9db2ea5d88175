import LocaleLint.Proofs.Evaluation.Partition
import LocaleLint.Proofs.FileTree.Change
import LocaleLint.Proofs.FileTree.Listing

/-!
# Files apart

What becomes of one file is no matter to the documents of the others. Two trees that differ in
the content of one file alone (`FileTree.SameBut`) lead every path to the same place, so that only
paths to that file are read otherwise (`FileTree.SameBut.arrives_walk`, `FileTree.SameBut.read_eq`).
The documents of all other paths are the same, and since nothing is carried from document to
document, so is what is found in them (`Document.filter_outcomes`, `Document.filter_findings`).
The main result `loading_isolates_files` says so, and what each listed path comes to.
-/

set_option autoImplicit false

namespace LocaleLint

namespace FileTree

/-- Whether two trees are the same but for the content of the file at a place. -/
structure SameBut (place : Place) (tree tree' : FileTree) : Prop where
  workingDirectory : tree'.workingDirectory = tree.workingDirectory
  file : ∃ bytes, tree.entry? place = some (.file bytes)
  file' : ∃ bytes, tree'.entry? place = some (.file bytes)
  elsewhere : ∀ other, other ≠ place → tree'.entry? other = tree.entry? other

/-- Whether a path leads to what stands at a place. -/
def LeadsTo (tree : FileTree) (path : String) (place : Place) : Prop :=
  ∃ entry, tree.locate true path = .ok (.found place entry)

/-- Another content is written into a file. -/
theorem sameBut_put {tree : FileTree} {place : Place} {bytes : List UInt8}
    (h : tree.entry? place = some (.file bytes)) (bytes' : List UInt8) :
    tree.SameBut place (tree.put place (.file bytes')) := by
  have hput (other : Place) : entry? (tree.put place (.file bytes')) other =
      if other = place then some (.file bytes') else tree.entry? other :=
    tree.at_put (writable_of_file h).ne_root (.file bytes') other
  refine ⟨rfl, ⟨bytes, h⟩, ⟨bytes', ?_⟩, fun other hother => ?_⟩
  · rw [hput, if_pos rfl]
  · rw [hput, if_neg hother]

/-- What two walks come to: the same, or the file at a place, whatever it holds. -/
inductive Arrives (place : Place) :
    Except FileFault Destination → Except FileFault Destination → Prop
  | same (result : Except FileFault Destination) : Arrives place result result
  | file (bytes bytes' : List UInt8) :
      Arrives place (.ok (.found place (.file bytes))) (.ok (.found place (.file bytes')))

namespace SameBut

variable {place : Place} {tree tree' : FileTree} (h : SameBut place tree tree')

include h

/-- What is not a file stands in both trees. -/
theorem entry_eq {other : Place} {answer : Option FileEntry} (hentry : tree.entry? other = answer)
    (hfile : ∀ bytes, answer ≠ some (.file bytes)) : tree'.entry? other = answer := by
  rw [← hentry]
  apply h.elsewhere
  rintro rfl
  obtain ⟨bytes, hbytes⟩ := h.file
  exact hfile bytes (hentry.symm.trans hbytes)

/-- Trees that differ in the content of a file have the same directories. -/
theorem directory_eq {other : Place} (hentry : tree.entry? other = some .directory) :
    tree'.entry? other = some .directory :=
  h.entry_eq hentry (by simp)

/-- What is said of an entry and of all files is said of what stands there in the other tree. -/
theorem exists_entry (holds : FileEntry → Prop) {other : Place} {entry : FileEntry}
    (hentry : tree.entry? other = some entry) (hholds : holds entry)
    (hfile : ∀ bytes, holds (.file bytes)) :
    ∃ entry', tree'.entry? other = some entry' ∧ holds entry' := by
  by_cases hplace : other = place
  · subst hplace
    obtain ⟨bytes, hbytes⟩ := h.file'
    exact ⟨_, hbytes, hfile bytes⟩
  · exact ⟨entry, (h.elsewhere other hplace).trans hentry, hholds⟩

/-- Walks with the same steps take the same way through both trees, by induction on the walk. -/
theorem arrives_walk (follow : Bool) (links : Nat) (origin : Place) (steps : List String) :
    Arrives place (tree.walk follow links origin steps) (tree'.walk follow links origin steps) := by
  fun_induction FileTree.walk tree follow links origin steps with
  | case1 links other entry hentry =>
    by_cases hplace : other = place
    · subst hplace
      obtain ⟨bytes, hbytes⟩ := h.file
      obtain ⟨bytes', hbytes'⟩ := h.file'
      obtain rfl : entry = .file bytes := Option.some.inj (hentry.symm.trans hbytes)
      rw [FileTree.walk, hbytes']
      exact .file bytes bytes'
    · rw [FileTree.walk, h.elsewhere other hplace, hentry]
      exact .same _
  | case2 links other hentry =>
    rw [FileTree.walk, h.entry_eq hentry (by simp)]
    exact .same _
  | case3 links other step rest hentry =>
    rw [FileTree.walk, h.entry_eq hentry (by simp)]
    exact .same _
  | case4 links other rest hdirectory ih =>
    rw [FileTree.walk, h.directory_eq hdirectory]
    exact ih
  | case5 links other rest hdirectory hdot ih =>
    rw [FileTree.walk, h.directory_eq hdirectory]
    simpa using ih
  | case6 links other step rest hdirectory hdot hdots hlong =>
    rw [FileTree.walk, h.directory_eq hdirectory]
    simp only [if_neg hdot, if_neg hdots, if_pos hlong]
    exact .same _
  | case7 links other step rest hdirectory hdot hdots hshort next hentry hlast =>
    rw [walk_name (h.directory_eq hdirectory) hdot hdots hshort, h.entry_eq hentry (by simp)]
    simp only [if_pos hlast]
    exact .same _
  | case8 links other step rest hdirectory hdot hdots hshort next hentry hlast =>
    rw [walk_name (h.directory_eq hdirectory) hdot hdots hshort, h.entry_eq hentry (by simp)]
    simp only [if_neg hlast]
    exact .same _
  | case9 links other step rest hdirectory hdot hdots hshort next target hentry hlast =>
    rw [walk_name (h.directory_eq hdirectory) hdot hdots hshort, h.entry_eq hentry (by simp)]
    simp only [if_pos hlast]
    exact .same _
  | case10 other step rest hdirectory hdot hdots hshort next target hentry hlast =>
    rw [walk_name (h.directory_eq hdirectory) hdot hdots hshort, h.entry_eq hentry (by simp)]
    simp only [if_neg hlast]
    exact .same _
  | case11 other step rest hdirectory hdot hdots hshort next target hentry hlast links ih =>
    rw [walk_name (h.directory_eq hdirectory) hdot hdots hshort, h.entry_eq hentry (by simp)]
    simp only [if_neg hlast]
    exact ih
  | case12 links other step rest hdirectory hdot hdots hshort next entry hlink hentry ih =>
    -- the step may lead to the file itself, which is there in both trees, whatever it holds
    obtain ⟨entry', hentry', hlink'⟩ := h.exists_entry (fun entry => ∀ target, entry ≠ .link target)
      hentry hlink (by simp)
    rw [walk_name (h.directory_eq hdirectory) hdot hdots hshort, hentry']
    cases entry' with
    | link target => exact absurd rfl (hlink' target)
    | file bytes => exact ih
    | directory => exact ih
  | case13 links other step rest entry hdirectory hentry =>
    obtain ⟨entry', hentry', hother⟩ := h.exists_entry (· ≠ .directory) hentry hdirectory
      (by simp)
    rw [walk, hentry']
    cases entry' with
    | directory => exact absurd rfl hother
    | file bytes => exact .same _
    | link target => exact .same _

/-- Every path leads to the same in both trees, but that the file may hold something else. -/
theorem arrives_locate (path : String) :
    Arrives place (tree.locate true path) (tree'.locate true path) := by
  rw [locate, locate, locateSteps, locateSteps, h.workingDirectory]
  cases checkPath path with
  | error fault => exact .same _
  | ok value => exact h.arrives_walk true linkLimit _ _

/-- Trees that differ in the content of a file agree about what is read from all other files. -/
theorem read_eq {path : String} (hother : ¬tree.LeadsTo path place) :
    tree'.read path = tree.read path := by
  have harrives := h.arrives_locate path
  rw [read, read]
  generalize hlocate : tree.locate true path = result at harrives
  generalize tree'.locate true path = result' at harrives
  cases harrives with
  | same => rfl
  | file bytes bytes' => exact absurd ⟨_, hlocate⟩ hother

/-- Only the documents that are read from the file may differ. -/
theorem document_eq {root target : String} {path : RepoPath}
    (hother : ¬tree.LeadsTo (PathText.join root path.text) place) :
    tree'.document root target path = tree.document root target path := by
  rw [document, document, h.read_eq hother]

end SameBut

end FileTree

/-! ## Documents of the same path -/

/-- Whether a finding is about the document of a path. -/
def Finding.IsAbout (finding : Finding) (path : RepoPath) : Prop :=
  finding.location.map (·.path) = some path

namespace Document

/-- Two documents of one path and target that are the same if the path is one of some. -/
structure SameIf (kept : RepoPath → Prop) (document document' : Document) : Prop where
  target : document'.target = document.target
  path : document'.path = document.path
  same : kept document.path → document' = document

/-- Every finding of a document is about its path. -/
theorem isAbout_of_mem_findings {options : CollectOptions} {document : Document}
    {finding : Finding} (h : finding ∈ document.findings options) :
    finding.IsAbout document.path := by
  rw [findings_eq] at h
  rcases List.mem_append.1 h with hfailure | htext
  · obtain ⟨failure, -, rfl⟩ : ∃ failure, document.failure = some failure ∧
        failureFinding document.path failure = finding := by simpa using hfailure
    rfl
  · obtain ⟨identity, -, rfl⟩ := List.mem_map.1 htext
    rfl

variable {kept : RepoPath → Prop} {documents documents' : List Document}
  (h : List.Forall₂ (SameIf kept) documents documents') (options : CollectOptions)

include h

/-- Documents that are the same for some paths have the same outcomes for these. -/
theorem filter_outcomes [DecidablePred kept] :
    (documents'.map (outcome options)).filter (kept ·.path) =
      (documents.map (outcome options)).filter (kept ·.path) := by
  induction h with
  | nil => rfl
  | @cons document document' rest rest' hsame _ ih =>
    rw [List.map_cons, List.map_cons, List.filter_cons, List.filter_cons, ih, path_outcome,
      path_outcome, hsame.path]
    by_cases hkept : kept document.path
    · rw [hsame.same hkept]
    · simp [hkept]

/-- Documents that are the same for some paths have the same findings about these. -/
theorem filter_findings [DecidablePred fun finding : Finding =>
      ∃ path, finding.IsAbout path ∧ kept path] :
    (documents'.flatMap (findings options)).filter
        (fun finding => ∃ path, finding.IsAbout path ∧ kept path) =
      (documents.flatMap (findings options)).filter
        fun finding => ∃ path, finding.IsAbout path ∧ kept path := by
  induction h with
  | nil => rfl
  | @cons document document' rest rest' hsame _ ih =>
    rw [List.flatMap_cons, List.flatMap_cons, List.filter_append, List.filter_append, ih]
    congr 1
    by_cases hkept : kept document.path
    · rw [hsame.same hkept]
    -- neither document is kept, as both have the same path, and so are their findings
    · have hnone (other : Document) (hpath : other.path = document.path) :
          (other.findings options).filter
            (fun finding => ∃ path, finding.IsAbout path ∧ kept path) = [] := by
        rw [List.filter_eq_nil_iff]
        intro finding hfinding hsome
        obtain ⟨path, habout, hpathKept⟩ := of_decide_eq_true hsome
        have hboth : some other.path = some path :=
          (isAbout_of_mem_findings hfinding).symm.trans habout
        rw [← Option.some.inj hboth, hpath] at hpathKept
        exact hkept hpathKept
      rw [hnone document' hsame.path, hnone document rfl]

end Document

/-- The documents that two trees make of the same groups. -/
theorem FileTree.SameBut.forall₂_sameIf {place : Place} {tree tree' : FileTree}
    (h : tree.SameBut place tree') (root : String) (groups : List FileGroup) :
    List.Forall₂
      (Document.SameIf fun path => ¬tree.LeadsTo (PathText.join root path.text) place)
      (groups.flatMap fun group => group.paths.map (tree.document root group.target))
      (groups.flatMap fun group => group.paths.map (tree'.document root group.target)) := by
  refine FileGroup.forall₂_flatMap (fun target path => ?_) groups
  have hpath (other : FileTree) : (other.document root target path).path = path :=
    Document.path_ofLoad path target _
  have htarget (other : FileTree) : (other.document root target path).target = target :=
    Document.target_ofLoad path target _
  refine ⟨(htarget tree').trans (htarget tree).symm, (hpath tree').trans (hpath tree).symm, ?_⟩
  intro hother
  rw [hpath] at hother
  exact h.document_eq hother

/-! ## Loading and evaluating -/

open scoped Classical in
/-- A file never hangs on another. However the files are read, each listed path makes one document,
in the order of the groups and then of the paths. A document whose file is not read, is no UTF-8 or
does not parse has no tree and no strings, and one warning comes of it and nothing else. The
findings of a batch are those of its documents, one after the other, of which the first are kept.
Below the limit of the counters, the documents that failed and those that were not loaded are
no more than all documents, which are as many as the listed paths, and the findings are as many as
the documents that were not loaded and all literal texts. Two trees that differ in the content of
one file make the same document of each listed path that does not lead to this file, so that what is
found in all these documents is the same. -/
theorem loading_isolates_files (root : String) (groups : List FileGroup) (policy : Policy) :
    (∀ {σ : Type} [Host (StateM σ)] (state : σ) (files : String → Except FileFault (List UInt8)),
      (∀ path, (Host.read path : StateM σ (Except FileFault (List UInt8))).run state =
        (files path, state)) →
      ∃ batch, (Batch.load root groups : StateM σ Batch).run state = (batch, state) ∧
        let evaluation := batch.evaluate policy
        let summary := evaluation.summary
        let full := (batch.gather policy.collect).findings.reverse
        List.Forall₂ (Document.LoadedFrom files root) (FileGroup.listed groups) batch.documents ∧
        (∀ document ∈ batch.documents, document.failure.isSome = true →
          document.OnlyWarns policy.collect) ∧
        evaluation.outcomes = batch.documents.map (Document.outcome policy.collect) ∧
        full = batch.documents.flatMap (Document.findings policy.collect) ∧
        evaluation.findings = full.take policy.maxFindings ∧
        (batch.documents.length < 2 ^ 32 → full.length < 2 ^ 32 →
          summary.documentsFailed.val + summary.parseErrors.val ≤ summary.documentsScanned.val ∧
          summary.documentsScanned.val = (FileGroup.listed groups).length ∧
          summary.findingsTotal.val = summary.parseErrors.val +
            (evaluation.outcomes.map (·.failures.length)).sum)) ∧
    ∀ (place : Place) (tree tree' : FileTree), tree.SameBut place tree' →
      let kept := fun path : RepoPath => ¬tree.LeadsTo (PathText.join root path.text) place
      let isKept := fun finding : Finding => ∃ path, finding.IsAbout path ∧ kept path
      ∃ batch batch',
        (Batch.load root groups : StateM FileTree Batch).run tree = (batch, tree) ∧
        (Batch.load root groups : StateM FileTree Batch).run tree' = (batch', tree') ∧
        List.Forall₂ (Document.SameIf kept) batch.documents batch'.documents ∧
        (batch'.evaluate policy).outcomes.filter (kept ·.path) =
          (batch.evaluate policy).outcomes.filter (kept ·.path) ∧
        (batch'.gather policy.collect).findings.reverse.filter isKept =
          (batch.gather policy.collect).findings.reverse.filter isKept := by
  refine ⟨fun state files hread => ?_, fun place tree tree' h => ?_⟩
  · refine ⟨_, run_loadBatch_of_reads hread root groups, ?_⟩
    intro evaluation summary full
    have hloaded := FileGroup.forall₂_loadedFrom files root groups
    have hwarns : ∀ document ∈ groups.flatMap fun group => group.paths.map fun path =>
          Document.ofAnswer root group.target path (files (PathText.join root path.text)),
        document.failure.isSome = true → document.OnlyWarns policy.collect := by
      intro document hmem hfailure
      obtain ⟨group, -, hgroup⟩ := List.mem_flatMap.1 hmem
      obtain ⟨path, -, rfl⟩ := List.mem_map.1 hgroup
      have hfrom := Document.loadedFrom_ofAnswer files root group.target path
      exact Document.onlyWarns policy.collect hfailure (hfrom.tree hfailure)
    have hfull : full = _ := Batch.findings_gather policy.collect _
    refine ⟨hloaded, hwarns, Batch.outcomes_evaluate policy _, hfull, rfl, ?_⟩
    intro hdocuments hfindings
    rw [hfull] at hfindings
    have hlimit : 2 ^ 32 = Count.limit + 1 := rfl
    rw [hlimit] at hdocuments hfindings
    rw [hloaded.length_eq]
    exact Batch.counts_of_onlyWarns policy _ hwarns (Nat.le_of_lt_succ hdocuments)
      (Nat.le_of_lt_succ hfindings)
  · intro kept isKept
    have hsame := h.forall₂_sameIf root groups
    refine ⟨_, _, run_loadBatch tree root groups, run_loadBatch tree' root groups, hsame, ?_, ?_⟩
    · rw [Batch.outcomes_evaluate, Batch.outcomes_evaluate]
      exact Document.filter_outcomes hsame policy.collect
    · rw [Batch.findings_gather, Batch.findings_gather]
      exact Document.filter_findings hsame policy.collect

/-- A page that is not UTF-8 is mended, which is no matter to the page beside it. -/
theorem loading_isolates_files_of_mended_page :
    let hello : List UInt8 := "<a>Hello</a>".toUTF8.toList
    let tree : FileTree := ⟨[(["a.xml"], .file [0xff]), (["b.xml"], .file hello)], []⟩
    let tree' : FileTree := tree.put ["a.xml"] (.file hello)
    let groups : List FileGroup := [⟨"cli", [⟨"a.xml"⟩, ⟨"b.xml"⟩]⟩]
    let page := fun name : String => ({
      path := ⟨name⟩, target := "cli", tree := .mapping [("a", .leaf "Hello")] } : Document)
    tree.SameBut ["a.xml"] tree' ∧ tree.LeadsTo (PathText.join "/" "a.xml") ["a.xml"] ∧
      ¬tree.LeadsTo (PathText.join "/" "b.xml") ["a.xml"] ∧
      ∃ broken batch batch', batch.documents = [broken, page "b.xml"] ∧
        batch'.documents = [page "a.xml", page "b.xml"] ∧
        (Batch.load "/" groups : StateM FileTree Batch).run tree = (batch, tree) ∧
        (Batch.load "/" groups : StateM FileTree Batch).run tree' = (batch', tree') ∧
        broken.OnlyWarns {} ∧
        (batch.findings {}).length < 2 ^ 32 ∧
        (batch.evaluate {}).summary.documentsFailed.val +
          (batch.evaluate {}).summary.parseErrors.val ≤
            (batch.evaluate {}).summary.documentsScanned.val ∧
        (batch.evaluate {}).summary.documentsScanned.val = 2 ∧
        List.Forall₂ (Document.SameIf fun path =>
          ¬tree.LeadsTo (PathText.join "/" path.text) ["a.xml"]) batch.documents
            batch'.documents := by
  intro hello tree tree' groups page
  have ha : IsEntryName "a.xml" := by decide +kernel
  have hb : IsEntryName "b.xml" := by decide +kernel
  have hbut : tree.SameBut ["a.xml"] tree' := FileTree.sameBut_put rfl hello
  have hleads : tree.LeadsTo (PathText.join "/" "a.xml") ["a.xml"] :=
    ⟨_, FileTree.locate_file_of_name ha rfl⟩
  have hother : ¬tree.LeadsTo (PathText.join "/" "b.xml") ["a.xml"] := by
    rintro ⟨entry, hentry⟩
    have hplace := (FileTree.locate_file_of_name hb rfl).symm.trans hentry
    simp at hplace
  let failure : LoadFailure := {
    kind := .read
    message := "document is not valid UTF-8: invalid utf-8 sequence of 1 bytes from index 0" }
  let broken : Document := { path := ⟨"a.xml"⟩, target := "cli", failure := some failure }
  have hroot : RepoPath.ofString "/" = ⟨"/"⟩ := by decide +kernel
  have hpage (other : FileTree) {name : String} (hname : IsEntryName name)
      (hentry : other.entry? [name] = some (.file hello)) :
      other.document "/" "cli" ⟨name⟩ = page name := by
    have hdecode : Document.decode "<a>Hello</a>".toUTF8.toList =
        .ok (.mapping [("a", .leaf "Hello")]) := by decide +kernel
    rw [FileTree.document_of_name hname hentry, hdecode]
    rfl
  have hbroken : tree.document "/" "cli" ⟨"a.xml"⟩ = broken := by
    have hdecode : Document.decode [0xff] = .error failure := by decide +kernel
    rw [FileTree.document_of_name ha rfl, hdecode]
    rfl
  have hload : (Batch.load "/" groups : StateM FileTree Batch).run tree =
      (⟨⟨"/"⟩, ["cli"], [broken, page "b.xml"]⟩, tree) := by
    rw [run_loadBatch, hroot]
    simp only [groups, List.flatMap_cons, List.flatMap_nil, List.map_cons, List.map_nil, hbroken,
      hpage tree hb rfl]
    rfl
  have hload' : (Batch.load "/" groups : StateM FileTree Batch).run tree' =
      (⟨⟨"/"⟩, ["cli"], [page "a.xml", page "b.xml"]⟩, tree') := by
    rw [run_loadBatch, hroot]
    simp only [groups, List.flatMap_cons, List.flatMap_nil, List.map_cons, List.map_nil,
      hpage tree' ha rfl, hpage tree' hb rfl]
    rfl
  obtain ⟨hall, htwo⟩ := loading_isolates_files "/" groups {}
  obtain ⟨batch, hbatch, -, hwarns, -, -, -, hcounts⟩ := hall tree tree.read fun _ => rfl
  obtain ⟨batch₁, batch₂, hbatch₁, hbatch₂, hsame, -, -⟩ := htwo ["a.xml"] tree tree' hbut
  obtain rfl := (Prod.mk.inj (hbatch.symm.trans hload)).1
  obtain rfl := (Prod.mk.inj (hbatch₁.symm.trans hload)).1
  obtain rfl := (Prod.mk.inj (hbatch₂.symm.trans hload')).1
  have hliteral : ((page "b.xml").outcome {}).failures = ["Hello"] := by
    have hleaves : (page "b.xml").tree.leaves {} = ["Hello"] := by decide +kernel
    rw [Document.failures_eq, hleaves]
    decide +kernel
  have hlength : (Batch.findings {} ⟨⟨"/"⟩, ["cli"], [broken, page "b.xml"]⟩).length < 2 ^ 32 := by
    have hnull : (broken.outcome {}).failures = [] := by rw [Document.outcome_of_null {} rfl]
    rw [Batch.length_findings, List.map_cons, List.map_cons, hnull, hliteral]
    decide
  have hfull := hlength
  rw [← Batch.findings_gather] at hfull
  obtain ⟨hle, hscanned, -⟩ := hcounts (by simp) hfull
  refine ⟨hbut, hleads, hother, broken, _, _, rfl, rfl, hload, hload', ?_, hlength, hle, hscanned,
    hsame⟩
  exact hwarns broken List.mem_cons_self rfl

end LocaleLint
