import LocaleLint.FileGroup
import LocaleLint.Proofs.Except
import Mathlib.Data.List.Forall2

/-!
# What is loaded

Loading asks for the files of groups one by one, and makes one document of each listed path from
the answer alone (`run_load_of_reads`, `run_loadBatch_of_reads`). No answer stops it: a file that
cannot be read, is not UTF-8 or does not parse makes a document that says so and has no tree
(`Document.LoadedFrom`).
-/

set_option autoImplicit false

namespace LocaleLint

/-- Whether the answer to a question for a file makes no document: the file was not read, it is not
UTF-8, or it does not parse. -/
inductive Unloadable : Except FileFault (List UInt8) → Prop
  | notRead (fault : FileFault) : Unloadable (.error fault)
  | notText {bytes : List UInt8} {fault : Text.Utf8.Fault} :
      Text.Utf8.decode bytes = .error fault → Unloadable (.ok bytes)
  | notParsed {bytes : List UInt8} {text : List Char} {error : Markup.ParseError} :
      Text.Utf8.decode bytes = .ok text →
      Markup.parseList (Markup.dropMark text) = .error error → Unloadable (.ok bytes)

namespace Document

/-- What is loaded for a path below a root, by the answer to the question for its file. -/
def loaded (root : String) (path : RepoPath) :
    Except FileFault (List UInt8) → Except LoadFailure Node
  | .ok bytes => decode bytes
  | .error fault => .error (.ofRead (PathText.join root path.text) fault)

/-- The document of a path below a root, by the answer to the question for its file. -/
def ofAnswer (root target : String) (path : RepoPath)
    (answer : Except FileFault (List UInt8)) : Document :=
  ofLoad path target (loaded root path answer)

/-- A file fails to load for no other reason than that it is not read, not UTF-8 or not parsed. -/
theorem exists_loaded_eq_error_iff {root : String} {path : RepoPath}
    {answer : Except FileFault (List UInt8)} :
    (∃ failure, loaded root path answer = .error failure) ↔ Unloadable answer := by
  constructor
  · rintro ⟨failure, hfailure⟩
    cases answer with
    | error fault => exact .notRead fault
    | ok bytes =>
      rw [loaded, decode] at hfailure
      cases hdecode : Text.Utf8.decode bytes with
      | error fault => exact .notText hdecode
      | ok text =>
        cases hparse : Markup.parseList (Markup.dropMark text) with
        | error error => exact .notParsed hdecode hparse
        | ok tree =>
          simp only [hdecode, hparse] at hfailure
          cases hfailure
  · rintro (fault | hdecode | ⟨hdecode, hparse⟩)
    · exact ⟨_, rfl⟩
    · rw [loaded, decode, hdecode]
      exact ⟨_, rfl⟩
    · rw [loaded, decode, hdecode]
      simp only [hparse]
      exact ⟨_, rfl⟩

/-- A document is kept under the path from which it is loaded, even if it cannot be. -/
theorem path_ofLoad (path : RepoPath) (target : String) (loaded : Except LoadFailure Node) :
    (ofLoad path target loaded).path = path := by
  cases loaded <;> rfl

/-- A document is kept for the target for which it is loaded, even if it cannot be. -/
theorem target_ofLoad (path : RepoPath) (target : String) (loaded : Except LoadFailure Node) :
    (ofLoad path target loaded).target = target := by
  cases loaded <;> rfl

/-- A document holds a failure exactly if it could not be loaded. -/
theorem isSome_failure_ofLoad_iff (path : RepoPath) (target : String)
    (loaded : Except LoadFailure Node) :
    (ofLoad path target loaded).failure.isSome = true ↔ ∃ failure, loaded = .error failure := by
  cases loaded with
  | ok tree => simp [ofLoad]
  | error failure => simp [ofLoad]

/-- A document that says why it was not loaded has no tree. -/
theorem tree_ofLoad_of_failure {path : RepoPath} {target : String}
    {loaded : Except LoadFailure Node}
    (h : (ofLoad path target loaded).failure.isSome = true) :
    (ofLoad path target loaded).tree = .null := by
  obtain ⟨failure, rfl⟩ := (isSome_failure_ofLoad_iff path target loaded).1 h
  rfl

/-- What is known of the document that is loaded from a listed path, for files of which `files`
tells how they are read. -/
structure LoadedFrom (files : String → Except FileFault (List UInt8)) (root : String)
    (listed : String × RepoPath) (document : Document) : Prop where
  target : document.target = listed.1
  path : document.path = listed.2
  isSome_iff : document.failure.isSome = true ↔
    Unloadable (files (PathText.join root listed.2.text))
  tree : document.failure.isSome = true → document.tree = .null
  decoded : ∀ bytes tree, files (PathText.join root listed.2.text) = .ok bytes →
    decode bytes = .ok tree → document.tree = tree

/-- What is made of the answer to a read is loaded from the file. -/
theorem loadedFrom_ofAnswer (files : String → Except FileFault (List UInt8))
    (root target : String) (path : RepoPath) :
    LoadedFrom files root (target, path)
      (ofAnswer root target path (files (PathText.join root path.text))) where
  target := target_ofLoad path target _
  path := path_ofLoad path target _
  isSome_iff := (isSome_failure_ofLoad_iff path target _).trans exists_loaded_eq_error_iff
  tree := tree_ofLoad_of_failure
  decoded := by
    intro bytes tree hbytes htree
    rw [hbytes, ofAnswer, loaded, htree]
    rfl

end Document

/-! ## Runs -/

section

variable {σ : Type} [Host (StateM σ)] {state : σ} {files : String → Except FileFault (List UInt8)}
  (hread : ∀ path, (Host.read path : StateM σ (Except FileFault (List UInt8))).run state =
    (files path, state))

include hread

/-- Loading a document asks for its file once. -/
theorem run_load_of_reads (root target : String) (path : RepoPath) :
    (Document.load root target path : StateM σ Document).run state =
      (Document.ofAnswer root target path (files (PathText.join root path.text)), state) := by
  rw [Document.load, run_bind, hread]
  cases files (PathText.join root path.text) with
  | ok bytes => rfl
  | error fault => rfl

/-- Loading makes one document of each listed path, group by group. -/
theorem run_loadBatch_of_reads (root : String) (groups : List FileGroup) :
    (Batch.load root groups : StateM σ Batch).run state =
      (⟨RepoPath.ofString root, groups.map (·.target),
        groups.flatMap fun group => group.paths.map fun path =>
          Document.ofAnswer root group.target path (files (PathText.join root path.text))⟩,
        state) := by
  have hgroup (group : FileGroup) :
      (group.paths.mapM (Document.load root group.target) : StateM σ (List Document)).run state =
        (group.paths.map fun path =>
          Document.ofAnswer root group.target path (files (PathText.join root path.text)),
          state) :=
    run_mapM (run_load_of_reads hread root group.target) group.paths
  rw [Batch.load, run_bind, run_mapM hgroup, List.flatMap_def]
  rfl

end

namespace FileGroup

/-- The paths of groups with their targets, group by group. -/
def listed (groups : List FileGroup) : List (String × RepoPath) :=
  groups.flatMap fun group => group.paths.map fun path => (group.target, path)

/-- What is made of each listed path in two ways is related, in order. -/
theorem forall₂_flatMap {α β : Type} {related : α → β → Prop} {first : String → RepoPath → α}
    {second : String → RepoPath → β}
    (h : ∀ target path, related (first target path) (second target path))
    (groups : List FileGroup) :
    List.Forall₂ related (groups.flatMap fun group => group.paths.map (first group.target))
      (groups.flatMap fun group => group.paths.map (second group.target)) := by
  induction groups with
  | nil => exact .nil
  | cons group rest ih =>
    rw [List.flatMap_cons, List.flatMap_cons]
    refine List.rel_append ?_ ih
    rw [List.forall₂_map_left_iff, List.forall₂_map_right_iff, List.forall₂_same]
    intro path _
    exact h group.target path

/-- One document is loaded from each listed path, in the same order. -/
theorem forall₂_loadedFrom (files : String → Except FileFault (List UInt8)) (root : String)
    (groups : List FileGroup) :
    List.Forall₂ (Document.LoadedFrom files root) (listed groups)
      (groups.flatMap fun group => group.paths.map fun path =>
        Document.ofAnswer root group.target path (files (PathText.join root path.text))) :=
  forall₂_flatMap (Document.loadedFrom_ofAnswer files root) groups

end FileGroup

end LocaleLint
