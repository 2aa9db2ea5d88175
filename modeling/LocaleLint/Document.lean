import LocaleLint.Count
import LocaleLint.RepoPath
import LocaleLint.Node

/-!
# Documents and batches

A batch is what one run looks at: the documents of every target, in the order in
which they were found. A document that could not be loaded says why and has the
empty tree.
-/

set_option autoImplicit false

namespace LocaleLint

/-- Whether a document could not be read, or not be parsed. -/
inductive LoadFailureKind
  | read
  | parse
deriving DecidableEq, Repr

/-- Why a document has no tree, and where its fault is, if that is known. -/
structure LoadFailure where
  kind : LoadFailureKind
  message : String
  line : Option Count := none
  column : Option Count := none
deriving DecidableEq, Repr

/-- One document of a target. -/
structure Document where
  path : RepoPath
  target : String
  tree : Node := .null
  failure : Option LoadFailure := none
deriving BEq, Repr

/-- Every document of a run, with the names of the targets. -/
structure Batch where
  root : RepoPath
  targets : List String
  documents : List Document
deriving BEq, Repr

end LocaleLint
