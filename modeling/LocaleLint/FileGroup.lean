import LocaleLint.Config.Resolve
import LocaleLint.FilePattern
import LocaleLint.Host
import LocaleLint.Loading

/-!
# File groups

The files of a target, found below a root by its patterns, and the batch of all documents
that they hold. A file that cannot be read is a document all the same, and says why.
-/

set_option autoImplicit false

namespace LocaleLint

/-- The files of a target, in order. -/
structure FileGroup where
  target : String
  paths : List RepoPath
deriving DecidableEq, Repr

variable {m : Type → Type} [Monad m] [Host m]

/-- The files below a root that a list of patterns selects. -/
def filesMatching (root : String) (patterns : List String) : ExceptT Failure m (List RepoPath) :=
  do
  let files ← ExceptT.lift (Host.filesBelow root)
  ExceptT.mk (pure (FilePattern.select (files.map RepoPath.ofString) patterns))

namespace FileGroup

/-- The files of a target below a root. -/
def discover (root : String) (target : Target) : ExceptT Failure m FileGroup :=
  duringStep ("expand target " ++ target.name) do
    let paths ← filesMatching root target.patterns
    pure ⟨target.name, paths⟩

end FileGroup

/-- The failure of a file that could not be read. -/
def LoadFailure.ofRead (path : String) (fault : FileFault) : LoadFailure where
  kind := .read
  message := "read " ++ path ++ ": " ++ fault.message

/-- Loads one document below a root. -/
def Document.load (root target : String) (path : RepoPath) : m Document := do
  let full := PathText.join root path.text
  match ← Host.read full with
  | .ok bytes => pure (Document.ofLoad path target (Document.decode bytes))
  | .error fault => pure (Document.ofLoad path target (.error (.ofRead full fault)))

/-- Loads the documents of file groups, group by group. -/
def Batch.load (root : String) (groups : List FileGroup) : m Batch := do
  let documents ← groups.mapM fun group => group.paths.mapM (Document.load root group.target)
  pure ⟨RepoPath.ofString root, groups.map (·.target), documents.flatten⟩

end LocaleLint
