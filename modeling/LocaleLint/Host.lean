import LocaleLint.FileTree.Basic
import LocaleLint.Timestamp

/-!
# Hosts

What a run asks of the system it runs on: files, and the time. A file tree as state is a
host whose clock stands still, so that everything said about runs can be said about trees.
-/

set_option autoImplicit false

namespace LocaleLint

/-- The questions and orders that a run may put to its host. -/
class Host (m : Type → Type) where
  /-- The bytes of a file. -/
  read : String → m (Except FileFault (List UInt8))
  /-- Writes a file. -/
  write : String → List UInt8 → m (Except FileFault Unit)
  /-- Makes a directory in one that is there. -/
  makeDirectory : String → m (Except FileFault Unit)
  /-- Whether a path leads to a directory. -/
  isDirectory : String → m Bool
  /-- Whether a path leads anywhere. -/
  isPresent : String → m Bool
  /-- The path without links and dots. -/
  canonical? : String → m (Option String)
  /-- The files below a path, by their paths from there, in any order. -/
  filesBelow : String → m (List String)
  /-- The time. -/
  now : m Timestamp

namespace Host

variable {m : Type → Type} [Monad m] [Host m]

/-- The result of an attempt to make a directory: one that is there already will do. -/
def tolerate (path : String) (result : Except FileFault Unit) : m (Except FileFault Unit) := do
  match result with
  | .ok () => pure (.ok ())
  | .error fault => if ← Host.isDirectory path then pure (.ok ()) else pure (.error fault)

/-- Makes the first of some paths into a directory; the next ones are those around it, and
are made first where they are missing. They may bring the path itself about, if it leads back
to one of them. -/
def makeFirst : List String → m (Except FileFault Unit)
  | [] => pure (.ok ())
  | path :: around => do
    match ← Host.makeDirectory path with
    | .error .notFound =>
      match ← makeFirst around with
      | .ok () => tolerate path (← Host.makeDirectory path)
      | .error fault => pure (.error fault)
    | result => tolerate path result

/-- Makes a directory and those around it that are missing. -/
def makeDirectories (path : String) : m (Except FileFault Unit) :=
  makeFirst (PathText.ancestors path)

end Host

namespace FileTree

/-- A change that leaves the tree as it is when it fails. -/
def attempt (change : FileTree → Except FileFault FileTree) :
    StateM FileTree (Except FileFault Unit) := fun tree =>
  match change tree with
  | .ok changed => (.ok (), changed)
  | .error fault => (.error fault, tree)

instance : Host (StateM FileTree) where
  read path := return (← get).read path
  write path bytes := attempt fun tree => tree.write path bytes
  makeDirectory path := attempt fun tree => tree.makeDirectory path
  isDirectory path := return (← get).isDirectory path
  isPresent path := return (← get).isPresent path
  canonical? path := return (← get).canonical? path
  filesBelow path := return (← get).filesBelow path
  now := pure Timestamp.epoch

end FileTree

end LocaleLint
