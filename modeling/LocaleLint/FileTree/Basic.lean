import LocaleLint.FileTree.Fault
import LocaleLint.FileTree.PathText

/-!
# File trees

Files, directories and symbolic links as a value. Every entry is kept under its place, the
components from the root on; the root itself is always a directory. A path leads to a place
by steps, on which links are followed and every directory passed through has to be there.
-/

set_option autoImplicit false

namespace LocaleLint

/-- What stands at a place. -/
inductive FileEntry where
  | file (bytes : List UInt8)
  | directory
  | link (target : String)
deriving DecidableEq, Repr

/-- A place: the components from the root on. -/
abbrev Place : Type := List String

/-- The entries of a tree by their places, and the place where relative paths start. -/
structure FileTree where
  entries : List (Place × FileEntry) := []
  workingDirectory : Place := []
deriving DecidableEq, Repr

namespace FileTree

/-- What stands at a place, if anything does. -/
def entry? (tree : FileTree) (place : Place) : Option FileEntry :=
  if place.isEmpty then some .directory else tree.entries.lookup place

/-- Entries with one more, in place of what stood there. -/
def putEntry (place : Place) (entry : FileEntry) :
    List (Place × FileEntry) → List (Place × FileEntry)
  | [] => [(place, entry)]
  | other :: rest =>
    if other.1 = place then (place, entry) :: rest else other :: putEntry place entry rest

/-- The tree with an entry at a place. -/
def put (tree : FileTree) (place : Place) (entry : FileEntry) : FileTree :=
  { tree with entries := putEntry place entry tree.entries }

/-! ## Finding places -/

/-- Where a path leads: to an entry, or to a free place in a directory. -/
inductive Destination where
  | found (place : Place) (entry : FileEntry)
  | free (place : Place)
deriving DecidableEq, Repr

/-- The longest name of an entry, in bytes. -/
def nameLimit : Nat := 255

/-- The longest path, in bytes. -/
def pathLimit : Nat := 4095

/-- The greatest number of links that are followed on the way to a place. -/
def linkLimit : Nat := 40

/-- The place from which a path leads on, given the directory in which it is met. -/
def start (directory : Place) (path : String) : Place :=
  if PathText.isAbsolute path then [] else directory

/-- Takes steps from a place. At most `links` links are followed; a link that the last step
leads to is followed only if `follow` says so. -/
def walk (tree : FileTree) (follow : Bool) (links : Nat) (place : Place) (steps : List String) :
    Except FileFault Destination :=
  match steps with
  | [] =>
    match tree.entry? place with
    | some entry => .ok (.found place entry)
    | none => .ok (.free place)
  | step :: rest =>
    match tree.entry? place with
    | none => .error .notFound
    | some .directory =>
      if step = "." then walk tree follow links place rest
      else if step = ".." then walk tree follow links place.dropLast rest
      else if nameLimit < step.utf8ByteSize then .error .nameTooLong
      else
        let next := place ++ [step]
        match tree.entry? next with
        | none => if rest.isEmpty then .ok (.free next) else .error .notFound
        | some (.link target) =>
          if rest.isEmpty && !follow then .ok (.found next (.link target))
          else
            match links with
            | 0 => .error .linkLoop
            | links + 1 =>
              walk tree follow links (start place target) (PathText.steps target ++ rest)
        | some _ => walk tree follow links next rest
    | some _ => .error .notDirectory
termination_by (links, steps.length)

/-- Whether a path can be asked about at all. -/
def checkPath (path : String) : Except FileFault Unit :=
  if path.toList.contains '\x00' then .error .nullInPath
  else if path.isEmpty then .error .notFound
  else if pathLimit < path.utf8ByteSize then .error .nameTooLong
  else .ok ()

/-- Takes the given steps along a path. -/
def locateSteps (tree : FileTree) (follow : Bool) (path : String) (steps : List String) :
    Except FileFault Destination := do
  checkPath path
  tree.walk follow linkLimit (start tree.workingDirectory path) steps

/-- Where a path leads. -/
def locate (tree : FileTree) (follow : Bool) (path : String) : Except FileFault Destination :=
  tree.locateSteps follow path (PathText.steps path)

/-! ## Asking -/

/-- Whether a path leads to an entry. -/
def isPresent (tree : FileTree) (path : String) : Bool :=
  match tree.locate true path with
  | .ok (.found _ _) => true
  | _ => false

/-- Whether a path leads to a directory. -/
def isDirectory (tree : FileTree) (path : String) : Bool :=
  match tree.locate true path with
  | .ok (.found _ .directory) => true
  | _ => false

/-- The path of a place. -/
def pathOf (place : Place) : String :=
  "/" ++ "/".intercalate place

/-- The path without links and dots to what a path leads to. -/
def canonical? (tree : FileTree) (path : String) : Option String :=
  match tree.locate true path with
  | .ok (.found place _) => some (pathOf place)
  | _ => none

/-- The bytes of the file that a path leads to. -/
def read (tree : FileTree) (path : String) : Except FileFault (List UInt8) := do
  match ← tree.locate true path with
  | .found _ (.file bytes) => pure bytes
  | .found _ .directory => throw .isDirectory
  | .found _ (.link _) => throw .linkLoop
  | .free _ => throw .notFound

/-- The files below a place, by their paths from there. Links are passed over. -/
def filesBelowPlace (tree : FileTree) (place : Place) : List String :=
  tree.entries.filterMap fun (other, entry) =>
    match entry with
    | .file _ =>
      if place.isPrefixOf other then some ("/".intercalate (other.drop place.length)) else none
    | _ => none

/-- The files below a path, by their paths from there. A file is below itself, by the empty
path. A link is followed only to a directory. -/
def filesBelow (tree : FileTree) (path : String) : List String :=
  match tree.locate false path with
  | .ok (.found _ (.link _)) =>
    match tree.locate true path with
    | .ok (.found place .directory) => tree.filesBelowPlace place
    | _ => []
  | .ok (.found place _) => tree.filesBelowPlace place
  | _ => []

/-! ## Changing -/

/-- Steps without those that a slash at the end adds. -/
def stepsToName (path : String) : List String :=
  if PathText.endsInSlash path then (PathText.steps path).dropLast else PathText.steps path

/-- Makes a directory at a free place. -/
def makeDirectory (tree : FileTree) (path : String) : Except FileFault FileTree := do
  match ← tree.locateSteps false path (stepsToName path) with
  | .found _ _ => throw .alreadyExists
  | .free place => pure (tree.put place .directory)

/-- Makes a link at a free place. -/
def makeLink (tree : FileTree) (path target : String) : Except FileFault FileTree := do
  match ← tree.locateSteps false path (stepsToName path) with
  | .found _ _ => throw .alreadyExists
  | .free place => pure (tree.put place (.link target))

/-- Writes a file, in place of one that is there. What a slash at the end asks for cannot be
written. -/
def write (tree : FileTree) (path : String) (bytes : List UInt8) :
    Except FileFault FileTree := do
  if PathText.endsInSlash path then
    match ← tree.locateSteps true path (stepsToName path).dropLast with
    | .found _ .directory => throw .isDirectory
    | .found _ _ => throw .notDirectory
    | .free _ => throw .notFound
  else
    match ← tree.locate true path with
    | .found place (.file _) => pure (tree.put place (.file bytes))
    | .found _ .directory => throw .isDirectory
    | .found _ (.link _) => throw .linkLoop
    | .free place => pure (tree.put place (.file bytes))

end FileTree

end LocaleLint
