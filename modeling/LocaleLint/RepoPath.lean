/-!
# Repository paths

A path below the root of a repository, written with forward slashes and without
leading `./`. The empty path is written as one dot.
-/

set_option autoImplicit false

namespace LocaleLint

/-- A path as it is shown and compared. -/
structure RepoPath where
  text : String
deriving DecidableEq, Repr, Inhabited

namespace RepoPath

/-- Every backslash becomes a slash. -/
def slashed (c : Char) : Char :=
  if c = '\\' then '/' else c

/-- The characters `s` without any number of leading `./`. -/
def dropCurrent : List Char → List Char
  | '.' :: '/' :: rest => dropCurrent rest
  | s => s

/-- The path that the text `s` spells. -/
def ofString (s : String) : RepoPath :=
  let normal := String.ofList (dropCurrent (s.toList.map slashed))
  if normal.isEmpty then ⟨"."⟩ else ⟨normal⟩

/-- Paths are ordered by their text. -/
def le (a b : RepoPath) : Bool :=
  decide (a.text ≤ b.text)

end RepoPath

end LocaleLint
