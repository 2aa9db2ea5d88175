import LocaleLint.Failure
import LocaleLint.Glob.Matching
import LocaleLint.RepoPath

/-!
# File patterns

A list of patterns selects files in order: a pattern adds the files that its glob matches,
and a pattern with an exclamation mark removes them. Files keep the order in which they
were first added; the files of one pattern stand in the order of their paths.
-/

set_option autoImplicit false

namespace LocaleLint.FilePattern

/-- Whether a pattern removes files. -/
def isExclusion (pattern : String) : Bool :=
  pattern.toList.head? = some '!'

/-- The glob of a pattern, without the mark that turns it around. -/
def glob (pattern : String) : String :=
  match pattern.toList with
  | '!' :: rest => String.ofList rest
  | _ => pattern

/-- The pieces of a pattern's glob. The glob is written like a path before it is read. Every glob
that is read can be matched: the limits of a regular expression engine, which gives up on groups
that are nested very deeply, are left out. -/
def pieces (pattern : String) : Except Failure (List Glob.Piece) :=
  let text := (RepoPath.ofString (glob pattern)).text
  withStep ("compile pattern " ++ pattern)
    ((Glob.parse text).mapError fun fault => Cause.failure (.glob text fault))

/-- What a pattern makes of the files selected before it. -/
def apply (files selected : List RepoPath) (pattern : String) :
    Except Failure (List RepoPath) :=
  (pieces pattern).map fun pieces =>
    let isMatch := fun (path : RepoPath) => Glob.isMatch pieces path.text
    if isExclusion pattern then selected.filter fun path => !isMatch path
    else (selected ++ files.filter isMatch).eraseDups

/-- The files that a list of patterns selects. -/
def select (files : List RepoPath) (patterns : List String) : Except Failure (List RepoPath) :=
  patterns.foldlM (apply (files.mergeSort RepoPath.le)) []

end LocaleLint.FilePattern
