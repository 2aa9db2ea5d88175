/-!
# Path texts

How a path is written: components with slashes between them, an absolute path with a slash
in front. Repeated slashes, slashes at the end and single dots add nothing to a path, apart
from a single dot in front.
-/

set_option autoImplicit false

namespace LocaleLint.PathText

/-- Whether a path starts at the root. -/
def isAbsolute (path : String) : Bool :=
  path.toList.head? = some '/'

/-- Whether a path ends in a slash, so that it can only be a directory. -/
def endsInSlash (path : String) : Bool :=
  path.toList.getLast? = some '/'

/-- A path below another. An absolute path stands for itself. -/
def join (base path : String) : String :=
  if isAbsolute path || base.isEmpty then path
  else if endsInSlash base then base ++ path
  else base ++ "/" ++ path

/-- A path, read from its end, without the slashes and single dots that it ends in. -/
def dropVain : List Char → List Char
  | ['/'] => ['/']
  | '/' :: rest => dropVain rest
  | '.' :: '/' :: rest => dropVain ('/' :: rest)
  | s => s
termination_by s => s.length

/-- The path of the directory around a path. The root and the empty path have none. -/
def parent? (path : String) : Option String :=
  match dropVain path.toList.reverse with
  | [] => none
  | ['/'] => none
  | s => some (String.ofList (dropVain (s.dropWhile (· ≠ '/'))).reverse)

/-- At most `n` of a path and the paths around it, the longest first. -/
def ancestorsWithin : Nat → String → List String
  | 0, _ => []
  | n + 1, path =>
    match parent? path with
    | none => []
    | some parent => path :: ancestorsWithin n parent

/-- A path and the paths around it but for the root, the longest first. -/
def ancestors (path : String) : List String :=
  ancestorsWithin path.length path

/-- The parts of a text between slashes; `part` holds what stands before `s`, from its end. -/
def splitFrom (part : List Char) : List Char → List (List Char)
  | [] => [part.reverse]
  | c :: rest => if c = '/' then part.reverse :: splitFrom [] rest else splitFrom (c :: part) rest

/-- The steps to take along a path: its components, dots included. A slash at the end asks
for a directory, which is a step to where one is. -/
def steps (path : String) : List String :=
  ((splitFrom [] path.toList).filter (!·.isEmpty)).map String.ofList ++
    if endsInSlash path then ["."] else []

end LocaleLint.PathText
