/-!
# File faults

Why an operation on files fails, with the words and the number of the system.
-/

set_option autoImplicit false

namespace LocaleLint

/-- Why an operation on files fails. A text that is not UTF-8 and a path with a null
character are found before the system is asked. -/
inductive FileFault where
  | notFound
  | permissionDenied
  | alreadyExists
  | notDirectory
  | isDirectory
  | nameTooLong
  | linkLoop
  | notText
  | nullInPath
  | other (text : String)
deriving DecidableEq, Repr

namespace FileFault

/-- What is said about a fault. -/
def message : FileFault → String
  | .notFound => "No such file or directory (os error 2)"
  | .permissionDenied => "Permission denied (os error 13)"
  | .alreadyExists => "File exists (os error 17)"
  | .notDirectory => "Not a directory (os error 20)"
  | .isDirectory => "Is a directory (os error 21)"
  | .nameTooLong => "File name too long (os error 36)"
  | .linkLoop => "Too many levels of symbolic links (os error 40)"
  | .notText => "stream did not contain valid UTF-8"
  | .nullInPath => "file name contained an unexpected NUL byte"
  | .other text => text

end FileFault

end LocaleLint
