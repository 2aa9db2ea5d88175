import LocaleLint.Document
import LocaleLint.Markup.Tree
import LocaleLint.Text.Utf8

/-!
# Loading documents

Turns the bytes of a document into its tree. Bytes that are not UTF-8 count as a
failure to read, and a text that is no document as a failure to parse, with its
place.
-/

set_option autoImplicit false

namespace LocaleLint

namespace LoadFailure

/-- The failure of bytes that are not UTF-8. -/
def ofEncoding (fault : Text.Utf8.Fault) : LoadFailure where
  kind := .read
  message := "document is not valid UTF-8: " ++ fault.message

/-- The failure of a text that is no document. -/
def ofParse (error : Markup.ParseError) : LoadFailure where
  kind := .parse
  message := error.message
  line := some error.position.line
  column := some error.position.column

end LoadFailure

namespace Document

/-- The tree that the bytes of a document spell, after one byte order mark is removed. -/
def decode (bytes : List UInt8) : Except LoadFailure Node :=
  match Text.Utf8.decode bytes with
  | .error fault => .error (.ofEncoding fault)
  | .ok text => (Markup.parseList (Markup.dropMark text)).mapError LoadFailure.ofParse

/-- The document of a target with the given tree or failure. -/
def ofLoad (path : RepoPath) (target : String) : Except LoadFailure Node → Document
  | .ok tree => { path := path, target := target, tree := tree }
  | .error failure => { path := path, target := target, failure := some failure }

end Document

end LocaleLint
