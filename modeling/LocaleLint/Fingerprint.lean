import LocaleLint.Finding
import LocaleLint.Entries
import LocaleLint.Digest.Sha256

/-!
# Fingerprints

A finding about literal text is known again in later runs by a digest of its
identity: its check and code, the document, the text, and how many equal texts
of the same document come before it.
-/

set_option autoImplicit false

namespace LocaleLint

/-- What identifies a literal text: its document, itself, and the number of equal
texts of the document before it. -/
structure TextIdentity where
  path : RepoPath
  text : String
  occurrence : Nat
deriving DecidableEq, Repr

namespace TextIdentity

/-- The text whose digest is the fingerprint: the fields joined by bars. -/
def canonical (identity : TextIdentity) : String :=
  "|".intercalate [CheckId.untranslatedText, Code.literalText, identity.path.text,
    identity.text, toString identity.occurrence]

/-- The fingerprint of the text. -/
def fingerprint (identity : TextIdentity) : String :=
  Digest.sha256Hex identity.canonical

/-- The identities of the texts of one document, in order; `seen` counts the texts that come
before them. -/
def ofTextsAfter (path : RepoPath) (seen : List (String × Nat)) : List String → List TextIdentity
  | [] => []
  | text :: rest =>
    let occurrence := (Entries.get? seen text).getD 0
    ⟨path, text, occurrence⟩ :: ofTextsAfter path (Entries.put seen text (occurrence + 1)) rest

/-- The identities of the texts of the document `path`, in order. -/
def ofTexts (path : RepoPath) (texts : List String) : List TextIdentity :=
  ofTextsAfter path [] texts

end TextIdentity

end LocaleLint
