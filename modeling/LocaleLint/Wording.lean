/-!
# Wording

Decides whether a text holds literal natural-language copy. A text is legal when
nothing with a letter is left after peeling characters that are not letters, and
space markers, from both ends, or when what is left is a placeholder expression.
Only ASCII letters count as letters.
-/

set_option autoImplicit false

namespace LocaleLint.Wording

/-- An ASCII letter. -/
def isLetter (c : Char) : Bool :=
  ('a' ≤ c && c ≤ 'z') || ('A' ≤ c && c ≤ 'Z')

/-- The marker that a template writes for a non-breaking space. -/
def spaceMarker : List Char := ['$', '[', 'S', 'P', ']']

/-- How an interpolation starts. -/
def interpolationStart : List Char := ['$', '{']

/-- How a placeholder starts. -/
def placeholderStart : List Char := ['{', '{']

/-- How a placeholder ends. -/
def placeholderEnd : List Char := ['}', '}']

/-- Whether `t` starts a placeholder or an interpolation. -/
def opensExpression (t : List Char) : Bool :=
  placeholderStart.isPrefixOf t || interpolationStart.isPrefixOf t

/-- What one look at the remainder of a text decides. -/
inductive Look
  | legal
  | literal
  | peeled (rest : List Char)
deriving DecidableEq, Repr

/-- One look at a remainder. The rules stand in the order in which they apply:
a remainder without letters and a whole expression are legal; then a marker is
peeled from the front, a marker from the back, a character from the front and a
character from the back; a remainder that nothing peels is literal copy. -/
def look (t : List Char) : Look :=
  if !t.any isLetter then .legal
  else if placeholderStart.isPrefixOf t && placeholderEnd.isSuffixOf t then .legal
  else if interpolationStart.isPrefixOf t then .legal
  else if spaceMarker.isPrefixOf t then .peeled (t.drop spaceMarker.length)
  else if spaceMarker.isSuffixOf t then .peeled (t.take (t.length - spaceMarker.length))
  else if !t.head?.any isLetter && !opensExpression t then .peeled (t.drop 1)
  else if !t.getLast?.any isLetter && !placeholderEnd.isSuffixOf t then .peeled t.dropLast
  else .literal

/-- A remainder that is peeled gets shorter. -/
theorem length_lt_of_look {t rest : List Char} (h : look t = .peeled rest) :
    rest.length < t.length := by
  have ht : t ≠ [] := by
    intro ht
    simp [ht, look] at h
  have hpos : 0 < t.length := List.length_pos_iff.2 ht
  simp only [look] at h
  repeat' split at h
  all_goals cases h
  all_goals simp only [List.length_drop, List.length_take, List.length_dropLast, spaceMarker,
    List.length_cons, List.length_nil]
  all_goals omega

/-- Whether the characters `t` hold no literal copy. -/
def isLegalList (t : List Char) : Bool :=
  match _h : look t with
  | .legal => true
  | .literal => false
  | .peeled rest => isLegalList rest
termination_by t.length
decreasing_by exact length_lt_of_look _h

/-- Whether the text `t` holds no literal copy. -/
def isLegal (t : String) : Bool :=
  isLegalList t.toList

end LocaleLint.Wording
