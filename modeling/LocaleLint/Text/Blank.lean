/-!
# Blank characters

Three sets of blank characters meet in this library: the four blanks of markup,
the ASCII set that may surround a root element, and the Unicode property
`White_Space`. Texts are trimmed before they are judged by a fourth set, the
property with the byte order mark added and the next-line control left out.
Trimming by a set removes its members from both ends and nothing else.
-/

set_option autoImplicit false

namespace LocaleLint.Text

/-- The blanks of markup: space, tab, line feed and carriage return. -/
def isMarkupBlank (c : Char) : Bool :=
  c = ' ' || c = '\t' || c = '\n' || c = '\r'

/-- The ASCII blanks: those of markup and the form feed. -/
def isAsciiBlank (c : Char) : Bool :=
  isMarkupBlank c || c = '\x0c'

/-- The Unicode property `White_Space`. -/
def isSpace (c : Char) : Bool :=
  let n := c.toNat
  (0x09 ≤ n && n ≤ 0x0D) || n = 0x20 || n = 0x85 || n = 0xA0 || n = 0x1680 ||
    (0x2000 ≤ n && n ≤ 0x200A) || n = 0x2028 || n = 0x2029 || n = 0x202F ||
    n = 0x205F || n = 0x3000

/-- The byte order mark. -/
def byteOrderMark : Char := '\ufeff'

/-- What is cut from the ends of a text before it is judged: every space but the
next-line control, and the byte order mark. -/
def isMargin (c : Char) : Bool :=
  c = byteOrderMark || (isSpace c && c ≠ '\u0085')

/-- The characters of `s` without those of `p` at either end. -/
def trimList (p : Char → Bool) (s : List Char) : List Char :=
  ((s.dropWhile p).reverse.dropWhile p).reverse

/-- The text `s` without the characters of `p` at either end. -/
def trim (p : Char → Bool) (s : String) : String :=
  String.ofList (trimList p s.toList)

/-- Whether `s` has no character outside `p`. -/
def isAll (p : Char → Bool) (s : String) : Bool :=
  s.toList.all p

end LocaleLint.Text
