import LocaleLint.Glob.Pattern

/-!
# Matching globs

A glob is matched against the bytes of a path, and has to match all of them. Matching a
piece gives every rest of the path that can be left after it, so a glob is matched piece
by piece without a choice between them. Only two asterisks, classes and literal slashes
match a slash.
-/

set_option autoImplicit false

namespace LocaleLint.Glob

/-- The byte of a slash. -/
def slash : UInt8 := 0x2F

/-- The UTF-8 form of a character. -/
def bytesOf (c : Char) : List UInt8 :=
  c.toString.toUTF8.toList

/-- Whether a byte is a member of a range of characters: the range runs from the last byte
of its first member to the first byte of its last one, and their other bytes are members. -/
def inRange (b : UInt8) (range : Char × Char) : Bool :=
  let first := bytesOf range.1
  let last := bytesOf range.2
  if range.1 = range.2 then first.contains b
  else
    first.contains b || last.contains b ||
      (first.getLast?.any (· ≤ b) && last.head?.any (b ≤ ·))

/-- Every end of a text, itself and the empty one included. -/
def tails : List UInt8 → List (List UInt8)
  | [] => [[]]
  | b :: rest => (b :: rest) :: tails rest

/-- Every end of a text that is left after bytes that are no slash. -/
def tailsInComponent : List UInt8 → List (List UInt8)
  | [] => [[]]
  | b :: rest => (b :: rest) :: if b = slash then [] else tailsInComponent rest

/-- Every end of a text that stands after a slash. -/
def tailsAfterSlash : List UInt8 → List (List UInt8)
  | [] => []
  | b :: rest => if b = slash then rest :: tailsAfterSlash rest else tailsAfterSlash rest

/-- The rests without repetition. All are ends of one text, so their lengths tell them apart. -/
def distinct (rests : List (List UInt8)) : List (List UInt8) :=
  (rests.foldl
    (fun (kept : List (Nat × List UInt8)) rest =>
      let n := rest.length
      if kept.any (·.1 = n) then kept else (n, rest) :: kept)
    []).reverse.map (·.2)

/-- What is left of a text after given bytes, if it starts with them. -/
def afterBytes (bytes s : List UInt8) : List (List UInt8) :=
  if bytes.isPrefixOf s then [s.drop bytes.length] else []

mutual

/-- Whether a piece is a group without any alternative that counts. -/
def Piece.isVacuous : Piece → Bool
  | .alternatives branches => areVacuous branches
  | _ => false

/-- Whether all pieces of an alternative are such groups. -/
def isVacuousBranch : List Piece → Bool
  | [] => true
  | piece :: rest => piece.isVacuous && isVacuousBranch rest

/-- Whether all alternatives are empty in that sense. -/
def areVacuous : List (List Piece) → Bool
  | [] => true
  | branch :: rest => isVacuousBranch branch && areVacuous rest

end

mutual

/-- The rests of a text that can be left after a piece. -/
def Piece.rests (s : List UInt8) : Piece → List (List UInt8)
  | .literal c => afterBytes (bytesOf c) s
  | .anyByte =>
    match s with
    | b :: rest => if b = slash then [] else [rest]
    | [] => []
  | .anyBytes => tailsInComponent s
  | .leading => s :: tailsAfterSlash s
  | .between =>
    match s with
    | b :: rest => if b = slash then rest :: tailsAfterSlash rest else []
    | [] => []
  | .trailing =>
    match s with
    | b :: rest => if b = slash then tails rest else []
    | [] => []
  | .charClass negated ranges =>
    match s with
    | b :: rest => if ranges.any (inRange b) != negated then [rest] else []
    | [] => []
  | .alternatives branches => if areVacuous branches then [s] else branchRests s branches

/-- The rests of a text that can be left after one of the alternatives that count. -/
def branchRests (s : List UInt8) : List (List Piece) → List (List UInt8)
  | [] => []
  | branch :: rest =>
    (if isVacuousBranch branch then [] else pieceRests [s] branch) ++ branchRests s rest

/-- The rests that can be left after a list of pieces, from each of the given texts. -/
def pieceRests (texts : List (List UInt8)) : List Piece → List (List UInt8)
  | [] => texts
  | piece :: rest => pieceRests (distinct (texts.flatMap fun s => piece.rests s)) rest

end

/-- Whether the glob of the given pieces matches a whole text. Two asterisks alone match
every text. -/
def isMatch (pieces : List Piece) (text : String) : Bool :=
  match pieces with
  | [.leading] => true
  | pieces => (pieceRests [text.toUTF8.toList] pieces).any List.isEmpty

end LocaleLint.Glob
