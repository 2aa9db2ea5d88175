/-!
# Glob patterns

The pieces of a glob, and how a text is read as pieces. A question mark stands for one
byte and an asterisk for any number of bytes of one path component; two asterisks that
fill a component stand for any number of components; brackets hold a class of
characters, and braces hold alternatives, which may nest. A backslash takes the special
meaning from the character after it.
-/

set_option autoImplicit false

namespace LocaleLint.Glob

/-- A piece of a glob. Two asterisks that fill a component match by where they stand: in
front of the others, between others, or behind them. -/
inductive Piece where
  | literal (c : Char)
  | anyByte
  | anyBytes
  | leading
  | between
  | trailing
  | charClass (negated : Bool) (ranges : List (Char × Char))
  | alternatives (branches : List (List Piece))
deriving BEq, Repr

/-- Why a text is no glob. -/
inductive Fault where
  | unclosedClass
  | invalidRange (first last : Char)
  | unopenedGroup
  | unclosedGroup
  | danglingEscape
deriving DecidableEq, Repr

/-- What is said about a fault. -/
def Fault.message : Fault → String
  | .unclosedClass => "unclosed character class; missing ']'"
  | .invalidRange first last =>
    "invalid range; '" ++ first.toString ++ "' > '" ++ last.toString ++ "'"
  | .unopenedGroup =>
    "unopened alternate group; missing '\x7b' (maybe escape '\x7d' with '[\x7d]'?)"
  | .unclosedGroup =>
    "unclosed alternate group; missing '\x7d' (maybe escape '\x7b' with '[\x7b]'?)"
  | .danglingEscape => "dangling '\\'"

/-- The members of a class so far, the latest first, and whether a hyphen waits for the end
of a range. -/
structure ClassReading where
  ranges : List (Char × Char) := []
  inRange : Bool := false
deriving DecidableEq, Repr

namespace ClassReading

/-- Adds a character: as the end of a range, or by itself. A later end replaces an earlier one. -/
def add (reading : ClassReading) (c : Char) : Except Fault ClassReading :=
  match reading.inRange, reading.ranges with
  | true, (first, _) :: rest =>
    if c < first then .error (.invalidRange first c) else .ok ⟨(first, c) :: rest, false⟩
  | _, ranges => .ok ⟨(c, c) :: ranges, false⟩

/-- The ranges in order; a hyphen that waits in vain is a member. -/
def finish (reading : ClassReading) : List (Char × Char) :=
  (if reading.inRange then ('-', '-') :: reading.ranges else reading.ranges).reverse

end ClassReading

/-- Reads the members of a class up to its closing bracket, which as the first character is
a member; a hyphen that is neither first nor last makes a range. -/
def readMembers (reading : ClassReading) :
    List Char → Except Fault (List (Char × Char) × List Char)
  | [] => .error .unclosedClass
  | c :: rest =>
    let first := reading.ranges.isEmpty
    if c = ']' ∧ !first then .ok (reading.finish, rest)
    else if c = '-' ∧ !first ∧ !reading.inRange then
      readMembers { reading with inRange := true } rest
    else
      match reading.add c with
      | .ok reading => readMembers reading rest
      | .error fault => .error fault

/-- Reads the class after its opening bracket. -/
def readClass (s : List Char) : Except Fault (Piece × List Char) :=
  let negated := s.head? = some '!' || s.head? = some '^'
  (readMembers {} (if negated then s.drop 1 else s)).map fun (ranges, rest) =>
    (.charClass negated ranges, rest)

/-- Reading the members of a class never lengthens what is left to read. -/
theorem length_le_of_readMembers {reading : ClassReading} {s rest : List Char}
    {ranges : List (Char × Char)} (h : readMembers reading s = .ok (ranges, rest)) :
    rest.length ≤ s.length := by
  induction s generalizing reading with
  | nil => simp [readMembers] at h
  | cons c s ih =>
    simp only [readMembers] at h
    split at h
    · cases h
      simp
    · split at h
      · have := ih h
        simp only [List.length_cons]
        omega
      · split at h
        · have := ih h
          simp only [List.length_cons]
          omega
        · cases h

/-- Reading a class, its brackets included, never lengthens what is left to read. -/
theorem length_le_of_readClass {s rest : List Char} {piece : Piece}
    (h : readClass s = .ok (piece, rest)) : rest.length ≤ s.length := by
  simp only [readClass, Except.map] at h
  split at h
  · cases h
  · next members hm =>
    obtain ⟨ranges, rest'⟩ := members
    simp only [Except.ok.injEq, Prod.mk.injEq] at h
    obtain ⟨_, rfl⟩ := h
    have := length_le_of_readMembers hm
    split at this
    · simp only [List.length_drop] at this
      omega
    · exact this

/-- What has been read of a glob: the pieces of the alternative being read and the finished
alternatives of its group, the latest first, and the same for every group around it. -/
structure Reading where
  pieces : List Piece := []
  branches : List (List Piece) := []
  outer : List (List Piece × List (List Piece)) := []
deriving BEq, Repr

namespace Reading

/-- Adds a piece. -/
def push (reading : Reading) (piece : Piece) : Reading :=
  { reading with pieces := piece :: reading.pieces }

/-- Whether a group is open. -/
def inGroup (reading : Reading) : Bool :=
  !reading.outer.isEmpty

/-- Opens a group. -/
def openGroup (reading : Reading) : Reading :=
  { outer := (reading.pieces, reading.branches) :: reading.outer }

/-- Starts the next alternative. -/
def nextBranch (reading : Reading) : Reading :=
  { reading with pieces := [], branches := reading.pieces.reverse :: reading.branches }

/-- Closes the innermost group. -/
def closeGroup (reading : Reading) : Except Fault Reading :=
  match reading.outer with
  | [] => .error .unopenedGroup
  | (pieces, branches) :: outer =>
    let group := (reading.pieces.reverse :: reading.branches).reverse
    .ok ⟨.alternatives group :: pieces, branches, outer⟩

/-- Puts two asterisks in place of the slash before them. After two asterisks that already
stand in front or behind, nothing is added. -/
def replaceSlash (reading : Reading) (piece : Piece) : Reading :=
  match reading.pieces with
  | .leading :: _ => reading
  | .trailing :: _ => reading
  | _ :: pieces => { reading with pieces := piece :: pieces }
  | [] => reading

/-- Whether two asterisks after the character `previous` start a component. -/
def startsComponent (reading : Reading) (previous : Option Char) : Bool :=
  previous = some '/' ||
    (reading.inGroup && (previous = some ',' || previous = some '{'))

/-- Two asterisks that are followed by a slash, which they take up. -/
def starsSlash (reading : Reading) (previous : Option Char) : Reading :=
  if reading.pieces.isEmpty then reading.push .leading
  else if reading.startsComponent previous then reading.replaceSlash .between
  else ((reading.push .anyBytes).push .anyBytes).push (.literal '/')

/-- Two asterisks that are followed by the character `next`, which is no slash, or by the end. -/
def stars (reading : Reading) (previous next : Option Char) : Reading :=
  if reading.pieces.isEmpty then
    if next.isNone then reading.push .leading
    else (reading.push .anyBytes).push .anyBytes
  else if reading.startsComponent previous &&
      (next.isNone || (reading.inGroup && (next = some ',' || next = some '}'))) then
    reading.replaceSlash .trailing
  else (reading.push .anyBytes).push .anyBytes

end Reading

/-- Reads the pieces of `s`, which stands after the character `previous`. -/
def readFrom (previous : Option Char) (reading : Reading) (s : List Char) :
    Except Fault (List Piece) :=
  match s with
  | [] => if reading.inGroup then .error .unclosedGroup else .ok reading.pieces.reverse
  | '*' :: '*' :: '/' :: rest => readFrom (some '/') (reading.starsSlash previous) rest
  | '*' :: '*' :: rest => readFrom (some '*') (reading.stars previous rest.head?) rest
  | '\\' :: [] => .error .danglingEscape
  | '\\' :: c :: rest => readFrom (some c) (reading.push (.literal c)) rest
  | c :: rest =>
    if c = '[' then
      match _h : readClass rest with
      | .ok (piece, rest) => readFrom (some ']') (reading.push piece) rest
      | .error fault => .error fault
    else if c = '}' then
      match reading.closeGroup with
      | .ok reading => readFrom (some c) reading rest
      | .error fault => .error fault
    else
      let next :=
        if c = '?' then reading.push .anyByte
        else if c = '*' then reading.push .anyBytes
        else if c = '{' then reading.openGroup
        else if c = ',' ∧ reading.inGroup then reading.nextBranch
        else reading.push (.literal c)
      readFrom (some c) next rest
termination_by s.length
decreasing_by
  all_goals simp only [List.length_cons]
  all_goals try omega
  have := length_le_of_readClass _h
  omega

/-- The pieces of the glob that a text spells. Groups may be nested to any depth: the limits that a
regular expression engine sets, and its panic past them, are left out. -/
def parse (text : String) : Except Fault (List Piece) :=
  readFrom none {} text.toList

/-- Whether a text is a glob. -/
def isValid (text : String) : Bool :=
  (parse text).toOption.isSome

end LocaleLint.Glob
