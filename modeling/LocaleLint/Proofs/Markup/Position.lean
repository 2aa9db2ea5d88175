import LocaleLint.Markup.Position
import LocaleLint.Text.Length
import Mathlib.Algebra.Group.Nat.Defs
import Mathlib.Data.List.DropRight
import Mathlib.Data.Prod.Lex

/-!
# Lines and columns as coordinates

A place is what a walk over the characters in front of an offset comes to, so it depends on those
characters alone (`ofOffset_eq`), and it is a fold of one step, `advance`. Counting the bytes in
front of the offset gives the same place, since just one byte of each character starts it and no
other byte is that of a break (`ofOffset_eq_of_bytes`). Each step leads further on in the order in
which a text is read (`lt_advance`), so what has more characters in front of it comes later
(`behind_lt_behind`). The same walk, followed line by line, never leaves the line that it is in
(`exists_line_of_foldl`). The main result is `coordinates`: in a text whose characters can be
counted, every character has a place of its own, places stand in the order of the characters, and
every place is in the text.
-/

set_option autoImplicit false

namespace LocaleLint.Markup.Position

open Text (byteLength)

/-- The characters of a text that start before a byte offset. -/
def passed : Nat → List Char → List Char
  | _, [] => []
  | offset, c :: rest => if offset = 0 then [] else c :: passed (offset - c.utf8Size) rest

/-- The line and the column behind one more character. -/
def advance (place : Nat × Nat) (c : Char) : Nat × Nat :=
  if c = '\n' then (place.1 + 1, 1) else (place.1, place.2 + 1)

/-- The line and the column behind a text. -/
def behind (text : List Char) : Nat × Nat :=
  text.foldl advance (1, 1)

/-- Whether a byte is the first one of a character: the others have the bits `10` in front. -/
def startsCharacter (b : UInt8) : Bool :=
  b &&& 0xC0 != 0x80

/-- The line and the column behind one more byte. -/
def advanceByte (place : Nat × Nat) (b : UInt8) : Nat × Nat :=
  if b = 0x0A then (place.1 + 1, 1)
  else if startsCharacter b then (place.1, place.2 + 1)
  else place

/-- Whether a character of the text starts at the byte offset, or the text ends there. -/
def IsBoundary (text : List Char) (offset : Nat) : Prop :=
  ∃ front, front <+: text ∧ byteLength front = offset

/-- A position in the order of reading: by lines, and by columns within a line. -/
def key (position : Position) : ℕ ×ₗ ℕ :=
  toLex (position.line.val, position.column.val)

/-! ## What is in front of an offset -/

/-- Nothing is in front of the start. -/
theorem passed_zero (text : List Char) : passed 0 text = [] := by
  cases text <;> rfl

/-- The first character is in front of every other offset. -/
theorem passed_cons {offset : Nat} (h : offset ≠ 0) (c : Char) (rest : List Char) :
    passed offset (c :: rest) = c :: passed (offset - c.utf8Size) rest :=
  if_neg h

/-- What is in front of an offset is a front of the text. -/
theorem prefix_passed (offset : Nat) (text : List Char) : passed offset text <+: text := by
  induction text generalizing offset with
  | nil => exact List.nil_prefix
  | cons c rest ih =>
    by_cases h : offset = 0
    · rw [h, passed_zero]
      exact List.nil_prefix
    · rw [passed_cons h]
      exact List.cons_prefix_cons.2 ⟨rfl, ih _⟩

/-- What follows an offset is not in front of it. -/
theorem passed_append {offset : Nat} {s : List Char} (h : offset ≤ byteLength s)
    (more : List Char) : passed offset (s ++ more) = passed offset s := by
  induction s generalizing offset with
  | nil =>
    obtain rfl : offset = 0 := Nat.le_zero.1 h
    rw [passed_zero, passed_zero]
  | cons c s ih =>
    by_cases hzero : offset = 0
    · rw [hzero, passed_zero, passed_zero]
    · have hrest : offset - c.utf8Size ≤ byteLength s := by
        rw [Text.byteLength_cons] at h
        omega
      rw [List.cons_append, passed_cons hzero, passed_cons hzero, ih hrest]

/-- A character is in front of every offset behind its start. -/
theorem passed_append_cons {offset : Nat} {front : List Char} {c : Char}
    (hstart : byteLength front < offset) (hstop : offset ≤ byteLength front + c.utf8Size)
    (rest : List Char) : passed offset (front ++ c :: rest) = front ++ [c] := by
  induction front generalizing offset with
  | nil =>
    have hzero : offset - c.utf8Size = 0 := by
      rw [Text.byteLength_nil] at hstop
      omega
    rw [List.nil_append, passed_cons (Nat.ne_of_gt hstart), hzero, passed_zero]
    rfl
  | cons d front ih =>
    rw [Text.byteLength_cons] at hstart hstop
    rw [List.cons_append, passed_cons (by omega), ih (by omega) (by omega), List.cons_append]

/-- What is in front of the end of a part is that part. -/
theorem passed_of_prefix {front text : List Char} (h : front <+: text) :
    passed (byteLength front) text = front := by
  obtain ⟨rest, rfl⟩ := h
  induction front with
  | nil => exact passed_zero _
  | cons c front ih =>
    have hpos := c.utf8Size_pos
    rw [Text.byteLength_cons, List.cons_append, passed_cons (by omega), Nat.add_sub_cancel_left, ih]

/-- Of two parts in front of the same text the shorter one comes first. -/
theorem prefix_of_byteLength_lt {first second text : List Char} (hfirst : first <+: text)
    (hsecond : second <+: text) (h : byteLength first < byteLength second) :
    first <+: second ∧ first ≠ second := by
  rcases List.prefix_or_prefix_of_prefix hfirst hsecond with hfront | ⟨more, rfl⟩
  · refine ⟨hfront, ?_⟩
    rintro rfl
    exact lt_irrefl _ h
  · rw [Text.byteLength_append] at h
    omega

/-- The walk is a fold over what is in front of the offset. -/
theorem walk_eq_foldl (line column offset : Nat) (text : List Char) :
    walk line column offset text = (passed offset text).foldl advance (line, column) := by
  induction text generalizing line column offset with
  | nil => rfl
  | cons c rest ih =>
    by_cases hzero : offset = 0
    · rw [hzero, passed_zero]
      rfl
    · rw [passed_cons hzero, List.foldl_cons, walk, if_neg hzero]
      by_cases hbreak : c = '\n'
      · rw [if_pos hbreak, advance, if_pos hbreak, ih]
      · rw [if_neg hbreak, advance, if_neg hbreak, ih]

/-- A place depends on what is in front of it alone. -/
theorem ofOffset_eq (text : List Char) (offset : Nat) :
    ofOffset text offset =
      ⟨Count.ofNat (behind (passed offset text)).1,
        Count.ofNat (behind (passed offset text)).2⟩ := by
  rw [ofOffset, walk_eq_foldl]
  rfl

/-- What follows an offset does not change its place. -/
theorem ofOffset_append {offset : Nat} {s : List Char} (h : offset ≤ byteLength s)
    (more : List Char) : ofOffset (s ++ more) offset = ofOffset s offset := by
  rw [ofOffset_eq, passed_append h, ofOffset_eq]

/-! ## Counting bytes -/

/-- Bytes other than the first one of a character have `10` in front. -/
theorem startsCharacter_continuation {n : Nat} (h : n < 64) :
    startsCharacter (UInt8.ofNat (n + 128)) = false := by
  have hall : ∀ n < 64, startsCharacter (UInt8.ofNat (n + 128)) = false := by decide +kernel
  exact hall n h

/-- The first byte of a character does not. -/
theorem startsCharacter_lead {n : Nat} (h : n < 128 ∨ 192 ≤ n ∧ n < 256) :
    startsCharacter (UInt8.ofNat n) = true := by
  have hall : ∀ n < 256, n < 128 ∨ 192 ≤ n → startsCharacter (UInt8.ofNat n) = true := by
    decide +kernel
  exact hall n (by omega) (by omega)

/-- The byte of a line break is its own alone. -/
theorem ofNat_eq_newline_iff {n : Nat} (h : n < 256) : UInt8.ofNat n = 0x0A ↔ n = 10 := by
  have hall : ∀ n < 256, UInt8.ofNat n = 0x0A ↔ n = 10 := by decide +kernel
  exact hall n h

/-- A character has one byte that starts it. -/
theorem exists_utf8EncodeChar (c : Char) :
    ∃ first others, String.utf8EncodeChar c = first :: others ∧ startsCharacter first = true ∧
      (first = 0x0A ↔ c = '\n') ∧ ∀ b ∈ others, startsCharacter b = false := by
  have hbreak : c = '\n' ↔ c.toNat = 10 := by
    rw [← Char.toNat_inj]
    rfl
  have hvalid : c.toNat < 1114112 := by
    have hvalid : c.toNat < 55296 ∨ 57343 < c.toNat ∧ c.toNat < 1114112 := c.valid
    omega
  have hcode : c.val.toNat = c.toNat := rfl
  rw [hbreak]
  simp only [String.utf8EncodeChar, hcode]
  generalize c.toNat = v at hvalid
  have hother (m : Nat) : startsCharacter (UInt8.ofNat (m % 64 + 128)) = false :=
    startsCharacter_continuation (Nat.mod_lt m (by decide))
  split_ifs
  · exact ⟨_, _, rfl, startsCharacter_lead (by omega), ofNat_eq_newline_iff (by omega),
      List.forall_mem_nil _⟩
  all_goals
    refine ⟨_, _, rfl, startsCharacter_lead (by omega), ?_, ?_⟩
    · rw [ofNat_eq_newline_iff (by omega)]
      omega
    · simp only [List.forall_mem_cons, hother, List.not_mem_nil, false_implies, implies_true,
        and_self]

/-- The bytes of a character that do not start it lead nowhere. -/
theorem foldl_advanceByte_of_others {others : List UInt8}
    (h : ∀ b ∈ others, startsCharacter b = false) (place : Nat × Nat) :
    others.foldl advanceByte place = place := by
  have hstart : startsCharacter 0x0A = true := by decide
  induction others with
  | nil => rfl
  | cons b others ih =>
    obtain ⟨hb, hothers⟩ := List.forall_mem_cons.1 h
    have hbreak : b ≠ 0x0A := by
      rintro rfl
      rw [hstart] at hb
      cases hb
    have hplace : advanceByte place b = place := by
      rw [advanceByte, if_neg hbreak, hb]
      rfl
    rw [List.foldl_cons, hplace, ih hothers]

/-- A part of the bytes of a character leads on as the character does. -/
theorem foldl_advanceByte_utf8EncodeChar {offset : Nat} (h : offset ≠ 0) (place : Nat × Nat)
    (c : Char) :
    ((String.utf8EncodeChar c).take offset).foldl advanceByte place = advance place c := by
  obtain ⟨first, others, hbytes, hstart, hbreak, hothers⟩ := exists_utf8EncodeChar c
  obtain ⟨more, rfl⟩ := Nat.exists_eq_succ_of_ne_zero h
  have hfirst : advanceByte place first = advance place c := by
    rw [advanceByte, advance, if_pos hstart]
    simp only [hbreak]
  rw [hbytes, List.take_succ_cons, List.foldl_cons, hfirst]
  exact foldl_advanceByte_of_others (fun b hb => hothers b (List.mem_of_mem_take hb)) _

/-- The bytes in front of an offset lead to where the characters that start there lead. -/
theorem foldl_advanceByte_take (place : Nat × Nat) (offset : Nat) (text : List Char) :
    ((text.flatMap String.utf8EncodeChar).take offset).foldl advanceByte place =
      (passed offset text).foldl advance place := by
  induction text generalizing place offset with
  | nil => simp [passed]
  | cons c rest ih =>
    by_cases hzero : offset = 0
    · rw [hzero, passed_zero]
      rfl
    · rw [passed_cons hzero, List.foldl_cons, List.flatMap_cons, List.take_append,
        List.foldl_append, foldl_advanceByte_utf8EncodeChar hzero, String.length_utf8EncodeChar, ih]

/-- Walking over bytes counts the breaks, and the characters that start behind the last of them. -/
theorem foldl_advanceByte_eq (bytes : List UInt8) :
    bytes.foldl advanceByte (1, 1) =
      (bytes.count 0x0A + 1, (bytes.rtakeWhile (· != 0x0A)).countP startsCharacter + 1) := by
  induction bytes using List.reverseRecOn with
  | nil => rfl
  | append_singleton bytes b ih =>
    rw [List.foldl_append, ih, List.foldl_cons, List.foldl_nil, List.rtakeWhile_concat, advanceByte]
    by_cases hbreak : b = 0x0A
    · simp [hbreak]
    · by_cases hstart : startsCharacter b = true
      · simp [hbreak, hstart, List.count_append]
      · simp [hbreak, hstart, List.count_append]

/-- A place is found by counting bytes: the line by the breaks in front of the offset, the column by
the bytes behind the last of these that start a character. -/
theorem ofOffset_eq_of_bytes (text : List Char) (offset : Nat) :
    let front := (text.flatMap String.utf8EncodeChar).take offset
    ofOffset text offset =
      ⟨Count.ofNat (front.count 0x0A + 1),
        Count.ofNat ((front.rtakeWhile (· != 0x0A)).countP startsCharacter + 1)⟩ := by
  intro front
  have hfold := foldl_advanceByte_take (1, 1) offset text
  rw [foldl_advanceByte_eq] at hfold
  rw [ofOffset_eq, behind, ← hfold]

/-! ## The order of places -/

/-- One more character leads further on. -/
theorem lt_advance (place : Nat × Nat) (c : Char) : toLex place < toLex (advance place c) := by
  rw [Prod.Lex.toLex_lt_toLex, advance]
  split
  · exact .inl (Nat.lt_succ_self _)
  · exact .inr ⟨rfl, Nat.lt_succ_self _⟩

/-- Any number of characters lead further on, or nowhere if there are none. -/
theorem le_foldl_advance (place : Nat × Nat) (s : List Char) :
    toLex place ≤ toLex (s.foldl advance place) := by
  induction s generalizing place with
  | nil => exact le_refl _
  | cons c s ih => exact (lt_advance place c).le.trans (ih (advance place c))

/-- What has more characters in front of it comes later. -/
theorem behind_lt_behind {front longer : List Char} (h : front <+: longer) (hne : front ≠ longer) :
    toLex (behind front) < toLex (behind longer) := by
  obtain ⟨more, rfl⟩ := h
  cases more with
  | nil => exact absurd (List.append_nil front).symm hne
  | cons c more =>
    rw [behind, behind, List.foldl_append, List.foldl_cons]
    exact (lt_advance _ c).trans_le (le_foldl_advance _ more)

/-! ## Bounds -/

/-- Lines and columns grow by no more than one for each character. -/
theorem foldl_advance_bounds (place : Nat × Nat) (h : 1 ≤ place.2) (s : List Char) :
    place.1 ≤ (s.foldl advance place).1 ∧ 1 ≤ (s.foldl advance place).2 ∧
      (s.foldl advance place).1 + (s.foldl advance place).2 ≤ place.1 + place.2 + s.length := by
  induction s generalizing place with
  | nil => exact ⟨le_refl _, h, le_refl _⟩
  | cons c s ih =>
    rw [List.foldl_cons, List.length_cons]
    have hline : place.1 ≤ (advance place c).1 := by
      rw [advance]
      split
      · exact Nat.le_succ _
      · exact le_refl _
    have hcolumn : 1 ≤ (advance place c).2 := by
      rw [advance]
      split
      · exact le_refl _
      · exact Nat.le_succ_of_le h
    have hsum : (advance place c).1 + (advance place c).2 ≤ place.1 + place.2 + 1 := by
      rw [advance]
      split
      · show place.1 + 1 + 1 ≤ _
        omega
      · exact le_refl _
    obtain ⟨hline', hcolumn', hsum'⟩ := ih (advance place c) hcolumn
    exact ⟨hline.trans hline', hcolumn', by omega⟩

/-- A text has as many lines behind it as breaks. -/
theorem line_foldl_advance (place : Nat × Nat) (s : List Char) :
    (s.foldl advance place).1 = place.1 + s.count '\n' := by
  induction s generalizing place with
  | nil => rfl
  | cons c s ih =>
    rw [List.foldl_cons, ih, advance]
    split
    · next hbreak =>
      rw [hbreak, List.count_cons_self]
      show place.1 + 1 + s.count '\n' = _
      omega
    · next hbreak => rw [List.count_cons_of_ne hbreak]

/-- A break in front moves every line by one. -/
theorem getElem?_splitOn_break (s : List Char) (index : Nat) :
    (('\n' :: s).splitOn '\n')[index + 1]? = (s.splitOn '\n')[index]? := by
  rw [List.splitOn_cons_eq_if_modifyHead, if_pos (by rfl), List.getElem?_cons_succ]

/-- Another character in front makes the first line longer and leaves the others. -/
theorem getElem?_splitOn_cons {c : Char} (h : c ≠ '\n') (s : List Char) (index : Nat) :
    ((c :: s).splitOn '\n')[index]? =
      if index = 0 then (s.splitOn '\n')[index]?.map (c :: ·) else (s.splitOn '\n')[index]? := by
  rw [List.splitOn_cons_eq_if_modifyHead, if_neg (by simpa using h), List.getElem?_modifyHead]

/-- A walk ends in a line of the text, and not past its end. In the line in which it starts the
characters in front of it count, too. -/
theorem exists_line_of_foldl (place : Nat × Nat) (front rest : List Char) :
    ∃ line, ((front ++ rest).splitOn '\n')[(front.foldl advance place).1 - place.1]? = some line ∧
      (front.foldl advance place).2 ≤
        (if (front.foldl advance place).1 = place.1 then place.2 else 1) + line.length := by
  induction front generalizing place with
  | nil =>
    obtain ⟨line, lines, hlines⟩ := List.exists_cons_of_ne_nil (List.splitOnP_ne_nil (· == '\n') rest)
    refine ⟨line, ?_, ?_⟩
    · rw [List.nil_append, List.foldl_nil, Nat.sub_self, List.splitOn, hlines]
      rfl
    · rw [List.foldl_nil, if_pos rfl]
      exact Nat.le_add_right _ _
  | cons c front ih =>
    obtain ⟨line, hline, hcolumn⟩ := ih (advance place c)
    have hlater := line_foldl_advance (advance place c) front
    rw [List.foldl_cons, List.cons_append]
    by_cases hbreak : c = '\n'
    · -- The break ends a line, so the rest of the walk is counted from the next one.
      have hplace : advance place c = (place.1 + 1, 1) := if_pos hbreak
      rw [hplace] at hline hcolumn hlater ⊢
      dsimp only at hlater
      have hindex : (front.foldl advance (place.1 + 1, 1)).1 - place.1 =
          (front.foldl advance (place.1 + 1, 1)).1 - (place.1 + 1) + 1 := by omega
      rw [hbreak, hindex, getElem?_splitOn_break, if_neg (by omega)]
      rw [ite_self] at hcolumn
      exact ⟨line, hline, hcolumn⟩
    · -- The character is one more in the line in which the walk starts, and in no other.
      have hplace : advance place c = (place.1, place.2 + 1) := if_neg hbreak
      rw [hplace] at hline hcolumn hlater ⊢
      dsimp only at hline hcolumn hlater
      rw [getElem?_splitOn_cons hbreak, hline]
      by_cases hsame : (front.foldl advance (place.1, place.2 + 1)).1 = place.1
      · rw [if_pos hsame] at hcolumn ⊢
        refine ⟨c :: line, by rw [hsame, Nat.sub_self, if_pos rfl]; rfl, ?_⟩
        rw [List.length_cons]
        omega
      · rw [if_neg hsame] at hcolumn ⊢
        exact ⟨line, if_neg (by omega), hcolumn⟩

/-! ## Coordinates -/

/-- The counters of a place hold it when the characters of the text can be counted. -/
theorem behind_le_limit {text : List Char} (h : text.length < 2 ^ 32 - 1) {front : List Char}
    (hfront : front <+: text) :
    (behind front).1 ≤ Count.limit ∧ (behind front).2 ≤ Count.limit := by
  obtain ⟨hline, hcolumn, hsum⟩ := foldl_advance_bounds (1, 1) (le_refl _) front
  have hlength := hfront.length_le
  have hlimit : Count.limit = 2 ^ 32 - 1 := rfl
  rw [behind]
  dsimp only at hline hsum
  omega

/-- A place shows the line and the column as they are when the characters can be counted. -/
theorem ofOffset_val {text : List Char} (h : text.length < 2 ^ 32 - 1) (offset : Nat) :
    (ofOffset text offset).line.val = (behind (passed offset text)).1 ∧
      (ofOffset text offset).column.val = (behind (passed offset text)).2 := by
  obtain ⟨hline, hcolumn⟩ := behind_le_limit h (prefix_passed offset text)
  rw [ofOffset_eq]
  exact ⟨Nat.min_eq_left hline, Nat.min_eq_left hcolumn⟩

/-- Places stand in the order of their lines and columns when the characters can be counted. -/
theorem key_ofOffset {text : List Char} (h : text.length < 2 ^ 32 - 1) (offset : Nat) :
    (ofOffset text offset).key = toLex (behind (passed offset text)) := by
  obtain ⟨hline, hcolumn⟩ := ofOffset_val h offset
  rw [key, hline, hcolumn]

/-- In a text whose characters can be counted a place tells what is in front of it. -/
theorem passed_eq_of_ofOffset_eq {text : List Char} (h : text.length < 2 ^ 32 - 1)
    {first second : Nat} (heq : ofOffset text first = ofOffset text second) :
    passed first text = passed second text := by
  have hkey : toLex (behind (passed first text)) = toLex (behind (passed second text)) := by
    rw [← key_ofOffset h, ← key_ofOffset h, heq]
  by_contra hne
  rcases List.prefix_or_prefix_of_prefix (prefix_passed first text) (prefix_passed second text)
    with hfront | hfront
  · exact (behind_lt_behind hfront hne).ne hkey
  · exact (behind_lt_behind hfront (Ne.symm hne)).ne hkey.symm

/-- Lines and columns are coordinates of a text whose characters can be counted. The later of two
characters has the later place, so no two of them share one. The place of any offset at all, be it
inside of a character or past the end, is in a line of the text and at most at the end of this
line. -/
theorem coordinates {text : List Char} (h : text.length < 2 ^ 32 - 1) :
    StrictMonoOn (fun offset => (ofOffset text offset).key) {offset | IsBoundary text offset} ∧
      Set.InjOn (ofOffset text) {offset | IsBoundary text offset} ∧
      ∀ offset,
        (1 ≤ (ofOffset text offset).line.val ∧
          (ofOffset text offset).line.val ≤ 1 + text.count '\n') ∧
        1 ≤ (ofOffset text offset).column.val ∧
          ∃ line, (text.splitOn '\n')[(ofOffset text offset).line.val - 1]? = some line ∧
            (ofOffset text offset).column.val ≤ 1 + line.length := by
  have hmono : StrictMonoOn (fun offset => (ofOffset text offset).key)
      {offset | IsBoundary text offset} := by
    rintro _ ⟨first, hfirst, rfl⟩ _ ⟨second, hsecond, rfl⟩ hlt
    obtain ⟨hfront, hne⟩ := prefix_of_byteLength_lt hfirst hsecond hlt
    dsimp only
    rw [key_ofOffset h, key_ofOffset h, passed_of_prefix hfirst, passed_of_prefix hsecond]
    exact behind_lt_behind hfront hne
  refine ⟨hmono, fun p hp q hq heq => hmono.injOn hp hq (congrArg key heq), fun offset => ?_⟩
  have hfront := prefix_passed offset text
  obtain ⟨hline, hcolumn⟩ := ofOffset_val h offset
  obtain ⟨hfirst, hleft, -⟩ :=
    foldl_advance_bounds (1, 1) (le_refl _) (passed offset text)
  have hlast : (behind (passed offset text)).1 ≤ 1 + text.count '\n' := by
    rw [behind, line_foldl_advance]
    exact Nat.add_le_add_left (hfront.sublist.count_le _) 1
  obtain ⟨rest, htext⟩ := hfront
  obtain ⟨line, hin, hend⟩ := exists_line_of_foldl (1, 1) (passed offset text) rest
  rw [htext] at hin
  rw [ite_self] at hend
  rw [hline, hcolumn]
  exact ⟨⟨hfirst, hlast⟩, hleft, line, hin, hend⟩

/-- A break between a wide character and another, and an offset inside of the latter. -/
theorem coordinates_of_wide_characters :
    let text := ['é', '\n', 'x', '😀']
    text.length < 2 ^ 32 - 1 ∧ IsBoundary text 2 ∧ IsBoundary text 4 ∧
      ofOffset text 2 = ⟨1, 2⟩ ∧ ofOffset text 4 = ⟨2, 2⟩ ∧ ofOffset text 6 = ⟨2, 3⟩ ∧
      (ofOffset text 2).key < (ofOffset text 4).key ∧ ofOffset text 2 ≠ ofOffset text 4 ∧
      ∃ line, (text.splitOn '\n')[1]? = some line ∧ 3 ≤ 1 + line.length := by
  intro text
  have hlength : text.length < 2 ^ 32 - 1 := by decide
  have hbreak : IsBoundary text 2 := ⟨['é'], ⟨_, rfl⟩, rfl⟩
  have hface : IsBoundary text 4 := ⟨['é', '\n', 'x'], ⟨_, rfl⟩, rfl⟩
  have hinside : ofOffset text 6 = ⟨2, 3⟩ := by decide
  obtain ⟨hmono, hinj, hbounds⟩ := coordinates hlength
  obtain ⟨-, -, hline⟩ := hbounds 6
  rw [hinside] at hline
  exact ⟨hlength, hbreak, hface, by decide, by decide, hinside, hmono hbreak hface (by decide),
    fun heq => absurd (hinj hbreak hface heq) (by decide), hline⟩

end LocaleLint.Markup.Position
