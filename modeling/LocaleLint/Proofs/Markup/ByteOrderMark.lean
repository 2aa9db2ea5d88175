import LocaleLint.Proofs.Markup.FirstFault

/-!
# A byte order mark in front

The reader passes over one byte order mark and counts from behind it, while a place is looked up in
the whole text. So a text with a mark in front is read like the text itself, but its faults are
reported elsewhere: the main result, `parse_marked`, says where, and that this is where they are
only behind a character that is wider than the mark.

Two facts carry it. A run fails at the end of a part of the text (`exists_prefix_of_runs`), by
induction on the run, so that there is a place which is meant. And an offset that leaves the mark
out falls short of this part, unless the part ends with a wider character
(`Position.passed_cons_eq_iff`).
-/

set_option autoImplicit false

namespace LocaleLint.Markup

open Text (byteLength)

/-! ## Where faults are reported -/

section

variable {s : List Char} {length : Nat}

/-- An unnamed document type is measured by what was read of it. -/
theorem exists_prefix_of_nextDoctype (h : nextDoctype s = .error (.unnamedDoctype length)) :
    ∃ content, content <+: s ∧ length = byteLength content := by
  unfold nextDoctype at h
  split at h
  · next content rest hcut =>
    have hs := append_of_breakDoctype hcut
    rw [List.reverse_nil, List.nil_append, List.append_assoc] at hs
    split at h
    · cases h
      exact ⟨content, ⟨_, hs.symm⟩, rfl⟩
    · cases h
  · cases h

/-- A construct that lacks its end is not at fault for an unnamed document type. -/
theorem not_unnamed_of_delimited {make : List Char → Token} {fault : TokenFault}
    {cut : Option (List Char × List Char)} (hfault : fault ≠ .unnamedDoctype length) :
    delimited make fault cut ≠ .error (.unnamedDoctype length) := by
  intro h
  unfold delimited at h
  split at h
  · cases h
  · exact hfault (Except.error.inj h)

/-- Behind an exclamation mark, too, an unnamed document type is measured by what was read of it. -/
theorem exists_prefix_of_nextDeclaration (h : nextDeclaration s = .error (.unnamedDoctype length)) :
    ∃ content, content <+: s ∧ length = byteLength content := by
  unfold nextDeclaration at h
  split at h
  · unfold nextCdata at h
    split at h
    · exact absurd h (not_unnamed_of_delimited (by simp))
    · cases h
  · unfold nextComment at h
    split at h
    · exact absurd h (not_unnamed_of_delimited (by simp))
    · cases h
  · split at h
    · exact exists_prefix_of_nextDoctype h
    · split at h <;> cases h

/-- Behind an opening bracket an unnamed document type is measured without the exclamation mark. -/
theorem exists_prefix_of_nextMarkup (h : nextMarkup s = .error (.unnamedDoctype length)) :
    ∃ content, '!' :: content <+: s ∧ length = byteLength content := by
  unfold nextMarkup at h
  split at h
  · obtain ⟨content, hfront, hlength⟩ := exists_prefix_of_nextDeclaration h
    exact ⟨content, List.cons_prefix_cons.2 ⟨rfl, hfront⟩, hlength⟩
  · unfold nextInstruction at h
    split at h
    · cases h
    · exact absurd h (not_unnamed_of_delimited (by simp))
  · exact absurd h (not_unnamed_of_delimited (by simp))
  · exact absurd h (not_unnamed_of_delimited (by simp))

/-- A construct that cannot be read is reported where a part of the text ends. -/
theorem exists_prefix_of_nextToken_error {c : Char} {fault : TokenFault}
    (h : nextToken c s = .error fault) (start : Nat) :
    ∃ front, front <+: c :: s ∧ fault.offset start = start + byteLength front := by
  cases fault with
  | unnamedDoctype length =>
    unfold nextToken at h
    split at h
    · next hc =>
      obtain ⟨content, hfront, hlength⟩ := exists_prefix_of_nextMarkup h
      refine ⟨'<' :: '!' :: content, List.cons_prefix_cons.2 ⟨hc.symm, hfront⟩, ?_⟩
      have hopen : ('<').utf8Size = 1 ∧ ('!').utf8Size = 1 := by decide
      rw [TokenFault.offset, hlength, Text.byteLength_cons, Text.byteLength_cons, hopen.1, hopen.2]
      omega
    · cases h
  | _ => exact ⟨[], List.nil_prefix, rfl⟩

end

/-- A run fails where a part of the text ends. -/
theorem exists_prefix_of_runs {start : Nat} {reader : Reader} {building : Building}
    {fault : DocumentFault} {place : Nat}
    (h : Runs start reader building (.error (fault, place))) :
    ∃ front, front <+: reader.rest ∧ place = start + byteLength front := by
  generalize hresult : Except.error (fault, place) = result at h
  induction h with
  | @finished start names building =>
    refine ⟨[], List.nil_prefix, ?_⟩
    unfold Building.finish at hresult
    split at hresult <;> cases hresult <;> rfl
  | token hnext =>
    cases hresult
    exact exists_prefix_of_nextToken_error hnext _
  | endTag _ _ =>
    cases hresult
    exact ⟨[], List.nil_prefix, rfl⟩
  | event hnext _ _ =>
    cases hresult
    exact ⟨_, ⟨_, (heads_of_nextToken hnext).1⟩, rfl⟩
  | @later start c s rest token names outer building next event result hnext _ _ _ ih =>
    obtain ⟨front, ⟨after, hrest⟩, hplace⟩ := ih hresult
    refine ⟨token.source ++ front, ⟨after, ?_⟩, ?_⟩
    · rw [List.append_assoc, hrest]
      exact (heads_of_nextToken hnext).1
    · rw [hplace, Text.byteLength_append, Token.byteLength, Nat.add_assoc]

/-! ## Places behind a mark -/

namespace Position

/-- The same place when one more character is in front of it in the first line. -/
def shifted (position : Position) : Position :=
  ⟨position.line, if position.line = 1 then position.column + 1 else position.column⟩

/-- A walk that starts one column later ends so in the line in which it starts. -/
theorem foldl_advance_succ (line column : Nat) (s : List Char) :
    s.foldl advance (line, column + 1) =
      ((s.foldl advance (line, column)).1,
        if (s.foldl advance (line, column)).1 = line then (s.foldl advance (line, column)).2 + 1
        else (s.foldl advance (line, column)).2) := by
  induction s generalizing column with
  | nil => rw [List.foldl_nil, List.foldl_nil, if_pos rfl]
  | cons c s ih =>
    rw [List.foldl_cons, List.foldl_cons]
    by_cases hbreak : c = '\n'
    · -- Behind a break both walks are the same, and they do not come back to the line.
      have hline : line < (s.foldl advance (line + 1, 1)).1 := by
        rw [line_foldl_advance]
        exact Nat.lt_of_lt_of_le (Nat.lt_succ_self line) (Nat.le_add_right _ _)
      rw [advance, if_pos hbreak, advance, if_pos hbreak, if_neg hline.ne']
    · rw [advance, if_neg hbreak, advance, if_neg hbreak, ih]

/-- One more character in front moves the columns of the first line, and nothing else. -/
theorem behind_cons_of_ne {c : Char} (h : c ≠ '\n') (s : List Char) :
    behind (c :: s) =
      ((behind s).1, if (behind s).1 = 1 then (behind s).2 + 1 else (behind s).2) := by
  rw [behind, List.foldl_cons, advance, if_neg h, foldl_advance_succ]
  rfl

/-- A counter shows one for one alone. -/
theorem count_ofNat_eq_one_iff (n : Nat) : Count.ofNat n = 1 ↔ n = 1 := by
  constructor
  · intro h
    have hval := congrArg Count.val h
    rw [Count.val_ofNat, Count.val_one, Count.limit] at hval
    omega
  · rintro rfl
    rfl

/-- A character in front of a text moves the place of each part's end. -/
theorem ofOffset_cons {c : Char} (h : c ≠ '\n') {front text : List Char} (hfront : front <+: text) :
    ofOffset (c :: text) (byteLength (c :: front)) =
      (ofOffset text (byteLength front)).shifted := by
  have hlonger : c :: front <+: c :: text := List.cons_prefix_cons.2 ⟨rfl, hfront⟩
  rw [ofOffset_eq, passed_of_prefix hlonger, ofOffset_eq, passed_of_prefix hfront,
    behind_cons_of_ne h, shifted]
  by_cases hline : (behind front).1 = 1
  · rw [if_pos hline, if_pos ((count_ofNat_eq_one_iff _).2 hline)]
    exact congrArg _ (Count.ofNat_add_ofNat _ 1).symm
  · rw [if_neg hline, if_neg fun h => hline ((count_ofNat_eq_one_iff _).1 h)]

/-- An offset that leaves the first character out falls short of the part it is meant for, unless
this part ends with a wider character. -/
theorem passed_cons_eq_iff {mark : Char} {front text : List Char} (hfront : front <+: text) :
    passed (byteLength front) (mark :: text) = mark :: front ↔
      ∃ before c, front = before ++ [c] ∧ mark.utf8Size < c.utf8Size := by
  obtain ⟨rest, rfl⟩ := hfront
  rcases List.eq_nil_or_concat' front with rfl | ⟨before, c, rfl⟩
  · rw [Text.byteLength_nil, passed_zero]
    constructor
    · intro h
      cases h
    · rintro ⟨before, c, h, -⟩
      exact absurd h.symm (List.append_ne_nil_of_right_ne_nil _ (List.cons_ne_nil _ _))
  · have hlength : byteLength (before ++ [c]) = byteLength before + c.utf8Size := by
      rw [Text.byteLength_append, Text.byteLength_cons, Text.byteLength_nil, Nat.add_zero]
    have htext : mark :: (before ++ [c] ++ rest) = (mark :: before) ++ c :: rest := by
      rw [List.append_assoc, List.singleton_append, List.cons_append]
    rw [htext, hlength]
    constructor
    · intro h
      refine ⟨before, c, rfl, ?_⟩
      -- Else the offset is at most where the last character starts, which is then not counted.
      by_contra hnarrow
      have hshort : byteLength before + c.utf8Size ≤ byteLength (mark :: before) := by
        rw [Text.byteLength_cons]
        omega
      rw [passed_append hshort] at h
      have hle := (prefix_passed (byteLength before + c.utf8Size) (mark :: before)).length_le
      rw [h, List.length_cons, List.length_cons, List.length_append, List.length_singleton] at hle
      omega
    · rintro ⟨other, last, hsame, hwide⟩
      obtain ⟨-, rfl⟩ := List.append_singleton_inj.1 hsame
      apply passed_append_cons <;> rw [Text.byteLength_cons] <;> omega

/-- An offset that leaves a mark out leads to the place behind it exactly if the last character is
longer than the mark, so that looking it up stops inside of this character. -/
theorem ofOffset_cons_eq_shifted_iff {mark : Char} (hmark : mark ≠ '\n') {front text : List Char}
    (hlength : text.length + 1 < 2 ^ 32 - 1) (hfront : front <+: text) :
    ofOffset (mark :: text) (byteLength front) = (ofOffset text (byteLength front)).shifted ↔
      ∃ before c, front = before ++ [c] ∧ mark.utf8Size < c.utf8Size := by
  have hmeant : passed (byteLength (mark :: front)) (mark :: text) = mark :: front :=
    passed_of_prefix (List.cons_prefix_cons.2 ⟨rfl, hfront⟩)
  rw [← passed_cons_eq_iff hfront, ← ofOffset_cons hmark hfront]
  constructor
  · intro h
    have hwhole : (mark :: text).length < 2 ^ 32 - 1 := hlength
    rw [passed_eq_of_ofOffset_eq hwhole h, hmeant]
  · intro h
    rw [ofOffset_eq, h, ofOffset_eq, hmeant]

end Position

/-! ## Texts behind a mark -/

/-- A text behind a byte order mark. -/
def marked (text : String) : String :=
  String.singleton Text.byteOrderMark ++ text

/-- Whether a text reads alike behind a byte order mark: to the same tree, or to the same fault at
the same character. -/
def ReadsAlikeMarked (text : String) : Prop :=
  parse (marked text) =
    (parse text).mapError fun error => ⟨error.fault, error.position.shifted⟩

/-- A marked text is the mark and the text. -/
theorem toList_marked (text : String) :
    (marked text).toList = Text.byteOrderMark :: text.toList := by
  rw [marked, String.toList_append, String.toList_singleton, List.singleton_append]

/-- Behind a mark the same is read. The end of the part that is read before a fault is looked up in
the text with the mark as if the mark were not there. -/
theorem parse_marked_eq {text : String} (hmark : text.toList.head? ≠ some Text.byteOrderMark) :
    (∃ node, parse text = .ok node ∧ parse (marked text) = .ok node) ∨
      ∃ fault front, front <+: text.toList ∧
        parse text = .error ⟨fault, Position.ofOffset text.toList (byteLength front)⟩ ∧
        parse (marked text) =
          .error ⟨fault, Position.ofOffset (marked text).toList (byteLength front)⟩ := by
  have hdrop : dropMark (marked text).toList = text.toList := by
    rw [toList_marked, dropMark, if_pos rfl]
  rw [parse, parse, parseList_eq_runFrom, parseList_eq_runFrom, hdrop, dropMark_eq_self hmark]
  cases hrun : runFrom 0 ⟨text.toList, []⟩ {} with
  | ok node => exact .inl ⟨node, rfl, rfl⟩
  | error failed =>
    obtain ⟨fault, place⟩ := failed
    obtain ⟨front, hfront, hplace⟩ := exists_prefix_of_runs (hrun ▸ runs_runFrom 0 _ {})
    rw [Nat.zero_add] at hplace
    exact .inr ⟨fault, front, hfront, by rw [← hplace]; rfl, by rw [← hplace]; rfl⟩

/-- A text that fails for the same fault behind a mark reads alike exactly if its place is the
shifted one. -/
theorem readsAlikeMarked_iff_of_error {text : String} {fault : DocumentFault}
    {position shown : Position} (hplain : parse text = .error ⟨fault, position⟩)
    (hmarked : parse (marked text) = .error ⟨fault, shown⟩) :
    ReadsAlikeMarked text ↔ shown = position.shifted := by
  rw [ReadsAlikeMarked, hplain, hmarked, Except.mapError, Except.error.injEq, ParseError.mk.injEq]
  exact ⟨And.right, fun h => ⟨rfl, h⟩⟩

/-- Behind a byte order mark a text is read to the same tree or to the same fault, but the fault is
reported three bytes early: a text without the mark fails at the end of a part of it, the place that
is meant is behind the mark and this part, and what is shown is the place as many bytes into the
text with the mark as the part has. So the place is the one that is meant only where this part ends
with a character of four bytes. -/
theorem parse_marked {text : String} (hmark : text.toList.head? ≠ some Text.byteOrderMark) :
    (∀ node, parse (marked text) = .ok node ↔ parse text = .ok node) ∧
      ∀ error, parse text = .error error → ∃ front, front <+: text.toList ∧
        error.position = Position.ofOffset text.toList (byteLength front) ∧
        error.position.shifted = Position.ofOffset (marked text).toList (3 + byteLength front) ∧
        parse (marked text) =
          .error ⟨error.fault, Position.ofOffset (marked text).toList (byteLength front)⟩ ∧
        (text.length + 1 < 2 ^ 32 - 1 →
          (ReadsAlikeMarked text ↔ ∃ before c, front = before ++ [c] ∧ c.utf8Size = 4)) := by
  have hbreak : Text.byteOrderMark ≠ '\n' := by decide
  have hsize : Text.byteOrderMark.utf8Size = 3 := by decide
  rcases parse_marked_eq hmark with ⟨node, hplain, hmarked⟩ | ⟨fault, front, hfront, hplain, hmarked⟩
  · refine ⟨fun other => by rw [hplain, hmarked], fun error h => ?_⟩
    rw [hplain] at h
    cases h
  · refine ⟨fun other => by rw [hplain, hmarked]; exact ⟨nofun, nofun⟩, fun error h => ?_⟩
    rw [hplain] at h
    cases h
    refine ⟨front, hfront, rfl, ?_, hmarked, fun hlength => ?_⟩
    · rw [← Position.ofOffset_cons hbreak hfront, Text.byteLength_cons, hsize, toList_marked]
    · have hwide : ∀ c : Char, c.utf8Size = 4 ↔ Text.byteOrderMark.utf8Size < c.utf8Size := by
        intro c
        have hmost := c.utf8Size_le_four
        omega
      have hcount : text.toList.length + 1 < 2 ^ 32 - 1 := by rwa [String.length_toList]
      simp only [hwide]
      rw [readsAlikeMarked_iff_of_error hplain hmarked, toList_marked,
        Position.ofOffset_cons_eq_shifted_iff hbreak hcount hfront]

/-- Behind a character of four bytes a fault of the second line keeps its place. -/
theorem parse_marked_of_wide_character :
    let text := "<a>\n😀</b>"
    let error : ParseError := ⟨.read (.mismatched ['a'] ['b']), ⟨2, 2⟩⟩
    text.toList.head? ≠ some Text.byteOrderMark ∧ parse text = .error error ∧
      text.length + 1 < 2 ^ 32 - 1 ∧ parse (marked text) = .error error ∧
      ∃ before c, before ++ [c] <+: text.toList ∧ c.utf8Size = 4 ∧
        error.position = Position.ofOffset text.toList (byteLength (before ++ [c])) := by
  intro text error
  have hmark : text.toList.head? ≠ some Text.byteOrderMark := by decide
  have hplain : parse text = .error error := by decide +kernel
  have hmarked : parse (marked text) = .error error := by decide +kernel
  have hlength : text.length + 1 < 2 ^ 32 - 1 := by decide
  have hreads : ReadsAlikeMarked text :=
    (readsAlikeMarked_iff_of_error hplain hmarked).2 (by decide)
  obtain ⟨front, hfront, hposition, -, -, hiff⟩ := (parse_marked hmark).2 error hplain
  obtain ⟨before, c, rfl, hwide⟩ := (hiff hlength).1 hreads
  exact ⟨hmark, hplain, hlength, hmarked, before, c, hfront, hwide, hposition⟩

/-- Behind a mark the end tag that is found in the fourth column is reported in the second one, and
not in the fifth one, where it is. -/
theorem marked_fault_reported_early :
    let text := "<a></b>"
    let fault : DocumentFault := .read (.mismatched ['a'] ['b'])
    text.toList.head? ≠ some Text.byteOrderMark ∧ parse text = .error ⟨fault, ⟨1, 4⟩⟩ ∧
      parse (marked text) = .error ⟨fault, ⟨1, 2⟩⟩ ∧
      Position.shifted ⟨1, 4⟩ = ⟨1, 5⟩ ∧ ¬ReadsAlikeMarked text := by
  intro text fault
  have hplain : parse text = .error ⟨fault, ⟨1, 4⟩⟩ := by decide +kernel
  have hmarked : parse (marked text) = .error ⟨fault, ⟨1, 2⟩⟩ := by decide +kernel
  have hearly : ¬ReadsAlikeMarked text := by
    rw [readsAlikeMarked_iff_of_error hplain hmarked]
    decide
  exact ⟨by decide, hplain, hmarked, by decide, hearly⟩

end LocaleLint.Markup
