import LocaleLint.Evaluation
import LocaleLint.Proofs.Wording.Language
import Mathlib.Data.List.DropRight

/-!
# Padding around a text

Space markers and most characters that are no letters can be put around a text without a change of
what the classifier says of it. In front, only a dollar sign and an opening brace must not be put
alone, since they may start a marker or an expression together with the text; behind it, only a
closing brace and a closing bracket, since they may end one. The front pass decides, so the proof
follows it: it takes padding in front away (`peelFront_of_padding_append`), and one character or
marker behind the text leaves its remainder legal or not legal, as it was
(`legalRest_peelFront_concat`).

What is trimmed from a text before it is judged is such padding. The main result
`padding_keeps_verdict` draws from this that trimming has no part in the judgement, only in what is
reported, and that what is reported is reported again when it is judged again.
-/

set_option autoImplicit false

namespace LocaleLint

namespace Wording

/-- A concatenation of space markers and of single characters that are neither letters nor among the
barred ones. -/
inductive PaddingWithout (barred : List Char) : List Char → Prop
  | nil : PaddingWithout barred []
  | marker {s : List Char} : PaddingWithout barred s → PaddingWithout barred (spaceMarker ++ s)
  | char {c : Char} {s : List Char} : isLetter c = false → c ∉ barred →
      PaddingWithout barred s → PaddingWithout barred (c :: s)

/-- Characters that are neither letters nor barred are padding. -/
theorem paddingWithout_of_forall {barred s : List Char}
    (h : ∀ c ∈ s, isLetter c = false ∧ c ∉ barred) : PaddingWithout barred s := by
  induction s with
  | nil => exact .nil
  | cons c s ih =>
    obtain ⟨hc, hbarred⟩ := h c List.mem_cons_self
    exact .char hc hbarred (ih fun d hd => h d (List.mem_cons_of_mem c hd))

/-! ## In front -/

/-- The characters that may start a marker or an expression. -/
def starters : List Char := ['$', '{']

/-- The front pass takes a character that can start neither a marker nor an expression. -/
theorem peelFront_cons {c : Char} (hc : isLetter c = false) (hstart : c ∉ starters)
    (s : List Char) : peelFront (c :: s) = peelFront s := by
  have hfirst {p : List Char} (hp : ∃ d ∈ starters, p.head? = some d) : ¬p <+: c :: s := by
    obtain ⟨d, hd, hhead⟩ := hp
    obtain ⟨q, rfl⟩ := List.head?_eq_some_iff.1 hhead
    rintro ⟨u, hu⟩
    obtain ⟨rfl, -⟩ := List.cons.inj hu
    exact hstart hd
  apply peelFront_char hc
  · rw [Bool.eq_false_iff, ne_eq, opensExpression_iff, not_or]
    exact ⟨hfirst ⟨'{', by decide, rfl⟩, hfirst ⟨'$', by decide, rfl⟩⟩
  · exact hfirst ⟨'$', by decide, rfl⟩

/-- Padding in front is taken by the front pass, unless it could start an expression. -/
theorem peelFront_of_padding_append {p : List Char} (h : PaddingWithout starters p)
    (t : List Char) : peelFront (p ++ t) = peelFront t := by
  induction h with
  | nil => rfl
  | marker _ ih => rw [List.append_assoc, peelFront_marker, ih]
  | char hc hstart _ ih => rw [List.cons_append, peelFront_cons hc hstart, ih]

/-! ## Behind -/

/-- The characters that may end a marker or a placeholder. -/
def enders : List Char := ['}', ']']

/-- A text does not end in a marker if its last character ends none. -/
theorem not_suffix_concat {c : Char} (hend : c ∉ enders) {p : List Char}
    (hp : ∃ d ∈ enders, p.getLast? = some d) (s : List Char) : ¬p <:+ s ++ [c] := by
  obtain ⟨d, hd, hlast⟩ := hp
  rw [List.suffix_concat_iff]
  rintro (rfl | ⟨q, rfl, -⟩)
  · cases hlast
  · rw [List.getLast?_concat] at hlast
    exact hend (Option.some.inj hlast ▸ hd)

/-- Where the front pass stops, a character behind that can end neither a marker nor a placeholder
does not matter. -/
theorem legalRest_concat {c : Char} (hc : isLetter c = false) (hend : c ∉ enders) {r : List Char}
    (h : Held r) : LegalRest (r ++ [c]) ↔ LegalRest r := by
  rcases h with ⟨d, u, hd, rfl⟩ | ⟨v, rfl⟩ | ⟨u, rfl⟩
  · rw [List.cons_append]
    simp only [not_legalRest_of_letter hd]
  · rw [List.append_assoc, legalRest_placeholder, legalRest_placeholder]
    exact closed_append_char hc (not_suffix_concat hend ⟨'}', by decide, rfl⟩ v)
      (not_suffix_concat hend ⟨']', by decide, rfl⟩ v)
  · rw [List.append_assoc]
    simp only [legalRest_interpolation]

/-- A text without letters leaves a legal remainder. -/
theorem legalRest_of_letterless {t : List Char} (h : ∀ c ∈ t, isLetter c = false) :
    LegalRest (peelFront t) :=
  (Rule.letterless h).verdict

/-- What opens an expression with a character behind, and not without, is a single character. -/
theorem eq_nil_of_opens_concat {c d : Char} {s : List Char}
    (hopen : opensExpression (d :: s) = false) (hopens : opensExpression (d :: s ++ [c]) = true) :
    s = [] := by
  cases s with
  | nil => rfl
  | cons e s =>
    -- the start of an expression has no more than two characters
    have hsame : opensExpression (d :: e :: s ++ [c]) = opensExpression (d :: e :: s) := rfl
    rw [hsame, hopen] at hopens
    cases hopens

/-- A character behind that can end neither a marker nor a placeholder leaves the remainder of the
front pass legal or not legal, as it was. -/
theorem legalRest_peelFront_concat {c : Char} (hc : isLetter c = false) (hend : c ∉ enders)
    (t : List Char) : LegalRest (peelFront (t ++ [c])) ↔ LegalRest (peelFront t) := by
  have hletterless {s : List Char} (hs : ∀ d ∈ s, isLetter d = false) :
      LegalRest (peelFront s) ↔ True := iff_true_intro (legalRest_of_letterless hs)
  fun_induction peelFront t with
  | case1 t hm ih =>
    obtain ⟨u, rfl⟩ := List.isPrefixOf_iff_prefix.1 hm
    rw [List.drop_left] at ih ⊢
    rw [List.append_assoc, peelFront_marker]
    exact ih
  | case2 =>
    rw [List.nil_append, hletterless (by simpa using hc)]
    exact ⟨fun _ => .inl rfl, fun _ => trivial⟩
  | case3 d rest hstop hm =>
    have hheld := held_cons_iff.2 hstop
    rw [peelFront_of_held (hheld.append _)]
    exact legalRest_concat hc hend hheld
  | case4 d rest hstop hm ih =>
    rw [List.isPrefixOf_iff_prefix] at hm
    simp only [Bool.or_eq_true, not_or, Bool.not_eq_true] at hstop
    have hmarker : ¬spaceMarker <+: d :: rest ++ [c] := by
      rw [List.prefix_concat_iff, not_or]
      refine ⟨fun heq => ?_, hm⟩
      have hsuffix : spaceMarker <:+ d :: rest ++ [c] := heq ▸ List.suffix_refl _
      exact not_suffix_concat hend ⟨']', by decide, rfl⟩ (d :: rest) hsuffix
    by_cases hopens : opensExpression (d :: rest ++ [c]) = true
    · -- the text and the character are all there is of an expression
      obtain rfl := eq_nil_of_opens_concat hstop.2 hopens
      rw [peelFront_nil, hletterless (by simp [hstop.1, hc])]
      exact ⟨fun _ => .inl rfl, fun _ => trivial⟩
    · rw [List.cons_append] at hopens hmarker ⊢
      rw [peelFront_char hstop.1 (by simpa using hopens) hmarker]
      exact ih

/-- Padding behind does not change the verdict on what the front pass leaves. -/
theorem legalRest_peelFront_append_padding {q : List Char} (h : PaddingWithout enders q)
    (t : List Char) : LegalRest (peelFront (t ++ q)) ↔ LegalRest (peelFront t) := by
  induction h generalizing t with
  | nil => rw [List.append_nil]
  | marker _ ih =>
    rw [← List.append_assoc, ih]
    exact (Rule.backMarker t).verdict
  | @char c s hc hend _ ih =>
    rw [← List.singleton_append, ← List.append_assoc, ih, legalRest_peelFront_concat hc hend]

/-! ## On both sides -/

/-- Padding on both sides does not change whether a text is legal. -/
theorem isLegal_padded {p q : List Char} (hp : PaddingWithout starters p)
    (hq : PaddingWithout enders q) (t : List Char) :
    isLegalList (p ++ t ++ q) = isLegalList t := by
  rw [Bool.eq_iff_iff, isLegalList_iff, isLegalList_iff, legalRest_peelFront_append_padding hq,
    peelFront_of_padding_append hp]

/-- A text without letters is legal. -/
theorem isLegal_of_letterless {t : String} (h : ∀ c ∈ t.toList, isLetter c = false) :
    isLegal t = true := by
  rw [isLegal, isLegalList_iff]
  exact legalRest_of_letterless h

/-- Space is no letter. -/
theorem isLetter_of_isSpace {c : Char} (h : Text.isSpace c = true) : isLetter c = false := by
  have hlower : 'a' ≤ c ↔ 97 ≤ c.toNat := by
    rw [Char.le_def, UInt32.le_iff_toNat_le]
    rfl
  have hlower' : c ≤ 'z' ↔ c.toNat ≤ 122 := by
    rw [Char.le_def, UInt32.le_iff_toNat_le]
    rfl
  have hupper : 'A' ≤ c ↔ 65 ≤ c.toNat := by
    rw [Char.le_def, UInt32.le_iff_toNat_le]
    rfl
  have hupper' : c ≤ 'Z' ↔ c.toNat ≤ 90 := by
    rw [Char.le_def, UInt32.le_iff_toNat_le]
    rfl
  simp only [Text.isSpace, Bool.or_eq_true, Bool.and_eq_true, decide_eq_true_eq] at h
  simp only [isLetter, hlower, hlower', hupper, hupper', Bool.or_eq_false_iff,
    Bool.and_eq_false_iff, decide_eq_false_iff_not]
  omega

/-- No character that is trimmed is a letter. -/
theorem isLetter_of_isMargin {c : Char} (h : Text.isMargin c = true) : isLetter c = false := by
  rw [Text.isMargin, Bool.or_eq_true, Bool.and_eq_true] at h
  rcases h with h | h
  · rw [of_decide_eq_true h]
    decide
  · exact isLetter_of_isSpace h.1

/-- What is trimmed is padding, whichever characters are barred from it that are not trimmed. -/
theorem paddingWithout_of_margin {barred s : List Char}
    (hbarred : ∀ c ∈ barred, Text.isMargin c = false) (h : ∀ c ∈ s, Text.isMargin c = true) :
    PaddingWithout barred s := by
  apply paddingWithout_of_forall
  intro c hc
  have hmargin := h c hc
  refine ⟨isLetter_of_isMargin hmargin, fun hmem => ?_⟩
  rw [hbarred c hmem] at hmargin
  exact Bool.false_ne_true hmargin

end Wording

/-! ## Trimming -/

namespace Text

/-- Trimming drops characters in front and behind. -/
theorem trimList_eq (p : Char → Bool) (s : List Char) :
    trimList p s = (s.dropWhile p).rdropWhile p :=
  rfl

/-- Trimming takes characters of the set from both ends. -/
theorem exists_append_trimList (p : Char → Bool) (s : List Char) :
    ∃ front back, (∀ c ∈ front, p c = true) ∧ (∀ c ∈ back, p c = true) ∧
      s = front ++ trimList p s ++ back := by
  refine ⟨s.takeWhile p, (s.dropWhile p).rtakeWhile p, fun c => List.mem_takeWhile_imp,
    fun c => List.mem_rtakeWhile_imp, ?_⟩
  rw [trimList_eq, List.append_assoc, List.rdropWhile_append_rtakeWhile,
    List.takeWhile_append_dropWhile]

/-- What is trimmed has nothing left to trim. -/
theorem trimList_trimList (p : Char → Bool) (s : List Char) :
    trimList p (trimList p s) = trimList p s := by
  have hfront : (trimList p s).dropWhile p = trimList p s := by
    rw [List.dropWhile_eq_self_iff]
    intro hlength
    -- the first character that is left is the first one after the front
    have hprefix := List.rdropWhile_prefix p (s.dropWhile p)
    have hfirst := List.dropWhile_eq_self_iff.1 (List.dropWhile_idempotent (p := p) (l := s))
      (Nat.lt_of_lt_of_le hlength hprefix.length_le)
    rwa [← hprefix.getElem hlength] at hfirst
  rw [trimList_eq, hfront, trimList_eq, List.rdropWhile_idempotent]

/-- Trimming twice is trimming once. -/
theorem trim_trim (p : Char → Bool) (s : String) : trim p (trim p s) = trim p s := by
  rw [trim, trim, String.toList_ofList, trimList_trimList]

end Text

/-- What is trimmed from a text does not matter to its judgement. -/
theorem Wording.isLegal_trim (text : String) :
    isLegal (Text.trim Text.isMargin text) = isLegal text := by
  have hstarters : ∀ c ∈ starters, Text.isMargin c = false :=
    List.forall_mem_cons.2 ⟨rfl, List.forall_mem_singleton.2 rfl⟩
  have henders : ∀ c ∈ enders, Text.isMargin c = false :=
    List.forall_mem_cons.2 ⟨rfl, List.forall_mem_singleton.2 rfl⟩
  obtain ⟨front, back, hfront, hback, htext⟩ :=
    Text.exists_append_trimList Text.isMargin text.toList
  rw [isLegal, isLegal, Text.trim, String.toList_ofList]
  conv_rhs => rw [htext]
  exact (isLegal_padded (paddingWithout_of_margin hstarters hfront)
    (paddingWithout_of_margin henders hback) _).symm

/-- The literal texts are those that are not legal as they stand, trimmed. -/
theorem literalTexts_eq (texts : List String) :
    literalTexts texts =
      (texts.filter fun text => !Wording.isLegal text).map (Text.trim Text.isMargin) := by
  rw [literalTexts, List.filter_map]
  apply congrArg
  apply List.filter_congr
  intro text _
  rw [Function.comp_apply, Wording.isLegal_trim]

/-- The literal texts among literal texts are all of them. -/
theorem literalTexts_literalTexts (texts : List String) :
    literalTexts (literalTexts texts) = literalTexts texts := by
  have hkept : (literalTexts texts).filter (fun text => !Wording.isLegal text) =
      literalTexts texts := by
    rw [literalTexts, List.filter_filter]
    simp only [Bool.and_self]
  rw [literalTexts_eq (literalTexts texts), hkept, literalTexts_eq, List.map_map]
  exact List.map_congr_left fun text _ => Text.trim_trim Text.isMargin text

/-- A text with padding around it is legal when the text is. In front, the padding has no dollar
sign and no opening brace of its own, behind no closing brace and no closing bracket. So trimming a
text does not change its judgement: the literal texts of a list are the texts that are not legal as
they stand, in their order, and trimmed, and among these literal texts every one is literal
again. -/
theorem padding_keeps_verdict :
    (∀ p t q : String, Wording.PaddingWithout ['$', '{'] p.toList →
      Wording.PaddingWithout ['}', ']'] q.toList →
        Wording.isLegal (p ++ t ++ q) = Wording.isLegal t) ∧
    (∀ text, Wording.isLegal (Text.trim Text.isMargin text) = Wording.isLegal text) ∧
    ∀ texts,
      literalTexts texts =
        (texts.filter fun text => !Wording.isLegal text).map (Text.trim Text.isMargin) ∧
      literalTexts (literalTexts texts) = literalTexts texts := by
  refine ⟨fun p t q hp hq => ?_, Wording.isLegal_trim, fun texts => ?_⟩
  · rw [Wording.isLegal, Wording.isLegal, String.toList_append, String.toList_append]
    exact Wording.isLegal_padded hp hq t.toList
  · exact ⟨literalTexts_eq texts, literalTexts_literalTexts texts⟩

/-- Markers and a dash around a placeholder, with an opening brace behind it. -/
theorem padding_keeps_verdict_of_marked_placeholder :
    let p := "$[SP]- "
    let t := "\x7b\x7bname\x7d\x7d"
    let q := "\x7b$[SP]"
    Wording.PaddingWithout ['$', '{'] p.toList ∧ Wording.PaddingWithout ['}', ']'] q.toList ∧
      Wording.isLegal t = true ∧ Wording.isLegal (p ++ t ++ q) = Wording.isLegal t := by
  intro p t q
  have hdash : Wording.PaddingWithout ['$', '{'] ['-', ' '] :=
    .char (by decide) (by decide) (.char (by decide) (by decide) .nil)
  have hp : Wording.PaddingWithout ['$', '{'] p.toList := by
    have hlist : p.toList = Wording.spaceMarker ++ ['-', ' '] := by decide +kernel
    exact hlist ▸ .marker hdash
  have hq : Wording.PaddingWithout ['}', ']'] q.toList := by
    have hlist : q.toList = '{' :: (Wording.spaceMarker ++ []) := by decide +kernel
    exact hlist ▸ .char (by decide) (by decide) (.marker .nil)
  exact ⟨hp, hq, by decide +kernel, padding_keeps_verdict.1 p t q hp hq⟩

/-- The barred characters do matter. -/
example :
    Wording.isLegal "\x7ba" = false ∧ Wording.isLegal ("$" ++ "\x7ba") = true ∧
    Wording.isLegal "\x7ba\x7d\x7d" = false ∧ Wording.isLegal ("\x7b" ++ "\x7ba\x7d\x7d") = true ∧
    Wording.isLegal "\x7b\x7ba\x7d" = false ∧ Wording.isLegal ("\x7b\x7ba\x7d" ++ "\x7d") = true ∧
    Wording.isLegal "$[SP" = false ∧ Wording.isLegal ("$[SP" ++ "]") = true := by
  decide +kernel

end LocaleLint
