import LocaleLint.Wording

/-!
# The language of legal texts

The classifier peels both ends of a text in turn, by rules of fixed priority. The
main result `isLegal_iff_front_pass` says which language it decides: one pass from the
front, which takes markers and single characters that are no letters, leaves a
remainder, and the text is legal when that remainder is empty, starts an
interpolation, or starts a placeholder that nothing but padding follows.

The step lemma is `Rule.verdict`: whichever rule applies, peeling on either side
leaves the remainder of the front pass legal or not legal, as it was. A marker at the
back survives the front pass (`peelFront_append_marker`), because no end of a marker
is a beginning of one.
-/

set_option autoImplicit false

namespace LocaleLint.Wording

/-! ## The language -/

/-- A concatenation of space markers and of single characters that are no letters. -/
inductive Padding : List Char → Prop
  | nil : Padding []
  | marker {s : List Char} : Padding s → Padding (spaceMarker ++ s)
  | char {c : Char} {s : List Char} : isLetter c = false → Padding s → Padding (c :: s)

/-- What the greedy pass from the front leaves. Each step takes a space marker, or else one
character that is no letter, but never the first character of an expression. -/
def peelFront (t : List Char) : List Char :=
  if spaceMarker.isPrefixOf t then peelFront (t.drop spaceMarker.length)
  else
    match t with
    | [] => []
    | c :: rest =>
      if isLetter c || opensExpression (c :: rest) then c :: rest else peelFront rest
termination_by t.length
decreasing_by
  · next h =>
    have := (List.isPrefixOf_iff_prefix.1 h).length_le
    simp only [List.length_drop, spaceMarker, List.length_cons, List.length_nil] at this ⊢
    omega
  · simp

/-- The text after the start of a placeholder is padding, or holds the end of the
placeholder with padding after it. -/
def Closed (v : List Char) : Prop :=
  Padding v ∨ ∃ w s, Padding s ∧ v = w ++ placeholderEnd ++ s

/-- The remainders of the front pass that make a text legal. -/
def LegalRest (r : List Char) : Prop :=
  r = [] ∨ interpolationStart <+: r ∨ ∃ v, Closed v ∧ r = placeholderStart ++ v

/-! ## Padding -/

/-- Padding with padding behind it is padding. -/
theorem Padding.append {s t : List Char} (hs : Padding s) (ht : Padding t) :
    Padding (s ++ t) := by
  induction hs with
  | nil => exact ht
  | marker _ ih =>
    rw [List.append_assoc]
    exact .marker ih
  | char hc _ ih => exact .char hc ih

/-- Characters that are no letters are padding. -/
theorem padding_of_letterless {s : List Char} (h : ∀ c ∈ s, isLetter c = false) : Padding s := by
  induction s with
  | nil => exact .nil
  | cons c s ih =>
    exact .char (h c List.mem_cons_self) (ih fun d hd => h d (List.mem_cons_of_mem c hd))

/-- No end of a space marker is a beginning of one. -/
theorem spaceMarker_border {s t u : List Char} (hst : spaceMarker = s ++ t)
    (htu : spaceMarker = t ++ u) : s = [] ∨ t = [] := by
  cases t with
  | nil => exact .inr rfl
  | cons c t =>
    left
    have hc : '$' = c := (List.cons.inj htu).1
    subst hc
    cases s with
    | nil => rfl
    | cons d s =>
      have htail : ['[', 'S', 'P', ']'] = s ++ '$' :: t := (List.cons.inj hst).2
      have hmem : '$' ∈ ['[', 'S', 'P', ']'] := by simp [htail]
      exact absurd hmem (by decide)

/-- A space marker at the end of padding comes after padding. -/
theorem Padding.of_append_marker {s : List Char} (h : Padding (s ++ spaceMarker)) :
    Padding s := by
  generalize ht : s ++ spaceMarker = t at h
  induction h generalizing s with
  | nil => simp [spaceMarker] at ht
  | @marker u hu ih =>
    rcases List.append_eq_append_iff.1 ht with ⟨v, hv, hu'⟩ | ⟨v, hs, hu'⟩
    · rcases spaceMarker_border hv hu' with rfl | rfl
      · exact .nil
      · rw [List.append_nil] at hv
        rw [← hv]
        exact .marker .nil
    · rw [hs]
      exact .marker (ih hu'.symm)
  | @char c u hc hu ih =>
    cases s with
    | nil => exact .nil
    | cons d s =>
      obtain ⟨rfl, hu'⟩ := List.cons.inj ht
      exact .char hc (ih hu')

/-- The last character of padding is no letter, and when no space marker ends there, the
characters before it are padding. -/
theorem Padding.of_append_char {s : List Char} {c : Char} (h : Padding (s ++ [c])) :
    isLetter c = false ∧ (¬ spaceMarker <:+ s ++ [c] → Padding s) := by
  generalize ht : s ++ [c] = t at h
  induction h generalizing s with
  | nil => simp at ht
  | @marker u hu ih =>
    rcases List.eq_nil_or_concat u with rfl | ⟨v, d, rfl⟩
    · have hc : c = ']' := by
        have := congrArg List.getLast? ht
        simpa [spaceMarker] using this
      subst hc
      exact ⟨by decide, fun hm => absurd (by simp) hm⟩
    · rw [List.concat_eq_append, ← List.append_assoc] at ht
      obtain ⟨rfl, hcd⟩ := List.append_inj' ht rfl
      obtain ⟨hc, hv⟩ := ih (s := v) (by rw [List.concat_eq_append, hcd])
      refine ⟨hc, fun hm => .marker (hv fun hsuffix => hm ?_)⟩
      exact hsuffix.trans (List.suffix_append _ _)
  | @char d u hd hu ih =>
    cases s with
    | nil =>
      obtain ⟨rfl, -⟩ := List.cons.inj ht
      exact ⟨hd, fun _ => .nil⟩
    | cons e s =>
      obtain ⟨rfl, hu'⟩ := List.cons.inj ht
      obtain ⟨hc, hv⟩ := ih hu'
      exact ⟨hc, fun hm => .char hd (hv fun hsuffix => hm (hsuffix.trans (List.suffix_cons _ _)))⟩

/-! ## Closed placeholders -/

/-- Padding may follow where a placeholder is closed. -/
theorem Closed.append {v p : List Char} (hv : Closed v) (hp : Padding p) : Closed (v ++ p) := by
  rcases hv with hv | ⟨w, s, hs, rfl⟩
  · exact .inl (hv.append hp)
  · exact .inr ⟨w, s ++ p, hs.append hp, List.append_assoc ..⟩

/-- A space marker at the back does not matter to a placeholder. -/
theorem closed_append_marker {v : List Char} : Closed (v ++ spaceMarker) ↔ Closed v := by
  constructor
  · rintro (hv | ⟨w, s, hs, hws⟩)
    · exact .inl hv.of_append_marker
    · rcases List.append_eq_append_iff.1 hws with ⟨u, hu, hm⟩ | ⟨u, rfl, hsu⟩
      · rcases List.eq_nil_or_concat u with rfl | ⟨u, d, rfl⟩
        · rw [List.append_nil] at hu
          exact .inr ⟨w, [], .nil, by rw [List.append_nil, ← hu]⟩
        · -- the end of a placeholder would reach into the marker
          have hd : d = '}' := by
            have := congrArg List.getLast? hu
            simpa [placeholderEnd] using this.symm
          have hmem : d ∈ spaceMarker := by simp [hm]
          rw [hd] at hmem
          exact absurd hmem (by decide)
      · rw [hsu] at hs
        exact .inr ⟨w, u, hs.of_append_marker, rfl⟩
  · intro hv
    have hp : Padding (spaceMarker ++ []) := .marker .nil
    exact hv.append hp

/-- Neither does a character that is no letter, where it ends no marker and no placeholder. -/
theorem closed_append_char {v : List Char} {c : Char} (hc : isLetter c = false)
    (hend : ¬ placeholderEnd <:+ v ++ [c]) (hmarker : ¬ spaceMarker <:+ v ++ [c]) :
    Closed (v ++ [c]) ↔ Closed v := by
  constructor
  · rintro (hv | ⟨w, s, hs, hws⟩)
    · exact .inl (hv.of_append_char.2 hmarker)
    · rcases List.eq_nil_or_concat s with rfl | ⟨s, d, rfl⟩
      · rw [List.append_nil] at hws
        exact absurd (hws ▸ List.suffix_append w placeholderEnd) hend
      · rw [List.concat_eq_append, ← List.append_assoc] at hws
        obtain ⟨rfl, hd⟩ := List.append_inj' hws rfl
        rw [List.concat_eq_append] at hs
        refine .inr ⟨w, s, hs.of_append_char.2 fun hm => hmarker ?_, rfl⟩
        rw [hd]
        exact hm.trans (by rw [List.append_assoc]; exact List.suffix_append _ _)
  · exact fun hv => hv.append (.char hc .nil)

/-- A placeholder with a letter at its end is not closed. -/
theorem not_closed_of_letter {v : List Char} {c : Char} (hc : isLetter c = true) :
    ¬ Closed (v ++ [c]) := by
  rintro (hv | ⟨w, s, hs, hws⟩)
  · simp [hv.of_append_char.1] at hc
  · rcases List.eq_nil_or_concat s with rfl | ⟨s, d, rfl⟩
    · have hend : c = '}' := by
        have := congrArg List.getLast? hws
        simpa [placeholderEnd] using this
      rw [hend] at hc
      exact absurd hc (by decide)
    · rw [List.concat_eq_append, ← List.append_assoc] at hws
      obtain ⟨-, hd⟩ := List.append_inj' hws rfl
      rw [List.concat_eq_append, ← hd] at hs
      simp [hs.of_append_char.1] at hc

/-! ## The front pass -/

/-- Where the front pass stops: at the end, at a letter, or at an expression. -/
def Held (r : List Char) : Prop :=
  (∃ c s, isLetter c = true ∧ r = c :: s) ∨ placeholderStart <+: r ∨ interpolationStart <+: r

/-- An expression is opened by the start of a placeholder, or of an interpolation. -/
theorem opensExpression_iff {t : List Char} :
    opensExpression t = true ↔ placeholderStart <+: t ∨ interpolationStart <+: t := by
  simp [opensExpression, List.isPrefixOf_iff_prefix]

/-- The front pass stops in front of a letter or of an expression. -/
theorem held_cons_iff {c : Char} {s : List Char} :
    Held (c :: s) ↔ (isLetter c || opensExpression (c :: s)) = true := by
  rw [Bool.or_eq_true, opensExpression_iff, Held]
  constructor
  · rintro (⟨d, u, hd, hu⟩ | h)
    · obtain ⟨rfl, -⟩ := List.cons.inj hu
      exact .inl hd
    · exact .inr h
  · rintro (hc | h)
    · exact .inl ⟨c, s, hc, rfl⟩
    · exact .inr h

/-- Where the front pass is held there is something left. -/
theorem Held.ne_nil {r : List Char} (h : Held r) : r ≠ [] := by
  rintro rfl
  rcases h with ⟨c, u, -, hu⟩ | ⟨u, hu⟩ | ⟨u, hu⟩ <;> cases hu

/-- The front pass is held whatever follows further behind. -/
theorem Held.append {r : List Char} (h : Held r) (s : List Char) : Held (r ++ s) := by
  rcases h with ⟨c, u, hc, rfl⟩ | h | h
  · exact .inl ⟨c, u ++ s, hc, rfl⟩
  · exact .inr (.inl (h.trans (List.prefix_append _ _)))
  · exact .inr (.inr (h.trans (List.prefix_append _ _)))

/-- The front pass takes nothing from what it stops at. -/
theorem peelFront_of_held {r : List Char} (h : Held r) : peelFront r = r := by
  have hmarker : spaceMarker.isPrefixOf r = false := by
    rcases h with ⟨c, u, hc, rfl⟩ | ⟨u, rfl⟩ | ⟨u, rfl⟩
    · refine Bool.eq_false_iff.2 fun hm => ?_
      obtain ⟨v, hv⟩ := List.isPrefixOf_iff_prefix.1 hm
      obtain ⟨rfl, -⟩ := List.cons.inj hv
      exact absurd hc (by decide)
    · rfl
    · rfl
  rw [peelFront.eq_def]
  simp only [hmarker, Bool.false_eq_true, if_false]
  cases r with
  | nil => rfl
  | cons d s => simp only [held_cons_iff.1 h, if_true]

/-- Of nothing nothing is left. -/
theorem peelFront_nil : peelFront [] = [] := by
  rw [peelFront.eq_def]
  rfl

/-- A space marker in front is taken as a whole. -/
theorem peelFront_marker (s : List Char) : peelFront (spaceMarker ++ s) = peelFront s := by
  rw [peelFront.eq_def]
  simp [List.isPrefixOf_iff_prefix]

/-- The front pass takes a character that is no letter, unless a marker or an expression
starts there. -/
theorem peelFront_char {c : Char} {s : List Char} (hc : isLetter c = false)
    (hopen : opensExpression (c :: s) = false) (hmarker : ¬ spaceMarker <+: c :: s) :
    peelFront (c :: s) = peelFront s := by
  rw [peelFront.eq_def]
  simp [List.isPrefixOf_iff_prefix, hmarker, hc, hopen]

/-- What starts with neither a marker nor an expression does not come to start with one when
a marker is put at its back. -/
theorem front_append_marker {c : Char} {s : List Char} (hopen : opensExpression (c :: s) = false)
    (hmarker : ¬ spaceMarker <+: c :: s) :
    opensExpression (c :: s ++ spaceMarker) = false ∧ ¬ spaceMarker <+: c :: s ++ spaceMarker := by
  have hstart : ¬ (placeholderStart <+: c :: s ∨ interpolationStart <+: c :: s) := by
    rw [← opensExpression_iff, hopen]
    exact Bool.false_ne_true
  -- a start that reaches into the marker would have the marker's first character inside it
  have hreach {p : List Char} (hp : p <+: c :: s ++ spaceMarker) (hnot : ¬ p <+: c :: s) :
      ∃ u, p = c :: s ++ '$' :: u ∧ ['$'] ++ u <+: spaceMarker := by
    obtain ⟨x, hx⟩ := hp
    rcases List.append_eq_append_iff.1 hx with ⟨v, hv, -⟩ | ⟨v, hp, hv⟩
    · exact absurd ⟨v, hv.symm⟩ hnot
    · cases v with
      | nil => exact absurd ⟨[], by simp [hp]⟩ hnot
      | cons d v =>
        obtain ⟨rfl, -⟩ := List.cons.inj hv
        exact ⟨v, hp, x, hv.symm⟩
  refine ⟨Bool.eq_false_iff.2 fun hopens => ?_, fun hm => ?_⟩
  · rcases opensExpression_iff.1 hopens with hp | hp
    · obtain ⟨u, hu, -⟩ := hreach hp fun h => hstart (.inl h)
      have hmem : '$' ∈ placeholderStart := by simp [hu]
      exact absurd hmem (by decide)
    · obtain ⟨u, hu, -⟩ := hreach hp fun h => hstart (.inr h)
      have hmem : '$' ∈ interpolationStart.drop 1 := by simp [hu]
      exact absurd hmem (by decide)
  · obtain ⟨u, hu, v, hv⟩ := hreach hm hmarker
    rcases spaceMarker_border hu hv.symm with h | h
    · cases h
    · cases h

/-- A marker at the back goes through the front pass with what is left, unless nothing is. -/
theorem peelFront_append_marker (t : List Char) :
    peelFront (t ++ spaceMarker) =
      if peelFront t = [] then [] else peelFront t ++ spaceMarker := by
  fun_induction peelFront t with
  | case1 t hm ih =>
    obtain ⟨u, rfl⟩ := List.isPrefixOf_iff_prefix.1 hm
    rw [List.drop_left] at ih
    rw [List.append_assoc, peelFront_marker, ih, List.drop_left]
  | case2 => simpa [peelFront_nil] using peelFront_marker []
  | case3 c rest hstop hm =>
    rw [peelFront_of_held ((held_cons_iff.2 hstop).append _), if_neg (List.cons_ne_nil _ _)]
  | case4 c rest hstop hm ih =>
    rw [List.isPrefixOf_iff_prefix] at hm
    simp only [Bool.or_eq_true, not_or, Bool.not_eq_true] at hstop
    obtain ⟨hopen, hmarker⟩ := front_append_marker hstop.2 hm
    rw [List.cons_append] at hopen hmarker ⊢
    rw [peelFront_char hstop.1 hopen hmarker, ih]

/-- The front pass leaves nothing, or something at which it stops. -/
theorem peelFront_eq_nil_or_held (t : List Char) : peelFront t = [] ∨ Held (peelFront t) := by
  fun_induction peelFront t with
  | case1 t hm ih => exact ih
  | case2 => exact .inl rfl
  | case3 c rest hstop hm => exact .inr (held_cons_iff.2 hstop)
  | case4 c rest hstop hm ih => exact ih

/-- What the front pass leaves stands at the back of the text. -/
theorem peelFront_suffix (t : List Char) : peelFront t <:+ t := by
  fun_induction peelFront t with
  | case1 t hm ih => exact ih.trans (List.drop_suffix _ _)
  | case2 => exact List.suffix_refl _
  | case3 c rest hstop hm => exact List.suffix_refl _
  | case4 c rest hstop hm ih => exact ih.trans (List.suffix_cons _ _)

/-! ## Legal remainders -/

/-- A remainder that starts with a letter makes no text legal. -/
theorem not_legalRest_of_letter {c : Char} {s : List Char} (hc : isLetter c = true) :
    ¬ LegalRest (c :: s) := by
  rintro (h | ⟨u, hu⟩ | ⟨v, -, hv⟩)
  · cases h
  · obtain ⟨rfl, -⟩ := List.cons.inj hu
    exact absurd hc (by decide)
  · obtain ⟨rfl, -⟩ := List.cons.inj hv
    exact absurd hc (by decide)

/-- An interpolation makes the text legal, whatever stands behind it. -/
theorem legalRest_interpolation (s : List Char) : LegalRest (interpolationStart ++ s) :=
  .inr (.inl (List.prefix_append _ _))

/-- The start of a placeholder makes the text legal exactly if the placeholder is closed behind it.
-/
theorem legalRest_placeholder {v : List Char} : LegalRest (placeholderStart ++ v) ↔ Closed v := by
  constructor
  · rintro (h | ⟨u, hu⟩ | ⟨w, hw, hv⟩)
    · cases h
    · obtain ⟨h, -⟩ := List.cons.inj hu
      exact absurd h (by decide)
    · rwa [List.append_cancel_left hv]
  · exact fun hv => .inr (.inr ⟨v, hv, rfl⟩)

/-- A space marker at the back does not matter where the front pass stops. -/
theorem legalRest_append_marker {r : List Char} (h : Held r) :
    LegalRest (r ++ spaceMarker) ↔ LegalRest r := by
  rcases h with ⟨c, u, hc, rfl⟩ | ⟨v, rfl⟩ | ⟨u, rfl⟩
  · rw [List.cons_append]
    simp only [not_legalRest_of_letter hc]
  · rw [List.append_assoc, legalRest_placeholder, legalRest_placeholder]
    exact closed_append_marker
  · rw [List.append_assoc]
    simp only [legalRest_interpolation]

/-- Neither does a character that is no letter, where it ends no marker and no placeholder and
the text has a letter. -/
theorem legalRest_append_char {s : List Char} {c : Char} (h : Held (s ++ [c]))
    (hletter : ∃ d ∈ s ++ [c], isLetter d = true) (hc : isLetter c = false)
    (hend : ¬ placeholderEnd <:+ s ++ [c]) (hmarker : ¬ spaceMarker <:+ s ++ [c])
    (hinter : ¬ interpolationStart <+: s ++ [c]) :
    LegalRest (s ++ [c]) ↔ LegalRest (peelFront s) := by
  rcases h with ⟨d, u, hd, hu⟩ | ⟨v, hv⟩ | h
  · -- the letter at the front is not the character at the back
    cases s with
    | nil =>
      obtain ⟨rfl, -⟩ := List.cons.inj hu
      rw [hd] at hc
      cases hc
    | cons e s =>
      obtain ⟨rfl, -⟩ := List.cons.inj hu
      rw [peelFront_of_held (.inl ⟨e, s, hd, rfl⟩), List.cons_append]
      simp only [not_legalRest_of_letter hd]
  · rcases List.eq_nil_or_concat v with rfl | ⟨v, d, rfl⟩
    · obtain ⟨d, hd, hletter⟩ := hletter
      rw [← hv] at hd
      simp only [placeholderStart, List.append_nil, List.mem_cons, List.not_mem_nil, or_false,
        or_self] at hd
      rw [hd] at hletter
      exact absurd hletter (by decide)
    · rw [List.concat_eq_append, ← List.append_assoc] at hv
      obtain ⟨rfl, hcd⟩ := List.append_inj' hv rfl
      rw [peelFront_of_held (.inr (.inl (List.prefix_append _ _))), List.append_assoc,
        legalRest_placeholder, legalRest_placeholder]
      rw [List.append_assoc] at hend hmarker
      refine closed_append_char hc (fun h => hend ?_) (fun h => hmarker ?_)
      · exact h.trans (List.suffix_append _ _)
      · exact h.trans (List.suffix_append _ _)
  · exact absurd h hinter

/-- A remainder at which both passes stop is not legal, unless a mark at either end makes it an
expression. -/
theorem not_legalRest_of_stuck {t : List Char} (h : Held t) (hinter : ¬ interpolationStart <+: t)
    (hclosed : ¬ (placeholderStart <+: t ∧ placeholderEnd <:+ t))
    (hback : (∃ s c, t = s ++ [c] ∧ isLetter c = true) ∨ placeholderEnd <:+ t) :
    ¬ LegalRest t := by
  rcases h with ⟨d, u, hd, rfl⟩ | ⟨v, rfl⟩ | h
  · exact not_legalRest_of_letter hd
  · rw [legalRest_placeholder]
    rcases hback with ⟨s, c, hs, hc⟩ | hend
    · rcases List.eq_nil_or_concat v with rfl | ⟨v, d, rfl⟩
      · have hmem : c ∈ placeholderStart := by
          rw [List.append_nil] at hs
          simp [hs]
        simp only [placeholderStart, List.mem_cons, List.not_mem_nil, or_false, or_self] at hmem
        rw [hmem] at hc
        exact absurd hc (by decide)
      · rw [List.concat_eq_append, ← List.append_assoc] at hs
        obtain ⟨-, hdc⟩ := List.append_inj' hs rfl
        rw [List.concat_eq_append, hdc]
        exact not_closed_of_letter hc
    · exact absurd ⟨List.prefix_append _ _, hend⟩ hclosed
  · exact absurd h hinter

/-! ## The rules -/

/-- What the rules make of a text: one constructor for each, with what is known of the text
when the rule applies. -/
inductive Rule : List Char → Look → Prop
  | letterless {t : List Char} : (∀ c ∈ t, isLetter c = false) → Rule t .legal
  | placeholder (w : List Char) : Rule (placeholderStart ++ w ++ placeholderEnd) .legal
  | interpolation (s : List Char) : Rule (interpolationStart ++ s) .legal
  | frontMarker (s : List Char) : Rule (spaceMarker ++ s) (.peeled s)
  | backMarker (s : List Char) : Rule (s ++ spaceMarker) (.peeled s)
  | frontChar {c : Char} {s : List Char} : isLetter c = false → opensExpression (c :: s) = false →
      ¬ spaceMarker <+: c :: s → Rule (c :: s) (.peeled s)
  | backChar {s : List Char} {c : Char} : Held (s ++ [c]) → (∃ d ∈ s ++ [c], isLetter d = true) →
      isLetter c = false → ¬ placeholderEnd <:+ s ++ [c] → ¬ spaceMarker <:+ s ++ [c] →
      ¬ interpolationStart <+: s ++ [c] → Rule (s ++ [c]) (.peeled s)
  | stuck {t : List Char} : Held t → ¬ interpolationStart <+: t →
      ¬ (placeholderStart <+: t ∧ placeholderEnd <:+ t) →
      (∃ s c, t = s ++ [c] ∧ isLetter c = true) ∨ placeholderEnd <:+ t → Rule t .literal

/-- A text between the marks of a placeholder: they cannot overlap. -/
theorem exists_of_placeholder {t : List Char} (hs : placeholderStart <+: t)
    (he : placeholderEnd <:+ t) : ∃ w, t = placeholderStart ++ w ++ placeholderEnd := by
  obtain ⟨u, rfl⟩ := hs
  obtain ⟨v, hv⟩ := he
  rcases List.append_eq_append_iff.1 hv with ⟨a, ha, hb⟩ | ⟨a, rfl, hb⟩
  · cases a with
    | nil => exact ⟨[], by simpa using hb.symm⟩
    | cons d a =>
      obtain ⟨rfl, -⟩ := List.cons.inj hb
      have hmem : '}' ∈ placeholderStart := by simp [ha]
      exact absurd hmem (by decide)
  · exact ⟨a, by rw [hb, List.append_assoc]⟩

/-- Every look at a remainder is by one of the rules. -/
theorem rule_look (t : List Char) : Rule t (look t) := by
  unfold look
  simp only [List.isPrefixOf_iff_prefix, List.isSuffixOf_iff_suffix, Bool.and_eq_true]
  split
  · next h => exact .letterless (by simpa using h)
  next hletter =>
  split
  · next h =>
    obtain ⟨w, rfl⟩ := exists_of_placeholder h.1 h.2
    exact .placeholder w
  next hclosed =>
  split
  · next h =>
    obtain ⟨s, rfl⟩ := h
    exact .interpolation s
  next hinter =>
  split
  · next h =>
    obtain ⟨s, rfl⟩ := h
    rw [List.drop_left]
    exact .frontMarker s
  next hfront =>
  split
  · next h =>
    obtain ⟨s, rfl⟩ := h
    rw [List.length_append, Nat.add_sub_cancel, List.take_left]
    exact .backMarker s
  next hback =>
  have hletter : ∃ d ∈ t, isLetter d = true := by simpa using hletter
  have hne : t ≠ [] := by
    rintro rfl
    simp at hletter
  split
  · next h =>
    cases t with
    | nil => exact absurd rfl hne
    | cons c s =>
      simp only [List.head?_cons, Option.any_some, Bool.not_eq_true'] at h
      exact .frontChar h.1 h.2 hfront
  next hhead =>
  have hheld : Held t := by
    cases t with
    | nil => exact absurd rfl hne
    | cons c s =>
      rw [held_cons_iff, Bool.or_eq_true]
      by_cases hc : isLetter c = true
      · exact .inl hc
      · exact .inr (by simpa [hc] using hhead)
  rcases List.eq_nil_or_concat t with rfl | ⟨s, c, rfl⟩
  · exact absurd rfl hne
  rw [List.concat_eq_append] at *
  split
  · next h =>
    rw [List.dropLast_concat]
    have hc : isLetter c = false := by simpa using h.1
    have hend : ¬ placeholderEnd <:+ s ++ [c] := by
      intro hend
      rw [List.isSuffixOf_iff_suffix.2 hend] at h
      exact absurd h.2 (by decide)
    exact .backChar hheld hletter hc hend hback hinter
  · next h =>
    refine .stuck hheld hinter hclosed ?_
    by_cases hc : isLetter c = true
    · exact .inl ⟨s, c, rfl, hc⟩
    · exact .inr (by simpa [hc, List.isSuffixOf_iff_suffix] using h)

/-! ## A step keeps the verdict, and so does a run -/

/-- The verdict that the remainder of the front pass gives. -/
def Verdict (t : List Char) : Look → Prop
  | .legal => LegalRest (peelFront t)
  | .literal => ¬ LegalRest (peelFront t)
  | .peeled rest => LegalRest (peelFront t) ↔ LegalRest (peelFront rest)

/-- Whichever rule applies to a text, it agrees with the remainder of the front pass. -/
theorem Rule.verdict {t : List Char} {result : Look} (h : Rule t result) : Verdict t result := by
  cases h with
  | letterless hletter =>
    rcases peelFront_eq_nil_or_held t with hr | ⟨c, s, hc, hr⟩ | ⟨v, hr⟩ | hr
    · exact .inl hr
    · have hmem : c ∈ t := (peelFront_suffix t).subset (by simp [hr])
      rw [hletter c hmem] at hc
      cases hc
    · refine .inr (.inr ⟨v, .inl (padding_of_letterless fun c hc => hletter c ?_), hr.symm⟩)
      exact (peelFront_suffix t).subset (by simp [← hr, hc])
    · exact .inr (.inl hr)
  | placeholder w =>
    have hheld : Held (placeholderStart ++ w ++ placeholderEnd) :=
      .inr (.inl (by rw [List.append_assoc]; exact List.prefix_append _ _))
    show LegalRest _
    rw [peelFront_of_held hheld, List.append_assoc, legalRest_placeholder]
    exact .inr ⟨w, [], .nil, by simp⟩
  | interpolation s =>
    show LegalRest _
    rw [peelFront_of_held (.inr (.inr (List.prefix_append _ _)))]
    exact legalRest_interpolation s
  | frontMarker s =>
    show _ ↔ _
    rw [peelFront_marker]
  | backMarker s =>
    show _ ↔ _
    rw [peelFront_append_marker]
    rcases peelFront_eq_nil_or_held s with hr | hr
    · rw [if_pos hr, hr]
    · rw [if_neg hr.ne_nil]
      exact legalRest_append_marker hr
  | frontChar hc hopen hmarker =>
    show _ ↔ _
    rw [peelFront_char hc hopen hmarker]
  | backChar hheld hletter hc hend hmarker hinter =>
    show _ ↔ _
    rw [peelFront_of_held hheld]
    exact legalRest_append_char hheld hletter hc hend hmarker hinter
  | stuck hheld hinter hclosed hback =>
    show ¬ LegalRest _
    rw [peelFront_of_held hheld]
    exact not_legalRest_of_stuck hheld hinter hclosed hback

/-- A run of the rules ends with the verdict that the remainder of the front pass gives. -/
theorem isLegalList_iff (t : List Char) : isLegalList t = true ↔ LegalRest (peelFront t) := by
  fun_induction isLegalList t with
  | case1 t h =>
    have hv := (rule_look t).verdict
    rw [h] at hv
    exact ⟨fun _ => hv, fun _ => rfl⟩
  | case2 t h =>
    have hv := (rule_look t).verdict
    rw [h] at hv
    exact ⟨fun hfalse => (Bool.false_ne_true hfalse).elim, fun hlegal => absurd hlegal hv⟩
  | case3 t rest h ih =>
    have hv := (rule_look t).verdict
    rw [h] at hv
    exact ih.trans hv.symm

/-- The classifier decides the language of one pass from each end. A text is legal exactly when
the front pass leaves nothing, or an interpolation with whatever follows it, or the start of a
placeholder with nothing but padding after it or after an end of the placeholder. -/
theorem isLegal_iff_front_pass (t : String) :
    isLegal t = true ↔
      peelFront t.toList = [] ∨
      interpolationStart <+: peelFront t.toList ∨
      (∃ s, Padding s ∧ peelFront t.toList = placeholderStart ++ s) ∨
      ∃ w s, Padding s ∧
        peelFront t.toList = placeholderStart ++ w ++ placeholderEnd ++ s := by
  rw [isLegal, isLegalList_iff, LegalRest]
  refine or_congr_right (or_congr_right ⟨?_, ?_⟩)
  · rintro ⟨v, hv | ⟨w, s, hs, rfl⟩, hr⟩
    · exact .inl ⟨v, hv, hr⟩
    · exact .inr ⟨w, s, hs, by simpa [List.append_assoc] using hr⟩
  · rintro (⟨s, hs, hr⟩ | ⟨w, s, hs, hr⟩)
    · exact ⟨s, .inl hs, hr⟩
    · exact ⟨w ++ placeholderEnd ++ s, .inr ⟨w, s, hs, rfl⟩, by
        simpa [List.append_assoc] using hr⟩

end LocaleLint.Wording
