import LocaleLint.Proofs.Markup.Reading

/-!
# Markup as it is written

The ways in which texts, attributes and tags may be written, and how a reader takes each of
them back. A text may be written with any of its characters as a reference to a predefined
entity (`unescape_of_escaped`), a value in either quotation mark, and attributes with any
blanks before them (`ofTag_of_written`). A construct that is written out is read as one
token, whatever follows it (`reads_text` to `reads_end`).
-/

set_option autoImplicit false

namespace LocaleLint.Markup

/-! ## Escaped text -/

/-- A text and a way to write it: special characters stand as references to the predefined
entities, and other characters may. The quotation mark around the text is special too. -/
inductive Escaped (quote : Option Char) : List Char → List Char → Prop
  | nil : Escaped quote [] []
  | bare {c : Char} {s source : List Char} :
      c ≠ '<' → c ≠ '&' → some c ≠ quote → Escaped quote s source →
      Escaped quote (c :: s) (c :: source)
  | reference {c : Char} {name s source : List Char} :
      Reference.entity? name = some c → Escaped quote s source →
      Escaped quote (c :: s) ('&' :: name ++ ';' :: source)

/-- Whether a character may stand around the value of an attribute. -/
def IsQuotation (c : Char) : Prop :=
  c = '"' ∨ c = '\''

/-- Ways to write texts are joined to a way to write both. -/
theorem Escaped.append {quote : Option Char} {s s' source source' : List Char}
    (h : Escaped quote s source) (h' : Escaped quote s' source') :
    Escaped quote (s ++ s') (source ++ source') := by
  induction h with
  | nil => exact h'
  | bare hless hamp hquote _ ih => exact .bare hless hamp hquote ih
  | reference hname _ ih =>
    rw [List.append_assoc, List.cons_append]
    exact .reference hname ih

/-- The name of an entity goes on to its semicolon, stands for its character, and has neither a
quotation mark nor an angle bracket. -/
theorem entity_name {name : List Char} {c : Char} (h : Reference.entity? name = some c) :
    name.all Reference.continues = true ∧ (∀ start, Reference.resolve start name = .ok c) ∧
      '<' ∉ name ∧ '"' ∉ name ∧ '\'' ∉ name := by
  unfold Reference.entity? at h
  split at h
  case h_6 => cases h
  all_goals
    cases h
    exact ⟨by decide, fun _ => rfl, by decide, by decide, by decide⟩

/-- A special character does not stand in an escaped text. -/
theorem Escaped.not_mem {quote : Option Char} {s source : List Char} (h : Escaped quote s source)
    {c : Char} (hc : c = '<' ∨ IsQuotation c) (hspecial : c = '<' ∨ some c = quote) :
    c ∉ source := by
  induction h with
  | nil => exact List.not_mem_nil
  | @bare d s source hless hamp hquote _ ih =>
    have hne : c ≠ d := by
      rintro rfl
      exact hspecial.elim hless hquote
    simp [hne, ih]
  | @reference d name s source hname _ ih =>
    obtain ⟨-, -, hless, hdouble, hsingle⟩ := entity_name hname
    have hout : c ≠ '&' ∧ c ∉ name ∧ c ≠ ';' := by
      rcases hc with rfl | rfl | rfl
      · exact ⟨by decide, hless, by decide⟩
      · exact ⟨by decide, hdouble, by decide⟩
      · exact ⟨by decide, hsingle, by decide⟩
    simp [hout, ih]

/-- Every character can be written. -/
theorem exists_escaped_char {quote : Option Char} (hquote : ∀ c, some c = quote → IsQuotation c)
    (c : Char) : ∃ source, Escaped quote [c] source := by
  by_cases hentity : ∃ name, Reference.entity? name = some c
  · obtain ⟨name, hname⟩ := hentity
    exact ⟨_, .reference hname .nil⟩
  · refine ⟨[c], .bare ?_ ?_ ?_ .nil⟩
    · rintro rfl
      exact hentity ⟨['l', 't'], rfl⟩
    · rintro rfl
      exact hentity ⟨['a', 'm', 'p'], rfl⟩
    · intro hspecial
      rcases hquote c hspecial with rfl | rfl
      · exact hentity ⟨['q', 'u', 'o', 't'], rfl⟩
      · exact hentity ⟨['a', 'p', 'o', 's'], rfl⟩

/-- Every text can be written. -/
theorem exists_escaped {quote : Option Char} (hquote : ∀ c, some c = quote → IsQuotation c)
    (s : List Char) : ∃ source, Escaped quote s source := by
  induction s with
  | nil => exact ⟨[], .nil⟩
  | cons c s ih =>
    obtain ⟨first, hfirst⟩ := exists_escaped_char hquote c
    obtain ⟨source, hsource⟩ := ih
    exact ⟨first ++ source, hfirst.append hsource⟩

namespace Reference

/-- A written reference is replaced by the character for which it stands. -/
theorem replace_reference {total start : Nat} {done name s : List Char} {c : Char}
    (hname : name.all continues = true) (hresolve : resolve (start + 1) name = .ok c) :
    replace total start done ('&' :: name ++ ';' :: s) =
      replace total (start + 2 + Text.byteLength name) (c :: done) s := by
  have hgoes : ∀ d ∈ name, continues d = true := List.all_eq_true.1 hname
  have htake : (name ++ ';' :: s).takeWhile continues = name := by
    rw [List.takeWhile_append_of_pos hgoes, List.takeWhile_cons_of_neg (by decide), List.append_nil]
  have hdrop : (name ++ ';' :: s).dropWhile continues = ';' :: s := by
    rw [List.dropWhile_append_of_pos hgoes, List.dropWhile_cons_of_neg (by decide)]
  rw [List.cons_append, replace, if_pos rfl]
  split
  · next rest hrest =>
    obtain rfl : s = rest := by simpa [hdrop] using hrest
    simp only [htake, hresolve]
  · next hnone => exact absurd hdrop (hnone s)

/-- A text that is written with references is given back. -/
theorem replace_of_escaped {quote : Option Char} {s source : List Char}
    (h : Escaped quote s source) (total start : Nat) (done : List Char) :
    replace total start done source = .ok (done.reverse ++ s) := by
  induction h generalizing start done with
  | nil => simp [replace]
  | @bare c s source _ hamp _ _ ih =>
    rw [replace_bare hamp, ih, List.reverse_cons, List.append_assoc, List.singleton_append]
  | @reference c name s source hname _ ih =>
    obtain ⟨hgoes, hresolve, -⟩ := entity_name hname
    rw [replace_reference hgoes (hresolve _), ih, List.reverse_cons, List.append_assoc,
      List.singleton_append]

end Reference

/-- Whatever way a text is written, it is read back. -/
theorem unescape_of_escaped {quote : Option Char} {s source : List Char}
    (h : Escaped quote s source) : Reference.unescape source = .ok s :=
  Reference.replace_of_escaped h _ _ []

/-! ## Attributes -/

/-- Whether characters may be the name of an element or of an attribute: some characters, none of
which is a blank or has a meaning in a tag. -/
def IsName (name : List Char) : Prop :=
  name ≠ [] ∧ ∀ c ∈ name, Text.isMarkupBlank c = false ∧ ¬IsQuotation c ∧ c ∉ ['<', '>', '/', '=']

/-- Attributes and a way to write them: each after some blanks, with its value in either quotation
mark. -/
inductive WrittenAttributes : List Attribute → List Char → Prop
  | nil : WrittenAttributes [] []
  | cons {key value gap source rest : List Char} {quote : Char} {attributes : List Attribute} :
      gap ≠ [] → (∀ c ∈ gap, Text.isMarkupBlank c = true) → IsQuotation quote →
      Escaped (some quote) value source → WrittenAttributes attributes rest →
      WrittenAttributes (⟨key, value⟩ :: attributes)
        (gap ++ (key ++ '=' :: quote :: (source ++ quote :: rest)))

/-- All attributes can be written. -/
theorem exists_writtenAttributes (attributes : List Attribute) :
    ∃ source, WrittenAttributes attributes source := by
  induction attributes with
  | nil => exact ⟨[], .nil⟩
  | cons found attributes ih =>
    obtain ⟨rest, hrest⟩ := ih
    have hquote : ∀ c, some c = some '"' → IsQuotation c := fun c hc => .inl (Option.some.inj hc)
    obtain ⟨source, hsource⟩ := exists_escaped hquote found.value
    exact ⟨_, .cons (List.cons_ne_nil ' ' []) (List.forall_mem_singleton.2 rfl) (.inl rfl) hsource hrest⟩

namespace IsQuotation

variable {c : Char} (h : IsQuotation c)
include h

/-- A quotation mark is no blank. -/
theorem not_blank : Text.isMarkupBlank c = false := by
  rcases h with rfl | rfl <;> rfl

/-- A quotation mark is no slash. -/
theorem ne_slash : c ≠ '/' := by
  rcases h with rfl | rfl <;> decide

end IsQuotation

namespace Attribute

/-- Blanks are passed over up to the next character. -/
theorem skipBlanks_of_blank (offset : Nat) {gap : List Char} {c : Char} (rest : List Char)
    (hgap : ∀ d ∈ gap, Text.isMarkupBlank d = true) (hc : Text.isMarkupBlank c = false) :
    skipBlanks offset (gap ++ c :: rest) = (offset + Text.byteLength gap, c :: rest) := by
  have hstop : ¬Text.isMarkupBlank c = true := by simp [hc]
  rw [skipBlanks, List.takeWhile_append_of_pos hgap, List.dropWhile_append_of_pos hgap,
    List.takeWhile_cons_of_neg hstop, List.dropWhile_cons_of_neg hstop, List.append_nil]

/-- Where no blank stands none is passed over. -/
theorem skipBlanks_of_not_blank (offset : Nat) {c : Char} (rest : List Char)
    (hc : Text.isMarkupBlank c = false) : skipBlanks offset (c :: rest) = (offset, c :: rest) :=
  skipBlanks_of_blank offset rest (fun _ hd => absurd hd List.not_mem_nil) hc

/-- The value runs to the first quotation mark of its kind. -/
theorem quoted_of_written (offset : Nat) {quote : Char} {source rest : List Char}
    (hquote : IsQuotation quote) (hsource : quote ∉ source) :
    quoted offset (quote :: (source ++ quote :: rest)) =
      .ok (source, offset + 2 + Text.byteLength source, rest) := by
  have hgoes : ∀ c ∈ source, decide (c ≠ quote) = true := by
    intro c hc
    simpa using fun heq : c = quote => hsource (heq ▸ hc)
  have htake : (source ++ quote :: rest).takeWhile (· ≠ quote) = source := by
    rw [List.takeWhile_append_of_pos hgoes, List.takeWhile_cons_of_neg (by simp), List.append_nil]
  have hdrop : (source ++ quote :: rest).dropWhile (· ≠ quote) = quote :: rest := by
    rw [List.dropWhile_append_of_pos hgoes, List.dropWhile_cons_of_neg (by simp)]
  rw [quoted, if_pos (show quote = '"' ∨ quote = '\'' from hquote)]
  simp only [htake, hdrop]

/-- An attribute with a new key is cut off as it is written. -/
theorem cut_of_written {seen : List (List Char × Nat)} (start : Nat) {c quote : Char}
    {key source : List Char} (rest : List Char) (hkey : ∀ d ∈ key, inKey d = true)
    (hseen : c :: key ∉ seen.map Prod.fst) (hquote : IsQuotation quote) (hsource : quote ∉ source) :
    ∃ stop, cut seen start c (key ++ '=' :: quote :: (source ++ quote :: rest)) =
      .ok ⟨start, c :: key, source, stop, rest⟩ := by
  have hequals : ¬inKey '=' = true := by decide
  have hafter (offset : Nat) (tail : List Char) :
      afterEquals offset ('=' :: quote :: tail) = .ok (offset + 1, quote :: tail) := by
    have hfirst := skipBlanks_of_not_blank offset (quote :: tail)
      (by decide : Text.isMarkupBlank '=' = false)
    have hsecond := skipBlanks_of_not_blank (offset + 1) tail hquote.not_blank
    simp only [afterEquals, hfirst, hsecond]
  have hnew : earlier? seen (c :: key) = none := by
    refine List.lookup_eq_none_iff.2 fun entry hentry => ?_
    simpa using fun heq : c :: key = entry.1 => hseen (heq ▸ List.mem_map_of_mem hentry)
  simp only [cut, List.takeWhile_append_of_pos hkey, List.dropWhile_append_of_pos hkey,
    List.takeWhile_cons_of_neg hequals, List.dropWhile_cons_of_neg hequals, List.append_nil, hafter,
    hnew, quoted_of_written _ hquote hsource]
  exact ⟨_, rfl⟩

/-- An attribute that can be read comes after those that are found. -/
theorem readAll_of_cut {seen : List (List Char × Nat)} {found : List Attribute}
    {start begin : Nat} {s rest value : List Char} {c : Char} {result : Cut}
    (hblanks : skipBlanks start s = (begin, c :: rest)) (hcut : cut seen begin c rest = .ok result)
    (hvalue : Reference.unescape result.raw = .ok value) :
    readAll seen found start s =
      readAll ((result.key, begin) :: seen) (⟨result.key, value⟩ :: found) result.stop
        result.rest := by
  rw [readAll]
  split
  · next h => simp [hblanks] at h
  · next begin' c' rest' h =>
    obtain ⟨rfl, rfl, rfl⟩ : begin = begin' ∧ c = c' ∧ rest = rest' := by simpa [hblanks] using h
    split
    · next h => simp [hcut] at h
    · next result' h =>
      obtain rfl : result = result' := by simpa [hcut] using h
      rw [hvalue]

/-- Attributes with new keys are read as they are written. -/
theorem readAll_of_written {attributes : List Attribute} {source : List Char}
    (h : WrittenAttributes attributes source) (hnames : ∀ found ∈ attributes, IsName found.key)
    (hnodup : (attributes.map Attribute.key).Nodup) (seen : List (List Char × Nat))
    (hseen : ∀ found ∈ attributes, found.key ∉ seen.map Prod.fst) (found : List Attribute)
    (start : Nat) : readAll seen found start source = .ok (found.reverse ++ attributes) := by
  induction h generalizing seen found start with
  | nil => rw [readAll_nil, List.append_nil]
  | @cons key value gap source rest quote attributes _ hgap hquote hsource _ ih =>
    obtain ⟨hkey, hothers⟩ := List.forall_mem_cons.1 hnames
    obtain ⟨hnew, hapart⟩ := List.forall_mem_cons.1 hseen
    rw [List.map_cons, List.nodup_cons] at hnodup
    obtain ⟨c, key, rfl⟩ := List.exists_cons_of_ne_nil hkey.1
    have hblanks := skipBlanks_of_blank start (key ++ '=' :: quote :: (source ++ quote :: rest))
      hgap (hkey.2 c List.mem_cons_self).1
    have hgoes : ∀ d ∈ key, inKey d = true := by
      intro d hd
      obtain ⟨hblank, -, hplain⟩ := hkey.2 d (List.mem_cons_of_mem c hd)
      simp_all [inKey]
    have hend : quote ∉ source := hsource.not_mem (.inr hquote) (.inr rfl)
    obtain ⟨stop, hcut⟩ := cut_of_written (start + Text.byteLength gap) rest hgoes hnew
      hquote hend
    rw [List.cons_append, readAll_of_cut hblanks hcut (unescape_of_escaped hsource)]
    rw [ih hothers hnodup.2, List.reverse_cons, List.append_assoc, List.singleton_append]
    intro other hother
    rw [List.map_cons, List.mem_cons, not_or]
    exact ⟨fun heq => hnodup.1 (List.mem_map.2 ⟨other, hother, heq⟩), hapart other hother⟩

end Attribute

/-- Attributes with different names are those of the tag they are written in. -/
theorem ofTag_of_written {attributes : List Attribute} {name source : List Char}
    (h : WrittenAttributes attributes source) (hnames : ∀ found ∈ attributes, IsName found.key)
    (hnodup : (attributes.map Attribute.key).Nodup) :
    Attribute.ofTag ⟨name, source⟩ = .ok attributes :=
  Attribute.readAll_of_written h hnames hnodup [] (fun _ _ => List.not_mem_nil) [] _

/-! ## Tags -/

/-- Whether the search for the end of a tag goes on past `s`, and is outside quotations after it. -/
def Passes (s : List Char) : Prop :=
  ∀ passed rest, breakTag none passed (s ++ rest) = breakTag none (s.reverse ++ passed) rest

/-- The search for the end of a tag goes on past nothing. -/
theorem passes_nil : Passes [] :=
  fun _ _ => rfl

/-- A search that goes on past two texts goes on past both together. -/
theorem Passes.append {first second : List Char} (h : Passes first) (h' : Passes second) :
    Passes (first ++ second) := by
  intro passed rest
  rw [List.append_assoc, h, h', List.reverse_append, List.append_assoc]

/-- Characters that neither end a tag nor open a quotation are passed. -/
theorem passes_of_plain {s : List Char} (h : ∀ c ∈ s, c ≠ '>' ∧ ¬IsQuotation c) : Passes s := by
  induction s with
  | nil => exact passes_nil
  | cons c s ih =>
    obtain ⟨⟨hend, hquote⟩, hrest⟩ := List.forall_mem_cons.1 h
    intro passed rest
    have hstay : nextQuote none c = none := by
      simpa [nextQuote, IsQuotation] using hquote
    rw [List.cons_append, breakTag, if_neg (fun hc => hend hc.2), hstay, ih hrest, List.reverse_cons,
      List.append_assoc, List.singleton_append]

/-- A quotation runs to its quotation mark. -/
theorem breakTag_quotation {quote : Char} {source : List Char} (h : quote ∉ source)
    (passed rest : List Char) :
    breakTag (some quote) passed (source ++ quote :: rest) =
      breakTag none (quote :: (source.reverse ++ passed)) rest := by
  induction source generalizing passed with
  | nil => simp [breakTag, nextQuote]
  | cons c source ih =>
    rw [List.mem_cons, not_or] at h
    have hstay : nextQuote (some quote) c = some quote := by
      simp [nextQuote, Ne.symm h.1]
    rw [List.cons_append, breakTag, if_neg (by simp), hstay, ih h.2, List.reverse_cons,
      List.append_assoc, List.singleton_append]

/-- The search for the end of a tag goes on past a quoted value, whatever it holds. -/
theorem passes_of_quotation {quote : Char} {source : List Char} (hquote : IsQuotation quote)
    (h : quote ∉ source) : Passes (quote :: (source ++ [quote])) := by
  intro passed rest
  have hopens : nextQuote none quote = some quote := by
    rcases hquote with rfl | rfl <;> rfl
  have hne : quote ≠ '>' := by
    rcases hquote with rfl | rfl <;> decide
  rw [List.cons_append, List.append_assoc, List.singleton_append, breakTag,
    if_neg (fun hc => hne hc.2), hopens, breakTag_quotation h]
  simp

/-- The search for the end of a tag goes on past a name. -/
theorem IsName.passes {name : List Char} (h : IsName name) : Passes name := by
  refine passes_of_plain fun c hc => ?_
  obtain ⟨-, hquote, hplain⟩ := h.2 c hc
  refine ⟨?_, hquote⟩
  rintro rfl
  exact hplain (by decide)

/-- The search for the end of a tag goes on past its attributes. -/
theorem WrittenAttributes.passes {attributes : List Attribute} {source : List Char}
    (h : WrittenAttributes attributes source) (hnames : ∀ found ∈ attributes, IsName found.key) :
    Passes source := by
  induction h with
  | nil => exact passes_nil
  | @cons key value gap source rest quote attributes _ hgap hquote hsource _ ih =>
    obtain ⟨hkey, hothers⟩ := List.forall_mem_cons.1 hnames
    have hgap : Passes gap := by
      refine passes_of_plain fun c hc => ⟨?_, ?_⟩
      · rintro rfl
        exact absurd (hgap '>' hc) (by decide)
      · rintro (rfl | rfl)
        · exact absurd (hgap '"' hc) (by decide)
        · exact absurd (hgap '\'' hc) (by decide)
    have hequals : Passes ['='] := passes_of_plain (by simp [IsQuotation])
    have hvalue := passes_of_quotation hquote (hsource.not_mem (.inr hquote) (.inr rfl))
    have hall := hgap.append (hkey.passes.append (hequals.append (hvalue.append (ih hothers))))
    simpa using hall

/-- Written attributes do not end in a slash. -/
theorem WrittenAttributes.getLast_ne_slash {attributes : List Attribute} {source : List Char}
    (h : WrittenAttributes attributes source) {before : List Char}
    (hbefore : before.getLast? ≠ some '/') : (before ++ source).getLast? ≠ some '/' := by
  induction h generalizing before with
  | nil => rwa [List.append_nil]
  | @cons key value gap source rest quote attributes _ _ hquote _ _ ih =>
    have hlast : (before ++ gap ++ key ++ '=' :: quote :: source ++ [quote]).getLast? ≠ some '/' := by
      rw [List.getLast?_concat]
      exact fun heq => hquote.ne_slash (Option.some.inj heq)
    simpa using ih hlast

/-- The end of a tag is found after what is passed. -/
theorem Passes.breakTag_eq {s : List Char} (h : Passes s) (rest : List Char) :
    breakTag none [] (s ++ '>' :: rest) = some (s, rest) := by
  rw [h, breakTag, if_pos ⟨rfl, rfl⟩]
  simp

/-- Whether characters may be the name of an element: a name that does not open a declaration or
an instruction. -/
def IsTagName (name : List Char) : Prop :=
  IsName name ∧ name.head? ≠ some '!' ∧ name.head? ≠ some '?'

/-- A tag that opens with a name is read up to the end of what is passed. -/
theorem nextToken_of_name {name content : List Char} (hname : IsTagName name)
    (h : Passes (name ++ content)) (rest : List Char) :
    nextToken '<' (name ++ content ++ '>' :: rest) = .ok (.startTag (name ++ content), rest) := by
  obtain ⟨⟨hne, hplain⟩, hdeclaration, hinstruction⟩ := hname
  obtain ⟨c, name, rfl⟩ := List.exists_cons_of_ne_nil hne
  rw [nextToken, if_pos rfl, nextMarkup.eq_def]
  split
  · next heq => simp_all
  · next heq => simp_all
  · next heq =>
    obtain ⟨-, -, hslash⟩ := hplain c List.mem_cons_self
    simp_all
  · rw [h.breakTag_eq]
    rfl

/-- The name of a tag ends where its attributes start. -/
theorem tag_of_written {attributes : List Attribute} {name source : List Char}
    (hname : IsName name) (h : WrittenAttributes attributes source) :
    Tag.ofContent (name ++ source) = ⟨name, source⟩ := by
  have hgoes : ∀ c ∈ name, (!Text.isMarkupBlank c) = true := by
    intro c hc
    simp [(hname.2 c hc).1]
  rw [Tag.ofContent, List.takeWhile_append_of_pos hgoes, List.dropWhile_append_of_pos hgoes]
  cases h with
  | nil => simp
  | @cons key value gap source rest quote attributes hne hgap _ _ _ =>
    obtain ⟨blank, gap, rfl⟩ := List.exists_cons_of_ne_nil hne
    simp [hgap blank List.mem_cons_self]

/-- A name in an end tag is read as it stands, since no blank ends it. -/
theorem IsName.endName_eq {name : List Char} (h : IsName name) : endName name = name := by
  obtain ⟨c, hc⟩ := List.exists_mem_of_ne_nil name h.1
  have hsome : ¬name.all Text.isMarkupBlank = true := by
    intro hall
    have hblank := List.all_eq_true.1 hall c hc
    rw [(h.2 c hc).1] at hblank
    cases hblank
  have hkeep : name.reverse.dropWhile Text.isMarkupBlank = name.reverse := by
    cases hreverse : name.reverse with
    | nil => rfl
    | cons d rest =>
      have hd : d ∈ name := by
        rw [← List.mem_reverse, hreverse]
        exact List.mem_cons_self
      rw [List.dropWhile_cons_of_neg (by simp [(h.2 d hd).1])]
  rw [endName, if_neg hsome, hkeep, List.reverse_reverse]

/-- No name ends in a slash, so a tag that closes itself is told from others. -/
theorem IsName.getLast_ne_slash {name : List Char} (h : IsName name) :
    name.getLast? ≠ some '/' := by
  intro hlast
  exact (h.2 '/' (List.mem_of_getLast? hlast)).2.2 (by decide)

/-! ## Constructs that are read -/

section

variable {names : List (List Char)} {rest : List Char}

/-- Whether no text goes on where `rest` starts. -/
def EndsText (rest : List Char) : Prop :=
  ∀ c, rest.head? = some c → c = '<'

/-- A text is read up to the next angle bracket. -/
theorem reads_text {source : List Char} (hne : source ≠ []) (hplain : '<' ∉ source)
    (hrest : EndsText rest) : Reads ⟨source ++ rest, names⟩ [.text source] ⟨rest, names⟩ := by
  obtain ⟨c, source, rfl⟩ := List.exists_cons_of_ne_nil hne
  rw [List.mem_cons, not_or] at hplain
  have hgoes : ∀ d ∈ source, decide (d ≠ '<') = true := by
    intro d hd
    simpa using fun heq : d = '<' => hplain.2 (heq ▸ hd)
  have htake : rest.takeWhile (· ≠ '<') = [] ∧ rest.dropWhile (· ≠ '<') = rest := by
    cases rest with
    | nil => exact ⟨rfl, rfl⟩
    | cons d rest =>
      obtain rfl := hrest d rfl
      exact ⟨rfl, rfl⟩
  have hnext : nextToken c (source ++ rest) = .ok (.text (c :: source), rest) := by
    rw [nextToken, if_neg (Ne.symm hplain.1), List.takeWhile_append_of_pos hgoes,
      List.dropWhile_append_of_pos hgoes, htake.1, htake.2, List.append_nil]
  exact .event hnext rfl

/-- A mark of two like characters and an angle bracket is found where it first occurs. -/
theorem breakAt_of_not_infix {d : Char} (hd : d ≠ '>') {content : List Char}
    (h : ¬[d, d, '>'] <:+: content) (passed rest : List Char) :
    breakAt [d, d, '>'] passed (content ++ ([d, d, '>'] ++ rest)) =
      some (passed.reverse ++ content, rest) := by
  induction content generalizing passed with
  | nil => simp [breakAt]
  | cons c content ih =>
    -- a mark that starts in the content and ends in the mark after it has `>` where `d` stands
    have hnot : ¬[d, d, '>'].isPrefixOf (c :: (content ++ ([d, d, '>'] ++ rest))) = true := by
      intro hstarts
      rcases content with _ | ⟨second, _ | ⟨third, content⟩⟩
      · obtain ⟨-, hend⟩ : d = c ∧ '>' = d := by simpa using hstarts
        exact hd hend.symm
      · obtain ⟨-, -, hend⟩ : d = c ∧ d = second ∧ '>' = d := by simpa using hstarts
        exact hd hend.symm
      · obtain ⟨rfl, rfl, rfl⟩ : d = c ∧ d = second ∧ '>' = third := by simpa using hstarts
        exact h (List.IsPrefix.isInfix ⟨content, rfl⟩)
    have hrest := ih (fun hwithin => h (hwithin.trans (List.suffix_cons c content).isInfix))
      (c :: passed)
    rw [List.cons_append, breakAt, if_neg hnot, hrest, List.reverse_cons, List.append_assoc,
      List.singleton_append]

/-- A written section is read as one event. -/
theorem reads_cdata {content : List Char} (h : ¬[']', ']', '>'] <:+: content) :
    Reads ⟨['<', '!', '[', 'C', 'D', 'A', 'T', 'A', '['] ++ content ++ [']', ']', '>'] ++ rest,
      names⟩ [.cdata content] ⟨rest, names⟩ := by
  have hbreak := breakAt_of_not_infix (by decide) h [] rest
  have hnext : nextToken '<' (['!', '[', 'C', 'D', 'A', 'T', 'A', '['] ++
      (content ++ ([']', ']', '>'] ++ rest))) = .ok (.cdata content, rest) :=
    congrArg (delimited .cdata .unclosedCdata) hbreak
  rw [List.append_assoc, List.append_assoc]
  exact .event hnext rfl

/-- A written comment is read without an event. -/
theorem reads_comment {content : List Char} (h : ¬['-', '-', '>'] <:+: content) :
    Reads ⟨['<', '!', '-', '-'] ++ content ++ ['-', '-', '>'] ++ rest, names⟩ []
      ⟨rest, names⟩ := by
  have hbreak := breakAt_of_not_infix (by decide) h [] rest
  have hnext : nextToken '<' (['!', '-', '-'] ++ (content ++ (['-', '-', '>'] ++ rest))) =
      .ok (.comment content, rest) :=
    congrArg (delimited .comment .unclosedComment) hbreak
  rw [List.append_assoc, List.append_assoc]
  exact .dropped hnext rfl

section

variable {name source : List Char} {attributes : List Attribute}

/-- A start tag opens an element. -/
theorem reads_start (hname : IsTagName name) (h : WrittenAttributes attributes source)
    (hkeys : ∀ found ∈ attributes, IsName found.key) :
    Reads ⟨['<'] ++ name ++ source ++ ['>'] ++ rest, names⟩ [.start ⟨name, source⟩]
      ⟨rest, name :: names⟩ := by
  have hnext := nextToken_of_name hname (hname.1.passes.append (h.passes hkeys)) rest
  rw [List.append_assoc, List.append_assoc ['<'], List.append_assoc, List.singleton_append,
    List.singleton_append]
  refine .event hnext ?_
  rw [Events.ofToken, if_neg (h.getLast_ne_slash hname.1.getLast_ne_slash),
    tag_of_written hname.1 h]

/-- A tag with a slash at its end is an element without content. -/
theorem reads_empty (hname : IsTagName name) (h : WrittenAttributes attributes source)
    (hkeys : ∀ found ∈ attributes, IsName found.key) :
    Reads ⟨['<'] ++ name ++ source ++ ['/', '>'] ++ rest, names⟩ [.empty ⟨name, source⟩]
      ⟨rest, names⟩ := by
  have hslash : Passes ['/'] := passes_of_plain (by simp [IsQuotation])
  have hpasses := hname.1.passes.append ((h.passes hkeys).append hslash)
  have hnext := nextToken_of_name hname hpasses rest
  have hsplit : ['<'] ++ name ++ source ++ ['/', '>'] ++ rest =
      '<' :: (name ++ (source ++ ['/']) ++ '>' :: rest) := by
    simp
  rw [hsplit]
  refine .event hnext ?_
  rw [← List.append_assoc]
  rw [Events.ofToken, if_pos List.getLast?_concat, List.dropLast_concat, tag_of_written hname.1 h]

/-- An end tag closes the element of its name. -/
theorem reads_end (hname : IsName name) :
    Reads ⟨['<', '/'] ++ name ++ ['>'] ++ rest, name :: names⟩ [.stop] ⟨rest, names⟩ := by
  have hnext : nextToken '<' ('/' :: (name ++ '>' :: rest)) = .ok (.endTag name, rest) := by
    rw [nextToken, if_pos rfl, nextMarkup, hname.passes.breakTag_eq]
    rfl
  rw [List.append_assoc, List.append_assoc]
  refine .event hnext ?_
  rw [Events.ofToken, hname.endName_eq]
  exact if_pos rfl

end

end

end LocaleLint.Markup
