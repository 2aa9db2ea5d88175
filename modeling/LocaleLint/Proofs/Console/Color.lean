import LocaleLint.Console
import LocaleLint.Proofs.Json.Tokens

/-!
# Color in the listing

A styling sequence is an escape character, a bracket, digits and an `m`. Deleting these sequences
from a listing in color gives the listing without color (`erase_render`). The listing is made of
pieces of text, and only sequences are put around a piece (`Decorates`), so the pieces are taken one
by one: a sequence is skipped whole (`strip_sequence_append`), and of a text without escape
characters nothing is, though it may hold brackets, digits and letters next to a sequence
(`strip_append_of_not_mem`). For the same reason any other way of putting sequences around the
pieces would do.
-/

set_option autoImplicit false

namespace LocaleLint

namespace Styling

/-! ## Sequences -/

/-- The character that starts a sequence. -/
def escape : Char := '\x1b'

/-- Whether characters are a styling sequence. -/
def IsSequence (s : List Char) : Prop :=
  ∃ digits, digits ≠ [] ∧ (∀ c ∈ digits, Text.isDigit c = true) ∧
    s = escape :: '[' :: (digits ++ ['m'])

/-- What stands behind a sequence, if the characters start with one. -/
def skip? : List Char → Option (List Char)
  | c :: '[' :: s =>
    if c = escape ∧ s.takeWhile Text.isDigit ≠ [] ∧ (s.dropWhile Text.isDigit).head? = some 'm' then
      some (s.dropWhile Text.isDigit).tail
    else none
  | _ => none

/-- The sequences that are skipped are all styling sequences. -/
theorem skip?_eq_some_iff {s rest : List Char} :
    skip? s = some rest ↔ ∃ sequence, IsSequence sequence ∧ s = sequence ++ rest := by
  constructor
  · intro h
    unfold skip? at h
    split at h
    · next c s =>
      split at h
      · next hstarts =>
        obtain ⟨rfl, hdigits, hlast⟩ := hstarts
        obtain ⟨rest', hrest⟩ := List.head?_eq_some_iff.1 hlast
        rw [hrest, List.tail_cons] at h
        cases h
        refine ⟨_, ⟨s.takeWhile Text.isDigit, hdigits, fun c hc => ?_, rfl⟩, ?_⟩
        · exact List.all_eq_true.1 List.all_takeWhile c hc
        · simp [← hrest]
      · cases h
    · cases h
  · rintro ⟨_, ⟨digits, hne, hdigits, rfl⟩, rfl⟩
    -- The digits end at the `m`, so they are all that is taken.
    have htake : (digits ++ 'm' :: rest).takeWhile Text.isDigit = digits := by
      rw [List.takeWhile_append_of_pos hdigits, List.takeWhile_cons_of_neg (by decide),
        List.append_nil]
    have hdrop : (digits ++ 'm' :: rest).dropWhile Text.isDigit = 'm' :: rest := by
      rw [List.dropWhile_append_of_pos hdigits, List.dropWhile_cons_of_neg (by decide)]
    have hcut : escape :: '[' :: (digits ++ ['m']) ++ rest =
        escape :: '[' :: (digits ++ 'm' :: rest) := by
      rw [List.cons_append, List.cons_append, List.append_assoc, List.singleton_append]
    rw [hcut, skip?, htake, hdrop, if_pos ⟨rfl, hne, rfl⟩, List.tail_cons]

/-- Passing over a sequence leaves less to read. -/
theorem length_skip?_lt {s rest : List Char} (h : skip? s = some rest) : rest.length < s.length := by
  obtain ⟨_, ⟨digits, -, -, rfl⟩, rfl⟩ := skip?_eq_some_iff.1 h
  rw [List.length_append, List.length_cons]
  omega

/-- Characters without the sequences among them. -/
def strip (s : List Char) : List Char :=
  match s with
  | [] => []
  | c :: s =>
    match _h : skip? (c :: s) with
    | some rest => strip rest
    | none => c :: strip s
termination_by s.length
decreasing_by
  · exact length_skip?_lt _h
  · exact Nat.lt_succ_self _

/-- A text without the styling sequences in it. -/
def erase (text : String) : String :=
  String.ofList (strip text.toList)

/-- There is nothing to erase from the empty text. -/
theorem strip_nil : strip [] = [] := by
  rw [strip]

/-- A sequence in front is erased. -/
theorem strip_sequence_append {sequence : List Char} (h : IsSequence sequence) (s : List Char) :
    strip (sequence ++ s) = strip s := by
  have hskip : skip? (sequence ++ s) = some s := skip?_eq_some_iff.2 ⟨sequence, h, rfl⟩
  obtain ⟨digits, -, -, rfl⟩ := h
  rw [List.cons_append] at hskip ⊢
  rw [strip, hskip]

/-- Any number of sequences in front are erased. -/
theorem strip_flatten_append {sequences : List (List Char)} (h : ∀ s ∈ sequences, IsSequence s)
    (s : List Char) : strip (sequences.flatten ++ s) = strip s := by
  induction sequences with
  | nil => rfl
  | cons sequence rest ih =>
    obtain ⟨hsequence, hrest⟩ := List.forall_mem_cons.1 h
    rw [List.flatten_cons, List.append_assoc, strip_sequence_append hsequence, ih hrest]

/-- No sequence starts in a text without escape characters, and none goes on from it. -/
theorem strip_append_of_not_mem {text : List Char} (h : escape ∉ text) (s : List Char) :
    strip (text ++ s) = text ++ strip s := by
  induction text with
  | nil => rfl
  | cons c text ih =>
    rw [List.mem_cons, not_or] at h
    have hskip : skip? (c :: (text ++ s)) = none := by
      rw [Option.eq_none_iff_forall_ne_some]
      intro rest hrest
      obtain ⟨_, ⟨digits, -, -, rfl⟩, hs⟩ := skip?_eq_some_iff.1 hrest
      exact h.1 (List.cons.inj hs).1.symm
    rw [List.cons_append, strip, hskip]
    exact congrArg (c :: ·) (ih h.2)

/-! ## Pieces -/

/-- Whether a text has styling sequences before and behind it, and nothing else. -/
def Decorates (decorated text : String) : Prop :=
  ∃ before after : List (List Char), (∀ s ∈ before, IsSequence s) ∧ (∀ s ∈ after, IsSequence s) ∧
    decorated.toList = before.flatten ++ text.toList ++ after.flatten

/-- Of a decorated text in front the text alone is left. -/
theorem strip_append_of_decorates {decorated text : String} (h : Decorates decorated text)
    (hescape : escape ∉ text.toList) (s : List Char) :
    strip (decorated.toList ++ s) = text.toList ++ strip s := by
  obtain ⟨before, after, hbefore, hafter, hdecorated⟩ := h
  rw [hdecorated, List.append_assoc, List.append_assoc, strip_flatten_append hbefore,
    strip_append_of_not_mem hescape, strip_flatten_append hafter]

/-- However sequences are put around pieces of text, deleting them leaves the pieces. -/
theorem erase_join {paint : Span → String} (hpaint : ∀ span, Decorates (paint span) span.text)
    {spans : List Span} (h : ∀ span ∈ spans, escape ∉ span.text.toList) :
    erase (String.join (spans.map paint)) = String.join (spans.map Span.text) := by
  suffices hstrip : strip (String.join (spans.map paint)).toList =
      (String.join (spans.map Span.text)).toList by
    rw [erase, hstrip, String.ofList_toList]
  induction spans with
  | nil => exact strip_nil
  | cons span rest ih =>
    obtain ⟨hspan, hrest⟩ := List.forall_mem_cons.1 h
    rw [List.map_cons, String.join_cons, String.toList_append,
      strip_append_of_decorates (hpaint span) hspan, ih hrest, List.map_cons, String.join_cons,
      String.toList_append]

/-- What is written for a code is a styling sequence. -/
theorem isSequence_sequence (code : Nat) : IsSequence (Span.sequence code).toList := by
  refine ⟨(toString code).toList, ?_, fun c => Json.isDigit_of_mem_toString, ?_⟩
  · rw [Nat.toString_eq_ofList_toDigits, String.toList_ofList]
    exact Nat.toDigits_ne_nil
  · have hstart : "\x1b[".toList = [escape, '['] := rfl
    have hend : "m".toList = ['m'] := rfl
    rw [Span.sequence, String.toList_append, String.toList_append, hstart, hend]
    rfl

/-- A piece in color has the sequences of its styles before it and a reset behind it. -/
theorem decorates_colored (span : Span) : Decorates span.colored span.text := by
  rw [Span.colored]
  split
  · exact ⟨[], [], by simp, by simp, by simp⟩
  · refine ⟨span.styles.map fun style => (Span.sequence style.code).toList,
      [(Span.sequence 0).toList], ?_, ?_, ?_⟩
    · rw [List.forall_mem_map]
      exact fun style _ => isSequence_sequence style.code
    · rw [List.forall_mem_singleton]
      exact isSequence_sequence 0
    · rw [String.toList_append, String.toList_append, String.toList_join, List.flatMap_map,
        List.flatMap_def, List.flatten_singleton]

end Styling

/-! ## Listings -/

open Styling (escape)

/-- Texts without escape characters stay so when they are joined. -/
theorem escape_not_mem_append {first second : String} (hfirst : escape ∉ first.toList)
    (hsecond : escape ∉ second.toList) : escape ∉ (first ++ second).toList := by
  rw [String.toList_append, List.mem_append, not_or]
  exact ⟨hfirst, hsecond⟩

/-- A written number holds no escape character, since it is made of digits. -/
theorem escape_not_mem_toString (n : Nat) : escape ∉ (toString n).toList :=
  Json.not_mem_toString (by decide) n

/-- A line break is no escape character. -/
theorem escape_not_mem_break : escape ∉ "\n".toList := by
  decide

/-- Whether nothing that may be shown of a document holds an escape character. -/
structure ConsoleDocument.IsPlain (document : ConsoleDocument) : Prop where
  path : escape ∉ document.path.toList
  failures : ∀ text ∈ document.failures, escape ∉ text.toList
  loadError : ∀ error, document.loadError = some error → escape ∉ error.toList

namespace ConsoleDocument.IsPlain

variable {document : ConsoleDocument}

/-- The headline of a plain document brings no escape character with it. -/
theorem not_mem_headline (h : document.IsPlain) {text : String} (htext : escape ∉ text.toList) :
    ∀ span ∈ document.headline text, escape ∉ span.text.toList := by
  have hdash : escape ∉ " - ".toList := by decide
  simp only [headline, List.forall_mem_cons]
  exact ⟨h.path, hdash, htext, escape_not_mem_break, List.forall_mem_nil _⟩

/-- The load error of a plain document brings no escape character with it. -/
theorem not_mem_loadSpans (h : document.IsPlain) :
    ∀ span ∈ document.loadSpans, escape ∉ span.text.toList := by
  rw [loadSpans]
  split
  · next error herror =>
    have hcause : escape ∉ (">> " ++ error).toList :=
      escape_not_mem_append (by decide) (h.loadError error herror)
    rw [List.forall_mem_append]
    simp only [List.forall_mem_cons]
    exact ⟨h.not_mem_headline (by decide), hcause, escape_not_mem_break, List.forall_mem_nil _⟩
  · exact List.forall_mem_nil _

/-- The literal texts of a plain document bring no escape character with them. -/
theorem not_mem_failureSpans (h : document.IsPlain) :
    ∀ span ∈ document.failureSpans, escape ∉ span.text.toList := by
  rw [failureSpans]
  split
  · exact List.forall_mem_nil _
  · have hcount : escape ∉ (toString document.failures.length ++ " issue(s)").toList :=
      escape_not_mem_append (escape_not_mem_toString _) (by decide)
    rw [List.forall_mem_append, List.forall_mem_flatMap]
    refine ⟨h.not_mem_headline hcount, fun text htext => ?_⟩
    have hline : escape ∉ (text ++ "\n").toList :=
      escape_not_mem_append (h.failures text htext) escape_not_mem_break
    simp only [List.forall_mem_cons]
    exact ⟨by decide, by decide, hline, List.forall_mem_nil _⟩

/-- Nothing that is shown of a plain document holds an escape character. -/
theorem not_mem_spans (h : document.IsPlain) :
    ∀ span ∈ document.spans, escape ∉ span.text.toList := by
  rw [spans, List.forall_mem_append]
  exact ⟨h.not_mem_loadSpans, h.not_mem_failureSpans⟩

end ConsoleDocument.IsPlain

namespace ConsoleSummary

/-- The end of a listing holds no escape character, whatever was listed. -/
theorem not_mem_closingSpans (summary : ConsoleSummary) :
    ∀ span ∈ summary.closingSpans, escape ∉ span.text.toList := by
  rw [closingSpans]
  split
  · have hcount : escape ∉
        (toString summary.documentsFailed.val ++ " files have failed.").toList :=
      escape_not_mem_append (escape_not_mem_toString _) (by decide)
    have hhint : escape ∉ hint.toList := escape_not_mem_append (by decide) (by decide)
    simp only [List.forall_mem_cons]
    exact ⟨hcount, escape_not_mem_break, hhint, escape_not_mem_break, List.forall_mem_nil _⟩
  · simp only [List.forall_mem_cons]
    exact ⟨by decide, escape_not_mem_break, List.forall_mem_nil _⟩

/-- Escape characters in a listing come from the documents. -/
theorem not_mem_spans {summary : ConsoleSummary}
    (h : ∀ document ∈ summary.documents, document.IsPlain) :
    ∀ span ∈ summary.spans, escape ∉ span.text.toList := by
  rw [spans, List.forall_mem_append, List.forall_mem_flatMap]
  exact ⟨fun document hdocument => (h document hdocument).not_mem_spans,
    summary.not_mem_closingSpans⟩

/-- **Color only decorates.** If no path, literal text or load error holds an escape character, then
a listing without color holds none either, and it is what is left of the listing in color when
the styling sequences are deleted. This is so however sequences are put around the pieces. -/
theorem erase_render {summary : ConsoleSummary}
    (h : ∀ document ∈ summary.documents, document.IsPlain) :
    Styling.erase (summary.render true) = summary.render false ∧
      escape ∉ (summary.render false).toList ∧
      ∀ paint : Span → String, (∀ span, Styling.Decorates (paint span) span.text) →
        Styling.erase (String.join (summary.spans.map paint)) = summary.render false := by
  have hspans := not_mem_spans h
  refine ⟨Styling.erase_join Styling.decorates_colored hspans, ?_,
    fun paint hpaint => Styling.erase_join hpaint hspans⟩
  intro hescape
  rw [render, String.toList_join, List.mem_flatMap] at hescape
  obtain ⟨_, hpiece, hmem⟩ := hescape
  obtain ⟨span, hspan, rfl⟩ := List.mem_map.1 hpiece
  exact hspans span hspan hmem

/-- A listing of texts that look like the rest of a styling sequence, in its own colors and with
every piece inverted. -/
theorem erase_render_of_brackets :
    let document : ConsoleDocument := {
      path := "[31m.xml", failures := ["0m", "m[1"], loadError := some "[0m" }
    let summary : ConsoleSummary := { documents := [document] }
    let invert (span : Span) : String := Span.sequence 7 ++ span.text ++ Span.sequence 27
    (∀ document ∈ summary.documents, document.IsPlain) ∧
      (∀ span, Styling.Decorates (invert span) span.text) ∧
      escape ∈ (summary.render true).toList ∧ escape ∉ (summary.render false).toList ∧
      Styling.erase (summary.render true) = summary.render false ∧
      Styling.erase (String.join (summary.spans.map invert)) = summary.render false := by
  intro document summary invert
  have hplain : ∀ document ∈ summary.documents, document.IsPlain := by
    rw [List.forall_mem_singleton]
    exact ⟨by decide, by decide, by rintro _ ⟨rfl⟩; decide⟩
  have hinvert : ∀ span, Styling.Decorates (invert span) span.text := by
    intro span
    refine ⟨[(Span.sequence 7).toList], [(Span.sequence 27).toList], ?_, ?_, ?_⟩
    · simpa using Styling.isSequence_sequence 7
    · simpa using Styling.isSequence_sequence 27
    · simp [invert]
  obtain ⟨herase, hescape, hpaint⟩ := erase_render hplain
  exact ⟨hplain, hinvert, by decide +kernel, hescape, herase, hpaint invert hinvert⟩

end ConsoleSummary

end LocaleLint
