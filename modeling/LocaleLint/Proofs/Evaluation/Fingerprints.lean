import LocaleLint.Proofs.Evaluation.Options
import LocaleLint.Proofs.Json.Tokens
import LocaleLint.Proofs.Text.Utf8
import Mathlib.Data.List.Nodup

/-!
# Fingerprints

A literal text is known again by the digest of a line of bytes, in which a bar stands between its
check, its code, the path of its document, the text, and the number of equal texts before it. The
number holds no bar, and so the last bar of the line is told from all others: lines are the same
when the numbers are, and the paths and texts with the bar between them
(`TextIdentity.hashed_eq_iff`). Within a document this tells every two texts apart. Between
documents it does not: where a path goes on from another with a bar, what follows may be taken for the
start of a text (`TextIdentity.hashed_eq_iff_of_path_ne`).

The first main result `fingerprints_number_texts` is about the documents one by one: the texts of a
document have one fingerprint each, and these do not hang on the order of other texts. The
second one, `fingerprints_clash_iff`, says exactly which texts of different documents share the line
that is hashed, and `fingerprints_clash_across_documents` gives two such documents.
-/

set_option autoImplicit false

namespace LocaleLint

/-! ## Hexadecimal digits -/

namespace Digest

/-- Different values below sixteen are written as different digits. -/
theorem hexDigit_inj {m n : Nat} (hm : m < 16) (hn : n < 16)
    (h : Text.hexDigit m = Text.hexDigit n) : m = n := by
  have hvalue := Json.Token.hexValue?_hexDigit hm
  rw [h, Json.Token.hexValue?_hexDigit hn] at hvalue
  exact (Option.some.inj hvalue).symm

/-- A byte is known from its two digits. -/
theorem byte_eq_of_hexDigits {b b' : UInt8}
    (hhigh : Text.hexDigit (b.toNat / 16) = Text.hexDigit (b'.toNat / 16))
    (hlow : Text.hexDigit (b.toNat % 16) = Text.hexDigit (b'.toNat % 16)) : b = b' := by
  have hb := b.toNat_lt
  have hb' := b'.toNat_lt
  have hhigh := hexDigit_inj (by omega) (by omega) hhigh
  have hlow := hexDigit_inj (by omega) (by omega) hlow
  exact UInt8.toNat_inj.1 (by omega)

/-- Bytes are known from their digits. -/
theorem hex_inj {bytes bytes' : List UInt8} : hex bytes = hex bytes' ↔ bytes = bytes' := by
  refine ⟨fun h => ?_, congrArg hex⟩
  have hdigits := String.ofList_injective h
  clear h
  induction bytes generalizing bytes' with
  | nil =>
    cases bytes' with
    | nil => rfl
    | cons b' rest' => simp at hdigits
  | cons b rest ih =>
    cases bytes' with
    | nil => simp at hdigits
    | cons b' rest' =>
      simp only [List.flatMap_cons, List.cons_append, List.nil_append, List.cons.injEq] at hdigits
      obtain ⟨hhigh, hlow, hrest⟩ := hdigits
      rw [byte_eq_of_hexDigits hhigh hlow, ih hrest]

end Digest

namespace TextIdentity

/-! ## The line that is hashed -/

/-- The bytes whose digest is the fingerprint. -/
def hashed (identity : TextIdentity) : List UInt8 :=
  identity.canonical.toUTF8.toList

/-- Texts share a fingerprint exactly if what is hashed of them shares a digest. -/
theorem fingerprint_eq_iff {a b : TextIdentity} :
    a.fingerprint = b.fingerprint ↔
      Digest.Sha256.digest a.hashed = Digest.Sha256.digest b.hashed :=
  Digest.hex_inj

/-- The same is hashed of two texts exactly if their canonical lines are the same. -/
theorem hashed_inj {a b : TextIdentity} : a.hashed = b.hashed ↔ a.canonical = b.canonical := by
  refine ⟨fun h => ?_, fun h => by rw [hashed, hashed, h]⟩
  have hdecoded := congrArg Text.Utf8.decode h
  rw [hashed, hashed, Text.Utf8.decode_toUTF8, Text.Utf8.decode_toUTF8] at hdecoded
  exact String.ext (Except.ok.inj hdecoded)

/-- The path of a document and one of its texts, with a bar between them. -/
def place (identity : TextIdentity) : List Char :=
  identity.path.text.toList ++ '|' :: identity.text.toList

/-- The separator is one character. -/
theorem toList_bar : "|".toList = ['|'] := by
  decide +kernel

/-- The number of equal texts stands behind the last bar. -/
theorem toList_canonical (identity : TextIdentity) :
    identity.canonical.toList =
      "intl.untranslated_text|literal_text|".toList ++
        (identity.place ++ '|' :: Nat.toDigits 10 identity.occurrence) := by
  have hfront : "intl.untranslated_text|literal_text|".toList =
      CheckId.untranslatedText.toList ++ '|' :: (Code.literalText.toList ++ ['|']) := by
    decide +kernel
  have hnumber : (toString identity.occurrence).toList = Nat.toDigits 10 identity.occurrence := by
    rw [Nat.toString_eq_ofList_toDigits, String.toList_ofList]
  simp only [canonical, String.intercalate_cons_cons, String.intercalate_singleton,
    String.toList_append, toList_bar, hfront, hnumber, place, List.append_assoc,
    List.cons_append, List.nil_append]

/-- No number is written with a separator. -/
theorem bar_not_mem_toDigits (n : Nat) : '|' ∉ Nat.toDigits 10 n := by
  intro hmem
  have hdigit := Json.isDigit_of_mem_toDigits hmem
  exact absurd hdigit (by decide)

/-- Where two lists are joined with a bar, they are told apart by the last bar. -/
theorem append_bar_inj {s t u v : List Char} (hu : '|' ∉ u) (hv : '|' ∉ v)
    (h : s ++ '|' :: u = t ++ '|' :: v) : s = t ∧ u = v := by
  have hnone {between u v : List Char} (hu : '|' ∉ u)
      (h : '|' :: u = between ++ '|' :: v) : between = [] := by
    cases between with
    | nil => rfl
    | cons c between =>
      obtain ⟨-, rfl⟩ := List.cons.inj h
      exact absurd (List.mem_append_right between List.mem_cons_self) hu
  rcases List.append_eq_append_iff.1 h with ⟨between, rfl, huv⟩ | ⟨between, rfl, huv⟩
  · obtain rfl := hnone hu huv
    exact ⟨(List.append_nil s).symm, (List.cons.inj huv).2⟩
  · obtain rfl := hnone hv huv
    exact ⟨List.append_nil t, (List.cons.inj huv).2.symm⟩

/-- The same is hashed of two texts just when as many equal ones are before them and their places
are written alike. -/
theorem hashed_eq_iff {a b : TextIdentity} :
    a.hashed = b.hashed ↔ a.occurrence = b.occurrence ∧ a.place = b.place := by
  rw [hashed_inj, ← String.toList_inj, toList_canonical, toList_canonical,
    List.append_cancel_left_eq]
  constructor
  · intro h
    obtain ⟨hplace, hdigits⟩ :=
      append_bar_inj (bar_not_mem_toDigits _) (bar_not_mem_toDigits _) h
    have hvalue := congrArg Text.decimalValue hdigits
    rw [Json.decimalValue_toDigits, Json.decimalValue_toDigits] at hvalue
    exact ⟨hvalue, hplace⟩
  · rintro ⟨hoccurrence, hplace⟩
    rw [hoccurrence, hplace]

/-- Within a document, texts are told apart by what is hashed, whatever is in them. -/
theorem hashed_eq_iff_of_path_eq {a b : TextIdentity} (hpath : a.path = b.path) :
    a.hashed = b.hashed ↔ a = b := by
  rw [hashed_eq_iff]
  constructor
  · rintro ⟨hoccurrence, hplace⟩
    rw [place, place, hpath] at hplace
    have htext := (List.cons.inj (List.append_cancel_left hplace)).2
    obtain ⟨path, text, occurrence⟩ := a
    obtain ⟨path', text', occurrence'⟩ := b
    simp only at hpath hoccurrence htext
    rw [hpath, hoccurrence, String.toList_inj.1 htext]
  · rintro rfl
    exact ⟨rfl, rfl⟩

/-- Whether the path of `b` goes on from that of `a` with a bar, and the text of `a` starts with the
rest of it, with a bar and the text of `b` behind. -/
def RunsInto (a b : TextIdentity) : Prop :=
  ∃ between : String, b.path.text = a.path.text ++ "|" ++ between ∧
    a.text = between ++ "|" ++ b.text

/-- Where one text runs into another there is a separator in a path. -/
theorem RunsInto.bar_mem {a b : TextIdentity} (h : a.RunsInto b) : '|' ∈ b.path.text.toList := by
  obtain ⟨between, hpath, -⟩ := h
  simp [hpath, toList_bar]

/-- Where one text runs into another, path and text cannot be told apart once they are joined. -/
theorem RunsInto.place_eq {a b : TextIdentity} (h : a.RunsInto b) : a.place = b.place := by
  obtain ⟨between, hpath, htext⟩ := h
  simp [place, hpath, htext, toList_bar]

/-- Where places are written alike, what the longer path has more starts with the bar that ends the
shorter one. -/
theorem runsInto_of_append {a b : TextIdentity} (hne : a.path ≠ b.path) {more : List Char}
    (hpath : b.path.text.toList = a.path.text.toList ++ more)
    (hmore : '|' :: a.text.toList = more ++ '|' :: b.text.toList) : a.RunsInto b := by
  cases more with
  | nil =>
    obtain ⟨⟨path⟩, text, occurrence⟩ := a
    obtain ⟨⟨path'⟩, text', occurrence'⟩ := b
    rw [List.append_nil] at hpath
    exact absurd (congrArg RepoPath.mk (String.toList_inj.1 hpath.symm)) hne
  | cons c between =>
    obtain ⟨rfl, htext⟩ := List.cons.inj hmore
    refine ⟨String.ofList between, String.ext ?_, String.ext ?_⟩
    · simp [hpath, toList_bar]
    · simp [htext, toList_bar]

/-- Between documents, texts are not told apart just when the path of one runs into a text of the
other. -/
theorem hashed_eq_iff_of_path_ne {a b : TextIdentity} (hpath : a.path ≠ b.path) :
    a.hashed = b.hashed ↔ a.occurrence = b.occurrence ∧ (a.RunsInto b ∨ b.RunsInto a) := by
  rw [hashed_eq_iff]
  refine and_congr_right fun _ => ⟨fun h => ?_, fun h => ?_⟩
  · rcases List.append_eq_append_iff.1 h with ⟨more, hb, hmore⟩ | ⟨more, ha, hmore⟩
    · exact .inl (runsInto_of_append hpath hb hmore)
    · exact .inr (runsInto_of_append hpath.symm ha hmore)
  · rcases h with h | h
    · exact h.place_eq
    · exact h.place_eq.symm

/-! ## Equal texts of a document -/

/-- Where `seen` counts the texts `earlier`, the texts equal to one are numbered from those in
`earlier` on. -/
theorem filter_ofTextsAfter (path : RepoPath) {earlier : List String} {seen : List (String × Nat)}
    (hseen : ∀ text, (Entries.get? seen text).getD 0 = earlier.count text) (texts : List String)
    (text : String) :
    (ofTextsAfter path seen texts).filter (·.text = text) =
      (List.range' (earlier.count text) (texts.count text)).map fun k => ⟨path, text, k⟩ := by
  induction texts generalizing earlier seen with
  | nil => rfl
  | cons first rest ih =>
    have hrest := ih (counts_put hseen first)
    rw [ofTextsAfter, hseen, List.filter_cons, hrest, List.count_append, List.count_cons]
    by_cases h : first = text
    · subst h
      simp [List.range'_succ]
    · simp [h]

/-- The texts equal to one are numbered from zero on, whatever stands between them. -/
theorem filter_ofTexts (path : RepoPath) (texts : List String) (text : String) :
    (ofTexts path texts).filter (·.text = text) =
      (List.range (texts.count text)).map fun k => ⟨path, text, k⟩ := by
  rw [ofTexts, filter_ofTextsAfter path counts_nil, List.range_eq_range', List.count_nil]

/-- The numbered texts are the same, up to order, when the texts are. -/
theorem ofTexts_perm (path : RepoPath) {texts texts' : List String} (h : texts.Perm texts') :
    (ofTexts path texts).Perm (ofTexts path texts') := by
  rw [List.perm_ext_iff_of_nodup (nodup_ofTexts path texts) (nodup_ofTexts path texts')]
  intro identity
  rw [mem_ofTexts, mem_ofTexts, h.count_eq]

/-- Something else is hashed for each text of a document. -/
theorem nodup_hashed_ofTexts (path : RepoPath) (texts : List String) :
    ((ofTexts path texts).map hashed).Nodup := by
  apply List.Nodup.map_on _ (nodup_ofTexts path texts)
  intro a ha b hb h
  have hpath : a.path = b.path := by rw [(mem_ofTexts.1 ha).1, (mem_ofTexts.1 hb).1]
  exact (hashed_eq_iff_of_path_eq hpath).1 h

end TextIdentity

/-! ## What findings show -/

/-- What a finding shows of a text: the path of the document, the text and the fingerprint. -/
def Finding.shown (finding : Finding) : Option RepoPath × Option String × Option String :=
  (finding.location.map (·.path), finding.text?, finding.fingerprint)

/-- What a finding about a text has to show. -/
def TextIdentity.shown (identity : TextIdentity) : Option RepoPath × Option String × Option String :=
  (some identity.path, some identity.text, some identity.fingerprint)

namespace Outcome

/-- The texts of a document, each with the number of equal ones before it. -/
def identities (outcome : Outcome) : List TextIdentity :=
  TextIdentity.ofTexts outcome.path outcome.failures

/-- A finding about a text shows what it has to. -/
theorem shown_textFinding {outcome : Outcome} {identity : TextIdentity}
    (h : identity.path = outcome.path) : (outcome.textFinding identity).shown = identity.shown := by
  rw [Finding.shown, TextIdentity.shown, text?_textFinding, h]
  rfl

/-- The findings about the texts of a document show these in order. -/
theorem map_shown_textFindings (outcome : Outcome) :
    outcome.textFindings.map Finding.shown = outcome.identities.map TextIdentity.shown := by
  rw [textFindings, List.map_map]
  apply List.map_congr_left
  intro identity hmem
  exact shown_textFinding (TextIdentity.mem_ofTexts.1 hmem).1

/-- The fingerprints of the texts of a document, in order. -/
def fingerprints (outcome : Outcome) : List (Option String) :=
  outcome.textFindings.map (·.fingerprint)

/-- The fingerprints of the texts of a document that are equal to `text`, in order. -/
def fingerprintsOf (outcome : Outcome) (text : String) : List (Option String) :=
  (outcome.textFindings.filter (·.text? = some text)).map (·.fingerprint)

/-- The fingerprints are the same, up to order, when the texts of a document are. -/
theorem fingerprints_perm {outcome outcome' : Outcome} (hpath : outcome.path = outcome'.path)
    (h : outcome.failures.Perm outcome'.failures) :
    outcome.fingerprints.Perm outcome'.fingerprints := by
  have hperm := TextIdentity.ofTexts_perm outcome.path h
  rw [fingerprints, fingerprints, textFindings, textFindings, List.map_map, List.map_map, ← hpath]
  exact hperm.map fun identity => some identity.fingerprint

/-- The fingerprints of equal texts hang on the path, the text and the number of them alone. -/
theorem fingerprintsOf_eq (outcome : Outcome) (text : String) :
    outcome.fingerprintsOf text = (List.range (outcome.failures.count text)).map fun k =>
      some (TextIdentity.fingerprint ⟨outcome.path, text, k⟩) := by
  have hfilter : outcome.textFindings.filter (·.text? = some text) =
      (outcome.identities.filter (·.text = text)).map outcome.textFinding := by
    rw [textFindings, List.filter_map]
    apply congrArg
    apply List.filter_congr
    intro identity _
    simp [text?_textFinding]
  rw [fingerprintsOf, hfilter, identities, TextIdentity.filter_ofTexts, List.map_map, List.map_map]
  rfl

/-- More of equal texts have the fingerprints of fewer, and more behind them. -/
theorem fingerprintsOf_of_count_le {outcome outcome' : Outcome} (hpath : outcome.path = outcome'.path)
    {text : String} (h : outcome.failures.count text ≤ outcome'.failures.count text) :
    outcome.fingerprintsOf text <+: outcome'.fingerprintsOf text := by
  rw [fingerprintsOf_eq, fingerprintsOf_eq, hpath]
  apply List.IsPrefix.map
  obtain ⟨more, hmore⟩ := Nat.exists_eq_add_of_le h
  rw [hmore, List.range_add]
  exact List.prefix_append _ _

/-- Whether all fingerprints of one document are those of another one, too: those of equal texts
come first among those of the texts equal to them there, and alone if there are no more of these. -/
def KeptBy (outcome outcome' : Outcome) : Prop :=
  ∀ text, outcome.fingerprintsOf text <+: outcome'.fingerprintsOf text ∧
    (outcome.failures.count text = outcome'.failures.count text →
      outcome.fingerprintsOf text = outcome'.fingerprintsOf text)

/-- Texts that come in between leave all fingerprints of the others in place. -/
theorem keptBy_of_sublist {outcome outcome' : Outcome} (hpath : outcome.path = outcome'.path)
    (h : outcome.failures.Sublist outcome'.failures) : outcome.KeptBy outcome' := by
  intro text
  refine ⟨fingerprintsOf_of_count_le hpath (h.count_le text), fun hcount => ?_⟩
  rw [fingerprintsOf_eq, fingerprintsOf_eq, hpath, hcount]

end Outcome

/-- The findings about literal texts among those about a document. -/
theorem Document.filter_literalText (options : CollectOptions) (document : Document) :
    (document.findings options).filter (·.code = Code.literalText) =
      (document.outcome options).textFindings := by
  have hfailure : (document.failure.map (failureFinding document.path)).toList.filter
      (·.code = Code.literalText) = [] := by
    rw [List.filter_eq_nil_iff]
    intro finding hfinding
    obtain ⟨⟨kind, message, line, column⟩, -, rfl⟩ : ∃ failure, document.failure = some failure ∧
        failureFinding document.path failure = finding := by simpa using hfinding
    cases kind with
    | read => exact of_decide_eq_false rfl
    | parse => exact of_decide_eq_false rfl
  have htexts : (document.outcome options).textFindings.filter (·.code = Code.literalText) =
      (document.outcome options).textFindings := by
    rw [List.filter_eq_self]
    intro finding hfinding
    obtain ⟨identity, -, rfl⟩ := List.mem_map.1 hfinding
    exact of_decide_eq_true rfl
  rw [findings_eq, List.filter_append, hfailure, List.nil_append]
  exact htexts

namespace Batch

/-- The literal texts of a batch, each with the number of equal ones before it in its document. -/
def identities (options : CollectOptions) (batch : Batch) : List TextIdentity :=
  batch.documents.flatMap fun document => (document.outcome options).identities

/-- The findings of a batch about literal texts show these in order. -/
theorem map_shown_literalText (options : CollectOptions) (batch : Batch) :
    ((batch.findings options).filter (·.code = Code.literalText)).map Finding.shown =
      (batch.identities options).map TextIdentity.shown := by
  rw [findings, identities, List.filter_flatMap, List.map_flatMap, List.map_flatMap]
  simp only [Document.filter_literalText, Outcome.map_shown_textFindings]

end Batch

/-! ## One document -/

/-- The findings about a document show its literal texts with the digests of what identifies them:
each text with each number below that of the texts equal to it, once, in the order of the texts.
What is hashed of any two of them differs. In another order, the same texts have the same
fingerprints; and they keep these when other texts are put between them, be it in the list of
literal texts or in the document. -/
theorem fingerprints_number_texts :
    (∀ outcome : Outcome,
      outcome.textFindings.map Finding.shown = outcome.identities.map TextIdentity.shown ∧
      outcome.fingerprints = outcome.identities.map (fun identity =>
        some (Digest.hex (Digest.Sha256.digest identity.hashed))) ∧
      outcome.identities = outcome.failures.mapIdx (fun i text =>
        ⟨outcome.path, text, (outcome.failures.take i).count text⟩) ∧
      outcome.identities.Nodup ∧
      (∀ identity, identity ∈ outcome.identities ↔ identity.path = outcome.path ∧
        identity.text ∈ outcome.failures ∧
        identity.occurrence < outcome.failures.count identity.text) ∧
      (outcome.identities.map TextIdentity.hashed).Nodup) ∧
    (∀ outcome outcome' : Outcome, outcome.path = outcome'.path →
      (outcome.failures.Perm outcome'.failures →
        outcome.fingerprints.Perm outcome'.fingerprints) ∧
      (outcome.failures.Sublist outcome'.failures → outcome.KeptBy outcome')) ∧
    ∀ (options : CollectOptions) (document document' : Document), document.path = document'.path →
      (document.tree.collectLeaves options).Sublist (document'.tree.collectLeaves options) →
        (document.outcome options).KeptBy (document'.outcome options) := by
  refine ⟨fun outcome => ⟨outcome.map_shown_textFindings, ?_, ?_, ?_, fun identity => ?_, ?_⟩,
    fun outcome outcome' hpath => ⟨?_, ?_⟩, fun options document document' hpath h => ?_⟩
  · rw [Outcome.fingerprints, Outcome.textFindings, List.map_map]
    rfl
  · exact TextIdentity.ofTexts_eq_mapIdx outcome.path outcome.failures
  · exact TextIdentity.nodup_ofTexts outcome.path outcome.failures
  · rw [Outcome.identities, TextIdentity.mem_ofTexts]
    refine and_congr_right fun _ => ⟨fun hbelow => ⟨?_, hbelow⟩, And.right⟩
    exact List.count_pos_iff.1 (Nat.zero_lt_of_lt hbelow)
  · exact TextIdentity.nodup_hashed_ofTexts outcome.path outcome.failures
  · exact Outcome.fingerprints_perm hpath
  · exact Outcome.keptBy_of_sublist hpath
  · exact Outcome.keptBy_of_sublist hpath (literalTexts_sublist h)

/-- Two equal texts with a bar and a number in them are swapped with a third, and a fourth is put
between them. -/
theorem fingerprints_number_texts_of_imitation :
    let outcome : Outcome := ⟨⟨"a.xml"⟩, "ui", 3, ["Hi|0", "Hi", "Hi|0"], none⟩
    let swapped : Outcome := { outcome with failures := ["Hi", "Hi|0", "Hi|0"] }
    let filled : Outcome := { outcome with failures := ["Hi|0", "Bye", "Hi", "Hi|0"] }
    let page : Document := {
      path := ⟨"a.xml"⟩, target := "ui", tree := .sequence [.leaf "Hi", .leaf "Hi"] }
    let fuller : Document := { page with tree := .sequence [.leaf "Hi", .leaf "Ok", .leaf "Hi"] }
    outcome.fingerprints.Perm swapped.fingerprints ∧
      outcome.fingerprintsOf "Hi|0" = filled.fingerprintsOf "Hi|0" ∧
      (outcome.identities.map TextIdentity.hashed).Nodup ∧
      (page.outcome {}).KeptBy (fuller.outcome {}) := by
  intro outcome swapped filled page fuller
  obtain ⟨hone, htwo, hdocument⟩ := fingerprints_number_texts
  have hswapped := (htwo outcome swapped rfl).1 (List.Perm.swap _ _ _)
  have hfilled := (htwo outcome filled rfl).2 (by decide) "Hi|0"
  have htexts : (page.tree.collectLeaves {}).Sublist (fuller.tree.collectLeaves {}) := by
    decide +kernel
  exact ⟨hswapped, hfilled.2 (by decide), (hone outcome).2.2.2.2.2,
    hdocument {} page fuller rfl htexts⟩

/-! ## Different documents -/

/-- The findings of a run about literal texts show the literal texts of the batch, as far as the
limit goes. The same is hashed of texts of two documents just when as many equal texts are before
them and the path of one document runs into the text of the other, for which there must be a bar in
a path. Fingerprints are equal just when the digests of what is hashed are. -/
theorem fingerprints_clash_iff (policy : Policy) (batch : Batch) :
    (((batch.evaluate policy).findings.filter (·.code = Code.literalText)).map Finding.shown <+:
      (batch.identities policy.collect).map TextIdentity.shown) ∧
    ∀ a b : TextIdentity, a.path ≠ b.path →
      (a.hashed = b.hashed ↔ a.occurrence = b.occurrence ∧ (a.RunsInto b ∨ b.RunsInto a)) ∧
      (a.fingerprint = b.fingerprint ↔
        Digest.Sha256.digest a.hashed = Digest.Sha256.digest b.hashed) ∧
      ('|' ∉ a.path.text.toList → '|' ∉ b.path.text.toList → a.hashed ≠ b.hashed) := by
  refine ⟨?_, fun a b hpath => ⟨TextIdentity.hashed_eq_iff_of_path_ne hpath,
    TextIdentity.fingerprint_eq_iff, fun ha hb h => ?_⟩⟩
  · rw [Batch.findings_evaluate, ← Batch.map_shown_literalText]
    exact ((List.take_prefix _ _).filter _).map _
  · rcases ((TextIdentity.hashed_eq_iff_of_path_ne hpath).1 h).2 with hruns | hruns
    · exact hb hruns.bar_mem
    · exact ha hruns.bar_mem

/-- Equal texts of two documents without a bar in their paths. -/
theorem fingerprints_clash_iff_of_plain_paths :
    let a : TextIdentity := ⟨⟨"a.xml"⟩, "b.xml|Hello", 0⟩
    let b : TextIdentity := ⟨⟨"b.xml"⟩, "b.xml|Hello", 0⟩
    a.path ≠ b.path ∧ a.hashed ≠ b.hashed ∧ a.fingerprint ≠ b.fingerprint := by
  intro a b
  have hpath : a.path ≠ b.path := by decide
  obtain ⟨-, hfingerprint, hbars⟩ := (fingerprints_clash_iff {} ⟨⟨"."⟩, [], []⟩).2 a b hpath
  refine ⟨hpath, hbars (by decide) (by decide), fun h => ?_⟩
  have hdigest := hfingerprint.1 h
  exact absurd hdigest (by decide +kernel)

/-- Two documents of one run, the path of one of which runs into the text of the other: their
findings have the same fingerprint. -/
theorem fingerprints_clash_across_documents :
    let first : Document := {
      path := ⟨"a.xml"⟩, target := "ui", tree := .mapping [("a", .leaf "b.xml|Hello")] }
    let second : Document := {
      path := ⟨"a.xml|b.xml"⟩, target := "ui", tree := .mapping [("a", .leaf "Hello")] }
    let batch : Batch := ⟨⟨"."⟩, ["ui"], [first, second]⟩
    let a : TextIdentity := ⟨first.path, "b.xml|Hello", 0⟩
    let b : TextIdentity := ⟨second.path, "Hello", 0⟩
    ((batch.evaluate {}).findings.filter (·.code = Code.literalText)).map Finding.shown =
        [a.shown, b.shown] ∧
      first.path ≠ second.path ∧ a.hashed = b.hashed ∧ a.fingerprint = b.fingerprint := by
  intro first second batch a b
  have hruns : a.RunsInto b := ⟨"b.xml", by decide +kernel, by decide +kernel⟩
  have hhashed : a.hashed = b.hashed := TextIdentity.hashed_eq_iff.2 ⟨rfl, hruns.place_eq⟩
  have hfingerprint : a.fingerprint = b.fingerprint := by
    rw [TextIdentity.fingerprint_eq_iff, hhashed]
  have hall : (batch.findings {}).length ≤ 1000 := by decide +kernel
  have hidentities : batch.identities {} = [a, b] := by decide +kernel
  refine ⟨?_, by decide, hhashed, hfingerprint⟩
  rw [Batch.findings_evaluate, List.take_of_length_le hall, Batch.map_shown_literalText, hidentities]
  rfl

end LocaleLint
