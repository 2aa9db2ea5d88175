import LocaleLint.CommandLine.Run
import LocaleLint.Proofs.Evaluation.Findings
import LocaleLint.Proofs.FileTree.Walk
import LocaleLint.Proofs.Json.Structure
import LocaleLint.Proofs.Text.Utf8

/-!
# Saved reports

A report is saved as the bytes of a text and read back unchanged (`Report.saved_report_reads_back`).
The text is that of a value with members in the order in which they were written; what is parsed has
them in the order of their keys, which no structure minds (`Tool.shape_canonical` and its like).
Only the data of a finding are read as they stand, so these have to be sorted already. The values nest
few levels deep, and far fewer than a reader allows (`Report.Saveable.plain_toJson`).
-/

set_option autoImplicit false

namespace LocaleLint

open Json (Shape Structure Fields Plain)

/-! ## The parts of a report -/

/-- A verdict is read from its name. -/
theorem Verdict.shape_name (verdict : Verdict) :
    Verdict.shape (.string verdict.name) = .ok verdict := by
  cases verdict <;> decide +kernel

/-- A severity is read from its name. -/
theorem Severity.shape_name (severity : Severity) :
    Severity.shape (.string severity.name) = .ok severity := by
  cases severity <;> decide +kernel

/-- A time is read from its text if the text is that of a time. -/
theorem Timestamp.shape_text {timestamp : Timestamp}
    (h : Timestamp.parse timestamp.text = .ok timestamp) :
    Timestamp.shape (.string timestamp.text) = .ok timestamp := by
  rw [Timestamp.shape, h]
  rfl

/-- A path is read from its text. -/
theorem RepoPath.shape_text (path : RepoPath) : RepoPath.shape (.string path.text) = .ok path :=
  rfl

/-- A written tool is plain and one deep. -/
theorem Tool.plain_toJson (depth : Nat) (tool : Tool) : Plain (depth + 1) tool.toJson := by
  apply Plain.object
  simp only [List.forall_mem_cons]
  exact ⟨.string _, .string _, by simp⟩

/-- A tool is read back. -/
theorem Tool.shape_canonical (tool : Tool) : Tool.layout.shape tool.toJson.canonical = .ok tool := by
  have hvalue : tool.toJson.canonical = .object (Entries.sorted
      [("name", .string tool.name), ("version", .string tool.version)]) := by
    simp [Tool.toJson, Json.canonical, Json.canonicalMembers]
  rw [hvalue]
  apply Structure.shape_sorted
  · simp
  · simp only [List.forall_mem_cons]
    refine ⟨?_, ?_, by simp⟩
    · exact Structure.passes_of_eq_ok _ (Shape.string_string _) rfl
    · exact Structure.passes_of_eq_ok _ (Shape.string_string _) rfl
  · intro sorted hlookup
    simp only [Entries.lookup_cons_eq_ite, List.lookup_nil] at hlookup
    have hname : (Fields.named sorted).required 0 "name" Shape.string = .ok tool.name :=
      Fields.required_eq_ok (Shape.string_string _) (by simp [hlookup])
    have hversion : (Fields.named sorted).required 1 "version" Shape.string = .ok tool.version :=
      Fields.required_eq_ok (Shape.string_string _) (by simp [hlookup])
    simp only [Tool.layout, hname, hversion]
    rfl

/-- A written place is plain and one deep. -/
theorem Location.plain_toJson (depth : Nat) (location : Location) :
    Plain (depth + 1) location.toJson := by
  apply Plain.object
  simp only [List.forall_mem_cons, List.forall_mem_append]
  have hcount (value : Option Count) : ∀ count, value = some count →
      Plain depth (Json.ofCount count) :=
    fun count _ => Json.plain_ofCount depth count
  exact ⟨.string _, Json.plain_optionalMember (hcount _), Json.plain_optionalMember (hcount _)⟩

/-- A place is read back. -/
theorem Location.shape_canonical (location : Location) :
    Location.layout.shape location.toJson.canonical = .ok location := by
  have hvalue : location.toJson.canonical = .object (Entries.sorted
      (("path", .string location.path.text) ::
        (Json.optionalMember "line" Json.ofCount location.line ++
          Json.optionalMember "col" Json.ofCount location.column))) := by
    rw [Location.toJson, Json.canonical, Json.canonicalMembers_eq_mapValues,
      Entries.mapValues_cons, Entries.mapValues_append, Json.mapValues_optionalMember,
      Json.mapValues_optionalMember]
    simp only [Json.canonical, Json.canonical_ofCount]
  have hcount (value : Option Count) : ∀ count, value = some count →
      Shape.count (Json.ofCount count) = .ok count ∧ Json.ofCount count ≠ .null :=
    fun count _ => ⟨Shape.count_ofCount count, by simp [Json.ofCount]⟩
  rw [hvalue]
  apply Structure.shape_sorted
  · have hkeys : ["path", "line", "col"].Nodup := by simp
    refine List.Sublist.nodup ?_ hkeys
    rw [List.map_cons, List.map_append]
    exact ((Json.keys_optionalMember_sublist ..).append
      (Json.keys_optionalMember_sublist ..)).cons_cons "path"
  · simp only [List.forall_mem_cons, List.forall_mem_append]
    refine ⟨?_, ?_, ?_⟩
    · exact Structure.passes_of_eq_ok _ (RepoPath.shape_text _) rfl
    · exact Structure.passes_of_optional (hcount _) rfl
    · exact Structure.passes_of_optional (hcount _) rfl
  · intro sorted hlookup
    simp only [Entries.lookup_cons_eq_ite, List.lookup_append, Json.lookup_optionalMember] at hlookup
    have hpath : (Fields.named sorted).required 0 "path" RepoPath.shape = .ok location.path :=
      Fields.required_eq_ok (RepoPath.shape_text _) (by simp [hlookup])
    have hline : (Fields.named sorted).optional 1 "line" Shape.count = .ok location.line :=
      Fields.optional_eq_ok (hcount _) (by simp [hlookup])
    have hcolumn : (Fields.named sorted).optional 2 "col" Shape.count = .ok location.column :=
      Fields.optional_eq_ok (hcount _) (by simp [hlookup])
    simp only [Location.layout, hpath, hline, hcolumn]
    rfl

/-- A written finding is plain if its data are, and goes one deeper than these. -/
theorem Finding.plain_toJson {depth : Nat} {finding : Finding}
    (hdata : Plain (depth + 1) finding.data) : Plain (depth + 2) finding.toJson := by
  have htext (value : Option String) : ∀ text, value = some text →
      Plain (depth + 1) (.string text) :=
    fun text _ => .string text
  have hdatum : ∀ member ∈ (if finding.data.isNull then [] else [("data", finding.data)]),
      Plain (depth + 1) member.2 := by
    split
    · simp
    · simpa using hdata
  apply Plain.object
  simp only [List.forall_mem_append, List.forall_mem_cons]
  exact ⟨⟨⟨⟨⟨⟨.string _, .string _, .string _, .string _, by simp⟩,
    Json.plain_optionalMember fun location _ => location.plain_toJson depth⟩,
    Json.plain_optionalMember (htext _)⟩, Json.plain_optionalMember (htext _)⟩,
    Json.plain_optionalMember (htext _)⟩, hdatum⟩

/-- A finding whose data stand in the order of their keys. -/
theorem Finding.shape_canonical {finding : Finding} (hdata : finding.data.canonical = finding.data) :
    Finding.layout.shape finding.toJson.canonical = .ok finding := by
  let data : Option Json := if finding.data.isNull then none else some finding.data
  have hdatum : (if finding.data.isNull then [] else [("data", finding.data)]) =
      Json.optionalMember "data" id data := by
    simp only [data]
    split <;> rfl
  have hvalue : finding.toJson.canonical = .object (Entries.sorted
      ([("severity", .string finding.severity.name), ("check_id", .string finding.checkId),
          ("code", .string finding.code), ("message", .string finding.message)] ++
        Json.optionalMember "location" (fun location => location.toJson.canonical)
          finding.location ++
        Json.optionalMember "help" Json.string finding.help ++
        Json.optionalMember "url" Json.string finding.url ++
        Json.optionalMember "fingerprint" Json.string finding.fingerprint ++
        Json.optionalMember "data" id data)) := by
    have hmember : Entries.mapValues Json.canonical (Json.optionalMember "data" id data) =
        Json.optionalMember "data" id data := by
      simp only [data]
      split
      · rfl
      · simp [Json.optionalMember, Entries.mapValues, hdata]
    rw [Finding.toJson, hdatum, Json.canonical, Json.canonicalMembers_eq_mapValues]
    simp only [Entries.mapValues_append, Entries.mapValues_cons, Entries.mapValues_nil, hmember,
      Json.mapValues_optionalMember, Json.canonical]
  have hlocation : ∀ location, finding.location = some location →
      Location.layout.shape location.toJson.canonical = .ok location ∧
        location.toJson.canonical ≠ .null :=
    fun location _ => ⟨Location.shape_canonical location, by simp [Location.toJson, Json.canonical]⟩
  rw [hvalue]
  apply Structure.shape_sorted
  · have hkeys : ["severity", "check_id", "code", "message", "location", "help", "url",
        "fingerprint", "data"].Nodup := by simp
    refine List.Sublist.nodup ?_ hkeys
    simp only [List.map_append]
    exact (((((List.Sublist.refl ["severity", "check_id", "code", "message"]).append
      (Json.keys_optionalMember_sublist ..)).append (Json.keys_optionalMember_sublist ..)).append
      (Json.keys_optionalMember_sublist ..)).append (Json.keys_optionalMember_sublist ..)).append
      (Json.keys_optionalMember_sublist ..)
  · simp only [List.forall_mem_append, List.forall_mem_cons]
    refine ⟨⟨⟨⟨⟨⟨?_, ?_, ?_, ?_, by simp⟩, ?_⟩, ?_⟩, ?_⟩, ?_⟩, ?_⟩
    · exact Structure.passes_of_eq_ok _ (Severity.shape_name _) rfl
    · exact Structure.passes_of_eq_ok _ (Shape.string_string _) rfl
    · exact Structure.passes_of_eq_ok _ (Shape.string_string _) rfl
    · exact Structure.passes_of_eq_ok _ (Shape.string_string _) rfl
    · exact Structure.passes_of_optional hlocation rfl
    · exact Structure.passes_of_optional (Shape.string_of_some _) rfl
    · exact Structure.passes_of_optional (Shape.string_of_some _) rfl
    · exact Structure.passes_of_optional (Shape.string_of_some _) rfl
    · intro member hmember
      obtain ⟨value, -, rfl⟩ := Json.mem_optionalMember.1 hmember
      exact Structure.passes_of_eq_ok Shape.any rfl rfl
  · intro sorted hlookup
    simp only [Entries.lookup_cons_eq_ite, List.lookup_append, List.lookup_nil,
      Json.lookup_optionalMember] at hlookup
    have hseverity : (Fields.named sorted).required 0 "severity" Severity.shape =
        .ok finding.severity :=
      Fields.required_eq_ok (Severity.shape_name _) (by simp [hlookup])
    have hcheck : (Fields.named sorted).required 1 "check_id" Shape.string = .ok finding.checkId :=
      Fields.required_eq_ok (Shape.string_string _) (by simp [hlookup])
    have hcode : (Fields.named sorted).required 2 "code" Shape.string = .ok finding.code :=
      Fields.required_eq_ok (Shape.string_string _) (by simp [hlookup])
    have hmessage : (Fields.named sorted).required 3 "message" Shape.string = .ok finding.message :=
      Fields.required_eq_ok (Shape.string_string _) (by simp [hlookup])
    have hplace : (Fields.named sorted).optional 4 "location" Location.layout.shape =
        .ok finding.location :=
      Fields.optional_eq_ok hlocation (by simp [hlookup])
    have hhelp : (Fields.named sorted).optional 5 "help" Shape.string = .ok finding.help :=
      Fields.optional_eq_ok (Shape.string_of_some _) (by simp [hlookup])
    have hurl : (Fields.named sorted).optional 6 "url" Shape.string = .ok finding.url :=
      Fields.optional_eq_ok (Shape.string_of_some _) (by simp [hlookup])
    have hfingerprint : (Fields.named sorted).optional 7 "fingerprint" Shape.string =
        .ok finding.fingerprint :=
      Fields.optional_eq_ok (Shape.string_of_some _) (by simp [hlookup])
    have hdatum : ((Fields.named sorted).find? 8 "data").getD .null = finding.data := by
      have hfound : sorted.lookup "data" = data := by simp [hlookup]
      rw [Fields.find?, hfound]
      simp only [data]
      split
      · next hnull =>
        cases hvalue : finding.data with
        | null => rfl
        | _ => simp [hvalue, Json.isNull] at hnull
      · rfl
    simp only [Finding.layout, hseverity, hcheck, hcode, hmessage, hplace, hhelp, hurl,
      hfingerprint, hdatum]
    rfl

/-- Written counts are plain and two deep. -/
theorem Summary.plain_toJson (depth : Nat) (summary : Summary) :
    Plain (depth + 2) summary.toJson := by
  have hcount := Json.plain_ofCount (depth + 1)
  apply Plain.object
  simp only [List.forall_mem_append, List.forall_mem_cons]
  exact ⟨⟨Json.plain_ofStrings depth _, hcount _, hcount _, hcount _, hcount _, hcount _,
    hcount _, by simp⟩, Json.plain_optionalMember fun text _ => .string text⟩

/-- The counts of a report are read back. -/
theorem Summary.shape_canonical (summary : Summary) :
    Summary.layout.shape summary.toJson.canonical = .ok summary := by
  have hvalue : summary.toJson.canonical = .object (Entries.sorted
      ([("targets", Json.ofStrings summary.targets),
          ("documents_scanned", Json.ofCount summary.documentsScanned),
          ("documents_failed", Json.ofCount summary.documentsFailed),
          ("strings_checked", Json.ofCount summary.stringsChecked),
          ("parse_errors", Json.ofCount summary.parseErrors),
          ("findings_total", Json.ofCount summary.findingsTotal),
          ("findings_emitted", Json.ofCount summary.findingsEmitted)] ++
        Json.optionalMember "truncated_reason" Json.string summary.truncatedReason)) := by
    rw [Summary.toJson, Json.canonical, Json.canonicalMembers_eq_mapValues]
    simp only [Entries.mapValues_append, Entries.mapValues_cons, Entries.mapValues_nil,
      Json.mapValues_optionalMember, Json.canonical, Json.canonical_ofCount,
      Json.canonical_ofStrings]
  have htargets : (Shape.list Shape.string) (Json.ofStrings summary.targets) = .ok summary.targets :=
    Shape.list_eq_ok fun _ _ => rfl
  have hcount := Shape.count_ofCount
  rw [hvalue]
  apply Structure.shape_sorted
  · have hkeys : ["targets", "documents_scanned", "documents_failed", "strings_checked",
        "parse_errors", "findings_total", "findings_emitted", "truncated_reason"].Nodup := by simp
    refine List.Sublist.nodup ?_ hkeys
    rw [List.map_append]
    exact (List.Sublist.refl ["targets", "documents_scanned", "documents_failed",
      "strings_checked", "parse_errors", "findings_total", "findings_emitted"]).append
      (Json.keys_optionalMember_sublist ..)
  · simp only [List.forall_mem_append, List.forall_mem_cons]
    refine ⟨⟨?_, ?_, ?_, ?_, ?_, ?_, ?_, by simp⟩, ?_⟩
    · exact Structure.passes_of_eq_ok _ htargets rfl
    · exact Structure.passes_of_eq_ok _ (hcount _) rfl
    · exact Structure.passes_of_eq_ok _ (hcount _) rfl
    · exact Structure.passes_of_eq_ok _ (hcount _) rfl
    · exact Structure.passes_of_eq_ok _ (hcount _) rfl
    · exact Structure.passes_of_eq_ok _ (hcount _) rfl
    · exact Structure.passes_of_eq_ok _ (hcount _) rfl
    · exact Structure.passes_of_optional (Shape.string_of_some _) rfl
  · intro sorted hlookup
    simp only [Entries.lookup_cons_eq_ite, List.lookup_append, List.lookup_nil,
      Json.lookup_optionalMember] at hlookup
    have hnames : (Fields.named sorted).required 0 "targets" (Shape.list Shape.string) =
        .ok summary.targets :=
      Fields.required_eq_ok htargets (by simp [hlookup])
    have hscanned : (Fields.named sorted).required 1 "documents_scanned" Shape.count =
        .ok summary.documentsScanned :=
      Fields.required_eq_ok (hcount _) (by simp [hlookup])
    have hfailed : (Fields.named sorted).required 2 "documents_failed" Shape.count =
        .ok summary.documentsFailed :=
      Fields.required_eq_ok (hcount _) (by simp [hlookup])
    have hchecked : (Fields.named sorted).required 3 "strings_checked" Shape.count =
        .ok summary.stringsChecked :=
      Fields.required_eq_ok (hcount _) (by simp [hlookup])
    have herrors : (Fields.named sorted).required 4 "parse_errors" Shape.count =
        .ok summary.parseErrors :=
      Fields.required_eq_ok (hcount _) (by simp [hlookup])
    have htotal : (Fields.named sorted).required 5 "findings_total" Shape.count =
        .ok summary.findingsTotal :=
      Fields.required_eq_ok (hcount _) (by simp [hlookup])
    have hemitted : (Fields.named sorted).required 6 "findings_emitted" Shape.count =
        .ok summary.findingsEmitted :=
      Fields.required_eq_ok (hcount _) (by simp [hlookup])
    have hreason : (Fields.named sorted).optional 7 "truncated_reason" Shape.string =
        .ok summary.truncatedReason :=
      Fields.optional_eq_ok (Shape.string_of_some _) (by simp [hlookup])
    simp only [Summary.layout, hnames, hscanned, hfailed, hchecked, herrors, htotal, hemitted,
      hreason]
    rfl

/-! ## Whole reports -/

namespace Report

/-- A report that is of the schema that is read, whose times are read back, and whose findings have
data in the order of their keys and of bounded depth. -/
structure Saveable (report : Report) : Prop where
  schema : report.schema = schemaName
  startedAt : Timestamp.parse report.startedAt.text = .ok report.startedAt
  finishedAt : Timestamp.parse report.finishedAt.text = .ok report.finishedAt
  canonical : ∀ finding ∈ report.findings, finding.data.canonical = finding.data
  plain : ∀ finding ∈ report.findings, Json.Plain 124 finding.data

variable {report : Report}

/-- A written report is plain and within the limit of depth. -/
theorem Saveable.plain_toJson (h : report.Saveable) : Plain Json.depthLimit report.toJson := by
  have hfindings : Plain 126 (.array (report.findings.map Finding.toJson)) := by
    apply Plain.array
    intro item hitem
    obtain ⟨finding, hmem, rfl⟩ := List.mem_map.1 hitem
    exact Finding.plain_toJson (h.plain finding hmem)
  apply Plain.object
  simp only [List.forall_mem_cons]
  exact ⟨.string _, report.tool.plain_toJson 125, .string _, .string _, .string _, hfindings,
    report.summary.plain_toJson 124, by simp⟩

/-- The canonical form of a report has its members in the order of their keys. -/
theorem canonical_toJson (report : Report) : report.toJson.canonical =
    .object (Entries.sorted [("schema", .string report.schema),
      ("tool", report.tool.toJson.canonical), ("started_at", .string report.startedAt.text),
      ("finished_at", .string report.finishedAt.text), ("verdict", .string report.verdict.name),
      ("findings", .array (report.findings.map fun finding => finding.toJson.canonical)),
      ("data", report.summary.toJson.canonical)]) := by
  rw [toJson, Json.canonical, Json.canonicalMembers_eq_mapValues]
  simp only [Entries.mapValues_cons, Entries.mapValues_nil, Json.canonical,
    Json.canonicalItems_eq_map, List.map_map]
  rfl

/-- A report that can be saved is read back from its canonical form. -/
theorem Saveable.shape_canonical (h : report.Saveable) :
    layout.shape report.toJson.canonical = .ok report := by
  have hfindings : (Shape.list Finding.layout.shape)
      (.array (report.findings.map fun finding => finding.toJson.canonical)) =
      .ok report.findings :=
    Shape.list_eq_ok fun finding hmem => Finding.shape_canonical (h.canonical finding hmem)
  have hstart := Timestamp.shape_text h.startedAt
  have hfinish := Timestamp.shape_text h.finishedAt
  rw [canonical_toJson]
  apply Structure.shape_sorted
  · simp
  · simp only [List.forall_mem_cons]
    refine ⟨?_, ?_, ?_, ?_, ?_, ?_, ?_, by simp⟩
    · exact Structure.passes_of_eq_ok _ (Shape.string_string _) rfl
    · exact Structure.passes_of_eq_ok _ report.tool.shape_canonical rfl
    · exact Structure.passes_of_eq_ok _ hstart rfl
    · exact Structure.passes_of_eq_ok _ hfinish rfl
    · exact Structure.passes_of_eq_ok _ report.verdict.shape_name rfl
    · exact Structure.passes_of_eq_ok _ hfindings rfl
    · exact Structure.passes_of_eq_ok _ report.summary.shape_canonical rfl
  · intro sorted hlookup
    simp only [Entries.lookup_cons_eq_ite, List.lookup_nil] at hlookup
    have hschema : (Fields.named sorted).required 0 "schema" Shape.string = .ok report.schema :=
      Fields.required_eq_ok (Shape.string_string _) (by simp [hlookup])
    have htool : (Fields.named sorted).required 1 "tool" Tool.layout.shape = .ok report.tool :=
      Fields.required_eq_ok report.tool.shape_canonical (by simp [hlookup])
    have hstarted : (Fields.named sorted).required 2 "started_at" Timestamp.shape =
        .ok report.startedAt :=
      Fields.required_eq_ok hstart (by simp [hlookup])
    have hfinished : (Fields.named sorted).required 3 "finished_at" Timestamp.shape =
        .ok report.finishedAt :=
      Fields.required_eq_ok hfinish (by simp [hlookup])
    have hverdict : (Fields.named sorted).required 4 "verdict" Verdict.shape =
        .ok report.verdict :=
      Fields.required_eq_ok report.verdict.shape_name (by simp [hlookup])
    have hfound : (Fields.named sorted).required 5 "findings" (Shape.list Finding.layout.shape) =
        .ok report.findings :=
      Fields.required_eq_ok hfindings (by simp [hlookup])
    have hsummary : (Fields.named sorted).required 6 "data" Summary.layout.shape =
        .ok report.summary :=
      Fields.required_eq_ok report.summary.shape_canonical (by simp [hlookup])
    simp only [layout, hschema, htool, hstarted, hfinished, hverdict, hfound, hsummary]
    rfl

/-- The schema of a report is found in its canonical form. -/
theorem schemaOf_canonical (report : Report) :
    schemaOf report.toJson.canonical = report.schema := by
  rw [canonical_toJson, schemaOf, Json.member?, Entries.get?, Entries.lookup_sorted (by simp)]
  simp [Json.text?]

/-- A report is read back from its text. -/
theorem Saveable.parse_text (h : report.Saveable) : parse report.text = .ok report := by
  have hparse : Json.parse? report.text = some report.toJson.canonical :=
    Json.parseWithin?_pretty h.plain_toJson (Nat.le_refl _)
  have hschema : ¬ schemaOf report.toJson.canonical ≠ schemaName := by
    rw [schemaOf_canonical, h.schema]
    simp
  rw [parse, hparse]
  show ofJson report.toJson.canonical = _
  rw [ofJson, if_neg hschema, h.shape_canonical]
  rfl


/-- A batch says nothing that is not read back. -/
theorem saveable_ofEvaluation {startedAt finishedAt : Timestamp}
    (hstarted : Timestamp.parse startedAt.text = .ok startedAt)
    (hfinished : Timestamp.parse finishedAt.text = .ok finishedAt) (policy : Policy)
    (batch : Batch) : (ofEvaluation startedAt finishedAt (batch.evaluate policy)).Saveable := by
  have hdata : ∀ finding ∈ (batch.evaluate policy).findings,
      finding.data.canonical = finding.data ∧ Plain 124 finding.data := by
    intro finding hfinding
    rcases Batch.finding_cases hfinding with ⟨path, failure, rfl⟩ | ⟨outcome, identity, rfl⟩
    · constructor
      · have hkeys : ["document"].Pairwise (· < ·) := by decide
        simp only [Document.failureFinding, Json.canonical, Json.canonicalMembers]
        exact congrArg Json.object (Entries.sorted_of_pairwise hkeys)
      · apply Plain.object
        simp [Plain.string]
    · constructor
      · have hkeys : ["document", "target", "text"].Pairwise (· < ·) := by decide
        simp only [Outcome.textFinding, Json.canonical, Json.canonicalMembers]
        exact congrArg Json.object (Entries.sorted_of_pairwise hkeys)
      · apply Plain.object
        simp [Plain.string]
  exact {
    schema := rfl
    startedAt := hstarted
    finishedAt := hfinished
    canonical := fun finding hmem => (hdata finding hmem).1
    plain := fun finding hmem => (hdata finding hmem).2 }

/-- The report of a failure can be saved, whatever the message. -/
theorem saveable_ofFailure {now : Timestamp} (hnow : Timestamp.parse now.text = .ok now)
    (message : String) : (ofFailure now message).Saveable where
  schema := rfl
  startedAt := hnow
  finishedAt := hnow
  canonical := by simp [ofFailure, runtimeFinding, Json.canonical]
  plain := by simp [ofFailure, runtimeFinding, Plain.null]

end Report

/-! ## Saved files -/

section

variable {σ α : Type}

/-- What the host answers is passed on, with a fault as the cause of a failure. -/
theorem CommandLine.run_fromHost [Host (StateM σ)] (action : StateM σ (Except FileFault α))
    (state : σ) :
    (fromHost action).run state =
      ((action.run state).1.mapError fun fault => Cause.failure (.file fault),
        (action.run state).2) := by
  show (action >>= _).run state = _
  rw [run_bind]
  cases (action.run state).1 <;> rfl

end

namespace CommandLine

variable {tree : FileTree} {path : String}

/-- A text is read from the file that holds its bytes. -/
theorem run_readText {text : String} (h : tree.read path = .ok text.toUTF8.toList) :
    (readText path : ExceptT Failure (StateM FileTree) String).run tree = (.ok text, tree) := by
  have hread : (fromHost (Host.read path) : ExceptT Failure (StateM FileTree) (List UInt8)).run
      tree = (.ok text.toUTF8.toList, tree) := by
    rw [run_fromHost]
    show ((tree.read path).mapError _, tree) = _
    rw [h]
    rfl
  rw [readText, run_bind_of_ok hread, Text.Utf8.decode_toUTF8]
  show (Except.ok (String.ofList text.toList), tree) = _
  rw [String.ofList_toList]

/-- A report that can be saved is read from a file that holds its text. -/
theorem run_readReport {report : Report} (hsaveable : report.Saveable)
    (h : tree.read path = .ok report.text.toUTF8.toList) :
    (readReport path : ExceptT Failure (StateM FileTree) Report).run tree = (.ok report, tree) := by
  have htext : (duringStep ("read report: " ++ path) (readText path) :
      ExceptT Failure (StateM FileTree) String).run tree = (.ok report.text, tree) := by
    rw [run_duringStep, run_readText h]
    rfl
  rw [readReport, run_bind_of_ok htext, hsaveable.parse_text]
  rfl

end CommandLine

namespace Report

open CommandLine (readReport showMarkdown showWorkflow)

/-- Saved reports are read back unchanged: the report of an evaluated batch, and that of a run that
could not be completed. What is shown of a saved file is thus what is shown of the report itself. -/
theorem saved_report_reads_back {startedAt finishedAt now : Timestamp}
    (hstarted : Timestamp.parse startedAt.text = .ok startedAt)
    (hfinished : Timestamp.parse finishedAt.text = .ok finishedAt)
    (hnow : Timestamp.parse now.text = .ok now) (policy : Policy) (batch : Batch)
    (message : String) :
    ∀ report ∈ [ofEvaluation startedAt finishedAt (batch.evaluate policy), ofFailure now message],
      parse report.text = .ok report ∧
      ∀ (tree : FileTree) (path : String), tree.read path = .ok report.text.toUTF8.toList →
        (readReport path : ExceptT Failure (StateM FileTree) Report).run tree =
            (.ok report, tree) ∧
          (showMarkdown path none : ExceptT Failure (StateM FileTree) String).run tree =
            (.ok report.view.markdown, tree) ∧
          ∀ limit, (showWorkflow path limit : ExceptT Failure (StateM FileTree) String).run tree =
            (.ok (String.join ((report.view.commands.take limit).map (· ++ "\n"))), tree) := by
  intro report hreport
  have hsaveable : report.Saveable := by
    rcases List.mem_cons.1 hreport with rfl | hreport
    · exact saveable_ofEvaluation hstarted hfinished policy batch
    · rw [List.mem_singleton.1 hreport]
      exact saveable_ofFailure hnow message
  refine ⟨hsaveable.parse_text, fun tree path hfile => ?_⟩
  have hread := CommandLine.run_readReport hsaveable hfile
  refine ⟨hread, ?_, fun limit => ?_⟩
  · rw [showMarkdown, run_bind_of_ok hread]
    rfl
  · rw [showWorkflow, run_bind_of_ok hread]
    rfl

/-- Two findings are kept of three, about a page that was not parsed and about a text with a quote
and a backslash. -/
theorem saved_report_reads_back_of_cut_batch :
    let broken : Document := {
      path := ⟨"é/broken.xml"⟩, target := "ui"
      failure := some { kind := .parse, message := "no root element", line := some 1 } }
    let page : Document := {
      path := ⟨"page.xml"⟩, target := "ui"
      tree := .sequence [.leaf "Say \"yes\" \\ 語", .leaf "Hello"] }
    let report := ofEvaluation Timestamp.epoch Timestamp.epoch
      (Batch.evaluate ⟨{}, 2⟩ ⟨⟨"."⟩, ["ui"], [broken, page]⟩)
    let tree : FileTree := ⟨[(["report.json"], .file report.text.toUTF8.toList)], []⟩
    Timestamp.parse Timestamp.epoch.text = .ok Timestamp.epoch ∧ report.findings.length = 2 ∧
      report.summary.truncatedReason.isSome ∧ parse report.text = .ok report ∧
      tree.read "report.json" = .ok report.text.toUTF8.toList ∧
      (readReport "report.json" : ExceptT Failure (StateM FileTree) Report).run tree =
        (.ok report, tree) ∧
      (showMarkdown "report.json" none : ExceptT Failure (StateM FileTree) String).run tree =
        (.ok report.view.markdown, tree) := by
  intro broken page report tree
  have htime : Timestamp.parse Timestamp.epoch.text = .ok Timestamp.epoch := by decide +kernel
  have hkept : report.findings.length = 2 ∧ report.summary.truncatedReason.isSome := by
    decide +kernel
  have hread (bytes : List UInt8) : (⟨[(["report.json"], .file bytes)], []⟩ : FileTree).read
      "report.json" = .ok bytes := by
    have hname : IsEntryName "report.json" := by decide +kernel
    have hentry : FileTree.entry? ⟨[(["report.json"], .file bytes)], []⟩ ["report.json"] =
        some (.file bytes) := rfl
    rw [FileTree.read, FileTree.locate_name_of_found hname rfl hentry (by simp)]
    rfl
  have hfile : tree.read "report.json" = .ok report.text.toUTF8.toList := hread _
  obtain ⟨hparse, hsaved⟩ := saved_report_reads_back htime htime htime ⟨{}, 2⟩
    ⟨⟨"."⟩, ["ui"], [broken, page]⟩ "no root" report List.mem_cons_self
  obtain ⟨hreport, hshow, -⟩ := hsaved tree "report.json" hfile
  exact ⟨htime, hkept.1, hkept.2, hparse, hfile, hreport, hshow⟩

end Report

end LocaleLint
