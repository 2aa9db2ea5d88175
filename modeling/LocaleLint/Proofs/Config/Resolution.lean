import LocaleLint.Proofs.Evaluation.Options
import LocaleLint.Proofs.FilePattern.Validity
import LocaleLint.Proofs.Text.Utf8
import LocaleLint.Proofs.Toml.Order

/-!
# What a run is settled to do

A configuration is resolved by four checks in turn: of its schema, of the tags that it ignores, of
the targets that the caller names, and of the patterns of the targets that are left. Each check
raises complaints, and the first complaint of all is the failure that is reported
(`resolve_eq_reject`). The main result `resolve_exact` says when a configuration is accepted, what a
run then does, and which failure is reported otherwise. Targets that are not selected are not
checked, and neither is what the caller names when paths are given. The result is about targets that
ascend by name, as those of every configuration file do (`targetsAscend_of_parse`).
-/

set_option autoImplicit false

namespace LocaleLint

/-! ## The first complaint -/

/-- Fails with the first complaint of a list. -/
def reject : List Failure → Except Failure Unit
  | [] => .ok ()
  | complaint :: _ => .error complaint

/-- Only where there is no complaint nothing is rejected. -/
theorem reject_eq_ok_iff {complaints : List Failure} :
    reject complaints = .ok () ↔ complaints = [] := by
  cases complaints <;> simp [reject]

/-- What is rejected is rejected for the first complaint. -/
theorem reject_eq_error_iff {complaints : List Failure} {failure : Failure} :
    reject complaints = .error failure ↔ complaints.head? = some failure := by
  cases complaints <;> simp [reject]

/-- Of two checks, the complaints of the first one come before those of the second. -/
theorem reject_append (first second : List Failure) :
    reject (first ++ second) = (reject first).bind fun _ => reject second := by
  cases first <;> rfl

/-- Checks in a row reject the first complaint of all. -/
theorem forM_reject {α : Type} {check : α → Except Failure Unit} {complaints : α → List Failure}
    (h : ∀ item, check item = reject (complaints item)) (items : List α) :
    items.forM check = reject (items.flatMap complaints) := by
  induction items with
  | nil => rfl
  | cons item rest ih =>
    rw [List.forM, h, ih, List.flatMap_cons, reject_append]
    rfl

/-! ## Ignored tags -/

namespace IgnoreSet

/-- A tag is inserted where it belongs in the order. -/
theorem pairwise_insertTag (tag : String) {tags : List String} (h : tags.Pairwise (· < ·)) :
    (insertTag tag tags).Pairwise (· < ·) := by
  induction tags with
  | nil => simp [insertTag]
  | cons other rest ih =>
    obtain ⟨hother, hrest⟩ := List.pairwise_cons.1 h
    rw [insertTag]
    split_ifs with hlt heq
    · refine List.pairwise_cons.2 ⟨fun later hlater => ?_, h⟩
      rcases List.mem_cons.1 hlater with rfl | hlater
      · exact hlt
      · exact hlt.trans (hother later hlater)
    · exact h
    · refine List.pairwise_cons.2 ⟨fun later hlater => ?_, ih hrest⟩
      rcases mem_insertTag.1 hlater with rfl | hlater
      · exact lt_of_le_of_ne (not_lt.1 hlt) heq
      · exact hother later hlater

/-- The members of a set ascend, whatever has been added to it. -/
theorem pairwise_insertMany (added : List String) {set : IgnoreSet}
    (h : set.tags.Pairwise (· < ·)) : (set.insertMany added).tags.Pairwise (· < ·) := by
  rw [insertMany]
  induction added generalizing set with
  | nil => exact h
  | cons tag added ih => exact ih (pairwise_insertTag tag h)

end IgnoreSet

namespace Config

/-! ## Complaints -/

/-- The names of the configured targets. -/
def names (config : Config) : List String :=
  config.targets.map Prod.fst

/-- What is wrong with the schema: it is another one than the only one there is. -/
def schemaComplaints (config : Config) : List Failure :=
  (config.schema.toList.filter (· ≠ "intlxml.config.v1")).map fun schema =>
    { cause := .configSchema schema }

/-- What is wrong with the ignored tags: one has nothing but spaces, if anything at all. -/
def tagComplaints (config : Config) : List Failure :=
  (config.ignoreTags.filter fun tag => tag.toList.all Text.isSpace).map fun _ =>
    { cause := .emptyIgnoreTag }

/-- What is wrong with the targets that the caller names: one is not configured. It does not matter
when the caller gives paths. -/
def nameComplaints (config : Config) (overrides : Overrides) : List Failure :=
  if overrides.paths = [] then
    (overrides.targets.filter (· ∉ config.names)).map fun name =>
      { cause := .unknownTarget name config.names }
  else []

/-- What is wrong with a pattern of a target: without its mark, it is not a glob. -/
def patternComplaints (target pattern : String) : List Failure :=
  match Glob.parse (FilePattern.glob pattern) with
  | .ok _ => []
  | .error fault =>
    [{ steps := ["invalid pattern for target " ++ target ++ ": " ++ pattern]
       cause := .glob (FilePattern.glob pattern) fault }]

/-- All that is wrong with a configuration for a caller when these targets are left. -/
def complaints (config : Config) (overrides : Overrides) (targets : List Target) : List Failure :=
  config.schemaComplaints ++ (config.tagComplaints ++ (config.nameComplaints overrides ++
    targets.flatMap fun target => target.patterns.flatMap (patternComplaints target.name)))

/-- The targets that are left for a caller. -/
def selected (config : Config) (overrides : Overrides) : List Target :=
  if overrides.paths = [] then
    (config.targets.filter fun entry =>
      overrides.targets = [] ∨ entry.1 ∈ overrides.targets).map fun entry => ⟨entry.1, entry.2⟩
  else [⟨"cli", overrides.paths⟩]

/-- A pattern is checked by what is wrong with its glob. -/
theorem checkPattern_eq_reject (target pattern : String) :
    checkPattern target pattern = reject (patternComplaints target pattern) := by
  rw [checkPattern, patternComplaints]
  cases Glob.parse (FilePattern.glob pattern) <;> rfl

/-- The patterns are checked target by target, and the first one that is no glob is rejected. -/
theorem checkPatterns_eq_reject (targets : List Target) :
    checkPatterns targets =
      reject (targets.flatMap fun target =>
        target.patterns.flatMap (patternComplaints target.name)) := by
  rw [checkPatterns]
  refine forM_reject (fun target => ?_) targets
  exact forM_reject (checkPattern_eq_reject target.name) target.patterns

/-- The targets are selected if all names that the caller gives are known. -/
theorem selectTargets_eq_reject (config : Config) (overrides : Overrides) :
    config.selectTargets overrides =
      (reject (config.nameComplaints overrides)).map fun _ => config.selected overrides := by
  rw [selectTargets, nameComplaints, selected]
  by_cases hpaths : overrides.paths = []
  · have hunknown : (fun name => !(config.targets.map (·.1)).contains name) =
        fun name => decide (name ∉ config.names) := by
      funext name
      rw [Bool.eq_iff_iff, Bool.not_eq_true', decide_eq_true_eq, names, List.contains_eq_mem,
        decide_eq_false_iff_not]
    have hempty : overrides.targets.isEmpty = decide (overrides.targets = []) := by
      cases overrides.targets <;> rfl
    simp only [hpaths, List.isEmpty_nil, Bool.not_true, Bool.false_eq_true, if_false, if_true,
      hunknown, ← List.head?_filter]
    cases overrides.targets.filter (· ∉ config.names) with
    | cons name rest => rfl
    | nil => simp [reject, Except.map, hempty]
  · simp [hpaths, reject, callerTarget, Except.map]

/-- A configuration is resolved unless there is a complaint, and the first complaint is reported. -/
theorem resolve_eq_reject (config : Config) (overrides : Overrides) :
    config.resolve overrides =
      (reject (config.complaints overrides (config.selected overrides))).map fun _ =>
        ⟨config.policy overrides, config.selected overrides⟩ := by
  have hschema : config.schema.filter (· ≠ Cause.configSchemaName) =
      (config.schema.toList.filter (· ≠ "intlxml.config.v1")).head? := by
    cases config.schema with
    | none => rfl
    | some schema => by_cases h : schema = "intlxml.config.v1" <;> simp [h, Cause.configSchemaName]
  have htags : config.ignoreTags.any (Text.isAll Text.isSpace) =
      !(config.ignoreTags.filter fun tag => tag.toList.all Text.isSpace).isEmpty := by
    rw [Bool.eq_iff_iff]
    simp [Text.isAll]
  rw [resolve, hschema, htags, complaints, reject_append, reject_append, reject_append,
    ← checkPatterns_eq_reject, schemaComplaints, tagComplaints]
  cases config.schema.toList.filter (· ≠ "intlxml.config.v1") with
  | cons schema rest => rfl
  | nil =>
    cases config.ignoreTags.filter fun tag => tag.toList.all Text.isSpace with
    | cons tag rest => rfl
    | nil =>
      rw [selectTargets_eq_reject]
      cases reject (config.nameComplaints overrides) <;> rfl

/-! ## Targets of a configuration file -/

/-- Whether the targets are kept as a map is: they ascend by name, so no two share one. -/
def TargetsAscend (config : Config) : Prop :=
  config.targets.Pairwise fun a b => a.1 < b.1

/-- Reading the patterns of targets keeps their names. -/
theorem keys_of_mapM_target {entries : List (String × Toml)}
    {targets : List (String × List String)}
    (h : (entries.mapM fun entry => (target entry.2).map fun patterns => (entry.1, patterns)) =
      .ok targets) : targets.map Prod.fst = entries.map Prod.fst := by
  induction entries generalizing targets with
  | nil =>
    cases h
    rfl
  | cons entry rest ih =>
    rw [List.mapM_cons] at h
    obtain ⟨first, hfirst, h⟩ := exists_of_bind_ok h
    obtain ⟨others, hothers, h⟩ := exists_of_bind_ok h
    obtain ⟨patterns, -, rfl⟩ := exists_of_map_ok hfirst
    cases h
    rw [List.map_cons, List.map_cons, ih hothers]

/-- Targets that are read ascend by name, since the keys of a table do. -/
theorem pairwise_targetMap {value : Toml} {targets : List (String × List String)}
    (h : targetMap value = .ok targets) (hvalue : value.Ordered) :
    (targets.map Prod.fst).Pairwise (· < ·) := by
  rw [targetMap] at h
  split at h
  · cases h
  · next entries hentries =>
    rw [keys_of_mapM_target h]
    cases hvalue with
    | table hkeys _ =>
      cases hentries
      exact hkeys
    | dateTime text =>
      cases hentries
      simp
    | _ => cases hentries

/-- Setting one key of a configuration keeps its targets in order. -/
theorem TargetsAscend.set {config changed : Config} (hconfig : config.TargetsAscend) {key : String}
    {value : Toml} (h : config.set key value = .ok changed) (hvalue : value.Ordered) :
    changed.TargetsAscend := by
  have hkept {α : Type} {read : Except ShapeFault α} {change : α → Config}
      (h : read.map change = .ok changed)
      (hsame : ∀ setting, (change setting).targets = config.targets) : changed.TargetsAscend := by
    obtain ⟨setting, -, rfl⟩ := exists_of_map_ok h
    rwa [TargetsAscend, hsame]
  rw [Config.set] at h
  split_ifs at h
  · exact hkept h fun _ => rfl
  · exact hkept h fun _ => rfl
  · exact hkept h fun _ => rfl
  · exact hkept h fun _ => rfl
  · obtain ⟨targets, htargets, rfl⟩ := exists_of_map_ok h
    exact List.pairwise_map.1 (pairwise_targetMap htargets hvalue)

/-- Setting keys one after another keeps the targets in order. -/
theorem TargetsAscend.foldlM_set {config changed : Config} (hconfig : config.TargetsAscend)
    {entries : List (String × Toml)} (hentries : ∀ entry ∈ entries, entry.2.Ordered)
    (h : entries.foldlM (fun config entry => config.set entry.1 entry.2) config = .ok changed) :
    changed.TargetsAscend := by
  induction entries generalizing config with
  | nil =>
    cases h
    exact hconfig
  | cons entry rest ih =>
    obtain ⟨hentry, hrest⟩ := List.forall_mem_cons.1 hentries
    rw [List.foldlM_cons] at h
    obtain ⟨next, hnext, h⟩ := exists_of_bind_ok h
    exact ih (hconfig.set hnext hentry) hrest h

/-- The targets that are read from a configuration file ascend by name. -/
theorem targetsAscend_of_parse {text : String} {config : Config} (h : parse text = .ok config) :
    config.TargetsAscend := by
  rw [parse] at h
  split at h
  · cases h
  · next entries hentries =>
    have hnone : TargetsAscend {} := List.Pairwise.nil
    cases Toml.ordered_of_parse hentries with
    | table _ hvalues => exact hnone.foldlM_set hvalues (eq_ok_of_mapError h)

/-! ## Conditions -/

/-- Whether these are the targets that a caller asks for: one for the paths that the caller gives,
or else each configured target that the caller names, and all of them if the caller names none, in
the order of the bytes of their names. -/
structure IsSelection (config : Config) (overrides : Overrides) (targets : List Target) : Prop where
  caller : overrides.paths ≠ [] → targets = [⟨"cli", overrides.paths⟩]
  mem_iff : overrides.paths = [] → ∀ target, target ∈ targets ↔
    (target.name, target.patterns) ∈ config.targets ∧
      (overrides.targets = [] ∨ target.name ∈ overrides.targets)
  ascend : overrides.paths = [] → targets.Pairwise fun a b =>
    a.name.toUTF8.toList < b.name.toUTF8.toList

/-- What a configuration has to satisfy for a caller when these targets are left. -/
structure IsAccepted (config : Config) (overrides : Overrides) (targets : List Target) : Prop where
  schema : ∀ schema, config.schema = some schema → schema = "intlxml.config.v1"
  tags : ∀ tag ∈ config.ignoreTags, ∃ c ∈ tag.toList, Text.isSpace c = false
  known : overrides.paths ≠ [] ∨ ∀ name ∈ overrides.targets, name ∈ config.names
  globs : ∀ target ∈ targets, ∀ pattern ∈ target.patterns,
    Glob.isValid (FilePattern.glob pattern) = true

/-- Whether a value is what the caller gives, or else the configured one, or else the standard
one. -/
def Settled {α : Type} (caller configured : Option α) (standard value : α) : Prop :=
  caller = some value ∨
    caller = none ∧ (configured = some value ∨ configured = none ∧ value = standard)

/-- Whether a policy is the one that a configuration and a caller ask for. -/
structure Settles (config : Config) (overrides : Overrides) (policy : Policy) : Prop where
  ignored_iff : ∀ tag, policy.collect.ignore.contains tag = true ↔
    tag ∈ ["g:evaluate", "script", "g2:evaluate"] ∨ tag ∈ config.ignoreTags
  ignored_ascend : policy.collect.ignore.tags.Pairwise (· < ·)
  attributes : Settled overrides.checkAttributes config.checkAttributes false
    policy.collect.attributes
  maxFindings : Settled (overrides.maxFindings.map (·.val)) (config.maxFindings.map (·.val)) 1000
    policy.maxFindings

variable {config : Config} {overrides : Overrides}

/-- The caller is asked first and the configuration second, and the standard stands in for both. -/
theorem settled_getD {α : Type} (caller configured : Option α) (standard : α) :
    Settled caller configured standard ((caller.or configured).getD standard) := by
  cases caller with
  | some value => exact .inl rfl
  | none =>
    cases configured with
    | some value => exact .inr ⟨rfl, .inl rfl⟩
    | none => exact .inr ⟨rfl, .inr ⟨rfl, rfl⟩⟩

/-- The policy of a configuration and a caller is what they ask for. -/
theorem settles_policy (config : Config) (overrides : Overrides) :
    config.Settles overrides (config.policy overrides) where
  ignored_iff tag := by
    rw [ignore_policy, IgnoreSet.contains_insertMany, IgnoreSet.standard,
      IgnoreSet.contains_insertMany]
    simp [IgnoreSet.contains, IgnoreSet.empty, or_comm]
  ignored_ascend := by
    rw [ignore_policy, IgnoreSet.standard]
    exact IgnoreSet.pairwise_insertMany _ (IgnoreSet.pairwise_insertMany _ .nil)
  attributes := settled_getD _ _ _
  maxFindings := by
    rw [policy, Option.map_or]
    exact settled_getD _ _ _

/-- Nothing is wrong with a pattern exactly if its glob is valid. -/
theorem patternComplaints_eq_nil_iff (target pattern : String) :
    patternComplaints target pattern = [] ↔ Glob.isValid (FilePattern.glob pattern) = true := by
  rw [patternComplaints, Glob.isValid]
  cases Glob.parse (FilePattern.glob pattern) <;> simp [Except.toOption]

/-- There is no complaint exactly when every condition is met. -/
theorem complaints_eq_nil_iff (targets : List Target) :
    config.complaints overrides targets = [] ↔ config.IsAccepted overrides targets := by
  have hschema : config.schemaComplaints = [] ↔
      ∀ schema, config.schema = some schema → schema = "intlxml.config.v1" := by
    simp [schemaComplaints]
  have htags : config.tagComplaints = [] ↔
      ∀ tag ∈ config.ignoreTags, ∃ c ∈ tag.toList, Text.isSpace c = false := by
    simp [tagComplaints]
  have hknown : config.nameComplaints overrides = [] ↔
      overrides.paths ≠ [] ∨ ∀ name ∈ overrides.targets, name ∈ config.names := by
    rw [nameComplaints]
    split_ifs with hpaths
    · simp [hpaths]
    · simp [hpaths]
  have hglobs : (targets.flatMap fun target =>
        target.patterns.flatMap (patternComplaints target.name)) = [] ↔
      ∀ target ∈ targets, ∀ pattern ∈ target.patterns,
        Glob.isValid (FilePattern.glob pattern) = true := by
    simp only [List.flatMap_eq_nil_iff, patternComplaints_eq_nil_iff]
  rw [complaints, List.append_eq_nil_iff, List.append_eq_nil_iff, List.append_eq_nil_iff, hschema,
    htags, hknown, hglobs]
  exact ⟨fun ⟨h₁, h₂, h₃, h₄⟩ => ⟨h₁, h₂, h₃, h₄⟩, fun ⟨h₁, h₂, h₃, h₄⟩ => ⟨h₁, h₂, h₃, h₄⟩⟩

/-! ## Targets that are left -/

/-- The targets that are left for a caller are those that the caller asks for. -/
theorem isSelection_selected (h : config.TargetsAscend) (overrides : Overrides) :
    config.IsSelection overrides (config.selected overrides) where
  caller hpaths := by rw [selected, if_neg hpaths]
  mem_iff hpaths target := by
    rw [selected, if_pos hpaths]
    cases target
    simp
  ascend hpaths := by
    rw [selected, if_pos hpaths, List.pairwise_map]
    simp only [Text.Utf8.toUTF8_lt_iff]
    exact h.filter _

/-- Only one list of targets is asked for. -/
theorem IsSelection.unique {targets others : List Target}
    (h : config.IsSelection overrides targets) (hothers : config.IsSelection overrides others) :
    others = targets := by
  by_cases hpaths : overrides.paths = []
  · have hasymm : ∀ a b : Target, a.name.toUTF8.toList < b.name.toUTF8.toList →
        ¬b.name.toUTF8.toList < a.name.toUTF8.toList := fun _ _ => List.lt_asymm
    have hnodup {targets : List Target} (h : config.IsSelection overrides targets) :
        targets.Nodup := by
      refine (h.ascend hpaths).imp fun {a b} hlt => ?_
      rintro rfl
      exact hasymm a a hlt hlt
    have hperm : others.Perm targets := by
      rw [List.perm_ext_iff_of_nodup (hnodup hothers) (hnodup h)]
      exact fun target => (hothers.mem_iff hpaths target).trans (h.mem_iff hpaths target).symm
    exact hperm.eq_of_pairwise (fun a b _ _ hab hba => (hasymm a b hab hba).elim)
      (hothers.ascend hpaths) (h.ascend hpaths)
  · rw [h.caller hpaths, hothers.caller hpaths]

/-- The order in which the caller names targets, and how often, does not matter. -/
theorem selected_congr {given : List String} (h : ∀ name, name ∈ given ↔ name ∈ overrides.targets) :
    config.selected { overrides with targets := given } = config.selected overrides := by
  have hempty : given = [] ↔ overrides.targets = [] := by
    simp only [List.eq_nil_iff_forall_not_mem, h]
  simp only [selected, h, hempty]

/-- Naming the same targets in another order, or more than once, accepts the same. -/
theorem isAccepted_congr {given : List String} (h : ∀ name, name ∈ given ↔ name ∈ overrides.targets)
    (targets : List Target) :
    config.IsAccepted { overrides with targets := given } targets ↔
      config.IsAccepted overrides targets := by
  have hnames : (∀ name ∈ given, name ∈ config.names) ↔
      ∀ name ∈ overrides.targets, name ∈ config.names :=
    forall_congr' fun name => imp_congr_left (h name)
  constructor
  · rintro ⟨hschema, htags, hknown, hglobs⟩
    exact ⟨hschema, htags, hknown.imp_right hnames.1, hglobs⟩
  · rintro ⟨hschema, htags, hknown, hglobs⟩
    exact ⟨hschema, htags, hknown.imp_right hnames.2, hglobs⟩

/-! ## The result -/

/-- A configuration is resolved exactly if nothing is wrong, and then to its policy and the targets
that are left. -/
theorem resolve_eq_ok_iff {plan : Plan} :
    config.resolve overrides = .ok plan ↔ config.IsAccepted overrides (config.selected overrides) ∧
      plan = ⟨config.policy overrides, config.selected overrides⟩ := by
  rw [resolve_eq_reject, ← complaints_eq_nil_iff, ← reject_eq_ok_iff]
  cases reject (config.complaints overrides (config.selected overrides)) with
  | ok value => simp [Except.map, eq_comm]
  | error failure => simp [Except.map]

/-- A configuration that is not resolved fails with the first of all complaints. -/
theorem resolve_eq_error_iff {failure : Failure} :
    config.resolve overrides = .error failure ↔
      (config.complaints overrides (config.selected overrides)).head? = some failure := by
  rw [resolve_eq_reject, ← reject_eq_error_iff]
  cases reject (config.complaints overrides (config.selected overrides)) with
  | ok value => simp [Except.map]
  | error failure => simp [Except.map]

/-- **What a run is settled to do.** There is one list of targets that the caller asks for. The
configuration is resolved exactly when it is accepted for these targets; the run then has these
targets and the policy that is asked for, whatever the order in which the caller names targets and
how often. Otherwise the failure is the first complaint: about the schema, an ignored tag, a name
that the caller gives, or a pattern, the targets and their patterns taken in order. -/
theorem resolve_exact (h : config.TargetsAscend) (overrides : Overrides) :
    ∃ targets, (∀ others, config.IsSelection overrides others ↔ others = targets) ∧
      ((∃ plan, config.resolve overrides = .ok plan) ↔ config.IsAccepted overrides targets) ∧
      (∀ plan, config.resolve overrides = .ok plan →
        plan.targets = targets ∧ config.Settles overrides plan.policy ∧
        ∀ given, (∀ name, name ∈ given ↔ name ∈ overrides.targets) →
          config.resolve { overrides with targets := given } = .ok plan) ∧
      ∀ failure, config.resolve overrides = .error failure ↔
        (config.complaints overrides targets).head? = some failure := by
  have hselected := isSelection_selected h overrides
  refine ⟨config.selected overrides, fun others => ⟨hselected.unique, ?_⟩, ?_, ?_, ?_⟩
  · rintro rfl
    exact hselected
  · simp only [resolve_eq_ok_iff, exists_and_left, exists_eq, and_true]
  · intro plan hplan
    obtain ⟨haccepted, rfl⟩ := resolve_eq_ok_iff.1 hplan
    refine ⟨rfl, settles_policy config overrides, fun given hgiven => ?_⟩
    rw [resolve_eq_ok_iff, selected_congr hgiven, isAccepted_congr hgiven]
    exact ⟨haccepted, rfl⟩
  · exact fun failure => resolve_eq_error_iff

/-- Of three targets of a file, two are named, one of them twice. The third one has a pattern that
is not a glob, which matters only when it is named too, and then less than a name that is not
configured. -/
theorem resolve_exact_of_repeated_targets :
    let text := "ignore_tags = ['style']\n[targets.parts]\nsrc = ['**/*.xml']\n[targets.bad]\n" ++
      "src = ['ui/[']\n[targets.pages]\nsrc = ['ui/*.xml', '!ui/a.xml']\n"
    let config : Config :=
      { ignoreTags := ["style"]
        targets := [("bad", ["ui/["]), ("pages", ["ui/*.xml", "!ui/a.xml"]),
          ("parts", ["**/*.xml"])] }
    let overrides : Overrides :=
      { targets := ["parts", "pages", "parts"], checkAttributes := some true }
    let targets : List Target := [⟨"pages", ["ui/*.xml", "!ui/a.xml"]⟩, ⟨"parts", ["**/*.xml"]⟩]
    let failure : Failure :=
      { steps := ["invalid pattern for target bad: ui/["], cause := .glob "ui/[" .unclosedClass }
    parse text = .ok config ∧ config.TargetsAscend ∧
      (∃ plan, config.resolve overrides = .ok plan ∧ plan.targets = targets ∧
        config.Settles overrides plan.policy ∧
        config.resolve { overrides with targets := ["pages", "parts"] } = .ok plan) ∧
      config.resolve { targets := ["parts", "bad"] } = .error failure ∧
      config.resolve { targets := ["bad", "other", "more"] } =
        .error { cause := .unknownTarget "other" ["bad", "pages", "parts"] } := by
  intro text config overrides targets failure
  have hparse : parse text = .ok config := by
    -- Only a closed goal is evaluated in reasonable time.
    dsimp only [text, config]
    clear text config
    decide +kernel
  clear_value text
  have hascend := targetsAscend_of_parse hparse
  refine ⟨hparse, hascend, ?_, ?_, ?_⟩
  · obtain ⟨others, huniq, hok, hplan, -⟩ := resolve_exact hascend overrides
    have hselected : config.selected overrides = targets := by decide +kernel
    have hothers := (huniq _).1 (isSelection_selected hascend overrides)
    rw [hselected] at hothers
    subst hothers
    have haccepted : config.IsAccepted overrides targets := by
      refine ⟨by simp [config], ?_, .inr (by decide +kernel), ?_⟩
      · simp only [config, List.forall_mem_cons]
        exact ⟨⟨'s', by decide +kernel, by decide⟩, by simp⟩
      · simp only [targets, List.forall_mem_cons, List.not_mem_nil, false_implies, implies_true,
          and_true]
        decide +kernel
    obtain ⟨plan, hresolved⟩ := hok.2 haccepted
    obtain ⟨hsame, hsettles, hgiven⟩ := hplan plan hresolved
    exact ⟨plan, hresolved, hsame, hsettles, hgiven _ (by simp [overrides, or_comm])⟩
  · obtain ⟨others, huniq, -, -, herror⟩ := resolve_exact hascend { targets := ["parts", "bad"] }
    have hselected : config.selected { targets := ["parts", "bad"] } =
        [⟨"bad", ["ui/["]⟩, ⟨"parts", ["**/*.xml"]⟩] := by decide +kernel
    have hothers := (huniq _).1 (isSelection_selected hascend _)
    rw [hselected] at hothers
    have hclear : config.schemaComplaints ++ config.tagComplaints ++
        config.nameComplaints { targets := ["parts", "bad"] } = [] := by decide +kernel
    have hpattern : patternComplaints "bad" "ui/[" = [failure] := by decide +kernel
    rw [herror, ← hothers, complaints, ← List.append_assoc, ← List.append_assoc, hclear]
    simp [hpattern]
  · obtain ⟨others, -, -, -, herror⟩ :=
      resolve_exact hascend { targets := ["bad", "other", "more"] }
    have hclear : config.schemaComplaints ++ config.tagComplaints = [] := by decide +kernel
    have hnames : config.nameComplaints { targets := ["bad", "other", "more"] } =
        [{ cause := .unknownTarget "other" ["bad", "pages", "parts"] },
          { cause := .unknownTarget "more" ["bad", "pages", "parts"] }] := by decide +kernel
    rw [herror, complaints, ← List.append_assoc, hclear, hnames]
    rfl

end Config

end LocaleLint
