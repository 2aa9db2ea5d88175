import LocaleLint.Proofs.Except
import LocaleLint.Proofs.FilePattern.Selection

/-!
# Which patterns are valid

A pattern is read twice: as it stands when a configuration is resolved, and written like a path
when a target is expanded. Both readings fail as `Glob.scan` says, which follows the escapes, the
classes and the depth of the groups and leaves the pieces out. A backslash escapes what comes
after it in the first reading and is a slash in the second, so the readings agree on patterns
whose backslashes stand in front of ordinary characters (`Glob.scan_slashed`), but not on all
patterns: `resolve_agrees_with_discover` says what holds and `resolve_disagrees_with_discover`
what does not.
-/

set_option autoImplicit false

namespace LocaleLint

namespace Glob

/-! ## Faults of a glob -/

/-- The fault of a reading that fails. -/
def faultOf {α : Type} : Except Fault α → Option Fault
  | .ok _ => none
  | .error fault => some fault

/-- What is wrong with a glob of which `s` is left and `depth` groups are open. -/
def scan (depth : Nat) (s : List Char) : Option Fault :=
  match s with
  | [] => if depth = 0 then none else some .unclosedGroup
  | '\\' :: [] => some .danglingEscape
  | '\\' :: _ :: rest => scan depth rest
  | c :: rest =>
    if c = '[' then
      match _h : readClass rest with
      | .ok (_, rest) => scan depth rest
      | .error fault => some fault
    else if c = '}' then
      if depth = 0 then some .unopenedGroup else scan (depth - 1) rest
    else scan (if c = '{' then depth + 1 else depth) rest
termination_by s.length
decreasing_by
  all_goals simp only [List.length_cons]
  all_goals try omega
  have := length_le_of_readClass _h
  omega

/-- Whether a character leaves the scan where it is. -/
def isOrdinary (c : Char) : Bool :=
  c ≠ '\\' && c ≠ '[' && c ≠ '{' && c ≠ '}'

/-- A character is ordinary unless it is a backslash, an opening bracket, or a brace. -/
theorem isOrdinary_iff (c : Char) :
    isOrdinary c = true ↔ c ≠ '\\' ∧ c ≠ '[' ∧ c ≠ '{' ∧ c ≠ '}' := by
  simp [isOrdinary, and_assoc]

/-- A backslash and the character behind it are passed over together. -/
theorem scan_escape (depth : Nat) (c : Char) (rest : List Char) :
    scan depth ('\\' :: c :: rest) = scan depth rest := by
  rw [scan]

/-- A class is passed over as a whole, or is at fault itself. -/
theorem scan_class (depth : Nat) (rest : List Char) :
    scan depth ('[' :: rest) =
      match readClass rest with
      | .ok (_, after) => scan depth after
      | .error fault => some fault := by
  rw [scan]
  · simp only [if_true]
    split
    · next h => rw [h]
    · next h => rw [h]
  all_goals simp

/-- A closing brace needs a group that it closes. -/
theorem scan_close (depth : Nat) (rest : List Char) :
    scan depth ('}' :: rest) =
      if depth = 0 then some .unopenedGroup else scan (depth - 1) rest := by
  rw [scan]
  · simp
  all_goals simp

/-- An opening brace opens one more group. -/
theorem scan_open (depth : Nat) (rest : List Char) :
    scan depth ('{' :: rest) = scan (depth + 1) rest := by
  rw [scan]
  · simp
  all_goals simp

/-- An ordinary character is passed over. -/
theorem scan_ordinary {c : Char} (h : isOrdinary c = true) (depth : Nat) (rest : List Char) :
    scan depth (c :: rest) = scan depth rest := by
  obtain ⟨hescape, hclass, hopen, hclose⟩ := (isOrdinary_iff c).1 h
  rw [scan]
  · simp [hclass, hopen, hclose]
  · intro heq
    exact absurd heq hescape
  · intro _ _ heq
    exact absurd heq hescape

/-! ## Reading and scanning -/

namespace Reading

/-- Adding a piece opens and closes no group. -/
theorem outer_push (reading : Reading) (piece : Piece) :
    (reading.push piece).outer = reading.outer :=
  rfl

/-- Replacing a slash opens and closes no group. -/
theorem outer_replaceSlash (reading : Reading) (piece : Piece) :
    (reading.replaceSlash piece).outer = reading.outer := by
  unfold replaceSlash
  split <;> rfl

/-- Two asterisks with a slash behind them open and close no group. -/
theorem outer_starsSlash (reading : Reading) (previous : Option Char) :
    (reading.starsSlash previous).outer = reading.outer := by
  unfold starsSlash
  split
  · rfl
  · split
    · exact outer_replaceSlash reading _
    · rfl

/-- Two asterisks open and close no group, wherever they stand. -/
theorem outer_stars (reading : Reading) (previous next : Option Char) :
    (reading.stars previous next).outer = reading.outer := by
  unfold stars
  split
  · split <;> rfl
  · split
    · exact outer_replaceSlash reading _
    · rfl

/-- A reading is in a group exactly if there are groups around it. -/
theorem inGroup_iff (reading : Reading) : reading.inGroup = true ↔ reading.outer.length ≠ 0 := by
  simp [inGroup]

end Reading

/-- The scan counts the groups that are open. Everything else that has been read is irrelevant
to whether the rest is a glob. -/
theorem faultOf_readFrom (previous : Option Char) (reading : Reading) (s : List Char) :
    faultOf (readFrom previous reading s) = scan reading.outer.length s := by
  have hstar : isOrdinary '*' = true := by decide
  have hslash : isOrdinary '/' = true := by decide
  fun_induction readFrom previous reading s with
  | case1 previous reading hgroup =>
    rw [Reading.inGroup_iff] at hgroup
    rw [scan, if_neg hgroup, faultOf]
  | case2 previous reading hgroup =>
    rw [Reading.inGroup_iff, not_not] at hgroup
    rw [scan, if_pos hgroup, faultOf]
  | case3 previous reading rest ih =>
    rw [ih, Reading.outer_starsSlash]
    simp only [scan_ordinary hstar, scan_ordinary hslash]
  | case4 previous reading rest _ ih =>
    rw [ih, Reading.outer_stars]
    simp only [scan_ordinary hstar]
  | case5 previous reading => rw [scan, faultOf]
  | case6 previous reading c rest ih => rw [ih, Reading.outer_push, scan_escape]
  | case7 previous reading rest piece after hclass _ _ _ _ ih =>
    rw [ih, Reading.outer_push, scan_class, hclass]
  | case8 previous reading rest fault hclass => rw [scan_class, hclass, faultOf]
  | case9 previous reading rest closed hclosed _ _ _ _ _ ih =>
    rw [ih, scan_close]
    unfold Reading.closeGroup at hclosed
    split at hclosed
    · cases hclosed
    · next houter =>
      cases hclosed
      simp [houter]
  | case10 previous reading rest fault hclosed =>
    rw [scan_close, faultOf]
    unfold Reading.closeGroup at hclosed
    split at hclosed
    · next houter =>
      cases hclosed
      simp [houter]
    · cases hclosed
  | case11 previous reading c rest _ _ hdangling hescape hclass hclose next ih =>
    rw [ih]
    by_cases hopen : c = '{'
    · subst hopen
      rw [scan_open]
      rfl
    · have hbackslash : c ≠ '\\' := by
        intro h
        cases rest with
        | nil => exact hdangling h rfl
        | cons next rest => exact hescape next rest h rfl
      have houter : next.outer = reading.outer := by
        unfold next
        split_ifs
        all_goals rfl
      rw [houter, scan_ordinary ((isOrdinary_iff c).2 ⟨hbackslash, hclass, hopen, hclose⟩)]

/-! ## Backslashes as slashes -/

/-- Whether every backslash stands outside of classes and in front of an ordinary character. -/
def separates (s : List Char) : Bool :=
  match s with
  | [] => true
  | '\\' :: [] => false
  | '\\' :: c :: rest => isOrdinary c && separates rest
  | c :: rest =>
    if c = '[' then
      match _h : readClass rest with
      | .ok (_, after) => rest.count '\\' = after.count '\\' && separates after
      | .error _ => !rest.contains '\\'
    else separates rest
termination_by s.length
decreasing_by
  all_goals simp only [List.length_cons]
  all_goals try omega
  have := length_le_of_readClass _h
  omega

/-- Only a backslash is turned into a slash. -/
theorem slashed_of_ne {c : Char} (h : c ≠ '\\') : RepoPath.slashed c = c :=
  if_neg h

/-- A text without backslashes is spelled with slashes already. -/
theorem map_slashed_of_not_mem {s : List Char} (h : '\\' ∉ s) : s.map RepoPath.slashed = s := by
  induction s with
  | nil => rfl
  | cons c s ih =>
    rw [List.mem_cons, not_or] at h
    rw [List.map_cons, slashed_of_ne (Ne.symm h.1), ih h.2]

/-- The members of a class are read off the front, whatever comes after their bracket. -/
theorem readMembers_append {reading : ClassReading} {s rest : List Char}
    {ranges : List (Char × Char)} (h : readMembers reading s = .ok (ranges, rest)) :
    ∃ members, members ≠ [] ∧ s = members ++ rest ∧
      ∀ t, readMembers reading (members ++ t) = .ok (ranges, t) := by
  induction s generalizing reading with
  | nil => cases h
  | cons c s ih =>
    have hstep {next : ClassReading} (hnext : readMembers next s = .ok (ranges, rest))
        (hread : ∀ t, readMembers reading (c :: t) = readMembers next t) :
        ∃ members, members ≠ [] ∧ c :: s = members ++ rest ∧
          ∀ t, readMembers reading (members ++ t) = .ok (ranges, t) := by
      obtain ⟨members, -, rfl, hmembers⟩ := ih hnext
      refine ⟨c :: members, List.cons_ne_nil _ _, rfl, fun t => ?_⟩
      rw [List.cons_append, hread, hmembers]
    rw [readMembers] at h
    split at h
    · next hclose =>
      cases h
      refine ⟨[c], List.cons_ne_nil _ _, rfl, fun t => ?_⟩
      rw [List.singleton_append, readMembers, if_pos hclose]
    · next hclose =>
      split at h
      · next hhyphen =>
        refine hstep h fun t => ?_
        rw [readMembers, if_neg hclose, if_pos hhyphen]
      · next hhyphen =>
        split at h
        · next next hadd =>
          refine hstep h fun t => ?_
          rw [readMembers, if_neg hclose, if_neg hhyphen, hadd]
        · cases h

/-- A mark in front of the members of a class negates it, and is none of them. -/
theorem readClass_negated {c : Char} (h : c = '!' ∨ c = '^') (s : List Char) :
    readClass (c :: s) =
      (readMembers {} s).map fun read => (.charClass true read.1, read.2) := by
  rcases h with rfl | rfl
  all_goals rfl

/-- Without a mark in front all characters of a class are members. -/
theorem readClass_of_not_negated {c : Char} (h : ¬(c = '!' ∨ c = '^')) (s : List Char) :
    readClass (c :: s) =
      (readMembers {} (c :: s)).map fun read => (.charClass false read.1, read.2) := by
  rw [not_or] at h
  simp [readClass, h]

/-- Reading a class uses up its members and does not depend on what follows. -/
theorem readClass_append {s rest : List Char} {piece : Piece}
    (h : readClass s = .ok (piece, rest)) :
    ∃ members, s = members ++ rest ∧ ∀ t, readClass (members ++ t) = .ok (piece, t) := by
  cases s with
  | nil => cases h
  | cons c s =>
    by_cases hnegated : c = '!' ∨ c = '^'
    · rw [readClass_negated hnegated] at h
      obtain ⟨read, hread, heq⟩ := exists_of_map_ok h
      cases heq
      obtain ⟨members, -, rfl, hmembers⟩ := readMembers_append hread
      refine ⟨c :: members, rfl, fun t => ?_⟩
      rw [List.cons_append, readClass_negated hnegated, hmembers]
      rfl
    · rw [readClass_of_not_negated hnegated] at h
      obtain ⟨read, hread, heq⟩ := exists_of_map_ok h
      cases heq
      obtain ⟨members, hne, hmembers, happend⟩ := readMembers_append hread
      obtain ⟨first, members, rfl⟩ := List.exists_cons_of_ne_nil hne
      obtain ⟨rfl, -⟩ := List.cons.inj hmembers
      refine ⟨c :: members, hmembers, fun t => ?_⟩
      rw [List.cons_append, readClass_of_not_negated hnegated, ← List.cons_append, happend]
      rfl

/-- A class without backslashes is passed over as before when backslashes turn into slashes. -/
theorem scan_class_slashed {rest after : List Char} {piece : Piece}
    (h : readClass rest = .ok (piece, after)) (hcount : rest.count '\\' = after.count '\\')
    (depth : Nat) :
    scan depth ('[' :: rest.map RepoPath.slashed) = scan depth (after.map RepoPath.slashed) := by
  obtain ⟨members, rfl, hmembers⟩ := readClass_append h
  have hplain : '\\' ∉ members := by
    rw [List.count_append] at hcount
    exact List.count_eq_zero.1 (by omega)
  rw [List.map_append, map_slashed_of_not_mem hplain, scan_class, hmembers]

/-- Backslashes that separate can be read as slashes. -/
theorem scan_slashed {s : List Char} (h : separates s = true) (depth : Nat) :
    scan depth (s.map RepoPath.slashed) = scan depth s := by
  fun_induction separates s generalizing depth with
  | case1 => rfl
  | case2 => cases h
  | case3 c rest ih =>
    rw [Bool.and_eq_true] at h
    obtain ⟨hc, hrest⟩ := h
    have hslash : isOrdinary '/' = true := by decide
    rw [List.map_cons, List.map_cons, slashed_of_ne ((isOrdinary_iff c).1 hc).1, scan_escape,
      ← ih hrest depth]
    exact (scan_ordinary hslash depth _).trans (scan_ordinary hc depth _)
  | case4 rest piece after hclass _ _ ih =>
    rw [Bool.and_eq_true, decide_eq_true_eq] at h
    obtain ⟨hcount, hafter⟩ := h
    rw [List.map_cons, slashed_of_ne (by decide), scan_class_slashed hclass hcount, ih hafter,
      scan_class, hclass]
  | case5 rest fault hclass =>
    rw [Bool.not_eq_true', List.contains_eq_mem, decide_eq_false_iff_not] at h
    rw [List.map_cons, slashed_of_ne (by decide), map_slashed_of_not_mem h]
  | case6 c rest hdangling hescape hclass ih =>
    have hbackslash : c ≠ '\\' := by
      intro heq
      cases rest with
      | nil => exact hdangling heq rfl
      | cons next rest => exact hescape next rest heq rfl
    rw [List.map_cons, slashed_of_ne hbackslash]
    by_cases hopen : c = '{'
    · subst hopen
      rw [scan_open, scan_open, ih h]
    · by_cases hclose : c = '}'
      · subst hclose
        rw [scan_close, scan_close, ih h]
      · have hc := (isOrdinary_iff c).2 ⟨hbackslash, hclass, hopen, hclose⟩
        rw [scan_ordinary hc, scan_ordinary hc, ih h]

/-- Leading dots with slashes behind them do not matter to what is wrong with a glob. -/
theorem scan_dropCurrent (depth : Nat) (s : List Char) :
    scan depth (RepoPath.dropCurrent s) = scan depth s := by
  have hdot : isOrdinary '.' = true := by decide
  have hslash : isOrdinary '/' = true := by decide
  fun_induction RepoPath.dropCurrent s with
  | case1 rest ih => rw [ih, scan_ordinary hdot, scan_ordinary hslash]
  | case2 s => rfl

/-- A glob can be read exactly if nothing is wrong with it. -/
theorem exists_parse_iff (text : String) :
    (∃ pieces, parse text = .ok pieces) ↔ scan 0 text.toList = none := by
  have hscan := faultOf_readFrom none {} text.toList
  change faultOf (parse text) = scan 0 text.toList at hscan
  rw [← hscan]
  cases parse text with
  | ok pieces => simp [faultOf]
  | error fault => simp [faultOf]

end Glob

namespace Config

/-! ## Checking the patterns of a configuration -/

/-- A pattern of a configuration is accepted exactly if nothing is wrong with its glob. -/
theorem checkPattern_iff (target pattern : String) :
    checkPattern target pattern = .ok () ↔ Glob.scan 0 (FilePattern.glob pattern).toList = none := by
  rw [← Glob.exists_parse_iff, checkPattern]
  cases Glob.parse (FilePattern.glob pattern) with
  | ok pieces => simp
  | error fault => simp

/-- The patterns of a configuration are accepted exactly if each one is. -/
theorem checkPatterns_iff (targets : List Target) :
    checkPatterns targets = .ok () ↔
      ∀ target ∈ targets, ∀ pattern ∈ target.patterns,
        checkPattern target.name pattern = .ok () := by
  rw [checkPatterns, forM_eq_ok_iff]
  simp only [forM_eq_ok_iff]

/-- Once the targets are selected a configuration fails for its schema or for a tag, or is decided
by the patterns. -/
theorem resolve_cases {config : Config} {overrides : Overrides} {targets : List Target}
    (h : config.selectTargets overrides = .ok targets) :
    (∃ schema, config.resolve overrides = .error (Cause.failure (.configSchema schema))) ∨
      config.resolve overrides = .error (Cause.failure .emptyIgnoreTag) ∨
        config.resolve overrides =
          (checkPatterns targets).map fun _ => ⟨config.policy overrides, targets⟩ := by
  unfold resolve
  cases hschema : config.schema.filter (· ≠ Cause.configSchemaName) with
  | some schema =>
    left
    exact ⟨schema, rfl⟩
  | none =>
    right
    by_cases hempty : config.ignoreTags.any (Text.isAll Text.isSpace) = true
    · left
      rw [if_pos hempty]
      rfl
    · right
      rw [if_neg hempty, h]
      rfl

/-- Without a configuration, only the globs of the given paths are checked. -/
theorem resolve_paths (first : String) (rest : List String) :
    resolve {} { paths := first :: rest } =
      (checkPatterns [⟨callerTarget, first :: rest⟩]).map fun _ =>
        ⟨policy {} { paths := first :: rest }, [⟨callerTarget, first :: rest⟩]⟩ :=
  rfl

end Config

namespace FilePattern

/-! ## The two readings of a pattern -/

/-- A pattern spelled with slashes for backslashes. -/
def slashes (pattern : String) : String :=
  String.ofList (pattern.toList.map RepoPath.slashed)

/-- Whether the backslashes of a pattern only separate. -/
def Separates (pattern : String) : Prop :=
  Glob.separates (glob pattern).toList = true

/-- Spelling a pattern with slashes spells its glob so. -/
theorem toList_glob_slashes (pattern : String) :
    (glob (slashes pattern)).toList = (glob pattern).toList.map RepoPath.slashed := by
  have hmark (c : Char) : RepoPath.slashed c = '!' ↔ c = '!' := by
    unfold RepoPath.slashed
    split_ifs with h
    · subst h
      decide
    · rfl
  cases h : pattern.toList with
  | nil => simp [glob, slashes, h]
  | cons c rest =>
    by_cases hc : c = '!'
    · subst hc
      have hslashed : RepoPath.slashed '!' = '!' := by decide
      simp [glob, slashes, h, hslashed]
    · have hslashed := mt (hmark c).1 hc
      simp only [glob, slashes, String.toList_ofList, h, List.map_cons]
      split
      · next heq => exact absurd (List.cons.inj heq).1 hslashed
      · split
        · next heq => exact absurd (List.cons.inj heq).1 hc
        · simp [h]

/-- What is wrong with a glob as it is compiled is what is wrong with its spelling with slashes. -/
theorem scan_normal (pattern : String) :
    Glob.scan 0 (normal pattern).toList =
      Glob.scan 0 ((glob pattern).toList.map RepoPath.slashed) := by
  rw [← Glob.scan_dropCurrent 0 ((glob pattern).toList.map RepoPath.slashed), normal,
    RepoPath.ofString]
  split_ifs with hempty
  · have hnil : RepoPath.dropCurrent ((glob pattern).toList.map RepoPath.slashed) = [] := by
      simpa using hempty
    rw [hnil]
    decide +kernel
  · rw [String.toList_ofList]

/-- A pattern compiles exactly if nothing is wrong with its glob once it is spelled with slashes. -/
theorem compiles_iff (pattern : String) :
    Compiles pattern ↔ Glob.scan 0 ((glob pattern).toList.map RepoPath.slashed) = none := by
  rw [Compiles, Glob.exists_parse_iff, scan_normal]

/-- Spelled with slashes, a pattern is accepted exactly if it compiles. -/
theorem checkPattern_slashes_iff (target pattern : String) :
    Config.checkPattern target (slashes pattern) = .ok () ↔ Compiles pattern := by
  rw [Config.checkPattern_iff, toList_glob_slashes, compiles_iff]

/-- A pattern whose backslashes only separate is accepted exactly if it compiles. -/
theorem checkPattern_iff_of_separates {pattern : String} (h : Separates pattern)
    (target : String) : Config.checkPattern target pattern = .ok () ↔ Compiles pattern := by
  rw [Config.checkPattern_iff, compiles_iff, Glob.scan_slashed h]

/-! ## Targets -/

/-- On a tree a target is expanded by what its patterns select among the files below the root. -/
theorem run_discover (tree : FileTree) (root : String) (target : Target) :
    (FileGroup.discover root target : ExceptT Failure (StateM FileTree) FileGroup).run tree =
      (withStep ("expand target " ++ target.name)
        ((select ((tree.filesBelow root).map RepoPath.ofString) target.patterns).map
          (FileGroup.mk target.name)), tree) := by
  have hrun := run_filesMatching tree root target.patterns
  rw [FileGroup.discover, run_duringStep]
  cases hselect : select ((tree.filesBelow root).map RepoPath.ofString) target.patterns with
  | ok paths =>
    rw [hselect] at hrun
    rw [run_bind_of_ok hrun]
    rfl
  | error failure =>
    rw [hselect] at hrun
    rw [run_bind_of_error hrun]
    rfl

/-- Whether the patterns of a target find files, perhaps none, below a root. -/
def Expands (tree : FileTree) (root : String) (target : Target) : Prop :=
  ∃ paths, (FileGroup.discover root target : ExceptT Failure (StateM FileTree) FileGroup).run tree =
    (.ok ⟨target.name, paths⟩, tree)

/-- A target is expanded exactly when all of its patterns compile, whatever files there are. -/
theorem expands_iff (tree : FileTree) (root : String) (target : Target) :
    Expands tree root target ↔ ∀ pattern ∈ target.patterns, Compiles pattern := by
  have hfails : (∃ failure, select ((tree.filesBelow root).map RepoPath.ofString)
      target.patterns = .error failure) ↔ ∃ pattern ∈ target.patterns, ¬Compiles pattern := by
    simp only [select, foldlM_apply_eq_error_iff, exists_failsWith_iff]
  have hcompile : (∀ pattern ∈ target.patterns, Compiles pattern) ↔
      ¬∃ failure, select ((tree.filesBelow root).map RepoPath.ofString) target.patterns =
        .error failure := by
    rw [hfails]
    push Not
    rfl
  rw [hcompile, Expands, run_discover]
  cases select ((tree.filesBelow root).map RepoPath.ofString) target.patterns with
  | ok paths =>
    constructor
    · rintro - ⟨failure, h⟩
      cases h
    · intro _
      exact ⟨paths, rfl⟩
  | error failure =>
    constructor
    · rintro ⟨paths, h⟩
      cases h
    · intro h
      exact absurd ⟨failure, rfl⟩ h

/-- Targets are accepted and expanded alike when their backslashes only separate. -/
theorem checkPatterns_iff_expands {targets : List Target}
    (h : ∀ target ∈ targets, ∀ pattern ∈ target.patterns, Separates pattern) (tree : FileTree)
    (root : String) :
    Config.checkPatterns targets = .ok () ↔ ∀ target ∈ targets, Expands tree root target := by
  simp only [Config.checkPatterns_iff, expands_iff]
  refine forall₂_congr fun target htarget => forall₂_congr fun pattern hpattern => ?_
  exact checkPattern_iff_of_separates (h target htarget pattern hpattern) target.name

/-! ## Validation and expansion -/

/-- A pattern compiles exactly when its spelling with slashes is accepted, and when it is accepted
itself if its backslashes only separate. If those of all selected targets do, a plan is expanded
without a failure, and no plan is refused for the pattern of targets that are all expanded. -/
theorem resolve_agrees_with_discover {config : Config} {overrides : Overrides}
    {targets : List Target} (hselected : config.selectTargets overrides = .ok targets)
    (tree : FileTree) (root : String) :
    (∀ name pattern, Config.checkPattern name (slashes pattern) = .ok () ↔ Compiles pattern) ∧
      (∀ name pattern, Separates pattern →
        (Config.checkPattern name pattern = .ok () ↔ Compiles pattern)) ∧
      ((∀ target ∈ targets, ∀ pattern ∈ target.patterns, Separates pattern) →
        (∀ plan, config.resolve overrides = .ok plan →
          ∀ target ∈ plan.targets, Expands tree root target) ∧
        ∀ failure text fault, config.resolve overrides = .error failure →
          failure.cause = .glob text fault → ∃ target ∈ targets, ¬Expands tree root target) := by
  refine ⟨checkPattern_slashes_iff, fun name pattern h => checkPattern_iff_of_separates h name,
    fun hseparates => ?_⟩
  have hagree := checkPatterns_iff_expands hseparates tree root
  constructor
  · intro plan hplan
    rcases Config.resolve_cases hselected with ⟨schema, h⟩ | h | h
    · rw [hplan] at h
      cases h
    · rw [hplan] at h
      cases h
    · rw [hplan] at h
      obtain ⟨⟨⟩, hcheck, rfl⟩ := exists_of_map_ok h.symm
      exact hagree.1 hcheck
  · intro failure text fault hfailure hcause
    rcases Config.resolve_cases hselected with ⟨schema, h⟩ | h | h
    · rw [hfailure] at h
      cases h
      cases hcause
    · rw [hfailure] at h
      cases h
      cases hcause
    · by_contra hall
      push Not at hall
      rw [hagree.2 hall, hfailure] at h
      cases h

/-- A directory and its files, with a backslash between them. -/
theorem resolve_agrees_with_discover_of_directory :
    let tree : FileTree := ⟨[(["ui", "a.xml"], .file [])], []⟩
    let overrides : Overrides := { paths := ["ui\\*.xml", "!ui\\old.xml"] }
    ∃ plan, Config.resolve {} overrides = .ok plan ∧ plan.targets ≠ [] ∧
      ∀ target ∈ plan.targets, Expands tree "/" target := by
  intro tree overrides
  have hseparates : ∀ target ∈ [(⟨Config.callerTarget, overrides.paths⟩ : Target)],
      ∀ pattern ∈ target.patterns, Separates pattern := by
    simp only [overrides, List.forall_mem_singleton, List.forall_mem_cons, Separates]
    decide +kernel
  have hcheck : Config.checkPatterns [⟨Config.callerTarget, overrides.paths⟩] = .ok () := by
    decide +kernel
  have hplan : ∃ plan, Config.resolve {} overrides = .ok plan ∧
      plan.targets = [⟨Config.callerTarget, overrides.paths⟩] := by
    rw [Config.resolve_paths, hcheck]
    exact ⟨_, rfl, rfl⟩
  obtain ⟨plan, hplan, htargets⟩ := hplan
  have hselected : Config.selectTargets {} overrides =
      .ok [⟨Config.callerTarget, overrides.paths⟩] := rfl
  obtain ⟨-, -, hagree⟩ := resolve_agrees_with_discover hselected tree "/"
  exact ⟨plan, hplan, by simp [htargets], (hagree hseparates).1 plan hplan⟩

/-- A group behind a backslash is refused although it compiles, and an open class behind a
backslash is accepted although it does not. -/
theorem resolve_disagrees_with_discover :
    let tree : FileTree := ⟨[(["ui", "a.xml"], .file [])], []⟩
    let refused : Overrides := { paths := ["ui\\\x7ba,b\x7d.xml"] }
    let accepted : Overrides := { paths := ["ui\\[a.xml"] }
    (∃ failure, Config.resolve {} refused = .error failure ∧
        failure.cause = .glob "ui\\\x7ba,b\x7d.xml" .unopenedGroup) ∧
      Expands tree "/" ⟨Config.callerTarget, refused.paths⟩ ∧
      (∃ plan, Config.resolve {} accepted = .ok plan) ∧
      ¬Expands tree "/" ⟨Config.callerTarget, accepted.paths⟩ := by
  intro tree refused accepted
  refine ⟨?_, ?_, ?_, ?_⟩
  · let failure : Failure := {
      steps := ["invalid pattern for target cli: ui\\\x7ba,b\x7d.xml"]
      cause := .glob "ui\\\x7ba,b\x7d.xml" .unopenedGroup }
    have hcheck : Config.checkPatterns [⟨Config.callerTarget, refused.paths⟩] =
        .error failure := by
      decide +kernel
    rw [Config.resolve_paths, hcheck]
    exact ⟨failure, rfl, rfl⟩
  · simp only [expands_iff, compiles_iff, refused, List.forall_mem_singleton]
    decide +kernel
  · have hcheck : Config.checkPatterns [⟨Config.callerTarget, accepted.paths⟩] = .ok () := by
      decide +kernel
    rw [Config.resolve_paths, hcheck]
    exact ⟨_, rfl⟩
  · simp only [expands_iff, compiles_iff, accepted, List.forall_mem_singleton]
    have hscan : Glob.scan 0 ((glob "ui\\[a.xml").toList.map RepoPath.slashed) =
        some .unclosedClass := by decide +kernel
    rw [hscan]
    simp

end FilePattern

end LocaleLint
