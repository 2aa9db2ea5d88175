import LocaleLint.FileGroup
import LocaleLint.Proofs.Entries
import LocaleLint.Proofs.FileTree.Walk
import Mathlib.Data.List.Induction
import Mathlib.Data.Nat.Find
import Mathlib.Data.String.Basic
import Mathlib.Order.Bounds.Basic

/-!
# What a list of patterns selects

A pattern keeps a file when it adds it and no exclusion after it removes it again. The main
result `filesMatching_meaning` says that the files that are kept by some pattern are selected,
once each, in the order of the first pattern that keeps them and then of their paths, and that
a list of patterns fails at its first pattern whose glob does not compile.

Both parts are inductions over the patterns. The selected files so far are described by
`Selection`, which a pattern that adds files (`Selection.add`) and an exclusion
(`Selection.remove`) carry over to the list with that pattern at its end.
-/

set_option autoImplicit false

namespace LocaleLint.FilePattern

/-! ## Patterns and files -/

/-- The glob of a pattern as it is compiled, which is written like a path. -/
def normal (pattern : String) : String :=
  (RepoPath.ofString (glob pattern)).text

/-- Whether the glob of a pattern compiles. -/
def Compiles (pattern : String) : Prop :=
  ∃ pieces, Glob.parse (normal pattern) = .ok pieces

instance (pattern : String) : Decidable (Compiles pattern) :=
  match h : Glob.parse (normal pattern) with
  | .ok compiled => isTrue ⟨compiled, h⟩
  | .error fault => isFalse (by simp [Compiles, h])

/-- Whether the glob of a pattern compiles and matches a path. -/
def Matches (pattern : String) (path : RepoPath) : Prop :=
  ∃ pieces, Glob.parse (normal pattern) = .ok pieces ∧ Glob.isMatch pieces path.text = true

instance (pattern : String) (path : RepoPath) : Decidable (Matches pattern path) :=
  match h : Glob.parse (normal pattern) with
  | .ok compiled => decidable_of_iff (Glob.isMatch compiled path.text = true) (by simp [Matches, h])
  | .error fault => isFalse (by simp [Matches, h])

/-- Whether the pattern at place `i` adds a path and no exclusion after it matches the path. -/
def Keeps (patterns : List String) (path : RepoPath) (i : Nat) : Prop :=
  (∃ pattern, patterns[i]? = some pattern ∧ isExclusion pattern = false ∧ Matches pattern path) ∧
    ∀ j pattern, i < j → patterns[j]? = some pattern → isExclusion pattern = true →
      ¬Matches pattern path

/-- Whether a path comes before another: by the first pattern that keeps it, then by its text. -/
def Precedes (patterns : List String) (a b : RepoPath) : Prop :=
  ∃ i j, IsLeast {k | Keeps patterns a k} i ∧ IsLeast {k | Keeps patterns b k} j ∧
    Prod.Lex (· < ·) (· < ·) (i, a.text) (j, b.text)

/-- The failure of a list of patterns, which names the first one whose glob does not compile. -/
def FailsWith (patterns : List String) (failure : Failure) : Prop :=
  ∃ earlier pattern later fault, patterns = earlier ++ pattern :: later ∧
    (∀ other ∈ earlier, Compiles other) ∧ Glob.parse (normal pattern) = .error fault ∧
    failure = { steps := ["compile pattern " ++ pattern], cause := .glob (normal pattern) fault }

/-! ## Failures -/

/-- A pattern whose glob compiles has the pieces of this glob. -/
theorem pieces_of_parse {pattern : String} {compiled : List Glob.Piece}
    (h : Glob.parse (normal pattern) = .ok compiled) : pieces pattern = .ok compiled := by
  unfold normal at h
  simp [pieces, h, withStep, Except.mapError]

/-- A pattern whose glob does not compile fails and is named. -/
theorem pieces_of_fault {pattern : String} {fault : Glob.Fault}
    (h : Glob.parse (normal pattern) = .error fault) :
    pieces pattern = .error
      { steps := ["compile pattern " ++ pattern], cause := .glob (normal pattern) fault } := by
  unfold normal at h
  simp [pieces, h, withStep, Except.mapError, Cause.failure, Failure.within, normal]

/-- A pattern that compiles in front changes nothing about how a list fails. -/
theorem failsWith_cons_of_compiles {pattern : String} {rest : List String} {failure : Failure}
    (h : Compiles pattern) : FailsWith (pattern :: rest) failure ↔ FailsWith rest failure := by
  constructor
  · rintro ⟨earlier, bad, later, fault, heq, hearlier, hfault, rfl⟩
    cases earlier with
    | nil =>
      obtain ⟨compiled, hcompiled⟩ := h
      rw [(List.cons.inj heq).1, hfault] at hcompiled
      cases hcompiled
    | cons first earlier =>
      exact ⟨earlier, bad, later, fault, (List.cons.inj heq).2,
        fun other hother => hearlier other (List.mem_cons_of_mem _ hother), hfault, rfl⟩
  · rintro ⟨earlier, bad, later, fault, rfl, hearlier, hfault, rfl⟩
    refine ⟨pattern :: earlier, bad, later, fault, rfl, fun other hother => ?_, hfault, rfl⟩
    rcases List.mem_cons.1 hother with rfl | hother
    · exact h
    · exact hearlier other hother

/-- A list fails at its first pattern if this does not compile. -/
theorem failsWith_cons_of_fault {pattern : String} {rest : List String} {fault : Glob.Fault}
    {failure : Failure} (h : Glob.parse (normal pattern) = .error fault) :
    FailsWith (pattern :: rest) failure ↔
      failure =
        { steps := ["compile pattern " ++ pattern], cause := .glob (normal pattern) fault } := by
  constructor
  · rintro ⟨earlier, bad, later, other, heq, hearlier, hfault, rfl⟩
    cases earlier with
    | nil =>
      obtain ⟨rfl, -⟩ := List.cons.inj heq
      rw [h] at hfault
      cases hfault
      rfl
    | cons first earlier =>
      obtain ⟨compiled, hcompiled⟩ := hearlier first List.mem_cons_self
      rw [← (List.cons.inj heq).1, h] at hcompiled
      cases hcompiled
  · rintro rfl
    exact ⟨[], pattern, rest, fault, rfl, by simp, h, rfl⟩

/-- The patterns fail as their globs say, whatever files there are and whatever is selected
before. -/
theorem foldlM_apply_eq_error_iff (files selected : List RepoPath) (patterns : List String)
    (failure : Failure) :
    patterns.foldlM (apply files) selected = .error failure ↔ FailsWith patterns failure := by
  induction patterns generalizing selected with
  | nil =>
    constructor
    · intro h
      cases h
    · rintro ⟨earlier, pattern, later, fault, heq, -⟩
      simp at heq
  | cons pattern rest ih =>
    rw [List.foldlM_cons]
    cases h : Glob.parse (normal pattern) with
    | ok compiled =>
      have hnext : ∃ next, apply files selected pattern = .ok next := by
        simp [apply, pieces_of_parse h, Except.map]
      obtain ⟨next, hnext⟩ := hnext
      rw [hnext, failsWith_cons_of_compiles ⟨compiled, h⟩]
      exact ih next
    | error fault =>
      rw [apply, pieces_of_fault h, failsWith_cons_of_fault h]
      constructor
      · intro heq
        cases heq
        rfl
      · rintro rfl
        rfl

/-- Some pattern does not compile exactly when the list has a failure. -/
theorem exists_failsWith_iff (patterns : List String) :
    (∃ failure, FailsWith patterns failure) ↔ ∃ pattern ∈ patterns, ¬Compiles pattern := by
  induction patterns with
  | nil => simp [FailsWith]
  | cons pattern rest ih =>
    cases h : Glob.parse (normal pattern) with
    | ok compiled =>
      have hcompiles : Compiles pattern := ⟨compiled, h⟩
      simp only [failsWith_cons_of_compiles hcompiles, ih, List.exists_mem_cons_iff]
      simp [hcompiles]
    | error fault =>
      have hfaulty : ¬Compiles pattern := by
        rintro ⟨compiled, hcompiled⟩
        rw [h] at hcompiled
        cases hcompiled
      simp only [failsWith_cons_of_fault h, exists_eq, true_iff]
      exact ⟨pattern, List.mem_cons_self, hfaulty⟩

/-! ## One pattern more -/

/-- An exclusion removes the files that it matches, and any other pattern adds them behind the
selected ones. -/
theorem apply_of_parse {files selected : List RepoPath} {pattern : String}
    {compiled : List Glob.Piece} (h : Glob.parse (normal pattern) = .ok compiled) :
    apply files selected pattern = .ok
      (if isExclusion pattern then
        selected.filter fun path => !Glob.isMatch compiled path.text
      else
        (selected ++ files.filter fun path => Glob.isMatch compiled path.text).eraseDups) := by
  rw [apply, pieces_of_parse h]
  rfl

/-- Whether a pattern matches is decided by the glob that it compiles to. -/
theorem matches_iff {pattern : String} {compiled : List Glob.Piece}
    (h : Glob.parse (normal pattern) = .ok compiled) (path : RepoPath) :
    Matches pattern path ↔ Glob.isMatch compiled path.text = true := by
  constructor
  · rintro ⟨other, hother, hmatch⟩
    rw [h] at hother
    cases hother
    exact hmatch
  · intro hmatch
    exact ⟨compiled, h, hmatch⟩

/-- The pattern that keeps a file is one of the list. -/
theorem Keeps.lt_length {patterns : List String} {path : RepoPath} {i : Nat}
    (h : Keeps patterns path i) : i < patterns.length := by
  obtain ⟨⟨pattern, hpattern, -⟩, -⟩ := h
  exact (List.getElem?_eq_some_iff.1 hpattern).1

/-- A pattern at the end takes away what it excludes, and is the last that keeps what it adds. -/
theorem keeps_concat_iff {patterns : List String} {pattern : String} {path : RepoPath} {i : Nat} :
    Keeps (patterns ++ [pattern]) path i ↔
      (Keeps patterns path i ∧ ¬(isExclusion pattern = true ∧ Matches pattern path)) ∨
        (i = patterns.length ∧ isExclusion pattern = false ∧ Matches pattern path) := by
  constructor
  · rintro ⟨⟨added, hadded, hinclusion, hmatch⟩, hlater⟩
    by_cases hi : i < patterns.length
    · rw [List.getElem?_append_left hi] at hadded
      left
      refine ⟨⟨⟨added, hadded, hinclusion, hmatch⟩, fun j other hij hother => ?_⟩, ?_⟩
      · have hj := (List.getElem?_eq_some_iff.1 hother).1
        exact hlater j other hij (by rw [List.getElem?_append_left hj, hother])
      · rintro ⟨hexclusion, hexcluded⟩
        exact hlater patterns.length pattern hi (by simp) hexclusion hexcluded
    · have hlength := (List.getElem?_eq_some_iff.1 hadded).1
      rw [List.length_append, List.length_singleton] at hlength
      have hend : i = patterns.length := by omega
      subst hend
      obtain rfl : pattern = added := by simpa using hadded
      right
      exact ⟨rfl, hinclusion, hmatch⟩
  · rintro (⟨hkeeps, hkept⟩ | ⟨rfl, hinclusion, hmatch⟩)
    · have hi := hkeeps.lt_length
      obtain ⟨⟨added, hadded, hinclusion, hmatch⟩, hlater⟩ := hkeeps
      refine ⟨⟨added, by rw [List.getElem?_append_left hi, hadded], hinclusion, hmatch⟩,
        fun j other hij hother hexclusion hexcluded => ?_⟩
      by_cases hj : j < patterns.length
      · rw [List.getElem?_append_left hj] at hother
        exact hlater j other hij hother hexclusion hexcluded
      · have hlength := (List.getElem?_eq_some_iff.1 hother).1
        rw [List.length_append, List.length_singleton] at hlength
        have hend : j = patterns.length := by omega
        subst hend
        obtain rfl : pattern = other := by simpa using hother
        exact hkept ⟨hexclusion, hexcluded⟩
    · refine ⟨⟨pattern, by simp, hinclusion, hmatch⟩, fun j other hij hother => ?_⟩
      have hlength := (List.getElem?_eq_some_iff.1 hother).1
      rw [List.length_append, List.length_singleton] at hlength
      omega

/-- An exclusion leaves the patterns that keep a path that it does not match. -/
theorem keeps_concat_of_not_matches {patterns : List String} {pattern : String} {path : RepoPath}
    (h : ¬Matches pattern path) :
    {k | Keeps (patterns ++ [pattern]) path k} = {k | Keeps patterns path k} := by
  ext k
  simp only [Set.mem_ofPred_eq, keeps_concat_iff]
  constructor
  · rintro (⟨hkeeps, -⟩ | ⟨-, -, hmatch⟩)
    · exact hkeeps
    · exact absurd hmatch h
  · intro hkeeps
    exact .inl ⟨hkeeps, fun hexcluded => h hexcluded.2⟩

/-- A pattern that adds files does not move a path that an earlier one keeps. -/
theorem isLeast_concat_of_keeps {patterns : List String} {pattern : String} {path : RepoPath}
    {i : Nat} (hinclusion : isExclusion pattern = false)
    (h : IsLeast {k | Keeps patterns path k} i) :
    IsLeast {k | Keeps (patterns ++ [pattern]) path k} i := by
  constructor
  · exact keeps_concat_iff.2 (.inl ⟨h.1, by simp [hinclusion]⟩)
  · intro k hk
    rcases keeps_concat_iff.1 hk with ⟨hkeeps, -⟩ | ⟨rfl, -⟩
    · exact h.2 hkeeps
    · exact le_of_lt h.1.lt_length

/-- A path that no earlier pattern keeps is kept from the pattern on that adds it. -/
theorem isLeast_concat_of_not_keeps {patterns : List String} {pattern : String} {path : RepoPath}
    (hinclusion : isExclusion pattern = false) (hmatch : Matches pattern path)
    (h : ¬∃ k, Keeps patterns path k) :
    IsLeast {k | Keeps (patterns ++ [pattern]) path k} patterns.length := by
  constructor
  · exact keeps_concat_iff.2 (.inr ⟨rfl, hinclusion, hmatch⟩)
  · intro k hk
    rcases keeps_concat_iff.1 hk with ⟨hkeeps, -⟩ | ⟨rfl, -⟩
    · exact absurd ⟨k, hkeeps⟩ h
    · exact le_refl _

/-- Among the patterns that keep a file there is a first one. -/
theorem exists_isLeast_of_keeps {patterns : List String} {path : RepoPath}
    (h : ∃ k, Keeps patterns path k) : ∃ i, IsLeast {k | Keeps patterns path k} i := by
  classical
  exact ⟨Nat.find h, Nat.find_spec h, fun k hk => Nat.find_min' h hk⟩

/-! ## The selected files -/

/-- What is selected of some files: those that a pattern keeps, once each and in order. -/
structure Selection (files : List RepoPath) (patterns : List String)
    (selected : List RepoPath) : Prop where
  mem_iff : ∀ path, path ∈ selected ↔ path ∈ files ∧ ∃ i, Keeps patterns path i
  nodup : selected.Nodup
  ordered : selected.Pairwise (Precedes patterns)

/-- No patterns select no files. -/
theorem selection_nil (files : List RepoPath) : Selection files [] [] where
  mem_iff := by simp [Keeps]
  nodup := .nil
  ordered := .nil

/-- An exclusion removes the paths that it matches and keeps the order of the others. -/
theorem Selection.remove {files selected : List RepoPath} {patterns : List String}
    {pattern : String} {compiled : List Glob.Piece} (h : Selection files patterns selected)
    (hcompiled : Glob.parse (normal pattern) = .ok compiled)
    (hexclusion : isExclusion pattern = true) :
    Selection files (patterns ++ [pattern])
      (selected.filter fun path => !Glob.isMatch compiled path.text) := by
  have hmatches := matches_iff hcompiled
  have hrest (path : RepoPath) :
      path ∈ selected.filter (fun path => !Glob.isMatch compiled path.text) ↔
        path ∈ selected ∧ ¬Matches pattern path := by
    rw [List.mem_filter, hmatches]
    simp
  constructor
  · intro path
    rw [hrest, h.mem_iff, and_assoc]
    refine and_congr_right fun _ => ?_
    constructor
    · rintro ⟨⟨i, hkeeps⟩, hkept⟩
      exact ⟨i, keeps_concat_iff.2 (.inl ⟨hkeeps, fun hexcluded => hkept hexcluded.2⟩)⟩
    · rintro ⟨i, hkeeps⟩
      rcases keeps_concat_iff.1 hkeeps with ⟨hkeeps, hkept⟩ | ⟨-, hinclusion, -⟩
      · exact ⟨⟨i, hkeeps⟩, fun hmatch => hkept ⟨hexclusion, hmatch⟩⟩
      · rw [hexclusion] at hinclusion
        cases hinclusion
  · exact h.nodup.filter _
  · refine (h.ordered.filter _).imp_of_mem fun {a b} ha hb hab => ?_
    rw [Precedes, keeps_concat_of_not_matches ((hrest a).1 ha).2,
      keeps_concat_of_not_matches ((hrest b).1 hb).2]
    exact hab

/-- A pattern adds the paths that it matches behind those that are there, in their order. -/
theorem Selection.add {files selected : List RepoPath} {patterns : List String}
    {pattern : String} {compiled : List Glob.Piece} (h : Selection files patterns selected)
    (hfiles : files.Pairwise fun a b => a.text ≤ b.text)
    (hcompiled : Glob.parse (normal pattern) = .ok compiled)
    (hinclusion : isExclusion pattern = false) :
    Selection files (patterns ++ [pattern])
      (selected ++ files.filter fun path => Glob.isMatch compiled path.text).eraseDups := by
  have hmatches := matches_iff hcompiled
  have hnews (path : RepoPath) :
      path ∈ ((files.filter fun path => Glob.isMatch compiled path.text).removeAll
          selected).eraseDups ↔ path ∈ files ∧ Matches pattern path ∧ path ∉ selected := by
    rw [List.mem_eraseDups, List.removeAll, List.mem_filter, List.mem_filter, hmatches, and_assoc]
    simp
  have hfresh {path : RepoPath} (hpath : path ∈ files) (hnot : path ∉ selected) :
      ¬∃ k, Keeps patterns path k := by
    intro hkeeps
    exact hnot ((h.mem_iff path).2 ⟨hpath, hkeeps⟩)
  constructor
  · intro path
    rw [List.mem_eraseDups, List.mem_append, List.mem_filter, ← hmatches, h.mem_iff,
      ← and_or_left]
    refine and_congr_right fun _ => ?_
    constructor
    · rintro (⟨i, hkeeps⟩ | hmatch)
      · exact ⟨i, keeps_concat_iff.2 (.inl ⟨hkeeps, by simp [hinclusion]⟩)⟩
      · exact ⟨patterns.length, keeps_concat_iff.2 (.inr ⟨rfl, hinclusion, hmatch⟩)⟩
    · rintro ⟨i, hkeeps⟩
      rcases keeps_concat_iff.1 hkeeps with ⟨hkeeps, -⟩ | ⟨-, -, hmatch⟩
      · exact .inl ⟨i, hkeeps⟩
      · exact .inr hmatch
  · exact Entries.nodup_eraseDups _
  · rw [List.eraseDups_append, List.pairwise_append]
    refine ⟨?_, ?_, ?_⟩
    · refine (h.ordered.sublist (Entries.eraseDups_sublist selected)).imp ?_
      rintro a b ⟨i, j, hi, hj, hlex⟩
      exact ⟨i, j, isLeast_concat_of_keeps hinclusion hi, isLeast_concat_of_keeps hinclusion hj,
        hlex⟩
    · -- the new paths all have the rank of the new pattern, so their texts decide
      have hsublist : ((files.filter fun path => Glob.isMatch compiled path.text).removeAll
          selected).eraseDups.Sublist files :=
        (Entries.eraseDups_sublist _).trans (List.filter_sublist.trans List.filter_sublist)
      refine ((hfiles.sublist hsublist).and (Entries.nodup_eraseDups _)).imp_of_mem ?_
      rintro a b ha hb ⟨hle, hne⟩
      obtain ⟨hafiles, hamatch, hanot⟩ := (hnews a).1 ha
      obtain ⟨hbfiles, hbmatch, hbnot⟩ := (hnews b).1 hb
      have htext : a.text ≠ b.text := by
        intro heq
        apply hne
        cases a
        cases b
        exact congrArg RepoPath.mk heq
      exact ⟨_, _, isLeast_concat_of_not_keeps hinclusion hamatch (hfresh hafiles hanot),
        isLeast_concat_of_not_keeps hinclusion hbmatch (hfresh hbfiles hbnot),
        .right _ (lt_of_le_of_ne hle htext)⟩
    · intro a ha b hb
      rw [List.mem_eraseDups, h.mem_iff] at ha
      obtain ⟨hbfiles, hbmatch, hbnot⟩ := (hnews b).1 hb
      obtain ⟨i, hi⟩ := exists_isLeast_of_keeps ha.2
      exact ⟨i, _, isLeast_concat_of_keeps hinclusion hi,
        isLeast_concat_of_not_keeps hinclusion hbmatch (hfresh hbfiles hbnot),
        .left _ _ hi.1.lt_length⟩

/-- What patterns select when they all compile. -/
theorem selection_of_foldlM {files selected : List RepoPath} {patterns : List String}
    (hfiles : files.Pairwise fun a b => a.text ≤ b.text)
    (h : patterns.foldlM (apply files) [] = .ok selected) : Selection files patterns selected := by
  induction patterns using List.reverseRecOn generalizing selected with
  | nil =>
    cases h
    exact selection_nil files
  | append_singleton patterns pattern ih =>
    rw [List.foldlM_append] at h
    cases hearlier : patterns.foldlM (apply files) [] with
    | error failure =>
      rw [hearlier] at h
      cases h
    | ok earlier =>
      have hlast : apply files earlier pattern = .ok selected := by
        rw [hearlier] at h
        simp only [List.foldlM_cons, List.foldlM_nil, bind_pure] at h
        exact h
      have hselection := ih hearlier
      cases hcompiled : Glob.parse (normal pattern) with
      | error fault =>
        rw [apply, pieces_of_fault hcompiled] at hlast
        cases hlast
      | ok compiled =>
        rw [apply_of_parse hcompiled] at hlast
        cases hexclusion : isExclusion pattern with
        | true =>
          simp only [hexclusion, if_true, Except.ok.injEq] at hlast
          rw [← hlast]
          exact hselection.remove hcompiled hexclusion
        | false =>
          simp only [hexclusion, Bool.false_eq_true, if_false, Except.ok.injEq] at hlast
          rw [← hlast]
          exact hselection.add hfiles hcompiled hexclusion

/-- Whatever a list of patterns selects is the selection that is specified. -/
theorem selection_of_select {files selected : List RepoPath} {patterns : List String}
    (h : select files patterns = .ok selected) : Selection files patterns selected := by
  have htrans : ∀ a b c : RepoPath, a.le b = true → b.le c = true → a.le c = true := by
    intro a b c hab hbc
    simp only [RepoPath.le, decide_eq_true_eq] at hab hbc ⊢
    exact le_trans hab hbc
  have htotal : ∀ a b : RepoPath, (a.le b || b.le a) = true := by
    intro a b
    simp only [RepoPath.le, Bool.or_eq_true, decide_eq_true_eq]
    exact le_total a.text b.text
  have hsorted := List.pairwise_mergeSort htrans htotal files
  simp only [RepoPath.le, decide_eq_true_eq] at hsorted
  have hselection := selection_of_foldlM hsorted h
  constructor
  · intro path
    rw [hselection.mem_iff]
    exact and_congr_left fun _ => List.mem_mergeSort
  · exact hselection.nodup
  · exact hselection.ordered

/-! ## The order of the files -/

/-- Of two files no more than one comes before the other. -/
theorem Precedes.asymm {patterns : List String} {a b : RepoPath} (hab : Precedes patterns a b)
    (hba : Precedes patterns b a) : False := by
  obtain ⟨i, j, hi, hj, hlex⟩ := hab
  obtain ⟨j', i', hj', hi', hlex'⟩ := hba
  obtain rfl := hi.unique hi'
  obtain rfl := hj.unique hj'
  cases hlex with
  | left _ _ hlt =>
    cases hlex' with
    | left _ _ hlt' => omega
    | right => omega
  | right _ hlt =>
    cases hlex' with
    | left _ _ hlt' => omega
    | right _ hlt' => exact lt_asymm hlt hlt'

/-- There is only one selection of a set of files, in whatever order the files are listed. -/
theorem Selection.unique {files others : List RepoPath} {patterns : List String}
    {selected selected' : List RepoPath} (hfiles : ∀ path, path ∈ files ↔ path ∈ others)
    (h : Selection files patterns selected) (h' : Selection others patterns selected') :
    selected = selected' := by
  have hperm : selected.Perm selected' := by
    rw [List.perm_ext_iff_of_nodup h.nodup h'.nodup]
    intro path
    rw [h.mem_iff, h'.mem_iff, hfiles]
  exact hperm.eq_of_pairwise (fun a b _ _ hab hba => (hab.asymm hba).elim) h.ordered h'.ordered

/-- What is selected does not depend on the order in which files are listed, nor on repetitions. -/
theorem select_congr {files others : List RepoPath} (patterns : List String)
    (hfiles : ∀ path, path ∈ files ↔ path ∈ others) :
    select files patterns = select others patterns := by
  have hfailure (failure : Failure) :
      select files patterns = .error failure ↔ select others patterns = .error failure := by
    rw [select, select, foldlM_apply_eq_error_iff, foldlM_apply_eq_error_iff]
  cases h : select files patterns with
  | error failure => exact ((hfailure failure).1 h).symm
  | ok selected =>
    cases h' : select others patterns with
    | error failure =>
      rw [(hfailure failure).2 h'] at h
      cases h
    | ok selected' =>
      have heq := (selection_of_select h).unique hfiles (selection_of_select h')
      rw [heq]

/-! ## The meaning of a list of patterns -/

/-- On a tree the patterns select among the files below the root. -/
theorem run_filesMatching (tree : FileTree) (root : String) (patterns : List String) :
    (filesMatching root patterns : ExceptT Failure (StateM FileTree) (List RepoPath)).run tree =
      (select ((tree.filesBelow root).map RepoPath.ofString) patterns, tree) :=
  rfl

/-- The files below a root that patterns select. The patterns fail exactly when one of them does
not compile, and then the first such one is named. Otherwise a file is selected exactly when a
pattern keeps it, once, and files stand in the order of the first patterns that keep them and
then of their paths. Nothing hangs on the order in which the files are listed. -/
theorem filesMatching_meaning (tree : FileTree) (root : String) (patterns : List String) :
    let listed := (tree.filesBelow root).map RepoPath.ofString
    ∃ result,
      (filesMatching root patterns : ExceptT Failure (StateM FileTree) (List RepoPath)).run tree =
        (result, tree) ∧
      ((∃ failure, result = .error failure) ↔ ∃ pattern ∈ patterns, ¬Compiles pattern) ∧
      (∀ failure, result = .error failure ↔ FailsWith patterns failure) ∧
      (∀ selected, result = .ok selected →
        (∀ path, path ∈ selected ↔ path ∈ listed ∧ ∃ i, Keeps patterns path i) ∧
          selected.Nodup ∧ selected.Pairwise (Precedes patterns)) ∧
      ∀ (other : FileTree) (otherRoot : String),
        (∀ path, path ∈ (other.filesBelow otherRoot).map RepoPath.ofString ↔ path ∈ listed) →
          (filesMatching otherRoot patterns :
            ExceptT Failure (StateM FileTree) (List RepoPath)).run other = (result, other) := by
  intro listed
  have hfails (failure : Failure) :
      select listed patterns = .error failure ↔ FailsWith patterns failure :=
    foldlM_apply_eq_error_iff _ _ patterns failure
  refine ⟨select listed patterns, run_filesMatching tree root patterns, ?_, hfails, ?_, ?_⟩
  · simp only [hfails, exists_failsWith_iff]
  · intro selected h
    have hselection := selection_of_select h
    exact ⟨hselection.mem_iff, hselection.nodup, hselection.ordered⟩
  · intro other otherRoot hlisted
    rw [run_filesMatching, select_congr patterns hlisted]

/-- A file that is excluded and added again stands where it is added again. -/
theorem filesMatching_added_again :
    let tree : FileTree := ⟨[(["b.xml"], .file []), (["a.xml"], .file [])], []⟩
    let other : FileTree := ⟨[(["a.xml"], .file []), (["b.xml"], .file [])], []⟩
    let patterns := ["*.xml", "!a.xml", "a.xml"]
    let selected : List RepoPath := [⟨"b.xml"⟩, ⟨"a.xml"⟩]
    (filesMatching "/" patterns : ExceptT Failure (StateM FileTree) (List RepoPath)).run tree =
        (.ok selected, tree) ∧
      (filesMatching "/" patterns : ExceptT Failure (StateM FileTree) (List RepoPath)).run other =
        (.ok selected, other) ∧
      (∃ i, Keeps patterns ⟨"a.xml"⟩ i) ∧ selected.Pairwise (Precedes patterns) := by
  intro tree other patterns selected
  have hlisted : (tree.filesBelow "/").map RepoPath.ofString = [⟨"b.xml"⟩, ⟨"a.xml"⟩] := by
    rw [tree.filesBelow_root]
    decide +kernel
  have hother : (other.filesBelow "/").map RepoPath.ofString = [⟨"a.xml"⟩, ⟨"b.xml"⟩] := by
    rw [other.filesBelow_root]
    decide +kernel
  have hsorted : [(⟨"b.xml"⟩ : RepoPath), ⟨"a.xml"⟩].mergeSort RepoPath.le =
      [⟨"a.xml"⟩, ⟨"b.xml"⟩] := by
    simp [List.mergeSort, RepoPath.le]
  have hfirst : apply [⟨"a.xml"⟩, ⟨"b.xml"⟩] [] "*.xml" = .ok [⟨"a.xml"⟩, ⟨"b.xml"⟩] := by
    decide +kernel
  have hsecond : apply [⟨"a.xml"⟩, ⟨"b.xml"⟩] [⟨"a.xml"⟩, ⟨"b.xml"⟩] "!a.xml" =
      .ok [⟨"b.xml"⟩] := by
    decide +kernel
  have hthird : apply [⟨"a.xml"⟩, ⟨"b.xml"⟩] [⟨"b.xml"⟩] "a.xml" = .ok [⟨"b.xml"⟩, ⟨"a.xml"⟩] := by
    decide +kernel
  have hrun : (filesMatching "/" patterns :
      ExceptT Failure (StateM FileTree) (List RepoPath)).run tree = (.ok selected, tree) := by
    rw [run_filesMatching, hlisted, select, hsorted]
    simp only [patterns, List.foldlM_cons, bind, Except.bind, hfirst, hsecond, hthird]
    rfl
  obtain ⟨result, hresult, -, -, hok, hany⟩ := filesMatching_meaning tree "/" patterns
  have hsame : result = .ok selected := (Prod.mk.inj (hresult.symm.trans hrun)).1
  obtain ⟨hmem, -, hordered⟩ := hok selected hsame
  have hlists : ∀ path, path ∈ (other.filesBelow "/").map RepoPath.ofString ↔
      path ∈ (tree.filesBelow "/").map RepoPath.ofString := by
    intro path
    rw [hother, hlisted]
    simp [or_comm]
  have hrunOther := hany other "/" hlists
  rw [hsame] at hrunOther
  exact ⟨hrun, hrunOther, ((hmem ⟨"a.xml"⟩).1 (by simp [selected])).2, hordered⟩

end LocaleLint.FilePattern
