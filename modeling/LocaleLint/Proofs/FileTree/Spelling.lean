import LocaleLint.Proofs.FilePattern.Validity
import LocaleLint.Proofs.FileTree.Walk

/-!
# Spellings of a path

A path may be spelled with either slash, with single dots and with repeated separators. Its normal
form has slashes only and no single dots in front, and keeps the names on the path in order. What
it need not keep is that the path is relative: dots in front of a repeated separator are dropped
with one of the separators, and the other then stands in front. The main result `ofString_denotes`
says that this is the only case, and that from every root the normal form of any other relative path
leads where the path leads. `ofString_roots_doubled_slash` shows such a path: its normal form finds
nothing.

Single dots change nothing on a walk as long as a step follows them (`FileTree.walk_append_dots`).
-/

set_option autoImplicit false

namespace LocaleLint

/-! ## Dots on a walk -/

namespace FileTree

variable {tree : FileTree} {follow : Bool}

/-- A step that is taken from a directory can wait for a single dot. -/
theorem walk_dot (links : Nat) (place : Place) (step : String) (rest : List String) :
    tree.walk follow links place ("." :: step :: rest) =
      tree.walk follow links place (step :: rest) := by
  rw [walk]
  cases hplace : tree.entry? place with
  | none => rw [walk, hplace]
  | some entry =>
    cases entry with
    | directory => rw [if_pos rfl]
    | file bytes => rw [walk, hplace]
    | link target => rw [walk, hplace]

/-- Steps that lead alike from everywhere lead alike after other steps. The induction is on the
links that may be followed, and then on the steps before: a link puts new steps before them. -/
theorem walk_append_congr {steps steps' : List String} (hne : steps ≠ []) (hne' : steps' ≠ [])
    (h : ∀ links place, tree.walk follow links place steps = tree.walk follow links place steps')
    (links : Nat) (place : Place) (before : List String) :
    tree.walk follow links place (before ++ steps) =
      tree.walk follow links place (before ++ steps') := by
  induction links using Nat.strongRecOn generalizing place before with
  | ind links ihlinks =>
    induction before generalizing place with
    | nil => exact h links place
    | cons step before ih =>
      by_cases hplace : tree.entry? place = some .directory
      swap
      · rw [List.cons_append, List.cons_append, walk, walk]
        cases hentry : tree.entry? place with
        | none => rfl
        | some entry =>
          cases entry with
          | directory => exact absurd hentry hplace
          | file bytes => rfl
          | link target => rfl
      by_cases hdot : step = "."
      · rw [List.cons_append, List.cons_append, walk, walk, hplace]
        simp only [if_pos hdot, ih]
      by_cases hdots : step = ".."
      · rw [List.cons_append, List.cons_append, walk, walk, hplace]
        simp only [if_neg hdot, if_pos hdots, ih]
      by_cases hlong : nameLimit < step.utf8ByteSize
      · rw [List.cons_append, List.cons_append, walk, walk, hplace]
        simp only [if_neg hdot, if_neg hdots, if_pos hlong]
      have hrest : (before ++ steps).isEmpty = false := by simp [hne]
      have hrest' : (before ++ steps').isEmpty = false := by simp [hne']
      rw [List.cons_append, List.cons_append, walk_name hplace hdot hdots hlong,
        walk_name hplace hdot hdots hlong, hrest, hrest']
      cases tree.entry? (place ++ [step]) with
      | none => rfl
      | some entry =>
        cases entry with
        | directory => exact ih _
        | file bytes => exact ih _
        | link target =>
          cases links with
          | zero => rfl
          | succ links =>
            have hlink := ihlinks links (Nat.lt_succ_self links) (start place target)
              (PathText.steps target ++ before)
            simpa [List.append_assoc] using hlink

/-- Any number of single dots in front of a step change nothing. -/
theorem walk_append_dots (n links : Nat) (place : Place) (before : List String)
    {steps : List String} (hne : steps ≠ []) :
    tree.walk follow links place (before ++ (List.replicate n "." ++ steps)) =
      tree.walk follow links place (before ++ steps) := by
  induction n with
  | zero => rfl
  | succ n ih =>
    rw [← ih]
    have hrest : List.replicate n "." ++ steps ≠ [] := by simp [hne]
    obtain ⟨step, rest, hcons⟩ := List.exists_cons_of_ne_nil hrest
    rw [List.replicate_succ, List.cons_append, hcons]
    exact walk_append_congr (by simp) (by simp) (fun links place => walk_dot links place step rest)
      links place before

end FileTree

namespace RepoPath

/-! ## Names on a path -/

/-- Whether a character separates names, however a path is spelled. -/
def isSeparator (c : Char) : Bool :=
  c = '/' || c = '\\'

/-- The parts of a text between separators, without those that are empty or a single dot. -/
def parts (s : List Char) : List (List Char) :=
  (s.splitOnP isSeparator).filter fun part => part ≠ [] && part ≠ ['.']

/-- The names on a path, in order. -/
def names (path : String) : List String :=
  (parts path.toList).map String.ofList

/-- Whether a path starts with no separator. -/
def IsRelative (path : String) : Prop :=
  ∀ c, path.toList.head? = some c → isSeparator c = false

/-- A path is relative if it starts with a character that does not separate. -/
theorem isRelative_of_head? {s : String} {c : Char} (h : s.toList.head? = some c)
    (hc : isSeparator c = false) : IsRelative s := by
  intro d hd
  rw [h] at hd
  exact Option.some.inj hd ▸ hc

/-- Turning backslashes into slashes leaves the parts between separators as they are. -/
theorem splitOnP_map_slashed (s : List Char) :
    (s.map slashed).splitOnP isSeparator = s.splitOnP isSeparator := by
  induction s with
  | nil => rfl
  | cons c s ih =>
    rw [List.map_cons, List.splitOnP_cons_eq_if_modifyHead, List.splitOnP_cons_eq_if_modifyHead, ih]
    by_cases hc : c = '\\'
    · subst hc
      rfl
    · rw [Glob.slashed_of_ne hc]

/-- Slashes for backslashes keep the parts. -/
theorem parts_map_slashed (s : List Char) : parts (s.map slashed) = parts s := by
  rw [parts, splitOnP_map_slashed, parts]

/-- Dots that are dropped in front are no parts. -/
theorem parts_dropCurrent (s : List Char) : parts (dropCurrent s) = parts s := by
  fun_induction dropCurrent s with
  | case1 rest ih =>
    have hdot : ('.' :: '/' :: rest).splitOnP isSeparator = ['.'] :: rest.splitOnP isSeparator :=
      List.splitOnP_append_cons ['.'] rest rfl
    rw [ih, parts, parts, hdot]
    rfl
  | case2 s => rfl

/-! ## Dots in front -/

/-- Single dots with a slash behind each. -/
def dots (n : Nat) : List Char :=
  (List.replicate n ['.', '/']).flatten

/-- One more dot stands in front of the others. -/
theorem dots_succ (n : Nat) : dots (n + 1) = '.' :: '/' :: dots n := by
  rw [dots, List.replicate_succ, List.flatten_cons]
  rfl

/-- What is dropped in front of a path is a number of single dots with slashes. -/
theorem exists_dropCurrent (s : List Char) : ∃ n, s = dots n ++ dropCurrent s := by
  fun_induction dropCurrent s with
  | case1 rest ih =>
    obtain ⟨n, hn⟩ := ih
    refine ⟨n + 1, ?_⟩
    rw [dots_succ, List.cons_append, List.cons_append, ← hn]
  | case2 s => exact ⟨0, rfl⟩

/-- However many dots stand in front, they are all dropped. -/
theorem dropCurrent_dots_append (n : Nat) (s : List Char) :
    dropCurrent (dots n ++ s) = dropCurrent s := by
  induction n with
  | zero => rfl
  | succ n ih => rw [dots_succ, List.cons_append, List.cons_append, dropCurrent, ih]

/-- The characters of a normal form: what is left without the dots in front, or one dot. -/
theorem toList_text_ofString (s : String) :
    (ofString s).text.toList =
      if dropCurrent (s.toList.map slashed) = [] then ['.']
      else dropCurrent (s.toList.map slashed) := by
  rw [ofString]
  by_cases h : dropCurrent (s.toList.map slashed) = []
  · simp [h]
  · simp [h]

/-- The names on a path are those on its normal form. -/
theorem names_ofString (s : String) : names (ofString s).text = names s := by
  rw [names, names, toList_text_ofString, ← parts_map_slashed s.toList,
    ← parts_dropCurrent (s.toList.map slashed)]
  split_ifs with h
  · rw [h]
    rfl
  · rfl

/-- A normal form starts with a slash exactly when one stands behind the dots in front. -/
theorem isAbsolute_ofString_iff (s : String) :
    PathText.isAbsolute (ofString s).text = true ↔
      ∃ n rest, s.toList.map slashed = dots n ++ '/' :: rest := by
  rw [PathText.isAbsolute, toList_text_ofString, decide_eq_true_eq]
  constructor
  · intro h
    obtain ⟨n, hn⟩ := exists_dropCurrent (s.toList.map slashed)
    split_ifs at h with hempty
    · cases h
    · obtain ⟨rest, hrest⟩ := List.head?_eq_some_iff.1 h
      exact ⟨n, rest, hrest ▸ hn⟩
  · rintro ⟨n, rest, h⟩
    have hdrop : dropCurrent (s.toList.map slashed) = '/' :: rest := by
      rw [h, dropCurrent_dots_append, dropCurrent]
      simp
    rw [hdrop]
    rfl

end RepoPath

/-! ## Steps along a path -/

namespace PathText

open RepoPath (dots dots_succ)

/-- Each dot in front is a component of its own. -/
theorem components_dots_append (n : Nat) (s : List Char) :
    components (dots n ++ s) = List.replicate n "." ++ components s := by
  induction n with
  | zero => rfl
  | succ n ih =>
    have hdot : components ('.' :: '/' :: (dots n ++ s)) = "." :: components (dots n ++ s) :=
      components_append ['.'] _
    rw [dots_succ, List.cons_append, List.cons_append, hdot, ih, List.replicate_succ,
      List.cons_append]

/-- Each dot in front is a step of its own. -/
theorem steps_dots_append (n : Nat) {s : List Char} (hne : s ≠ []) :
    steps (String.ofList (dots n ++ s)) = List.replicate n "." ++ steps (String.ofList s) := by
  rw [steps_eq, steps_eq, endsInSlash, endsInSlash, String.toList_ofList, String.toList_ofList,
    List.getLast?_append_of_ne_nil _ hne, components_dots_append, List.append_assoc]

/-- A part that has begun is among those between the slashes. -/
theorem exists_ne_nil_of_splitFrom {part : List Char} (hne : part ≠ []) (s : List Char) :
    ∃ first ∈ splitFrom part s, first ≠ [] := by
  induction s generalizing part with
  | nil => exact ⟨part.reverse, by simp [splitFrom], by simpa using hne⟩
  | cons c s ih =>
    rw [splitFrom]
    split
    · exact ⟨part.reverse, List.mem_cons_self, by simpa using hne⟩
    · exact ih (by simp)

/-- A path that is not empty and not absolute takes at least one step. -/
theorem steps_ne_nil {path : String} (hne : path ≠ "") (h : isAbsolute path = false) :
    steps path ≠ [] := by
  have hlist : path.toList ≠ [] := by simpa using hne
  obtain ⟨c, rest, hcons⟩ := List.exists_cons_of_ne_nil hlist
  have hc : c ≠ '/' := by simpa [isAbsolute, hcons] using h
  obtain ⟨first, hmem, hfirst⟩ := exists_ne_nil_of_splitFrom (List.cons_ne_nil c []) rest
  have hcomponent : String.ofList first ∈ components path.toList := by
    rw [components, hcons, splitFrom, if_neg hc]
    exact List.mem_map_of_mem (List.mem_filter.2 ⟨hmem, by simpa using hfirst⟩)
  intro hnil
  rw [steps_eq, List.append_eq_nil_iff] at hnil
  rw [hnil.1] at hcomponent
  cases hcomponent

/-- Nothing below a path but a slash at its end. -/
theorem steps_join_empty {root : String} (hroot : root ≠ "") :
    steps (join root "") = components root.toList ++ steps "." := by
  have hdot : steps "." = ["."] := by decide +kernel
  rw [join, if_neg (by simp [isAbsolute, hroot]), hdot]
  split
  · next hslash =>
    rw [String.append_empty, steps_eq, if_pos hslash]
  · have hslash : (root ++ "/" ++ "").toList = root.toList ++ '/' :: [] := by simp
    have hnone : components [] = [] := rfl
    rw [steps_eq, endsInSlash, hslash, components_append, hnone, List.append_nil,
      List.getLast?_append_of_ne_nil _ (by simp)]
    rfl

/-- A path below a root that has a name is not empty. -/
theorem join_ne_empty {root : String} (hroot : root ≠ "") {path : String}
    (hpath : isAbsolute path = false) : join root path ≠ "" := by
  rw [join, if_neg (by simp [hpath, hroot])]
  split <;> simp [hroot]

/-- A joined path holds a null character exactly if a part of it does. -/
theorem null_mem_join_iff {root : String} (hroot : root ≠ "") {path : String}
    (hpath : isAbsolute path = false) :
    '\x00' ∈ (join root path).toList ↔ '\x00' ∈ root.toList ∨ '\x00' ∈ path.toList := by
  rw [join, if_neg (by simp [hpath, hroot])]
  split <;> simp

end PathText

namespace RepoPath

open FilePattern (slashes)

/-- A relative path stays relative when it is spelled with slashes. -/
theorem isAbsolute_slashes {s : String} (h : IsRelative s) :
    PathText.isAbsolute (slashes s) = false := by
  rw [PathText.isAbsolute, slashes, String.toList_ofList, decide_eq_false_iff_not, List.head?_map,
    Option.map_eq_some_iff]
  rintro ⟨c, hc, hslashed⟩
  have hseparator := h c hc
  rw [isSeparator, Bool.or_eq_false_iff, decide_eq_false_iff_not,
    decide_eq_false_iff_not] at hseparator
  rw [Glob.slashed_of_ne hseparator.2] at hslashed
  exact hseparator.1 hslashed

/-- The steps along a path are those along its normal form, with single dots in front. -/
theorem exists_steps_slashes {s : String} (hne : s ≠ "") :
    ∃ n, PathText.steps (slashes s) =
      List.replicate n "." ++ PathText.steps (ofString s).text := by
  have hslashed : s.toList.map slashed ≠ [] := by simpa using hne
  have htext := toList_text_ofString s
  obtain ⟨n, hn⟩ := exists_dropCurrent (s.toList.map slashed)
  generalize dropCurrent (s.toList.map slashed) = left at htext hn
  rw [slashes, ← String.ofList_toList (s := (ofString s).text), htext, hn]
  split_ifs with hempty
  · subst hempty
    rw [List.append_nil] at hn ⊢
    cases n with
    | zero => exact absurd hn hslashed
    | succ n =>
      have hdots : dots (n + 1) = dots n ++ ['.', '/'] := by
        simp [dots, List.replicate_succ']
      have hlast : PathText.steps (String.ofList ['.', '/']) = [".", "."] := by decide +kernel
      have hdot : PathText.steps (String.ofList ['.']) = ["."] := by decide +kernel
      refine ⟨n + 1, ?_⟩
      rw [hdots, PathText.steps_dots_append n (by simp), hlast, hdot, List.replicate_succ',
        List.append_assoc]
      rfl
  · exact ⟨n, PathText.steps_dots_append n hempty⟩

/-- Dropping dots in front drops no null character. -/
theorem null_mem_ofString_iff (s : String) :
    '\x00' ∈ (ofString s).text.toList ↔ '\x00' ∈ (slashes s).toList := by
  have htext := toList_text_ofString s
  obtain ⟨n, hn⟩ := exists_dropCurrent (s.toList.map slashed)
  generalize dropCurrent (s.toList.map slashed) = left at htext hn
  have hdots : '\x00' ∉ dots n := by
    intro hmem
    obtain ⟨_, hpiece, hc⟩ := List.mem_flatten.1 hmem
    rw [List.eq_of_mem_replicate hpiece] at hc
    revert hc
    decide
  rw [slashes, String.toList_ofList, htext, hn, List.mem_append]
  split_ifs with hempty
  · subst hempty
    simp [hdots]
  · simp [hdots]

/-- A path is never empty: a single dot stands for the root. -/
theorem text_ofString_ne_empty (s : String) : (ofString s).text ≠ "" := by
  intro h
  have htext := toList_text_ofString s
  rw [h] at htext
  split_ifs at htext with hempty
  · cases htext
  · exact hempty htext.symm

/-! ## Where a normal form leads -/

/-- Paths of the same steps but for dots in front lead alike below a root, unless one of them is too
long to be asked about. -/
theorem locate_join_ofString (tree : FileTree) (follow : Bool) {root s : String} (hroot : root ≠ "")
    (hrelative : IsRelative s) (hnormal : PathText.isAbsolute (ofString s).text = false)
    (hlength : (PathText.join root (slashes s)).utf8ByteSize ≤ FileTree.pathLimit)
    (hlength' : (PathText.join root (ofString s).text).utf8ByteSize ≤ FileTree.pathLimit) :
    tree.locate follow (PathText.join root (ofString s).text) =
      tree.locate follow (PathText.join root (slashes s)) := by
  have hspelled := isAbsolute_slashes hrelative
  have hcheck : FileTree.checkPath (PathText.join root (ofString s).text) =
      FileTree.checkPath (PathText.join root (slashes s)) := by
    have hnull := (PathText.null_mem_join_iff hroot hnormal).trans
      ((or_congr_right (null_mem_ofString_iff s)).trans
        (PathText.null_mem_join_iff hroot hspelled).symm)
    have hne := PathText.join_ne_empty hroot hnormal
    have hne' := PathText.join_ne_empty hroot hspelled
    simp [FileTree.checkPath, hnull, hne, hne', Nat.not_lt.2 hlength, Nat.not_lt.2 hlength']
  have hstart : FileTree.start tree.workingDirectory (PathText.join root (ofString s).text) =
      FileTree.start tree.workingDirectory (PathText.join root (slashes s)) := by
    rw [FileTree.start, FileTree.start, PathText.isAbsolute_join hroot hnormal,
      PathText.isAbsolute_join hroot hspelled]
  have hwalk (place : Place) :
      tree.walk follow FileTree.linkLimit place
          (PathText.components root.toList ++ PathText.steps (ofString s).text) =
        tree.walk follow FileTree.linkLimit place
          (PathText.steps (PathText.join root (slashes s))) := by
    by_cases hempty : s = ""
    · subst hempty
      have hdot : (ofString "").text = "." := by decide +kernel
      have hnone : slashes "" = "" := by decide +kernel
      rw [hdot, hnone, PathText.steps_join_empty hroot]
    · obtain ⟨n, hn⟩ := exists_steps_slashes hempty
      have hslashed : slashes s ≠ "" := by simpa [slashes] using hempty
      rw [PathText.steps_join_relative hroot hslashed hspelled, hn]
      exact (FileTree.walk_append_dots n _ _ _
        (PathText.steps_ne_nil (text_ofString_ne_empty s) hnormal)).symm
  rw [FileTree.locate, FileTree.locate, FileTree.locateSteps, FileTree.locateSteps, hcheck, hstart,
    PathText.steps_join_relative hroot (text_ofString_ne_empty s) hnormal, hwalk]

/-- **The normal form of a path** holds the same names in the same order. It starts with a slash
exactly when one stands in the path behind single dots and slashes in front; otherwise, below
every root, a relative path and its normal form lead to the same place of every tree, unless one of
the joined paths is too long to be asked about. -/
theorem ofString_denotes (s : String) :
    names (ofString s).text = names s ∧
      (PathText.isAbsolute (ofString s).text = true ↔
        ∃ n rest, s.toList.map slashed = dots n ++ '/' :: rest) ∧
      (IsRelative s → PathText.isAbsolute (ofString s).text = false →
        ∀ (tree : FileTree) (follow : Bool) (root : String), root ≠ "" →
          (PathText.join root (slashes s)).utf8ByteSize ≤ FileTree.pathLimit →
          (PathText.join root (ofString s).text).utf8ByteSize ≤ FileTree.pathLimit →
          tree.locate follow (PathText.join root (ofString s).text) =
            tree.locate follow (PathText.join root (slashes s))) :=
  ⟨names_ofString s, isAbsolute_ofString_iff s,
    fun hrelative hnormal tree follow _ hroot hlength hlength' =>
      locate_join_ofString tree follow hroot hrelative hnormal hlength hlength'⟩

/-- A file that is named with both slashes, a dot in front and a repeated separator. -/
theorem ofString_denotes_of_mixed_slashes :
    let tree : FileTree := ⟨[(["w"], .directory), (["w", "ui"], .directory),
      (["w", "ui", "a.xml"], .file [])], []⟩
    let s := ".\\ui//a.xml"
    names s = ["ui", "a.xml"] ∧ names (ofString s).text = names s ∧ IsRelative s ∧
      (ofString s).text = "ui//a.xml" ∧
      tree.locate true (PathText.join "/w" "ui//a.xml") =
        .ok (.found ["w", "ui", "a.xml"] (.file [])) ∧
      tree.locate true (PathText.join "/w" "ui//a.xml") =
        tree.locate true (PathText.join "/w" (slashes s)) := by
  intro tree s
  have hnames : names s = ["ui", "a.xml"] := by decide +kernel
  have htext : (ofString s).text = "ui//a.xml" := by decide +kernel
  have hslashes : slashes s = "./ui//a.xml" := by decide +kernel
  have hhead : s.toList.head? = some '.' := by decide +kernel
  have hrelative := isRelative_of_head? hhead (by decide)
  have hshort : ¬255 < "w".utf8ByteSize ∧ ¬255 < "ui".utf8ByteSize ∧
      ¬255 < "a.xml".utf8ByteSize := by decide
  have hjoin : PathText.join "/w" "ui//a.xml" = "/w/ui//a.xml" := by decide +kernel
  have hjoin' : PathText.join "/w" "./ui//a.xml" = "/w/./ui//a.xml" := by decide +kernel
  have hfound : tree.locate true "/w/ui//a.xml" =
      .ok (.found ["w", "ui", "a.xml"] (.file [])) := by
    have hsteps : PathText.steps "/w/ui//a.xml" = ["w", "ui", "a.xml"] := by decide +kernel
    have hroot : tree.entry? [] = some .directory := rfl
    have hw : tree.entry? ["w"] = some .directory := rfl
    have hui : tree.entry? ["w", "ui"] = some .directory := rfl
    have hfile : tree.entry? ["w", "ui", "a.xml"] = some (.file []) := rfl
    rw [FileTree.locate, FileTree.locateSteps_of_root (by decide +kernel) rfl, hsteps]
    simp [FileTree.walk, hroot, hw, hui, hfile, FileTree.nameLimit, hshort]
  have hdenotes := (ofString_denotes s).2.2 hrelative (by rw [htext]; decide +kernel) tree true "/w"
    (by decide) (by rw [hslashes, hjoin']; decide) (by rw [htext, hjoin]; decide)
  rw [htext] at hdenotes
  exact ⟨hnames, (ofString_denotes s).1, hrelative, htext, hjoin ▸ hfound, hdenotes⟩

/-- A relative path whose normal form is absolute: below a root it leads to a file, but its normal
form leads nowhere, and as a pattern it selects nothing. -/
theorem ofString_roots_doubled_slash :
    let tree : FileTree := ⟨[(["w"], .directory), (["w", "ui"], .directory),
      (["w", "ui", "a.xml"], .file [])], []⟩
    let s := ".//ui/a.xml"
    IsRelative s ∧ PathText.isAbsolute (ofString s).text = true ∧
      tree.locate true (PathText.join "/w" s) = .ok (.found ["w", "ui", "a.xml"] (.file [])) ∧
      tree.locate true (PathText.join "/w" (ofString s).text) = .error .notFound ∧
      FilePattern.select [⟨"ui/a.xml"⟩] [s] = .ok [] := by
  intro tree s
  have htext : (ofString s).text = "/ui/a.xml" := by decide +kernel
  have hhead : s.toList.head? = some '.' := by decide +kernel
  have hrelative := isRelative_of_head? hhead (by decide)
  have hshort : ¬255 < "w".utf8ByteSize ∧ ¬255 < "ui".utf8ByteSize ∧
      ¬255 < "a.xml".utf8ByteSize := by decide
  have hjoin : PathText.join "/w" s = "/w/.//ui/a.xml" := by decide +kernel
  have hjoin' : PathText.join "/w" "/ui/a.xml" = "/ui/a.xml" := by decide +kernel
  have hfound : tree.locate true "/w/.//ui/a.xml" =
      .ok (.found ["w", "ui", "a.xml"] (.file [])) := by
    have hsteps : PathText.steps "/w/.//ui/a.xml" = ["w", ".", "ui", "a.xml"] := by decide +kernel
    have hroot : tree.entry? [] = some .directory := rfl
    have hw : tree.entry? ["w"] = some .directory := rfl
    have hui : tree.entry? ["w", "ui"] = some .directory := rfl
    have hfile : tree.entry? ["w", "ui", "a.xml"] = some (.file []) := rfl
    rw [FileTree.locate, FileTree.locateSteps_of_root (by decide +kernel) rfl, hsteps]
    simp [FileTree.walk, hroot, hw, hui, hfile, FileTree.nameLimit, hshort]
  have hlost : tree.locate true "/ui/a.xml" = .error .notFound := by
    have hcheck : FileTree.checkPath "/ui/a.xml" = .ok () := by decide +kernel
    have hsteps : PathText.steps "/ui/a.xml" = ["ui", "a.xml"] := by decide +kernel
    have hroot : tree.entry? [] = some .directory := rfl
    have hnone : tree.entry? ["ui"] = none := rfl
    rw [FileTree.locate, FileTree.locateSteps_of_root hcheck rfl, hsteps]
    simp [FileTree.walk, hroot, hnone, FileTree.nameLimit, hshort]
  have hselect : FilePattern.select [⟨"ui/a.xml"⟩] [s] = .ok [] := by
    have hnone : FilePattern.apply [⟨"ui/a.xml"⟩] [] s = .ok [] := by decide +kernel
    rw [FilePattern.select, List.mergeSort_singleton, List.foldlM_cons, hnone]
    rfl
  rw [hjoin, htext, hjoin']
  exact ⟨hrelative, by decide +kernel, hfound, hlost, hselect⟩

end RepoPath

end LocaleLint
