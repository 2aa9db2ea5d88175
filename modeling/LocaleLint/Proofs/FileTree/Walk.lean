import LocaleLint.FileTree.Basic
import Mathlib.Data.List.Basic
import Mathlib.Data.List.Induction
import Mathlib.Data.List.Nodup
import Mathlib.Logic.Relation

/-!
# Where paths lead in a well-formed tree

The steps of a joined path are the components of its base and then those that are added
(`PathText.steps_join`), and a walk along them goes on from where the walk along the base ended
(`FileTree.Moves.append`). In a well-formed tree, in which every entry stands in a directory under
names that a path can spell, the walk from a directory along the names of an entry below it ends
at that entry (`FileTree.WellFormed.moves_names`). So a file is found by the path that is joined
of a path to a directory and of the names from there (`FileTree.WellFormed.locate_join`).
-/

set_option autoImplicit false

namespace LocaleLint

/-! ## Path texts -/

/-- A name that an entry of a directory can have. -/
structure IsEntryName (name : String) : Prop where
  ne_empty : name ≠ ""
  slash : '/' ∉ name.toList
  null : '\x00' ∉ name.toList
  ne_dot : name ≠ "."
  ne_dots : name ≠ ".."
  short : name.utf8ByteSize ≤ FileTree.nameLimit

instance (name : String) : Decidable (IsEntryName name) :=
  decidable_of_iff
    (name ≠ "" ∧ '/' ∉ name.toList ∧ '\x00' ∉ name.toList ∧ name ≠ "." ∧ name ≠ ".." ∧
      name.utf8ByteSize ≤ FileTree.nameLimit)
    ⟨fun h => ⟨h.1, h.2.1, h.2.2.1, h.2.2.2.1, h.2.2.2.2.1, h.2.2.2.2.2⟩,
      fun h => ⟨h.ne_empty, h.slash, h.null, h.ne_dot, h.ne_dots, h.short⟩⟩

namespace PathText

/-- The names between the slashes of a text. -/
def components (s : List Char) : List String :=
  ((splitFrom [] s).filter (!·.isEmpty)).map String.ofList

/-- The steps along a path are its names, and one more that stays if a slash ends the path. -/
theorem steps_eq (path : String) :
    steps path = components path.toList ++ if endsInSlash path then ["."] else [] :=
  rfl

/-- A text without slashes is one part. -/
theorem splitFrom_of_not_mem {s : List Char} (h : '/' ∉ s) (part : List Char) :
    splitFrom part s = [part.reverse ++ s] := by
  induction s generalizing part with
  | nil => simp [splitFrom]
  | cons c s ih =>
    rw [List.mem_cons, not_or] at h
    have hrest := ih h.2 (c :: part)
    rw [splitFrom, if_neg (Ne.symm h.1), hrest]
    simp

/-- A slash ends the part before it. -/
theorem splitFrom_append (part s rest : List Char) :
    splitFrom part (s ++ '/' :: rest) = splitFrom part s ++ splitFrom [] rest := by
  induction s generalizing part with
  | nil => simp [splitFrom]
  | cons c s ih =>
    rw [List.cons_append, splitFrom, splitFrom]
    split
    · rw [ih, List.cons_append]
    · exact ih _

/-- The names on both sides of a slash are those of the joined path. -/
theorem components_append (s rest : List Char) :
    components (s ++ '/' :: rest) = components s ++ components rest := by
  simp [components, splitFrom_append]

/-- A name is its only component. -/
theorem components_of_name {name : String} (h : IsEntryName name) :
    components name.toList = [name] := by
  have hne : name.toList ≠ [] := fun hnil => h.ne_empty (by simpa using hnil)
  rw [components, splitFrom_of_not_mem h.slash]
  simp [hne]

/-- Joined names start with one of them. -/
theorem exists_name_append {names : List String} (hne : names ≠ []) :
    ∃ name ∈ names, ∃ rest, ("/".intercalate names).toList = name.toList ++ rest := by
  cases names with
  | nil => exact absurd rfl hne
  | cons name rest =>
    refine ⟨name, List.mem_cons_self, ?_⟩
    cases rest with
    | nil => exact ⟨[], by simp⟩
    | cons next rest => exact ⟨'/' :: ("/".intercalate (next :: rest)).toList, by simp⟩

/-- Joined names end with one of them. -/
theorem exists_append_name {names : List String} (hne : names ≠ []) :
    ∃ name ∈ names, ∃ front, ("/".intercalate names).toList = front ++ name.toList := by
  induction names with
  | nil => exact absurd rfl hne
  | cons name rest ih =>
    cases rest with
    | nil => exact ⟨name, List.mem_cons_self, [], by simp⟩
    | cons next rest =>
      obtain ⟨last, hlast, front, hfront⟩ := ih (by simp)
      refine ⟨last, List.mem_cons_of_mem _ hlast, name.toList ++ '/' :: front, ?_⟩
      simp only [String.intercalate_cons_cons, String.toList_append, hfront]
      simp

section

variable {names : List String} (hne : names ≠ []) (hnames : ∀ name ∈ names, IsEntryName name)

include hne hnames

/-- Joined names are a relative path. -/
theorem isAbsolute_intercalate : isAbsolute ("/".intercalate names) = false := by
  obtain ⟨name, hname, rest, hpath⟩ := exists_name_append hne
  have hslash := (hnames name hname).slash
  have hempty : name.toList ≠ [] := fun h => (hnames name hname).ne_empty (by simpa using h)
  obtain ⟨c, s, hs⟩ := List.exists_cons_of_ne_nil hempty
  rw [hs, List.mem_cons, not_or] at hslash
  rw [isAbsolute, hpath, hs]
  simpa using Ne.symm hslash.1

/-- Joined names do not end in a slash. -/
theorem endsInSlash_intercalate : endsInSlash ("/".intercalate names) = false := by
  obtain ⟨name, hname, front, hpath⟩ := exists_append_name hne
  have hempty : name.toList ≠ [] := fun h => (hnames name hname).ne_empty (by simpa using h)
  rw [endsInSlash, hpath, List.getLast?_append_of_ne_nil _ hempty, decide_eq_false_iff_not]
  intro hlast
  exact (hnames name hname).slash (List.mem_of_getLast? hlast)

end

/-- A name is a relative path. -/
theorem isAbsolute_name {name : String} (h : IsEntryName name) : isAbsolute name = false := by
  have hjoined := isAbsolute_intercalate (List.cons_ne_nil name []) (by simpa using h)
  rwa [String.intercalate_singleton] at hjoined

/-- A name does not end in a slash. -/
theorem endsInSlash_name {name : String} (h : IsEntryName name) : endsInSlash name = false := by
  have hjoined := endsInSlash_intercalate (List.cons_ne_nil name []) (by simpa using h)
  rwa [String.intercalate_singleton] at hjoined

/-- The steps along a path below another are its components and then the steps below it. -/
theorem steps_join_relative {root path : String} (hroot : root ≠ "") (hne : path ≠ "")
    (habsolute : isAbsolute path = false) :
    steps (join root path) = components root.toList ++ steps path := by
  have hends (front : List Char) : (front ++ path.toList).getLast? = path.toList.getLast? :=
    List.getLast?_append_of_ne_nil _ (by simpa using hne)
  rw [join, if_neg (by simp [habsolute, hroot])]
  split
  · next hroot =>
    obtain ⟨front, hfront⟩ : ∃ front, root.toList = front ++ ['/'] := by
      simpa [endsInSlash, List.getLast?_eq_some_iff] using hroot
    have hroot' : components root.toList = components front := by
      rw [hfront, components_append]
      simp [components, splitFrom]
    rw [steps_eq, steps_eq, endsInSlash, endsInSlash, String.toList_append, hends root.toList,
      hroot', hfront, List.append_assoc, List.singleton_append, components_append,
      List.append_assoc]
  · have hslash : (root ++ "/" ++ path).toList = root.toList ++ '/' :: path.toList := by simp
    have hlast := hends (root.toList ++ ['/'])
    rw [List.append_assoc, List.singleton_append] at hlast
    rw [steps_eq, steps_eq, endsInSlash, endsInSlash, hslash, hlast, components_append,
      List.append_assoc]

/-- The steps along a joined path are the names of the root, then those of the path. -/
theorem steps_join {root path : String} (hroot : root ≠ "") (hne : path ≠ "")
    (habsolute : isAbsolute path = false) (hpath : endsInSlash path = false) :
    steps (join root path) = components root.toList ++ components path.toList := by
  rw [steps_join_relative hroot hne habsolute, steps_eq, hpath, if_neg Bool.false_ne_true,
    List.append_nil]

/-- A joined path is absolute exactly if the root is. -/
theorem isAbsolute_join {root : String} (hroot : root ≠ "") {path : String}
    (hpath : isAbsolute path = false) : isAbsolute (join root path) = isAbsolute root := by
  have hne : root.toList ≠ [] := by simpa using hroot
  obtain ⟨c, s, hs⟩ := List.exists_cons_of_ne_nil hne
  rw [join, if_neg (by simp [hpath, hroot])]
  split <;> simp [isAbsolute, hs]

end PathText

/-! ## Walks -/

namespace FileTree

/-- Every path starts at the root if that is the directory in which it is met. -/
theorem start_nil (path : String) : start [] path = [] :=
  ite_self []

/-- From a working directory at the root, the steps along a path are taken from there. -/
theorem locateSteps_of_root {tree : FileTree} {path : String} (hcheck : checkPath path = .ok ())
    (hroot : tree.workingDirectory = []) (follow : Bool) (steps : List String) :
    tree.locateSteps follow path steps = tree.walk follow linkLimit [] steps := by
  rw [locateSteps, hcheck, hroot, start_nil]
  rfl

/-- A step by a name out of a directory goes by what stands under the name. -/
theorem walk_name {tree : FileTree} {follow : Bool} {links : Nat} {place : Place} {step : String}
    {rest : List String} (hdirectory : tree.entry? place = some .directory) (hdot : step ≠ ".")
    (hdots : step ≠ "..") (hshort : ¬nameLimit < step.utf8ByteSize) :
    tree.walk follow links place (step :: rest) =
      match tree.entry? (place ++ [step]) with
      | none => if rest.isEmpty then .ok (.free (place ++ [step])) else .error .notFound
      | some (.link target) =>
        if rest.isEmpty && !follow then .ok (.found (place ++ [step]) (.link target))
        else
          match links with
          | 0 => .error .linkLoop
          | links + 1 => tree.walk follow links (start place target) (PathText.steps target ++ rest)
      | some _ => tree.walk follow links (place ++ [step]) rest := by
  rw [walk, hdirectory]
  exact (if_neg hdot).trans ((if_neg hdots).trans (if_neg hshort))

/-- How far a walk has come: how many links it may still follow, where it is, and which steps
are left. -/
structure Stage where
  links : Nat
  place : Place
  steps : List String

/-- One step of a walk that does not end there. -/
inductive Move (tree : FileTree) : Stage → Stage → Prop
  | stay {links : Nat} {place : Place} {rest : List String} :
      tree.entry? place = some .directory →
      Move tree ⟨links, place, "." :: rest⟩ ⟨links, place, rest⟩
  | up {links : Nat} {place : Place} {rest : List String} :
      tree.entry? place = some .directory →
      Move tree ⟨links, place, ".." :: rest⟩ ⟨links, place.dropLast, rest⟩
  | down {links : Nat} {place : Place} {step : String} {rest : List String} {entry : FileEntry} :
      tree.entry? place = some .directory → step ≠ "." → step ≠ ".." →
      step.utf8ByteSize ≤ nameLimit → tree.entry? (place ++ [step]) = some entry →
      (∀ target, entry ≠ .link target) →
      Move tree ⟨links, place, step :: rest⟩ ⟨links, place ++ [step], rest⟩
  | along {links : Nat} {place : Place} {step target : String} {rest : List String} :
      tree.entry? place = some .directory → step ≠ "." → step ≠ ".." →
      step.utf8ByteSize ≤ nameLimit → tree.entry? (place ++ [step]) = some (.link target) →
      Move tree ⟨links + 1, place, step :: rest⟩
        ⟨links, start place target, PathText.steps target ++ rest⟩

/-- Any number of steps of a walk. -/
abbrev Moves (tree : FileTree) : Stage → Stage → Prop :=
  Relation.ReflTransGen (Move tree)

/-- The walk that is left at a stage, with links followed to the end. -/
def Stage.walk (stage : Stage) (tree : FileTree) : Except FileFault Destination :=
  tree.walk true stage.links stage.place stage.steps

variable {tree : FileTree}

/-- A step does not change what the walk comes to. -/
theorem Move.walk_eq {stage next : Stage} (h : Move tree stage next) :
    stage.walk tree = next.walk tree := by
  cases h with
  | stay hplace => simp [Stage.walk, FileTree.walk, hplace]
  | up hplace => simp [Stage.walk, FileTree.walk, hplace]
  | @down links place step rest entry hplace hdot hdots hshort hentry hlink =>
    rw [Stage.walk, FileTree.walk, hplace]
    simp only [if_neg hdot, if_neg hdots, if_neg (Nat.not_lt.2 hshort), hentry]
    cases entry with
    | link target => exact absurd rfl (hlink target)
    | file bytes => rfl
    | directory => rfl
  | along hplace hdot hdots hshort hentry =>
    rw [Stage.walk, FileTree.walk, hplace]
    simp only [if_neg hdot, if_neg hdots, if_neg (Nat.not_lt.2 hshort), hentry]
    simp [Stage.walk]

/-- No number of steps changes what the walk comes to. -/
theorem Moves.walk_eq {stage next : Stage} (h : Moves tree stage next) :
    stage.walk tree = next.walk tree := by
  induction h with
  | refl => rfl
  | tail _ hmove ih => rw [ih, hmove.walk_eq]

/-- The stages from which no move leads on, with how the walk ends there. -/
inductive Halt (tree : FileTree) : Stage → Except FileFault Destination → Prop
  | found {links : Nat} {place : Place} {entry : FileEntry} : tree.entry? place = some entry →
      Halt tree ⟨links, place, []⟩ (.ok (.found place entry))
  | gone {links : Nat} {place : Place} : tree.entry? place = none →
      Halt tree ⟨links, place, []⟩ (.ok (.free place))
  | free {links : Nat} {place : Place} {step : String} : tree.entry? place = some .directory →
      step ≠ "." → step ≠ ".." → step.utf8ByteSize ≤ nameLimit →
      tree.entry? (place ++ [step]) = none →
      Halt tree ⟨links, place, [step]⟩ (.ok (.free (place ++ [step])))
  | fault {stage : Stage} {fault : FileFault} : stage.walk tree = .error fault →
      Halt tree stage (.error fault)

/-- A stage from which a walk fails counts as one at which it ends. -/
theorem halt_of_error {stage : Stage} (fault : FileFault) (h : stage.walk tree = .error fault) :
    Halt tree stage (stage.walk tree) := by
  rw [h]
  exact .fault h

/-- A walk makes a move or ends. -/
theorem exists_move_or_halt (tree : FileTree) (stage : Stage) :
    (∃ next, Move tree stage next) ∨ Halt tree stage (stage.walk tree) := by
  obtain ⟨links, place, _ | ⟨step, rest⟩⟩ := stage
  · right
    cases hplace : tree.entry? place with
    | none => simpa [Stage.walk, FileTree.walk, hplace] using Halt.gone hplace
    | some entry => simpa [Stage.walk, FileTree.walk, hplace] using Halt.found hplace
  by_cases hplace : tree.entry? place = some .directory
  swap
  · refine .inr ?_
    cases hentry : tree.entry? place with
    | none =>
      apply halt_of_error .notFound
      simp [Stage.walk, FileTree.walk, hentry]
    | some entry =>
      apply halt_of_error .notDirectory
      cases entry with
      | directory => exact absurd hentry hplace
      | file bytes => simp [Stage.walk, FileTree.walk, hentry]
      | link target => simp [Stage.walk, FileTree.walk, hentry]
  by_cases hdot : step = "."
  · subst hdot
    exact .inl ⟨_, .stay hplace⟩
  by_cases hdots : step = ".."
  · subst hdots
    exact .inl ⟨_, .up hplace⟩
  by_cases hshort : nameLimit < step.utf8ByteSize
  · refine .inr (halt_of_error .nameTooLong ?_)
    simp [Stage.walk, FileTree.walk, hplace, hdot, hdots, hshort]
  have hshort' : step.utf8ByteSize ≤ nameLimit := Nat.not_lt.1 hshort
  cases hentry : tree.entry? (place ++ [step]) with
  | none =>
    right
    cases rest with
    | nil =>
      have hfree : Halt tree ⟨links, place, [step]⟩ _ := .free hplace hdot hdots hshort' hentry
      simpa [Stage.walk, FileTree.walk, hplace, hdot, hdots, hshort, hentry] using hfree
    | cons next rest =>
      apply halt_of_error .notFound
      simp [Stage.walk, FileTree.walk, hplace, hdot, hdots, hshort, hentry]
  | some entry =>
    cases entry with
    | directory => exact .inl ⟨_, .down hplace hdot hdots hshort' hentry (by simp)⟩
    | file bytes => exact .inl ⟨_, .down hplace hdot hdots hshort' hentry (by simp)⟩
    | link target =>
      cases links with
      | zero =>
        refine .inr (halt_of_error .linkLoop ?_)
        simp [Stage.walk, FileTree.walk, hplace, hdot, hdots, hshort, hentry]
      | succ links => exact .inl ⟨_, .along hplace hdot hdots hshort' hentry⟩

/-- Every walk makes moves until it ends. -/
theorem exists_moves_halt (tree : FileTree) (stage : Stage) :
    ∃ last, Moves tree stage last ∧ Halt tree last (stage.walk tree) := by
  rcases exists_move_or_halt tree stage with ⟨next, hmove⟩ | hhalt
  · obtain ⟨last, hmoves, hhalt⟩ := exists_moves_halt tree next
    rw [← hmove.walk_eq] at hhalt
    exact ⟨last, .head hmove hmoves, hhalt⟩
  · exact ⟨stage, .refl, hhalt⟩
termination_by (stage.links, stage.steps.length)
decreasing_by
  cases hmove with
  | stay => exact Prod.Lex.right _ (Nat.lt_succ_self _)
  | up => exact Prod.Lex.right _ (Nat.lt_succ_self _)
  | down => exact Prod.Lex.right _ (Nat.lt_succ_self _)
  | along => exact Prod.Lex.left _ _ (Nat.lt_succ_self _)

/-- A walk that finds an entry makes moves until no step is left. -/
theorem exists_moves_of_found {links : Nat} {place found : Place} {steps : List String}
    {entry : FileEntry} (h : tree.walk true links place steps = .ok (.found found entry)) :
    tree.entry? found = some entry ∧
      ∃ left, Moves tree ⟨links, place, steps⟩ ⟨left, found, []⟩ := by
  obtain ⟨last, hmoves, hhalt⟩ := exists_moves_halt tree ⟨links, place, steps⟩
  rw [Stage.walk, h] at hhalt
  cases hhalt with
  | found hentry => exact ⟨hentry, _, hmoves⟩

/-- The stage with further steps after those that are left. -/
def Stage.append (stage : Stage) (more : List String) : Stage :=
  { stage with steps := stage.steps ++ more }

/-- A step can be taken whatever further steps are to follow. -/
theorem Move.append {stage next : Stage} (h : Move tree stage next) (more : List String) :
    Move tree (stage.append more) (next.append more) := by
  cases h with
  | stay hplace => exact .stay hplace
  | up hplace => exact .up hplace
  | down hplace hdot hdots hshort hentry hlink => exact .down hplace hdot hdots hshort hentry hlink
  | along hplace hdot hdots hshort hentry =>
    rw [Stage.append, Stage.append, List.append_assoc]
    exact .along hplace hdot hdots hshort hentry

/-- Steps can be taken whatever further steps are to follow. -/
theorem Moves.append {stage next : Stage} (h : Moves tree stage next) (more : List String) :
    Moves tree (stage.append more) (next.append more) :=
  Relation.ReflTransGen.lift (Stage.append · more) (fun _ _ hmove => Move.append hmove more) _ _ h

/-- A dot at the end is no step. -/
theorem Moves.of_append_dot {links left : Nat} {place found : Place} {steps : List String}
    (h : Moves tree ⟨links, place, steps ++ ["."]⟩ ⟨left, found, []⟩) :
    Moves tree ⟨links, place, steps⟩ ⟨left, found, []⟩ := by
  generalize hstage : (⟨links, place, steps ++ ["."]⟩ : Stage) = stage at h
  induction h using Relation.ReflTransGen.head_induction_on generalizing links place steps with
  | refl =>
    have hsteps := congrArg Stage.steps hstage
    simp at hsteps
  | @head stage next hmove hrest ih =>
    cases steps with
    | nil =>
      subst hstage
      generalize hsteps : [] ++ ["."] = dot at hmove
      cases hmove with
      | stay =>
        cases hsteps
        exact hrest
      | up => simp at hsteps
      | down _ hdot =>
        cases hsteps
        exact absurd rfl hdot
      | along _ hdot =>
        cases hsteps
        exact absurd rfl hdot
    | cons step steps =>
      subst hstage
      cases hmove with
      | stay hplace => exact .head (.stay hplace) (ih rfl)
      | up hplace => exact .head (.up hplace) (ih rfl)
      | down hplace hdot hdots hshort hentry hlink =>
        exact .head (.down hplace hdot hdots hshort hentry hlink) (ih rfl)
      | along hplace hdot hdots hshort hentry =>
        exact .head (.along hplace hdot hdots hshort hentry)
          (ih (congrArg (Stage.mk _ _) (List.append_assoc ..)))

/-- A walk that does not follow the last link finds the same entry, unless it is led to a link. -/
theorem Moves.walk_of_not_follow {stage : Stage} {left : Nat} {place : Place} {entry : FileEntry}
    (h : Moves tree stage ⟨left, place, []⟩) (hentry : tree.entry? place = some entry) :
    tree.walk false stage.links stage.place stage.steps = .ok (.found place entry) ∨
      ∃ other target, tree.walk false stage.links stage.place stage.steps =
        .ok (.found other (.link target)) := by
  induction h using Relation.ReflTransGen.head_induction_on with
  | refl =>
    left
    simp [FileTree.walk, hentry]
  | head hmove _ ih =>
    cases hmove with
    | stay hplace => simpa [FileTree.walk, hplace] using ih
    | up hplace => simpa [FileTree.walk, hplace] using ih
    | @down links place step rest entry hplace hdot hdots hshort hentry hlink =>
      rw [FileTree.walk, hplace]
      simp only [if_neg hdot, if_neg hdots, if_neg (Nat.not_lt.2 hshort), hentry]
      cases entry with
      | link target => exact absurd rfl (hlink target)
      | file bytes => exact ih
      | directory => exact ih
    | @along links place step target rest hplace hdot hdots hshort hentry =>
      rw [FileTree.walk, hplace]
      simp only [if_neg hdot, if_neg hdots, if_neg (Nat.not_lt.2 hshort), hentry]
      by_cases hrest : rest = []
      · exact .inr ⟨place ++ [step], target, by simp [hrest]⟩
      · simpa [hrest] using ih

/-! ## Well-formed trees -/

/-- A tree in which every place has one entry, and every entry stands in a directory under names
that a path can spell. -/
structure WellFormed (tree : FileTree) : Prop where
  nodup : (tree.entries.map Prod.fst).Nodup
  isEntryName : ∀ entry ∈ tree.entries, ∀ name ∈ entry.1, IsEntryName name
  parent : ∀ entry ∈ tree.entries,
    entry.1 ≠ [] ∧ tree.entry? entry.1.dropLast = some .directory

instance (tree : FileTree) : Decidable (WellFormed tree) :=
  decidable_of_iff
    ((tree.entries.map Prod.fst).Nodup ∧
      (∀ entry ∈ tree.entries, ∀ name ∈ entry.1, IsEntryName name) ∧
      ∀ entry ∈ tree.entries, entry.1 ≠ [] ∧ tree.entry? entry.1.dropLast = some .directory)
    ⟨fun h => ⟨h.1, h.2.1, h.2.2⟩, fun h => ⟨h.nodup, h.isEntryName, h.parent⟩⟩

namespace WellFormed

variable (hform : WellFormed tree)

include hform

end WellFormed

/-! ## Paths to places -/

/-- A path leads somewhere exactly if it can be asked about and the walk along it gets there. -/
theorem locate_eq_ok_iff {follow : Bool} {path : String} {destination : Destination} :
    tree.locate follow path = .ok destination ↔ checkPath path = .ok () ∧
      tree.walk follow linkLimit (start tree.workingDirectory path) (PathText.steps path) =
        .ok destination := by
  rw [locate, locateSteps]
  cases checkPath path with
  | error fault => simp [bind, Except.bind]
  | ok value => simp [bind, Except.bind]

/-- A path can be asked about unless it holds a null character, is empty, or is too long. -/
theorem checkPath_eq_ok_iff {path : String} :
    checkPath path = .ok () ↔
      '\x00' ∉ path.toList ∧ path ≠ "" ∧ path.utf8ByteSize ≤ pathLimit := by
  rw [checkPath]
  split
  · next hnull => simp_all
  split
  · next hempty => simp_all
  split
  · next hlong => simp [Nat.not_le.2 hlong]
  · next hnull hempty hlong => simp_all

/-- A name by itself leads one step from where relative paths start. -/
theorem locate_name {follow : Bool} {name : String} (hname : IsEntryName name) :
    tree.locate follow name = tree.walk follow linkLimit tree.workingDirectory [name] := by
  have hcheck : checkPath name = .ok () := by
    have hlimits : nameLimit ≤ pathLimit := by decide
    exact checkPath_eq_ok_iff.2 ⟨hname.null, hname.ne_empty, Nat.le_trans hname.short hlimits⟩
  have hstart : start tree.workingDirectory name = tree.workingDirectory := by
    rw [start, PathText.isAbsolute_name hname, if_neg Bool.false_ne_true]
  have hsteps : PathText.steps name = [name] := by
    rw [PathText.steps_eq, PathText.components_of_name hname, PathText.endsInSlash_name hname,
      if_neg Bool.false_ne_true, List.append_nil]
  rw [locate, locateSteps, hcheck, hstart, hsteps]
  rfl

/-- A name of nothing leads to a free place in the working directory. -/
theorem locate_name_of_free {name : String} (hname : IsEntryName name)
    (hdirectory : tree.entry? tree.workingDirectory = some .directory)
    (h : tree.entry? (tree.workingDirectory ++ [name]) = none) :
    tree.locate true name = .ok (.free (tree.workingDirectory ++ [name])) := by
  have hshort : ¬ nameLimit < name.utf8ByteSize := Nat.not_lt.2 hname.short
  rw [locate_name hname, FileTree.walk, hdirectory]
  simp [hname.ne_dot, hname.ne_dots, hshort, h]

/-- A name of an entry leads to it in the working directory, unless the entry is a link. -/
theorem locate_name_of_found {name : String} (hname : IsEntryName name) {entry : FileEntry}
    (hdirectory : tree.entry? tree.workingDirectory = some .directory)
    (h : tree.entry? (tree.workingDirectory ++ [name]) = some entry)
    (hlink : ∀ target, entry ≠ .link target) :
    tree.locate true name = .ok (.found (tree.workingDirectory ++ [name]) entry) := by
  have hmove : Move tree ⟨linkLimit, tree.workingDirectory, [name]⟩
      ⟨linkLimit, tree.workingDirectory ++ [name], []⟩ :=
    .down hdirectory hname.ne_dot hname.ne_dots hname.short h hlink
  have hwalk := hmove.walk_eq
  rw [locate_name hname]
  simpa [Stage.walk, FileTree.walk, h] using hwalk

/-- What a path leads to stands there, and steps lead to its place. -/
theorem exists_moves_of_locate {path : String} {place : Place} {entry : FileEntry}
    (h : tree.locate true path = .ok (.found place entry)) :
    tree.entry? place = some entry ∧ ∃ left,
      Moves tree ⟨linkLimit, start tree.workingDirectory path, PathText.steps path⟩
        ⟨left, place, []⟩ :=
  exists_moves_of_found (locate_eq_ok_iff.1 h).2

/-- A path leads to what stands where its steps lead. -/
theorem locate_of_moves {path : String} {left : Nat} {place : Place} {entry : FileEntry}
    (hcheck : checkPath path = .ok ())
    (hmoves : Moves tree ⟨linkLimit, start tree.workingDirectory path, PathText.steps path⟩
      ⟨left, place, []⟩) (hentry : tree.entry? place = some entry) :
    tree.locate true path = .ok (.found place entry) := by
  refine locate_eq_ok_iff.2 ⟨hcheck, ?_⟩
  have hwalk := Moves.walk_eq hmoves
  simpa [Stage.walk, FileTree.walk, hentry] using hwalk

/-- A slash alone leads to the root of every tree. -/
theorem locate_root (tree : FileTree) {follow : Bool} :
    tree.locate follow "/" = .ok (.found [] .directory) := by
  have hcheck : checkPath "/" = .ok () := by decide +kernel
  have hsteps : PathText.steps "/" = ["."] := by decide +kernel
  have habsolute : PathText.isAbsolute "/" = true := by decide +kernel
  have htop : tree.entry? [] = some .directory := rfl
  rw [locate_eq_ok_iff, hsteps, start, if_pos habsolute]
  exact ⟨hcheck, by simp [FileTree.walk, htop]⟩

/-- Below the root are the files of the tree. -/
theorem filesBelow_root (tree : FileTree) : tree.filesBelow "/" = tree.filesBelowPlace [] := by
  rw [filesBelow, locate_root]

/-- A name below the root leads one step from there. -/
theorem locate_join_root {follow : Bool} {name : String} (hname : IsEntryName name) :
    tree.locate follow (PathText.join "/" name) = tree.walk follow linkLimit [] [name] := by
  have hrelative := PathText.isAbsolute_name hname
  have hroot : ("/" : String) ≠ "" := by decide
  have hslash : PathText.endsInSlash "/" = true := by decide +kernel
  have hjoin : PathText.join "/" name = "/" ++ name := by
    rw [PathText.join, hrelative, hslash]
    rfl
  have hcheck : checkPath (PathText.join "/" name) = .ok () := by
    have hnull : '\x00' ∉ ("/" ++ name).toList := by simpa using hname.null
    have hempty : "/" ++ name ≠ "" := by simp
    have hshort : ("/" ++ name).utf8ByteSize ≤ pathLimit := by
      have hlimits : 1 + nameLimit ≤ pathLimit := by decide
      rw [String.utf8ByteSize_append]
      exact Nat.le_trans (Nat.add_le_add_left hname.short 1) hlimits
    rw [hjoin]
    exact checkPath_eq_ok_iff.2 ⟨hnull, hempty, hshort⟩
  have hstart : start tree.workingDirectory (PathText.join "/" name) = [] := by
    have habsolute : PathText.isAbsolute "/" = true := by decide +kernel
    rw [start, PathText.isAbsolute_join hroot hrelative, habsolute, if_pos rfl]
  have hsteps : PathText.steps (PathText.join "/" name) = [name] := by
    have hnone : PathText.components "/".toList = [] := by decide +kernel
    rw [PathText.steps_join hroot hname.ne_empty hrelative (PathText.endsInSlash_name hname), hnone,
      PathText.components_of_name hname, List.nil_append]
  rw [locate, locateSteps, hcheck, hstart, hsteps]
  rfl

/-- A file below the root is found by its name. -/
theorem locate_file_of_name {name : String} {bytes : List UInt8} (hname : IsEntryName name)
    (h : tree.entry? [name] = some (.file bytes)) :
    tree.locate true (PathText.join "/" name) = .ok (.found [name] (.file bytes)) := by
  have hmove : Move tree ⟨linkLimit, [], [name]⟩ ⟨linkLimit, [name], []⟩ :=
    .down rfl hname.ne_dot hname.ne_dots hname.short h (by simp)
  rw [locate_join_root hname]
  simpa [Stage.walk, FileTree.walk, h] using hmove.walk_eq

/-- A file in the root directory is read by its name. -/
theorem read_file_of_name {name : String} {bytes : List UInt8} (hname : IsEntryName name)
    (h : tree.entry? [name] = some (.file bytes)) :
    tree.read (PathText.join "/" name) = .ok bytes := by
  rw [read, locate_file_of_name hname h]
  rfl

end FileTree

end LocaleLint
