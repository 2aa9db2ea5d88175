import LocaleLint.Proofs.Entries
import LocaleLint.Proofs.Except
import LocaleLint.Proofs.FileTree.Walk

/-!
# Changes to file trees

A file is written at a place that is free or holds a file, and a directory is made at a free place.
No walk passes through such a place, so a walk to an entry makes the same moves after the change
(`Move.put`). Hence a file that was written is found by the path that it was written by
(`exists_of_write_ok`), and making directories or writing another file does not change where a path
to an entry leads (`locate_put`, `Grows.locate`).
-/

set_option autoImplicit false

namespace LocaleLint.FileTree

variable {tree : FileTree}

/-! ## Putting an entry at a place -/

/-- Putting an entry changes what stands at its place, and at no other. -/
theorem lookup_putEntry (place : Place) (entry : FileEntry) (entries : List (Place × FileEntry))
    (other : Place) :
    (putEntry place entry entries).lookup other =
      if other = place then some entry else entries.lookup other := by
  induction entries with
  | nil => rw [putEntry, Entries.lookup_cons_eq_ite]
  | cons first rest ih =>
    rw [putEntry]
    split
    · next hfirst =>
      rw [Entries.lookup_cons_eq_ite, Entries.lookup_cons_eq_ite, hfirst]
      split <;> rfl
    · next hfirst =>
      rw [Entries.lookup_cons_eq_ite, Entries.lookup_cons_eq_ite, ih]
      by_cases h : other = place
      · rw [if_pos h, if_pos h, if_neg]
        rintro rfl
        exact hfirst h
      · rw [if_neg h, if_neg h]

/-- In the tree, too, putting an entry below the root changes its own place alone. -/
theorem at_put (tree : FileTree) {place : Place} (hne : place ≠ []) (entry : FileEntry)
    (other : Place) :
    entry? (tree.put place entry) other =
      if other = place then some entry else tree.entry? other := by
  by_cases hother : other = []
  · have hplace : ¬ [] = place := fun h => hne h.symm
    simp [ entry?, hother, hplace]
  · have hempty : ¬ other.isEmpty = true := by simpa using hother
    rw [ entry?, entry?, if_neg hempty, if_neg hempty]
    exact lookup_putEntry place entry tree.entries other

/-- Whether a file may be written at a place: if anything stands there, it is a file. -/
def Writable (tree : FileTree) (place : Place) : Prop :=
  ∀ entry, tree.entry? place = some entry → ∃ bytes, entry = .file bytes

/-- A file may be written where one stands already. -/
theorem writable_of_file {place : Place} {bytes : List UInt8}
    (h : tree.entry? place = some (.file bytes)) : tree.Writable place := by
  intro entry hentry
  rw [h] at hentry
  cases hentry
  exact ⟨bytes, rfl⟩

/-- A file may be written where nothing stands. -/
theorem writable_of_free {place : Place} (h : tree.entry? place = none) : tree.Writable place := by
  intro entry hentry
  rw [h] at hentry
  cases hentry

section

variable {place : Place} (hplace : tree.Writable place)

include hplace

/-- What is not a file stands elsewhere than where a file may be written. -/
theorem Writable.ne {other : Place} {entry : FileEntry} (hother : tree.entry? other = some entry)
    (hentry : ∀ bytes, entry ≠ .file bytes) : other ≠ place := by
  rintro rfl
  obtain ⟨bytes, hbytes⟩ := hplace entry hother
  exact hentry bytes hbytes

/-- The root is a directory. -/
theorem Writable.ne_root : place ≠ [] := by
  have hroot : tree.entry? [] = some .directory := rfl
  exact (hplace.ne hroot (by simp)).symm

/-- A directory stays one when a file is written. -/
theorem Writable.at_put_of_directory (entry : FileEntry) {other : Place}
    (hother : tree.entry? other = some .directory) :
    entry? (tree.put place entry) other = some .directory := by
  rw [at_put tree hplace.ne_root, if_neg (hplace.ne hother (by simp)), hother]

/-- A walk makes the same moves when a file or directory is put at the place. -/
theorem Move.put {entry : FileEntry} (hentry : ∀ target, entry ≠ .link target) {stage next : Stage}
    (h : Move tree stage next) : Move (tree.put place entry) stage next := by
  cases h with
  | stay hdirectory => exact .stay (hplace.at_put_of_directory _ hdirectory)
  | up hdirectory => exact .up (hplace.at_put_of_directory _ hdirectory)
  | @down links around step rest found hdirectory hdot hdots hshort hfound hlink =>
    have hdirectory' := hplace.at_put_of_directory entry hdirectory
    have hfound' := at_put tree hplace.ne_root entry (around ++ [step])
    split at hfound'
    · exact .down hdirectory' hdot hdots hshort hfound' hentry
    · exact .down hdirectory' hdot hdots hshort (hfound'.trans hfound) hlink
  | @along links around step target rest hdirectory hdot hdots hshort hfound =>
    have hne : around ++ [step] ≠ place := hplace.ne hfound (by simp)
    have hfound' := at_put tree hplace.ne_root entry (around ++ [step])
    rw [if_neg hne, hfound] at hfound'
    exact .along (hplace.at_put_of_directory _ hdirectory) hdot hdots hshort hfound'

/-- A walk can take all of its steps when something else than a link is put in their tree. -/
theorem Moves.put {entry : FileEntry} (hentry : ∀ target, entry ≠ .link target) {stage next : Stage}
    (h : Moves tree stage next) : Moves (tree.put place entry) stage next :=
  Relation.ReflTransGen.mono (fun _ _ hmove => Move.put hplace hentry hmove) _ _ h

end

/-! ## Where paths lead after a change -/

/-- A path that leads to an entry leads to the same place when something is put elsewhere, or when
another entry is put there. -/
theorem locate_put {place : Place} (hplace : tree.Writable place) {entry : FileEntry}
    (hentry : ∀ target, entry ≠ .link target) {path : String} {found : Place} {other : FileEntry}
    (h : tree.locate true path = .ok (.found found other)) :
    (tree.put place entry).locate true path =
      .ok (.found found (if found = place then entry else other)) := by
  obtain ⟨hother, left, hmoves⟩ := exists_moves_of_locate h
  apply locate_of_moves (locate_eq_ok_iff.1 h).1 (Moves.put hplace hentry hmoves)
  rw [at_put tree hplace.ne_root, hother]
  split <;> rfl

/-- A walk ends at a free place only if nothing stands there. -/
theorem free_of_walk {follow : Bool} {links : Nat} {place free : Place} {steps : List String}
    (h : tree.walk follow links place steps = .ok (.free free)) : tree.entry? free = none := by
  fun_induction FileTree.walk tree follow links place steps
  all_goals simp_all

/-- A walk that ends at a free place follows no link at its end, so it may be told to. -/
theorem walk_follow_of_free {follow : Bool} {links : Nat} {place free : Place}
    {steps : List String} (h : tree.walk follow links place steps = .ok (.free free)) :
    tree.walk true links place steps = .ok (.free free) := by
  fun_induction FileTree.walk tree follow links place steps
  all_goals grind [FileTree.walk]

/-- A walk that ends at a free place finds what is put there. -/
theorem exists_moves_of_free {links : Nat} {place free : Place} {steps : List String}
    (h : tree.walk true links place steps = .ok (.free free)) {entry : FileEntry}
    (hentry : ∀ target, entry ≠ .link target) :
    ∃ left, Moves (tree.put free entry) ⟨links, place, steps⟩ ⟨left, free, []⟩ := by
  have hfree := writable_of_free (free_of_walk h)
  obtain ⟨last, hmoves, hhalt⟩ := exists_moves_halt tree ⟨links, place, steps⟩
  have hmoves' := Moves.put hfree hentry hmoves
  rw [Stage.walk, h] at hhalt
  cases hhalt with
  | @gone left => exact ⟨left, hmoves'⟩
  | @free left around step hdirectory hdot hdots hshort =>
    have hfound := at_put tree hfree.ne_root entry (around ++ [step])
    rw [if_pos rfl] at hfound
    exact ⟨left, hmoves'.tail
      (.down (hfree.at_put_of_directory _ hdirectory) hdot hdots hshort hfound hentry)⟩

/-- Whether two paths lead to the same entry. -/
def SameEntry (tree : FileTree) (path other : String) : Prop :=
  ∃ place entry, tree.locate true path = .ok (.found place entry) ∧
    tree.locate true other = .ok (.found place entry)

/-! ## Writing files and making directories -/

/-- A file that is written is found by its path. -/
theorem exists_of_write_ok {path : String} {bytes : List UInt8} {tree' : FileTree}
    (h : tree.write path bytes = .ok tree') :
    ∃ place, tree.Writable place ∧ tree' = tree.put place (.file bytes) ∧
      tree'.locate true path = .ok (.found place (.file bytes)) := by
  have hfile : ∀ target, FileEntry.file bytes ≠ .link target := by simp
  rw [write] at h
  split at h
  · obtain ⟨destination, -, h⟩ := exists_of_bind_ok h
    split at h
    all_goals cases h
  obtain ⟨destination, hlocate, h⟩ := exists_of_bind_ok h
  split at h
  · next place earlier =>
    cases h
    have hplace := writable_of_file (exists_moves_of_locate hlocate).1
    have hlocate' := locate_put hplace hfile hlocate
    rw [if_pos rfl] at hlocate'
    exact ⟨place, hplace, rfl, hlocate'⟩
  · cases h
  · cases h
  · next place =>
    cases h
    obtain ⟨hcheck, hwalk⟩ := locate_eq_ok_iff.1 hlocate
    have hplace := writable_of_free (free_of_walk hwalk)
    obtain ⟨left, hmoves⟩ := exists_moves_of_free hwalk hfile
    have hput := at_put tree hplace.ne_root (.file bytes) place
    rw [if_pos rfl] at hput
    exact ⟨place, hplace, rfl, locate_of_moves hcheck hmoves hput⟩

/-- A directory is made at a place at which nothing stood. -/
theorem exists_of_makeDirectory_ok {path : String} {tree' : FileTree}
    (h : tree.makeDirectory path = .ok tree') :
    ∃ place, tree.entry? place = none ∧ tree' = tree.put place .directory := by
  rw [makeDirectory] at h
  obtain ⟨destination, hlocate, h⟩ := exists_of_bind_ok h
  split at h
  · cases h
  · next place =>
    cases h
    obtain ⟨-, -, hwalk⟩ := exists_of_bind_ok hlocate
    exact ⟨place, free_of_walk hwalk, rfl⟩

/-- The steps along a path are those to its last name, and one that stays if a slash ends the path. -/
theorem steps_eq_stepsToName_append (path : String) :
    PathText.steps path =
      stepsToName path ++ if PathText.endsInSlash path then ["."] else [] := by
  rw [stepsToName]
  split
  · next hslash => rw [PathText.steps, if_pos hslash, List.dropLast_concat]
  · rw [List.append_nil]

/-- A path leads to the directory that was made by it. -/
theorem exists_locate_of_makeDirectory_ok {path : String} {tree' : FileTree}
    (h : tree.makeDirectory path = .ok tree') :
    ∃ place, tree'.locate true path = .ok (.found place .directory) := by
  rw [makeDirectory] at h
  obtain ⟨destination, hlocate, h⟩ := exists_of_bind_ok h
  split at h
  · cases h
  · next place =>
    cases h
    have hdirectory : ∀ target, FileEntry.directory ≠ .link target := by simp
    obtain ⟨⟨⟩, hcheck, hwalk⟩ := exists_of_bind_ok hlocate
    have hplace := writable_of_free (free_of_walk hwalk)
    have hput := at_put tree hplace.ne_root .directory place
    rw [if_pos rfl] at hput
    obtain ⟨left, hmoves⟩ := exists_moves_of_free (walk_follow_of_free hwalk) hdirectory
    -- a slash at the end asks for one more step, which stays in the directory
    have hall : Moves (tree.put place .directory)
        ⟨linkLimit, start tree.workingDirectory path, PathText.steps path⟩ ⟨left, place, []⟩ := by
      rw [steps_eq_stepsToName_append]
      split
      · exact (hmoves.append ["."]).tail (.stay hput)
      · rwa [List.append_nil]
    exact ⟨place, locate_of_moves hcheck hall hput⟩

/-- No directory is made where one is already. -/
theorem makeDirectory_of_isDirectory {path : String} (h : tree.isDirectory path = true) :
    tree.makeDirectory path = .error .alreadyExists := by
  rw [isDirectory] at h
  split at h
  · next place hlocate =>
    obtain ⟨hplace, left, hmoves⟩ := exists_moves_of_locate hlocate
    have hcheck := (locate_eq_ok_iff.1 hlocate).1
    rw [steps_eq_stepsToName_append] at hmoves
    have hname : Moves tree
        ⟨linkLimit, start tree.workingDirectory path, stepsToName path⟩ ⟨left, place, []⟩ := by
      split at hmoves
      · exact hmoves.of_append_dot
      · rwa [List.append_nil] at hmoves
    rw [makeDirectory, locateSteps, hcheck]
    rcases hname.walk_of_not_follow hplace with hwalk | ⟨other, target, hwalk⟩
    · show Except.bind (tree.walk _ _ _ _) _ = _
      rw [hwalk]
      rfl
    · show Except.bind (tree.walk _ _ _ _) _ = _
      rw [hwalk]
      rfl
  · cases h

/-- What comes of writing a file is decided by where its path leads, if no slash ends it. -/
theorem write_of_not_endsInSlash {path : String} (h : PathText.endsInSlash path = false)
    (bytes : List UInt8) :
    tree.write path bytes = (tree.locate true path).bind fun destination =>
      match destination with
      | .found place (.file _) => .ok (tree.put place (.file bytes))
      | .found _ .directory => .error .isDirectory
      | .found _ (.link _) => .error .linkLoop
      | .free place => .ok (tree.put place (.file bytes)) := by
  rw [write, h, if_neg Bool.false_ne_true]
  rfl

/-- Any number of directories that are made at free places. -/
abbrev Grows : FileTree → FileTree → Prop :=
  Relation.ReflTransGen fun tree tree' =>
    ∃ place, tree.entry? place = none ∧ tree' = tree.put place .directory

/-- Making directories does not change where a path to an entry leads. -/
theorem Grows.locate {tree' : FileTree} (h : Grows tree tree') {path : String} {found : Place}
    {entry : FileEntry} (hpath : tree.locate true path = .ok (.found found entry)) :
    tree'.locate true path = .ok (.found found entry) := by
  induction h with
  | refl => exact hpath
  | @tail middle _ _ hmade ih =>
    obtain ⟨place, hfree, rfl⟩ := hmade
    have hne : found ≠ place := by
      rintro rfl
      rw [(exists_moves_of_locate ih).1] at hfree
      cases hfree
    have hdirectory : ∀ target, FileEntry.directory ≠ .link target := by simp
    have hlocate := locate_put (writable_of_free hfree) hdirectory ih
    rwa [if_neg hne] at hlocate

end LocaleLint.FileTree
