import LocaleLint.Host
import LocaleLint.Proofs.Except
import LocaleLint.Proofs.FileTree.Change

/-!
# Hosts with a tree of files

What a run may rely on when its host has files: whatever the host says is written or made is so in
a tree (`Host.OnTree`). File trees are such hosts themselves (`FileTree.onTree`), and there a path
leads to a directory once this and those around it are made (`FileTree.makeDirectories_spec`). Making
them only ever makes directories, even where it fails in the end (`Host.OnTree.grows_makeFirst`).
-/

set_option autoImplicit false

namespace LocaleLint

section

variable {σ : Type} [Host (StateM σ)]

/-- A host in whose state there is a tree of files: what it says is written or made is so in the
tree, and a directory that it does not make changes nothing. It may refuse anything at any time. Its
times can be written and read. -/
structure Host.OnTree (tree : σ → FileTree) : Prop where
  write_ok : ∀ {path : String} {bytes : List UInt8} {state state' : σ},
    (Host.write path bytes : StateM σ (Except FileFault Unit)).run state = (.ok (), state') →
      (tree state).write path bytes = .ok (tree state')
  makeDirectory_ok : ∀ {path : String} {state state' : σ},
    (Host.makeDirectory path : StateM σ (Except FileFault Unit)).run state = (.ok (), state') →
      (tree state).makeDirectory path = .ok (tree state')
  makeDirectory_error : ∀ {path : String} {fault : FileFault} {state state' : σ},
    (Host.makeDirectory path : StateM σ (Except FileFault Unit)).run state =
      (.error fault, state') → tree state' = tree state
  isDirectory : ∀ (path : String) (state : σ),
    tree ((Host.isDirectory path : StateM σ Bool).run state).2 = tree state
  now : ∀ {state state' : σ} {time : Timestamp},
    (Host.now : StateM σ Timestamp).run state = (time, state') →
      Timestamp.parse time.text = .ok time

end

/-- A path that has a directory around it is the first one to make. -/
theorem PathText.exists_ancestors_eq_cons {path parent : String} (h : parent? path = some parent) :
    ∃ around, ancestors path = path :: around := by
  rw [ancestors]
  cases hlength : path.length with
  | zero =>
    obtain rfl : path = "" := String.length_eq_zero_iff.1 hlength
    have hnone : parent? "" = none := by decide +kernel
    rw [hnone] at h
    cases h
  | succ n =>
    rw [ancestorsWithin, h]
    exact ⟨_, rfl⟩

namespace FileTree

variable (change : FileTree → Except FileFault FileTree) {tree tree' : FileTree}

/-- An attempt that succeeds has made the change. -/
theorem eq_ok_of_attempt (h : (attempt change).run tree = (.ok (), tree')) :
    change tree = .ok tree' := by
  change attempt change tree = _ at h
  rw [attempt] at h
  split at h
  · next changed hchanged =>
    cases h
    exact hchanged
  · cases h

/-- An attempt that fails has changed nothing. -/
theorem eq_of_attempt_error {fault : FileFault}
    (h : (attempt change).run tree = (.error fault, tree')) : tree' = tree := by
  change attempt change tree = _ at h
  rw [attempt] at h
  split at h
  · cases h
  · cases h
    rfl

/-- A tree is itself a host of this kind. -/
theorem onTree : Host.OnTree (fun tree : FileTree => tree) where
  write_ok := fun {path bytes _ _} h => eq_ok_of_attempt (fun tree => tree.write path bytes) h
  makeDirectory_ok := fun {path _ _} h => eq_ok_of_attempt (fun tree => tree.makeDirectory path) h
  makeDirectory_error := fun {path _ _ _} h =>
    eq_of_attempt_error (fun tree => tree.makeDirectory path) h
  isDirectory := fun _ _ => rfl
  now := by
    intro tree tree' time h
    cases h
    decide +kernel

/-! ## Making directories -/

/-- What is tolerated is a directory. -/
theorem isDirectory_of_tolerate {path : String} {result : Except FileFault Unit}
    {made tree' : FileTree} (hresult : result = .ok () → made.isDirectory path = true)
    (h : (Host.tolerate path result : StateM FileTree (Except FileFault Unit)).run made =
      (.ok (), tree')) : tree'.isDirectory path = true := by
  cases result with
  | ok value =>
    cases h
    exact hresult rfl
  | error fault =>
    have hasked : (Host.isDirectory path : StateM FileTree Bool).run made =
      (made.isDirectory path, made) := rfl
    rw [Host.tolerate, run_bind, hasked] at h
    split at h
    · next hdirectory =>
      cases h
      exact hdirectory
    · cases h

/-- A path leads to a directory once this and those around it are made. -/
theorem isDirectory_of_makeFirst {path : String} {around : List String} {tree' : FileTree}
    (h : (Host.makeFirst (path :: around) : StateM FileTree (Except FileFault Unit)).run tree =
      (.ok (), tree')) : tree'.isDirectory path = true := by
  have hmade {made : FileTree} (hok : ((Host.makeDirectory path :
      StateM FileTree (Except FileFault Unit)).run made).1 = .ok ()) :
      (((Host.makeDirectory path : StateM FileTree (Except FileFault Unit)).run made).2).isDirectory
        path = true := by
    have hattempt : made.makeDirectory path = .ok ((Host.makeDirectory path :
        StateM FileTree (Except FileFault Unit)).run made).2 :=
      eq_ok_of_attempt (fun tree => tree.makeDirectory path) (Prod.ext hok rfl)
    obtain ⟨place, hlocate⟩ := exists_locate_of_makeDirectory_ok hattempt
    rw [isDirectory, hlocate]
  rw [Host.makeFirst, run_bind] at h
  split at h
  · rw [run_bind] at h
    split at h
    · rw [run_bind] at h
      exact isDirectory_of_tolerate hmade h
    · cases h
  · exact isDirectory_of_tolerate hmade h

/-- Any result of an attempt to make a directory is tolerated where there is one. -/
theorem run_tolerate_of_isDirectory {path : String} (h : tree.isDirectory path = true)
    (result : Except FileFault Unit) :
    (Host.tolerate path result : StateM FileTree (Except FileFault Unit)).run tree =
      (.ok (), tree) := by
  cases result with
  | ok value => rfl
  | error fault =>
    have hasked : (Host.isDirectory path : StateM FileTree Bool).run tree = (true, tree) :=
      congrArg (·, tree) h
    rw [Host.tolerate, run_bind, hasked]
    rfl

/-- Where there is a directory already, the attempt to make one fails. -/
theorem run_makeDirectory_of_isDirectory {path : String} (h : tree.isDirectory path = true) :
    (Host.makeDirectory path : StateM FileTree (Except FileFault Unit)).run tree =
      (.error .alreadyExists, tree) := by
  show attempt (fun tree => tree.makeDirectory path) tree = _
  rw [attempt, makeDirectory_of_isDirectory h]

/-- Where a path leads to a directory already, nothing is made. -/
theorem run_makeFirst_of_isDirectory {path : String} (h : tree.isDirectory path = true)
    (around : List String) :
    (Host.makeFirst (path :: around) : StateM FileTree (Except FileFault Unit)).run tree =
      (.ok (), tree) := by
  rw [Host.makeFirst, run_bind, run_makeDirectory_of_isDirectory h]
  exact run_tolerate_of_isDirectory h _

/-- A path at which a directory can be made needs nothing around it. -/
theorem run_makeFirst_of_ok {path : String} {made : FileTree}
    (h : tree.makeDirectory path = .ok made) (around : List String) :
    (Host.makeFirst (path :: around) : StateM FileTree (Except FileFault Unit)).run tree =
      (.ok (), made) := by
  have hmade : (Host.makeDirectory path : StateM FileTree (Except FileFault Unit)).run tree =
      (.ok (), made) := by
    show attempt (fun tree => tree.makeDirectory path) tree = _
    rw [attempt, h]
  rw [Host.makeFirst, run_bind, hmade]
  rfl

/-- A path that leads to a directory as soon as those around it are made needs none of its own. -/
theorem run_makeFirst_of_around {path : String} {around : List String} {made : FileTree}
    (hmissing : tree.makeDirectory path = .error .notFound)
    (haround : (Host.makeFirst around : StateM FileTree (Except FileFault Unit)).run tree =
      (.ok (), made)) (h : made.isDirectory path = true) :
    (Host.makeFirst (path :: around) : StateM FileTree (Except FileFault Unit)).run tree =
      (.ok (), made) := by
  have hattempt : (Host.makeDirectory path : StateM FileTree (Except FileFault Unit)).run tree =
      (.error .notFound, tree) := by
    show attempt (fun tree => tree.makeDirectory path) tree = _
    rw [attempt, hmissing]
  rw [Host.makeFirst, run_bind, hattempt]
  show (Host.makeFirst around >>= _ : StateM FileTree (Except FileFault Unit)).run tree = _
  rw [run_bind, haround]
  show (Host.makeDirectory path >>= _ : StateM FileTree (Except FileFault Unit)).run made = _
  rw [run_bind, run_makeDirectory_of_isDirectory h]
  exact run_tolerate_of_isDirectory h _

/-- Making directories makes a path lead to one, unless it does so already, and then makes none. -/
theorem makeDirectories_spec {path parent : String} (hparent : PathText.parent? path = some parent) :
    (tree.isDirectory path = true →
      (Host.makeDirectories path : StateM FileTree (Except FileFault Unit)).run tree =
        (.ok (), tree)) ∧
    ∀ tree', (Host.makeDirectories path : StateM FileTree (Except FileFault Unit)).run tree =
      (.ok (), tree') → tree'.isDirectory path = true := by
  obtain ⟨around, hancestors⟩ := PathText.exists_ancestors_eq_cons hparent
  rw [Host.makeDirectories, hancestors]
  exact ⟨fun h => run_makeFirst_of_isDirectory h around, fun _ h => isDirectory_of_makeFirst h⟩

end FileTree

namespace Host.OnTree

variable {σ : Type} [Host (StateM σ)] {tree : σ → FileTree} (hhost : Host.OnTree tree)

include hhost

/-- Making a directory makes one at a free place, or changes nothing. -/
theorem grows_makeDirectory (path : String) (state : σ) :
    FileTree.Grows (tree state)
      (tree ((Host.makeDirectory path : StateM σ (Except FileFault Unit)).run state).2) := by
  rcases hmade : (Host.makeDirectory path : StateM σ (Except FileFault Unit)).run state with
    ⟨result, state'⟩
  cases result with
  | ok value => exact .single (FileTree.exists_of_makeDirectory_ok (hhost.makeDirectory_ok hmade))
  | error fault =>
    rw [hhost.makeDirectory_error hmade]

/-- Whether a directory is there already is only asked. -/
theorem tree_tolerate (path : String) (result : Except FileFault Unit) (state : σ) :
    tree ((Host.tolerate path result : StateM σ (Except FileFault Unit)).run state).2 =
      tree state := by
  cases result with
  | ok value => rfl
  | error fault =>
    rw [Host.tolerate, run_bind]
    split
    · exact hhost.isDirectory path state
    · exact hhost.isDirectory path state

/-- Making a directory and those around it makes directories only, however far it comes. -/
theorem grows_makeFirst (paths : List String) (state : σ) :
    FileTree.Grows (tree state)
      (tree ((Host.makeFirst paths : StateM σ (Except FileFault Unit)).run state).2) := by
  induction paths generalizing state with
  | nil => exact .refl
  | cons path around ih =>
    have hfirst := hhost.grows_makeDirectory path state
    rw [Host.makeFirst, run_bind]
    refine hfirst.trans ?_
    generalize ((Host.makeDirectory path : StateM σ (Except FileFault Unit)).run state).2 = made
    split
    · rw [run_bind]
      refine (ih made).trans ?_
      split
      · rw [run_bind]
        refine (hhost.grows_makeDirectory path _).trans ?_
        rw [hhost.tree_tolerate]
      · exact .refl
    · rw [hhost.tree_tolerate]

end Host.OnTree

end LocaleLint
