import LocaleLint.Failure

/-!
# Computations that may fail

What has happened when a computation that may fail has succeeded: in a chain of two, under a
function, and in a loop of checks. An action on a state that may fail runs in the same way, state
by state.
-/

set_option autoImplicit false

namespace LocaleLint

variable {ε α β : Type}

/-- A result behind another one comes from a first result that was reached. -/
theorem exists_of_bind_ok {x : Except ε α} {f : α → Except ε β} {b : β}
    (h : x.bind f = .ok b) : ∃ a, x = .ok a ∧ f a = .ok b := by
  cases x with
  | error fault => cases h
  | ok a => exact ⟨a, rfl, h⟩

/-- A result that was changed comes from a result that was reached. -/
theorem exists_of_map_ok {x : Except ε α} {f : α → β} {b : β} (h : x.map f = .ok b) :
    ∃ a, x = .ok a ∧ f a = b := by
  cases x with
  | error fault => cases h
  | ok a =>
    cases h
    exact ⟨a, rfl, rfl⟩

/-- Changing the error leaves a result as it is, so it was the result before. -/
theorem eq_ok_of_mapError {ε' : Type} {x : Except ε α} {f : ε → ε'} {a : α}
    (h : x.mapError f = .ok a) : x = .ok a := by
  cases x with
  | error fault => cases h
  | ok value =>
    cases h
    rfl

/-- A check of all items succeeds exactly if the check of each does. -/
theorem forM_eq_ok_iff (f : α → Except ε Unit) (items : List α) :
    items.forM f = .ok () ↔ ∀ item ∈ items, f item = .ok () := by
  induction items with
  | nil =>
    simp only [List.not_mem_nil, false_implies, implies_true, iff_true]
    rfl
  | cons item rest ih =>
    rw [List.forall_mem_cons, ← ih, List.forM]
    cases f item with
    | error failure => simp [bind, Except.bind]
    | ok value => simp [bind, Except.bind]

/-! ## Actions on a state -/

section

variable {σ : Type}

/-- An action after another one runs on what the first answers, in the state that it leaves. -/
theorem run_bind (action : StateM σ α) (next : α → StateM σ β) (state : σ) :
    (action >>= next).run state = (next (action.run state).1).run (action.run state).2 :=
  rfl

/-- Actions that leave the state as it is, one for each item. -/
theorem run_mapM {action : α → StateM σ β} {result : α → β} {state : σ}
    (h : ∀ item, (action item).run state = (result item, state)) (items : List α) :
    (items.mapM action).run state = (items.map result, state) := by
  induction items with
  | nil => rfl
  | cons item rest ih =>
    rw [List.mapM_cons, StateT.run_bind, h]
    show (rest.mapM action >>= fun results => pure (result item :: results)).run state = _
    rw [StateT.run_bind, ih]
    rfl

/-- An action that cannot fail answers, and leaves the state that it leaves by itself. -/
theorem run_lift (action : StateM σ α) (state : σ) :
    (ExceptT.lift action : ExceptT ε (StateM σ) α).run state =
      (.ok (action.run state).1, (action.run state).2) :=
  rfl

/-- An action that cannot fail gives the answer that it gives by itself. -/
theorem run_lift_of_eq {action : StateM σ α} {state state' : σ} {answer : α}
    (h : action.run state = (answer, state')) :
    (ExceptT.lift action : ExceptT ε (StateM σ) α).run state = (.ok answer, state') := by
  rw [run_lift, h]

/-- A step adds its name to an error and changes nothing else. -/
theorem run_duringStep (step : String) (action : ExceptT Failure (StateM σ) α) (state : σ) :
    (duringStep step action).run state =
      ((action.run state).1.mapError (Failure.within step), (action.run state).2) :=
  rfl

/-- What succeeds during a step succeeds by itself, in the same way. -/
theorem run_of_duringStep {step : String} {action : ExceptT Failure (StateM σ) α}
    {state state' : σ} {value : α}
    (h : (duringStep step action).run state = (.ok value, state')) :
    action.run state = (.ok value, state') := by
  rw [run_duringStep, Prod.mk.injEq] at h
  exact Prod.ext (eq_ok_of_mapError h.1) h.2

/-- Behind an action that succeeds the next one runs. -/
theorem run_bind_of_ok {action : ExceptT ε (StateM σ) α} {next : α → ExceptT ε (StateM σ) β}
    {state state' : σ} {value : α} (h : action.run state = (.ok value, state')) :
    (action >>= next).run state = (next value).run state' := by
  rw [ExceptT.run_bind]
  show StateT.bind action.run _ state = _
  rw [StateT.bind, h]
  rfl

/-- Behind an action that fails nothing runs. -/
theorem run_bind_of_error {action : ExceptT ε (StateM σ) α} {next : α → ExceptT ε (StateM σ) β}
    {state state' : σ} {fault : ε} (h : action.run state = (.error fault, state')) :
    (action >>= next).run state = (.error fault, state') := by
  rw [ExceptT.run_bind]
  show StateT.bind action.run _ state = _
  rw [StateT.bind, h]
  rfl

/-- Where two actions succeed in turn the first one succeeds, and the second one behind it. -/
theorem exists_of_run_bind_ok {action : ExceptT ε (StateM σ) α} {next : α → ExceptT ε (StateM σ) β}
    {state state' : σ} {value : β} (h : (action >>= next).run state = (.ok value, state')) :
    ∃ first between, action.run state = (.ok first, between) ∧
      (next first).run between = (.ok value, state') := by
  rcases hresult : action.run state with ⟨result, between⟩
  cases result with
  | error fault =>
    rw [run_bind_of_error hresult] at h
    cases h
  | ok first =>
    rw [run_bind_of_ok hresult] at h
    exact ⟨first, between, rfl, h⟩

end

end LocaleLint
