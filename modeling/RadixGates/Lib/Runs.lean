import Mathlib.Data.List.Basic
import Mathlib.Data.List.Induction

/-!
# Runs of a partial step function

A component is a state type, an action type and a step function that answers
`none` when the action is not enabled in the state.  A run folds the step
function over a list of actions.  The rules below turn one-step facts into
facts about whole runs.
-/

set_option autoImplicit false

namespace RadixGates.Runs

section
variable {S A : Type} (step : S → A → Option S)

/-- The state after the actions, if every one of them was enabled in turn. -/
def run : S → List A → Option S
  | state, [] => some state
  | state, action :: rest => (step state action).bind fun next => run next rest

theorem run_cons_some (state final : S) (action : A) (rest : List A) :
    run step state (action :: rest) = some final ↔
      ∃ next, step state action = some next ∧ run step next rest = some final := by
  simp only [run]
  exact Option.bind_eq_some_iff

theorem run_append (first second : List A) (state : S) :
    run step state (first ++ second) =
      (run step state first).bind fun middle => run step middle second := by
  induction first generalizing state with
  | nil => rfl
  | cons action rest ih =>
      simp only [List.cons_append, run]
      cases step state action with
      | none => rfl
      | some next => exact ih next

theorem run_snoc (actions : List A) (action : A) (state middle final : S)
    (before : run step state actions = some middle)
    (last : step middle action = some final) :
    run step state (actions ++ [action]) = some final := by
  rw [run_append, before]
  simp [run, last]

theorem run_preserves (Inv : S → Prop)
    (keeps : ∀ state action next, Inv state → step state action = some next → Inv next)
    (actions : List A) (state final : S) (holds : Inv state)
    (reached : run step state actions = some final) : Inv final := by
  induction actions generalizing state with
  | nil =>
      cases Option.some.inj reached
      exact holds
  | cons action rest ih =>
      obtain ⟨next, stepped, rested⟩ := (run_cons_some step state final action rest).mp reached
      exact ih next (keeps state action next holds stepped) rested

/-- The same rule when the invariant is kept only by actions that satisfy a
side condition, which every action of the run does. -/
theorem run_preserves_of_forall (Inv : S → Prop) (Ok : A → Prop)
    (keeps : ∀ state action next, Inv state → Ok action →
      step state action = some next → Inv next)
    (actions : List A) (state final : S) (holds : Inv state)
    (every : ∀ action ∈ actions, Ok action)
    (reached : run step state actions = some final) : Inv final := by
  induction actions generalizing state with
  | nil =>
      cases Option.some.inj reached
      exact holds
  | cons action rest ih =>
      obtain ⟨next, stepped, rested⟩ := (run_cons_some step state final action rest).mp reached
      have headOk : Ok action := every action (by simp)
      have tailOk : ∀ later ∈ rest, Ok later := by
        intro later member
        exact every later (by simp [member])
      exact ih next (keeps state action next holds headOk stepped) tailOk rested

/-- Induction along a run for a property of the actions taken so far and the
state they lead to. -/
theorem run_history (P : List A → S → Prop) (start : S) (initial : P [] start)
    (extended : ∀ actions state action next, run step start actions = some state →
      P actions state → step state action = some next → P (actions ++ [action]) next)
    (actions : List A) (final : S) (reached : run step start actions = some final) :
    P actions final := by
  induction actions using List.reverseRecOn generalizing final with
  | nil =>
      cases Option.some.inj reached
      exact initial
  | append_singleton before action ih =>
      rw [run_append] at reached
      obtain ⟨middle, first, last⟩ := Option.bind_eq_some_iff.mp reached
      have stepped : step middle action = some final := by
        simpa [run] using last
      exact extended before middle action final first (ih middle first) stepped

/-- Every action of the run meets a condition on it and the state it is taken
in. -/
def Along (Ok : S → A → Prop) : S → List A → Prop
  | _, [] => True
  | state, action :: rest =>
      Ok state action ∧ ∀ next, step state action = some next → Along Ok next rest

instance decidableAlong (Ok : S → A → Prop) [∀ state action, Decidable (Ok state action)] :
    ∀ (state : S) (actions : List A), Decidable (Along step Ok state actions)
  | _, [] => isTrue trivial
  | state, action :: rest =>
      match stepped : step state action with
      | none => decidable_of_iff (Ok state action) (by simp [Along, stepped])
      | some next =>
          have := decidableAlong Ok next rest
          decidable_of_iff (Ok state action ∧ Along step Ok next rest) (by simp [Along, stepped])

theorem along_append (Ok : S → A → Prop) (first second : List A) (state middle : S)
    (ran : run step state first = some middle) (along : Along step Ok state (first ++ second)) :
    Along step Ok state first ∧ Along step Ok middle second := by
  induction first generalizing state with
  | nil =>
      cases Option.some.inj ran
      exact ⟨trivial, along⟩
  | cons action rest ih =>
      obtain ⟨next, stepped, rested⟩ := (run_cons_some step state middle action rest).mp ran
      obtain ⟨ok, later⟩ := along
      obtain ⟨before, after⟩ := ih next rested (later next stepped)
      refine ⟨⟨ok, ?_⟩, after⟩
      intro other same
      rw [stepped] at same
      cases Option.some.inj same
      exact before

theorem along_concat (Ok : S → A → Prop) (first second : List A) (state middle : S)
    (ran : run step state first = some middle) (before : Along step Ok state first)
    (after : Along step Ok middle second) : Along step Ok state (first ++ second) := by
  induction first generalizing state with
  | nil =>
      cases Option.some.inj ran
      exact after
  | cons action rest ih =>
      obtain ⟨next, stepped, rested⟩ := (run_cons_some step state middle action rest).mp ran
      refine ⟨before.1, ?_⟩
      intro other same
      rw [stepped] at same
      cases Option.some.inj same
      exact ih next rested (before.2 next stepped)

theorem along_of_forall (Ok : S → A → Prop) (actions : List A) (state : S)
    (every : ∀ action ∈ actions, ∀ state, Ok state action) : Along step Ok state actions := by
  induction actions generalizing state with
  | nil => trivial
  | cons action rest ih =>
      refine ⟨every action List.mem_cons_self state, ?_⟩
      intro next _
      exact ih next fun later member => every later (List.mem_cons_of_mem action member)

/-- The invariant rule for such runs. -/
theorem run_preserves_along (Inv : S → Prop) (Ok : S → A → Prop)
    (keeps : ∀ state action next, Inv state → Ok state action →
      step state action = some next → Inv next)
    (actions : List A) (state final : S) (holds : Inv state)
    (along : Along step Ok state actions) (reached : run step state actions = some final) :
    Inv final := by
  induction actions generalizing state with
  | nil =>
      cases Option.some.inj reached
      exact holds
  | cons action rest ih =>
      obtain ⟨next, stepped, rested⟩ := (run_cons_some step state final action rest).mp reached
      exact ih next (keeps state action next holds along.1 stepped) (along.2 next stepped) rested

end

end RadixGates.Runs
