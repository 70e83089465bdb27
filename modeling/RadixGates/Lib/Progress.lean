import RadixGates.Lib.Runs

/-!
# Progress along runs

A measure that every counted action lowers bounds the counted actions of a run.
If a state that is not done can always be driven to a smaller one, a done state
can be reached.
-/

set_option autoImplicit false

namespace RadixGates.Runs

section
variable {S A : Type} (step : S → A → Option S)

/-- Counted actions spend the measure, and no action adds to it. -/
theorem run_bounded (Inv : S → Prop) (counts : A → Bool) (measure : S → Nat)
    (keeps : ∀ state action next, Inv state → step state action = some next → Inv next)
    (spends : ∀ state action next, Inv state → step state action = some next →
      measure next + (if counts action then 1 else 0) ≤ measure state)
    (actions : List A) (state final : S) (holds : Inv state)
    (reached : run step state actions = some final) :
    measure final + actions.countP counts ≤ measure state := by
  induction actions generalizing state with
  | nil =>
      cases Option.some.inj reached
      simp
  | cons action rest ih =>
      obtain ⟨next, stepped, rested⟩ := (run_cons_some step state final action rest).mp reached
      have later := ih next (keeps state action next holds stepped) rested
      have spent := spends state action next holds stepped
      rw [List.countP_cons]
      omega

/-- A run of allowed actions to a done state, by induction on the measure. -/
theorem run_until (Inv Done : S → Prop) (Ok : S → A → Prop) (measure : S → Nat)
    (advances : ∀ state, Inv state → Done state ∨
      ∃ actions next, run step state actions = some next ∧ Along step Ok state actions ∧
        Inv next ∧ measure next < measure state)
    (state : S) (holds : Inv state) :
    ∃ actions final, run step state actions = some final ∧ Along step Ok state actions ∧
      Inv final ∧ Done final := by
  induction size : measure state using Nat.strongRecOn generalizing state with
  | _ m ih =>
      rcases advances state holds with done | ⟨first, next, ran, allowed, inv, smaller⟩
      · exact ⟨[], state, rfl, trivial, holds, done⟩
      · rw [size] at smaller
        obtain ⟨later, final, ranLater, allowedLater, result⟩ := ih _ smaller next inv rfl
        refine ⟨first ++ later, final, ?_, ?_, result⟩
        · rw [run_append, ran]
          exact ranLater
        · exact along_concat step Ok first later state next ran allowed allowedLater

end

end RadixGates.Runs
