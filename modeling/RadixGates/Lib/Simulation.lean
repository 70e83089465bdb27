import RadixGates.Lib.Runs

/-!
# Simulation between two step functions

One component explains another when every step of the second is matched by
steps of the first, from related states to related states.  The rules below
carry this from one step to whole runs.
-/

set_option autoImplicit false

namespace RadixGates.Runs

section
variable {S T A B : Type} (step : S → A → Option S) (other : T → B → Option T)

/-- Every step is matched by a run of the other component, whichever it is. -/
theorem run_matched (Rel : S → T → Prop)
    (matched : ∀ state action next t, Rel state t → step state action = some next →
      ∃ events t', run other t events = some t' ∧ Rel next t')
    (actions : List A) (state final : S) (t : T) (related : Rel state t)
    (reached : run step state actions = some final) :
    ∃ events t', run other t events = some t' ∧ Rel final t' := by
  induction actions generalizing state t with
  | nil =>
      cases Option.some.inj reached
      exact ⟨[], t, rfl, related⟩
  | cons action rest ih =>
      obtain ⟨next, stepped, rested⟩ := (run_cons_some step state final action rest).mp reached
      obtain ⟨first, middle, ran, relatedNext⟩ := matched state action next t related stepped
      obtain ⟨later, t', ranLater, relatedFinal⟩ := ih next middle relatedNext rested
      refine ⟨first ++ later, t', ?_, relatedFinal⟩
      rw [run_append, ran]
      exact ranLater

/-- Every step is matched by the run its action stands for; the actions may
have to meet a condition. -/
theorem run_mapped (Rel : S → T → Prop) (Ok : A → Prop) (events : A → List B)
    (matched : ∀ state action next t, Rel state t → Ok action →
      step state action = some next →
      ∃ t', run other t (events action) = some t' ∧ Rel next t')
    (actions : List A) (state final : S) (t : T) (related : Rel state t)
    (every : ∀ action ∈ actions, Ok action)
    (reached : run step state actions = some final) :
    ∃ t', run other t (actions.flatMap events) = some t' ∧ Rel final t' := by
  induction actions generalizing state t with
  | nil =>
      cases Option.some.inj reached
      exact ⟨t, rfl, related⟩
  | cons action rest ih =>
      obtain ⟨next, stepped, rested⟩ := (run_cons_some step state final action rest).mp reached
      have headOk : Ok action := every action List.mem_cons_self
      have tailOk : ∀ later ∈ rest, Ok later :=
        fun later member => every later (List.mem_cons_of_mem action member)
      obtain ⟨middle, ran, relatedNext⟩ := matched state action next t related headOk stepped
      obtain ⟨t', ranLater, relatedFinal⟩ := ih next middle relatedNext tailOk rested
      refine ⟨t', ?_, relatedFinal⟩
      rw [List.flatMap_cons, run_append, ran]
      exact ranLater

end

end RadixGates.Runs
