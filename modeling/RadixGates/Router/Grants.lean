import RadixGates.Router.Holdings

/-!
# Where a returned lease comes from

Leases keep their nodes and calls their requests.  So a lease that `Acquire`
has returned was granted by a pass of this call, to its request, on a node that
the request had not excluded.
-/

set_option autoImplicit false

namespace RadixGates.Router

section
variable {n : Nat} {rt : Runtime n} {opts : Options}

/-! ## Leases and calls stay -/

theorem nodes_of_shapes (w : World n) (lease : Nat) :
    w.leases[lease]?.map (fun l => l.node) = w.shapes[lease]?.map Prod.fst := by
  simp only [World.shapes, List.getElem?_map, Option.map_map]
  rfl

theorem Stepped.leaseNode {w next : World n} {action : Action n}
    (stepped : Stepped rt opts w action next) (lease : Nat) (i : Fin n)
    (onNode : w.leases[lease]?.map (fun l => l.node) = some i) :
    next.leases[lease]?.map (fun l => l.node) = some i := by
  have shifts : Shifted w next → next.leases[lease]?.map (fun l => l.node) = some i := by
    intro shifted
    rw [nodes_of_shapes] at onNode ⊢
    cases shifted with
    | kept shapes _ _ _ => rwa [shapes]
    | granted _ _ _ shapes _ _ _ =>
        obtain ⟨shape, found, first⟩ := Option.map_eq_some_iff.mp onNode
        have inside := (List.getElem?_eq_some_iff.mp found).1
        rw [shapes, List.getElem?_append_left inside, found, Option.map_some, first]
  cases action with
  | acquire request =>
      cases stepped
      exact onNode
  | release index =>
      cases stepped with
      | release index old found reported =>
          simp only [World.release, World.setNode, List.getElem?_set]
          split_ifs with here inside
          · subst here
            rw [found] at onNode
            exact onNode
          · rw [List.getElem?_eq_none (by omega)] at onNode
            cases onNode
          · exact onNode
  | evaluate | wake | affinityExpired | queueExpired | ctxDone | leave | other =>
      exact shifts (stepped.shifted (by simp) (by simp))

theorem setCall_request {w : World n} {index other : Nat} {call call' before : Call}
    (found : w.calls[index]? = some call) (same : call'.request = call.request)
    (was : w.calls[other]? = some before) :
    ∃ after, (w.calls.set index call')[other]? = some after ∧ after.request = before.request := by
  by_cases here : index = other
  · subst here
    cases Option.some.inj (found.symm.trans was)
    exact ⟨call', List.getElem?_set_self (List.getElem?_eq_some_iff.mp found).1, same⟩
  · exact ⟨before, by rw [List.getElem?_set_ne here, was], rfl⟩

theorem Stepped.callRequest {w next : World n} {action : Action n}
    (stepped : Stepped rt opts w action next) {other : Nat} {before : Call}
    (was : w.calls[other]? = some before) :
    ∃ after, next.calls[other]? = some after ∧ after.request = before.request := by
  cases stepped with
  | acquire request =>
      have inside := (List.getElem?_eq_some_iff.mp was).1
      exact ⟨before, by rw [List.getElem?_append_left inside, was], rfl⟩
  | evaluate index schedule call found deciding =>
      obtain ⟨call', same, _, calls⟩ := (evaluate_passed rt opts w index call schedule).calls
      rw [calls, (decision_sameQueue rt opts w call schedule).calls]
      exact setCall_request found same was
  | wake index call channel found | affinityExpired index call channel found
  | queueExpired index call channel found | ctxDone index cause call channel found
  | leave index call err found => exact setCall_request found rfl was
  | release index lease found reported => exact ⟨before, was, rfl⟩
  | other interference =>
      rw [(Unlocked.interference w interference).calls]
      exact ⟨before, was, rfl⟩

/-- A call that is back at its caller stays as it is. -/
theorem Stepped.returned {w next : World n} {action : Action n}
    (stepped : Stepped rt opts w action next) {other : Nat} {before : Call}
    {result : Except AcquireError Nat} (was : w.calls[other]? = some before)
    (returned : before.pc = .returned result) : next.calls[other]? = some before := by
  have elsewhere : ∀ (index : Nat) (call call' : Call), w.calls[index]? = some call →
      (∀ result, call.pc ≠ .returned result) →
      (w.calls.set index call')[other]? = some before := by
    intro index call call' found out
    have apart : index ≠ other := by
      rintro rfl
      cases Option.some.inj (found.symm.trans was)
      exact out result returned
    rw [List.getElem?_set_ne apart, was]
  cases stepped with
  | acquire request =>
      rw [List.getElem?_append_left (List.getElem?_eq_some_iff.mp was).1, was]
  | evaluate index schedule call found deciding =>
      obtain ⟨call', _, _, calls⟩ := (evaluate_passed rt opts w index call schedule).calls
      rw [calls, (decision_sameQueue rt opts w call schedule).calls]
      exact elsewhere index call call' found (by simp [deciding])
  | wake index call channel found blocked | affinityExpired index call channel found blocked
  | queueExpired index call channel found blocked | ctxDone index cause call channel found blocked =>
      exact elsewhere index call _ found (by simp [blocked])
  | leave index call err found leaving => exact elsewhere index call _ found (by simp [leaving])
  | release index lease found reported => exact was
  | other interference =>
      rw [(Unlocked.interference w interference).calls]
      exact was

/-- How the context of the call has ended, if the call has seen it end. -/
def Pc.ctxErr : Pc → Option CtxErr
  | .leaving (.ctx cause) => some cause
  | .returned (.error (.ctx cause)) => some cause
  | _ => none

theorem Passed.ctxErr {index : Nat} {call : Call} {after next : World n} {pick : Pick}
    (passed : Passed opts index call after pick next) :
    ∃ call', next.calls = after.calls.set index call' ∧ call'.pc.ctxErr = none := by
  cases passed with
  | granted lease =>
      exact ⟨{ call with pc := .returned (.ok lease) },
        by simp only [World.setCall, dequeue_calls], rfl⟩
  | noNode =>
      exact ⟨{ call with pc := .returned (.error .noNode) },
        by simp only [World.setCall, dequeue_calls], rfl⟩
  | queueFull waits fresh full => exact ⟨_, rfl, rfl⟩
  | blocked waits affinity room =>
      exact ⟨{ call with queued := true, affinity := affinity, pc := .blocked after.notify },
        by simp only [World.setCall, enqueue_calls], rfl⟩

/-- A call sees its context end in the one step that is for this. -/
theorem Stepped.ctxErr {w next : World n} {action : Action n}
    (stepped : Stepped rt opts w action next) {other : Nat} {call' : Call} {cause : CtxErr}
    (found' : next.calls[other]? = some call') (ended : call'.pc.ctxErr = some cause) :
    (∃ call, w.calls[other]? = some call ∧ call.pc.ctxErr = some cause) ∨
      action = .ctxDone other cause := by
  have rewritten : ∀ (index : Nat) (call replaced : Call), w.calls[index]? = some call →
      (w.calls.set index replaced)[other]? = some call' → replaced.pc.ctxErr = none →
      ∃ call, w.calls[other]? = some call ∧ call.pc.ctxErr = some cause := by
    intro index call replaced found after none
    rcases call_of_set found after with ⟨_, old⟩ | ⟨rfl, rfl⟩
    · exact ⟨call', old, ended⟩
    · rw [none] at ended
      cases ended
  cases stepped with
  | acquire request =>
      rcases call_of_append found' with old | ⟨_, rfl⟩
      · exact Or.inl ⟨call', old, ended⟩
      · cases ended
  | evaluate index schedule call found deciding =>
      obtain ⟨replaced, calls, none⟩ := (evaluate_passed rt opts w index call schedule).ctxErr
      rw [calls, (decision_sameQueue rt opts w call schedule).calls] at found'
      exact Or.inl (rewritten index call replaced found found' none)
  | wake index call channel found | affinityExpired index call channel found
  | queueExpired index call channel found =>
      exact Or.inl (rewritten index call _ found found' rfl)
  | ctxDone index now call channel found =>
      rcases call_of_set found found' with ⟨_, old⟩ | ⟨rfl, rfl⟩
      · exact Or.inl ⟨call', old, ended⟩
      · cases ended
        exact Or.inr rfl
  | leave index call err found leaving =>
      rcases call_of_set found found' with ⟨_, old⟩ | ⟨rfl, rfl⟩
      · exact Or.inl ⟨call', old, ended⟩
      · refine Or.inl ⟨call, found, ?_⟩
        rw [leaving]
        cases err with
        | ctx other => exact ended
        | noNode | queueFull | queueTimeout => cases ended
  | release index lease found reported => exact Or.inl ⟨call', found', ended⟩
  | other interference =>
      rw [(Unlocked.interference w interference).calls] at found'
      exact Or.inl ⟨call', found', ended⟩

/-! ## Grants -/

variable (rt opts)

/-- A pass of `Acquire` for such a request granted the lease, and the node has
kept its name. -/
def GrantedTo (w : World n) (request : Request) (lease : Nat) : Prop :=
  ∃ (i : Fin n) (before : World n) (call : Call) (schedule : List (List (Interference n))),
    w.leases[lease]?.map (fun l => l.node) = some i ∧ call.request = request ∧
      (before.decision rt opts call schedule).2 = .granted lease ∧
      (before.decision rt opts call schedule).1.w.leases[lease]?.map (fun l => l.node) = some i ∧
      (before.nodes i).name = (w.nodes i).name

/-- Every lease that a call has returned was granted to its request. -/
def Answers (w : World n) : Prop :=
  ∀ (index : Nat) (call : Call) (lease : Nat), w.calls[index]? = some call →
    call.pc = .returned (.ok lease) → GrantedTo rt opts w call.request lease

variable {rt opts}

theorem GrantedTo.step {w next : World n} {action : Action n} {request : Request} {lease : Nat}
    (granted : GrantedTo rt opts w request lease) (stepped : Stepped rt opts w action next) :
    GrantedTo rt opts next request lease := by
  obtain ⟨i, before, call, schedule, onNode, asked, pick, leased, name⟩ := granted
  exact ⟨i, before, call, schedule, stepped.leaseNode lease i onNode, asked, pick, leased,
    name.trans (stepped.sameIdentity.name i).symm⟩

theorem Answers.set {w next : World n} (answers : Answers rt opts w) {action : Action n}
    (stepped : Stepped rt opts w action next) {index : Nat} {call call' : Call}
    (found : w.calls[index]? = some call) (calls : next.calls = w.calls.set index call')
    (fresh : ∀ lease, call'.pc = .returned (.ok lease) →
      GrantedTo rt opts next call'.request lease) : Answers rt opts next := by
  intro other c lease atOther returned
  rw [calls] at atOther
  rcases call_of_set found atOther with ⟨_, old⟩ | ⟨_, rfl⟩
  · exact (answers other c lease old returned).step stepped
  · exact fresh lease returned

/-- The call that a pass has rewritten returns a lease only if it was granted. -/
theorem Passed.returned {index : Nat} {call : Call} {after next : World n} {pick : Pick}
    (passed : Passed opts index call after pick next) :
    ∃ call', next.calls = after.calls.set index call' ∧ call'.request = call.request ∧
      ∀ lease, call'.pc = .returned (.ok lease) → pick = .granted lease := by
  cases passed with
  | granted lease =>
      refine ⟨{ call with pc := .returned (.ok lease) },
        by simp only [World.setCall, dequeue_calls], rfl, ?_⟩
      intro other same
      cases same
      rfl
  | noNode =>
      exact ⟨{ call with pc := .returned (.error .noNode) },
        by simp only [World.setCall, dequeue_calls], rfl, fun _ same => by cases same⟩
  | queueFull waits fresh full => exact ⟨_, rfl, rfl, fun _ same => by cases same⟩
  | blocked waits affinity room =>
      exact ⟨{ call with queued := true, affinity := affinity, pc := .blocked after.notify },
        by simp only [World.setCall, enqueue_calls], rfl, fun _ same => by cases same⟩

theorem Answers.evaluate {w : World n} (answers : Answers rt opts w) {index : Nat} {call : Call}
    (found : w.calls[index]? = some call) (deciding : call.pc = .deciding)
    (schedule : List (List (Interference n))) :
    Answers rt opts (w.evaluate rt opts index call schedule) := by
  have passed := evaluate_passed rt opts w index call schedule
  obtain ⟨call', calls, same, picked⟩ := passed.returned
  obtain ⟨waiting, rewritten, ended⟩ := passed.bookkeeping
  rw [(decision_sameQueue rt opts w call schedule).calls] at calls
  apply answers.set (.evaluate index schedule call found deciding) found calls
  intro lease returned
  have pick := picked lease returned
  obtain ⟨i, onNode, _⟩ := granted_untried rt opts w call schedule lease pick
  refine ⟨i, w, call, schedule, ?_, same.symm, pick, onNode, ?_⟩
  · rw [ended]
    exact onNode
  · rw [ended]
    exact ((decision_sameIdentity rt opts w call schedule).name i).symm

theorem Answers.step {w next : World n} {action : Action n} (answers : Answers rt opts w)
    (stepped : Stepped rt opts w action next) : Answers rt opts next := by
  cases stepped with
  | acquire request =>
      intro other c lease atOther returned
      rcases call_of_append atOther with old | ⟨_, rfl⟩
      · exact (answers other c lease old returned).step (.acquire request)
      · cases returned
  | evaluate index schedule call found deciding => exact answers.evaluate found deciding schedule
  | wake index call channel found blocked closed =>
      exact answers.set (.wake index call channel found blocked closed) found rfl
        fun _ same => by cases same
  | affinityExpired index call channel found blocked armed =>
      exact answers.set (.affinityExpired index call channel found blocked armed) found rfl
        fun _ same => by cases same
  | queueExpired index call channel found blocked =>
      exact answers.set (.queueExpired index call channel found blocked) found rfl
        fun _ same => by cases same
  | ctxDone index cause call channel found blocked =>
      exact answers.set (.ctxDone index cause call channel found blocked) found rfl
        fun _ same => by cases same
  | leave index call err found leaving =>
      exact answers.set (.leave index call err found leaving) found rfl
        fun _ same => by cases same
  | release index lease found reported =>
      intro other c back atOther returned
      exact (answers other c back atOther returned).step (.release index lease found reported)
  | other interference =>
      intro other c lease atOther returned
      rw [(Unlocked.interference w interference).calls] at atOther
      exact (answers other c lease atOther returned).step (.other interference)

end

end RadixGates.Router
