import RadixGates.Router.Queue
import RadixGates.Router.Sessions

/-!
# Calls and the leases they return

What a step of the router does to the open leases and to the answers of
`Acquire`, lease by lease and call by call: either nothing, or one call that
was pending returns one new lease.
-/

set_option autoImplicit false

namespace RadixGates.Router

section
variable {n : Nat}

def Lease.isOpen (lease : Lease n) : Bool := decide (lease.phase ≠ .closed)

/-- What does not change while a lease is reported. -/
def Lease.shape (lease : Lease n) : Fin n × Bool := (lease.node, lease.isOpen)

def World.shapes (w : World n) : List (Fin n × Bool) := w.leases.map Lease.shape

def Pc.lease : Pc → Option Nat
  | .returned (.ok lease) => some lease
  | _ => none

/-- The lease that the call has returned. -/
def World.answered (w : World n) (index : Nat) : Option Nat :=
  w.calls[index]?.bind fun call => call.pc.lease

def World.isPending (w : World n) (index : Nat) : Bool :=
  w.calls[index]?.any fun call => !call.pc.isReturned

theorem shapes_set (w : World n) (index : Nat) (lease lease' : Lease n)
    (found : w.leases[index]? = some lease) (same : lease'.shape = lease.shape) :
    (w.leases.set index lease').map Lease.shape = w.shapes := by
  have kept := filterMap_set_same (fun lease => some (Lease.shape lease)) w.leases index lease
    lease' found (by rw [same])
  simpa only [List.filterMap_eq_map', World.shapes] using kept

theorem Still.shapes {w next : World n} (still : Still w next) : next.shapes = w.shapes := by
  cases still with
  | record next recorded => simp only [World.shapes, recorded.leases]
  | other step =>
      cases step with
      | tick | setUp | observe => rfl
      | report index verdict =>
          simp only [Interference.apply, World.report]
          split
          · rfl
          · rename_i lease found
            split
            · rename_i out
              apply shapes_set w index lease _ found
              simp [Lease.shape, Lease.isOpen, out]
            · rfl

theorem Drift.shapes {w next : World n} (drift : Drift w next) : next.shapes = w.shapes :=
  drift.preserves (fun u => u.shapes = w.shapes)
    (fun _ _ same still => still.shapes.trans same) rfl

theorem length_shapes (w : World n) : w.shapes.length = w.leases.length := List.length_map ..

theorem Leased.shapes {w final : World n} {i : Fin n} {lease : Nat}
    (leased : Leased w final i lease) :
    lease = w.leases.length ∧ final.shapes = w.shapes ++ [(i, true)] := by
  obtain ⟨middle, drift, admitted, rfl⟩ := leased
  have same := drift.shapes
  refine ⟨?_, ?_⟩
  · rw [← length_shapes, ← length_shapes, same]
  · have grown : ∀ (u : World n) t, (u.grant i t).shapes = u.shapes ++ [(i, true)] := by
      intro u t
      simp [World.shapes, World.grant, Lease.shape, Lease.isOpen]
    unfold World.leased at admitted
    cases present : (middle.nodes i).br with
    | none =>
        rw [present] at admitted
        cases Option.some.inj admitted
        rw [grown, same]
    | some b =>
        rw [present] at admitted
        obtain ⟨t, _, rfl⟩ := Option.map_eq_some_iff.mp admitted
        rw [grown]
        exact congrArg (· ++ [(i, true)]) same

/-! ## Steps -/

/-- Either no lease is granted and no call returns one, or one pending call
returns the new lease. -/
inductive Shifted (w next : World n) : Prop where
  | kept (shapes : next.shapes = w.shapes) (length : next.calls.length = w.calls.length)
      (answered : ∀ c, next.answered c = w.answered c)
      (pending : ∀ c, next.isPending c = true → w.isPending c = true)
  | granted (index : Nat) (i : Fin n) (was : w.isPending index = true)
      (shapes : next.shapes = w.shapes ++ [(i, true)])
      (length : next.calls.length = w.calls.length)
      (answered : ∀ c, next.answered c = if c = index then some w.leases.length
        else w.answered c)
      (pending : ∀ c, next.isPending c = true → w.isPending c = true)

theorem Pc.lease_of_not_returned {pc : Pc} (inside : pc.isReturned = false) : pc.lease = none := by
  cases pc with
  | returned result => cases inside
  | deciding | blocked _ | leaving _ => rfl

/-- The calls after one that was pending has moved on. -/
theorem answered_set {w next : World n} {index : Nat} {call call' : Call}
    (found : w.calls[index]? = some call) (inside : call.pc.isReturned = false)
    (calls : next.calls = w.calls.set index call') :
    (∀ c, next.answered c = if c = index then call'.pc.lease else w.answered c) ∧
      ∀ c, next.isPending c = true → w.isPending c = true := by
  have within := (List.getElem?_eq_some_iff.mp found).1
  refine ⟨?_, ?_⟩
  · intro c
    simp only [World.answered, calls, List.getElem?_set]
    by_cases here : c = index
    · subst here
      simp [within]
    · simp [here, Ne.symm here]
  · intro c pending
    simp only [World.isPending, calls, List.getElem?_set] at pending ⊢
    by_cases here : index = c
    · subst here
      simp [found, inside]
    · rwa [if_neg here] at pending

/-- A pending call moves on without a lease. -/
theorem Shifted.of_set {w next : World n} {index : Nat} {call : Call} (call' : Call)
    (found : w.calls[index]? = some call) (inside : call.pc.isReturned = false)
    (unleased : call'.pc.lease = none) (shapes : next.shapes = w.shapes)
    (calls : next.calls = w.calls.set index call') : Shifted w next := by
  obtain ⟨answered, pending⟩ := answered_set found inside calls
  refine .kept shapes (by rw [calls, List.length_set]) ?_ pending
  intro c
  rw [answered]
  split
  · rename_i here
    rw [here, unleased]
    simp [World.answered, found, Pc.lease_of_not_returned inside]
  · rfl

theorem Shifted.evaluate (rt : Runtime n) (opts : Options) (w : World n) (index : Nat) (call : Call)
    (found : w.calls[index]? = some call) (deciding : call.pc = .deciding)
    (schedule : List (List (Interference n))) :
    Shifted w (w.evaluate rt opts index call schedule) := by
  have inside : call.pc.isReturned = false := by rw [deciding]; rfl
  have calls := (decision_sameQueue rt opts w call schedule).calls
  have decided := decision_decided rt opts w call schedule
  have passed := evaluate_passed rt opts w index call schedule
  generalize w.evaluate rt opts index call schedule = next at passed
  generalize w.decision rt opts call schedule = decision at calls decided passed
  obtain ⟨after, pick⟩ := decision
  dsimp only at calls decided passed
  have waited : pick.waits = true → Drift w after.w := by
    intro waits
    cases pick with
    | granted lease => cases waits
    | noNode => cases waits
    | preferredBusy | atCapacity => exact decided
  cases passed with
  | granted lease =>
      obtain ⟨c, _, leased⟩ := decided
      obtain ⟨rfl, shapes⟩ := leased.shapes
      have set : ((after.w.dequeue call).setCall index
          { call with pc := .returned (.ok w.leases.length) }).calls =
          w.calls.set index { call with pc := .returned (.ok w.leases.length) } := by
        simp only [World.setCall, dequeue_calls, calls]
      obtain ⟨answered, pending⟩ := answered_set found inside set
      refine .granted index c.node (by simp [World.isPending, found, inside]) ?_
        (by rw [set, List.length_set]) answered pending
      change (after.w.dequeue call).leases.map Lease.shape = _
      rw [dequeue_eq]
      exact shapes
  | noNode =>
      refine Shifted.of_set { call with pc := .returned (.error .noNode) } found inside rfl ?_
        (by simp only [World.setCall, dequeue_calls, calls])
      change (after.w.dequeue call).leases.map Lease.shape = _
      rw [dequeue_eq]
      have drift : Drift w after.w := decided
      exact drift.shapes
  | queueFull waits fresh full =>
      exact Shifted.of_set { call with pc := .returned (.error .queueFull) } found inside rfl
        (waited waits).shapes (by simp only [World.setCall, calls])
  | blocked waits affinity room =>
      refine Shifted.of_set
        { call with queued := true, affinity := affinity, pc := .blocked after.w.notify }
        found inside rfl ?_ (by simp only [World.setCall, enqueue_calls, calls])
      change (after.w.enqueue call).leases.map Lease.shape = _
      rw [enqueue_eq]
      exact (waited waits).shapes

/-- Every step of the router but the two that requests take themselves. -/
theorem Stepped.shifted {rt : Runtime n} {opts : Options} {w next : World n} {action : Action n}
    (stepped : Stepped rt opts w action next) (notEntered : ∀ request, action ≠ .acquire request)
    (notReleased : ∀ lease, action ≠ .release lease) : Shifted w next := by
  cases stepped with
  | acquire request => exact absurd rfl (notEntered request)
  | release index lease found reported => exact absurd rfl (notReleased index)
  | evaluate index schedule call found deciding =>
      exact Shifted.evaluate rt opts w index call found deciding schedule
  | wake index call channel found blocked closed =>
      exact Shifted.of_set _ found (by rw [blocked]; rfl) rfl rfl rfl
  | affinityExpired index call channel found blocked armed =>
      exact Shifted.of_set _ found (by rw [blocked]; rfl) rfl rfl rfl
  | queueExpired index call channel found blocked =>
      exact Shifted.of_set _ found (by rw [blocked]; rfl) rfl rfl rfl
  | ctxDone index cause call channel found blocked =>
      exact Shifted.of_set _ found (by rw [blocked]; rfl) rfl rfl rfl
  | leave index call err found leaving =>
      exact Shifted.of_set _ found (by rw [leaving]; rfl) rfl rfl rfl
  | other interference =>
      have calls := (Unlocked.interference w interference).calls
      refine .kept (Drift.other w interference).shapes (by rw [calls]) ?_ ?_
      · intro c
        simp only [World.answered, calls]
      · intro c pending
        simpa only [World.isPending, calls] using pending

end

end RadixGates.Router
