import RadixGates.Router.Capacity

/-!
# The admission queue

`waiting` is raised where a call first has to wait and lowered on four exits of
`Acquire`.  A call is in the queue from the one to the other, however often it
is woken in between, and the counter is the number of such calls.
-/

set_option autoImplicit false

namespace RadixGates.Router

section
variable {n : Nat}

def Pc.isReturned : Pc → Bool
  | .returned _ => true
  | _ => false

/-- The call has joined the queue and not yet passed the critical section that
ends it. -/
def Call.inQueue (call : Call) : Bool := call.queued && !call.pc.isReturned

def Pc.parked : Pc → Bool
  | .blocked _ => true
  | .leaving _ => true
  | _ => false

/-- A parked call has joined the queue, and none leaves it because it is full. -/
structure Call.Sound (call : Call) : Prop where
  joined : call.pc.parked = true → call.queued = true
  notFull : call.pc ≠ .leaving .queueFull

structure Accounted (opts : Options) (w : World n) : Prop where
  counted : w.waiting = (w.calls.countP Call.inQueue : Nat)
  bounded : w.waiting ≤ max 0 opts.maxQueue
  sound : ∀ call ∈ w.calls, call.Sound

def Call.weight (call : Call) : Int := if call.inQueue then 1 else 0

/-- A step that rewrites one call keeps the accounts if it moves the counter by
what the call's place in the queue changes. -/
theorem Accounted.set {opts : Options} {w : World n} (accounted : Accounted opts w)
    (next : World n) {index : Nat} {call call' : Call} (found : w.calls[index]? = some call)
    (calls : next.calls = w.calls.set index call')
    (moved : next.waiting = w.waiting + call'.weight - call.weight)
    (bounded : next.waiting ≤ max 0 opts.maxQueue)
    (sound : call'.Sound) : Accounted opts next where
  counted := by
    have balance := countP_set_balance Call.inQueue w.calls index call call' found
    have before := accounted.counted
    rw [moved, calls]
    simp only [Call.weight]
    split_ifs at balance ⊢ <;> omega
  bounded := bounded
  sound := by
    intro c member
    rw [calls] at member
    rcases List.mem_or_eq_of_mem_set member with old | rfl
    · exact accounted.sound c old
    · exact sound

/-- A call that only moves between deciding and waiting stays where it was. -/
theorem Accounted.move {opts : Options} {w : World n} (accounted : Accounted opts w) {index : Nat}
    {call call' : Call} (found : w.calls[index]? = some call) (wasParked : call.pc.parked = true)
    (queued : call'.queued = call.queued) (inside : call'.pc.isReturned = false)
    (notFull : call'.pc ≠ .leaving .queueFull) : Accounted opts (w.setCall index call') := by
  have joined := (accounted.sound call (List.mem_of_getElem? found)).joined wasParked
  have stayed : call.pc.isReturned = false := by
    cases place : call.pc <;> simp_all [Pc.parked, Pc.isReturned]
  apply accounted.set (w.setCall index call') found rfl _ accounted.bounded
  · refine ⟨?_, notFull⟩
    intro _
    rw [queued, joined]
  · simp [World.setCall, Call.weight, Call.inQueue, queued, inside, stayed]

theorem Accounted.passed {opts : Options} {w after next : World n} {index : Nat} {call : Call}
    {pick : Pick} (accounted : Accounted opts w) (same : SameQueue w after)
    (found : w.calls[index]? = some call) (deciding : call.pc = .deciding)
    (passed : Passed opts index call after pick next) : Accounted opts next := by
  have before : call.weight = if call.queued then 1 else 0 := by
    simp [Call.weight, Call.inQueue, deciding, Pc.isReturned]
  have bounded := accounted.bounded
  have dequeued : (after.dequeue call).waiting = w.waiting - call.weight := by
    simp only [World.dequeue, before]
    split <;> simp [same.waiting]
  have enqueued : (after.enqueue call).waiting = w.waiting + 1 - call.weight := by
    simp only [World.enqueue, before]
    split <;> simp [same.waiting]
  have ended : ∀ result, Accounted opts
      ((after.dequeue call).setCall index { call with pc := .returned result }) := by
    intro result
    apply accounted.set _ found
    · simp only [World.setCall, dequeue_calls, same.calls]
      rfl
    · simp only [World.setCall, dequeued]
      simp [Call.weight, Call.inQueue, Pc.isReturned]
    · simp only [World.setCall, dequeued, before]
      split <;> omega
    · constructor <;> simp [Pc.parked]
  cases passed with
  | granted lease => exact ended (.ok lease)
  | noNode => exact ended (.error .noNode)
  | queueFull waits fresh full =>
      apply accounted.set _ found
      · simp only [World.setCall, same.calls]
        rfl
      · simp only [World.setCall, same.waiting, before, fresh]
        simp [Call.weight, Call.inQueue, Pc.isReturned]
      · simp only [World.setCall, same.waiting]
        exact bounded
      · constructor <;> simp [Pc.parked]
  | blocked waits affinity room =>
      apply accounted.set _ found
      · simp only [World.setCall, enqueue_calls, same.calls]
        rfl
      · simp only [World.setCall, enqueued]
        simp [Call.weight, Call.inQueue, Pc.isReturned]
      · rw [same.waiting] at room
        simp only [World.setCall, enqueued, before]
        cases joined : call.queued with
        | true => simpa using bounded
        | false =>
            have := room joined
            simp only [Bool.false_eq_true, if_false]
            omega
      · constructor <;> simp

theorem Accounted.step {rt : Runtime n} {opts : Options} {w next : World n} {action : Action n}
    (accounted : Accounted opts w) (stepped : Stepped rt opts w action next) :
    Accounted opts next := by
  cases stepped with
  | acquire request =>
      refine ⟨?_, accounted.bounded, ?_⟩
      · rw [List.countP_append, accounted.counted]
        simp [Call.enter, Call.inQueue]
      · intro call member
        rcases List.mem_append.mp member with old | added
        · exact accounted.sound call old
        · rw [List.mem_singleton.mp added]
          constructor <;> simp [Call.enter, Pc.parked]
  | evaluate index schedule call found deciding =>
      exact accounted.passed (decision_sameQueue rt opts w call schedule) found deciding
        (evaluate_passed rt opts w index call schedule)
  | wake index call channel found blocked closed =>
      exact accounted.move found (by rw [blocked]; rfl) rfl rfl (by simp)
  | affinityExpired index call channel found blocked armed =>
      exact accounted.move found (by rw [blocked]; rfl) rfl rfl (by simp)
  | queueExpired index call channel found blocked =>
      exact accounted.move found (by rw [blocked]; rfl) rfl rfl (by simp)
  | ctxDone index cause call channel found blocked =>
      exact accounted.move found (by rw [blocked]; rfl) rfl rfl (by simp)
  | leave index call err found leaving =>
      have joined : call.queued = true :=
        (accounted.sound call (List.mem_of_getElem? found)).joined (by rw [leaving]; rfl)
      have bounded := accounted.bounded
      apply accounted.set _ found rfl
      · simp [World.setCall, Call.weight, Call.inQueue, Pc.isReturned, joined, leaving]
      · simp only [World.setCall]
        omega
      · constructor <;> simp [Pc.parked]
  | release index lease found reported =>
      exact ⟨accounted.counted, accounted.bounded, accounted.sound⟩
  | other interference =>
      have unlocked := Unlocked.interference w interference
      refine ⟨?_, ?_, ?_⟩
      · rw [unlocked.waiting, unlocked.calls]
        exact accounted.counted
      · rw [unlocked.waiting]
        exact accounted.bounded
      · rw [unlocked.calls]
        exact accounted.sound

/-! ## Joining once -/

def World.isQueued (w : World n) (index : Nat) : Bool :=
  match w.calls[index]? with
  | some call => call.queued
  | none => false

theorem isQueued_set {w next : World n} {index : Nat} {call call' : Call} (other : Nat)
    (found : w.calls[index]? = some call) (calls : next.calls = w.calls.set index call')
    (kept : call.queued = true → call'.queued = true) (before : w.isQueued other = true) :
    next.isQueued other = true := by
  have inside := (List.getElem?_eq_some_iff.mp found).1
  simp only [World.isQueued, calls, List.getElem?_set, inside, if_true] at before ⊢
  by_cases here : index = other
  · subst here
    rw [found] at before
    simpa using kept before
  · simpa [here] using before

/-- A pass raises the counter only for a call that was not queued, and queues
it. -/
theorem Passed.joins {opts : Options} {index : Nat} {call : Call} {after next : World n}
    {pick : Pick} (passed : Passed opts index call after pick next) :
    ∃ call', next.calls = after.calls.set index call' ∧
      (call.queued = true → call'.queued = true) ∧
      (after.waiting < next.waiting → call.queued = false ∧ call'.queued = true) := by
  have lowered : (after.dequeue call).waiting ≤ after.waiting := by
    simp only [World.dequeue]
    split
    · dsimp only
      omega
    · exact le_rfl
  cases passed with
  | granted lease =>
      refine ⟨{ call with pc := .returned (.ok lease) }, ?_, id, ?_⟩
      · simp only [World.setCall, dequeue_calls]
      · exact fun raised => absurd raised (not_lt.mpr lowered)
  | noNode =>
      refine ⟨{ call with pc := .returned (.error .noNode) }, ?_, id, ?_⟩
      · simp only [World.setCall, dequeue_calls]
      · exact fun raised => absurd raised (not_lt.mpr lowered)
  | queueFull waits fresh full =>
      exact ⟨{ call with pc := .returned (.error .queueFull) }, rfl, id,
        fun raised => absurd raised (lt_irrefl _)⟩
  | blocked waits affinity room =>
      refine ⟨{ call with queued := true, affinity := affinity, pc := .blocked after.notify }, ?_,
        fun _ => rfl, ?_⟩
      · simp only [World.setCall, enqueue_calls]
      · intro raised
        refine ⟨?_, rfl⟩
        cases joined : call.queued with
        | false => rfl
        | true => simp [World.setCall, World.enqueue, joined] at raised

/-- The variable `queued` is never reset. -/
theorem Stepped.isQueued {rt : Runtime n} {opts : Options} {w next : World n} {action : Action n}
    (stepped : Stepped rt opts w action next) (other : Nat) (before : w.isQueued other = true) :
    next.isQueued other = true := by
  cases stepped with
  | acquire request =>
      unfold World.isQueued at before ⊢
      cases found : w.calls[other]? with
      | none => simp [found] at before
      | some call =>
          have inside := (List.getElem?_eq_some_iff.mp found).1
          simp only [found] at before
          simp only [List.getElem?_append_left inside, found, before]
  | evaluate index schedule call found deciding =>
      obtain ⟨call', calls, kept, _⟩ := (evaluate_passed rt opts w index call schedule).joins
      rw [(decision_sameQueue rt opts w call schedule).calls] at calls
      exact isQueued_set other found calls kept before
  | wake index call channel found blocked closed => exact isQueued_set other found rfl id before
  | affinityExpired index call channel found blocked armed =>
      exact isQueued_set other found rfl id before
  | queueExpired index call channel found blocked => exact isQueued_set other found rfl id before
  | ctxDone index cause call channel found blocked =>
      exact isQueued_set other found rfl id before
  | leave index call err found leaving => exact isQueued_set other found rfl id before
  | release index lease found reported => exact before
  | other interference =>
      simp only [World.isQueued, (Unlocked.interference w interference).calls]
      exact before

/-- How often the passes of one call raise the counter along a run. -/
def joinCount (rt : Runtime n) (opts : Options) (index : Nat) : World n → List (Action n) → Nat
  | _, [] => 0
  | w, action :: rest =>
      match w.step rt opts action with
      | some next =>
          (if action.evaluates index = true ∧ w.waiting < next.waiting then 1 else 0) +
            joinCount rt opts index next rest
      | none => 0

theorem Stepped.joins {rt : Runtime n} {opts : Options} {w next : World n} {action : Action n}
    (stepped : Stepped rt opts w action next) (index : Nat) (mine : action.evaluates index = true)
    (raised : w.waiting < next.waiting) :
    w.isQueued index = false ∧ next.isQueued index = true := by
  cases stepped with
  | evaluate other schedule call found deciding =>
      obtain rfl : other = index := by simpa [Action.evaluates] using mine
      have same := decision_sameQueue rt opts w call schedule
      obtain ⟨call', calls, _, joins⟩ := (evaluate_passed rt opts w other call schedule).joins
      rw [same.waiting] at joins
      rw [same.calls] at calls
      obtain ⟨fresh, joined⟩ := joins raised
      have inside := (List.getElem?_eq_some_iff.mp found).1
      refine ⟨?_, ?_⟩
      · simp only [World.isQueued, found, fresh]
      · simp [World.isQueued, calls, joined, inside]
  | acquire | wake | affinityExpired | queueExpired | ctxDone | leave | release | other =>
      cases mine

theorem joinCount_le_one (rt : Runtime n) (opts : Options) (index : Nat)
    (actions : List (Action n)) (w : World n) :
    joinCount rt opts index w actions + (if w.isQueued index = true then 1 else 0) ≤ 1 := by
  induction actions generalizing w with
  | nil =>
      simp only [joinCount]
      split <;> omega
  | cons action rest ih =>
      simp only [joinCount]
      cases stepped : w.step rt opts action with
      | none =>
          dsimp only
          split <;> omega
      | some next =>
          have kind := step_stepped rt opts w next action stepped
          have later := ih next
          dsimp only
          by_cases joins : action.evaluates index = true ∧ w.waiting < next.waiting
          · obtain ⟨before, after⟩ := kind.joins index joins.1 joins.2
            rw [if_pos after] at later
            rw [if_pos joins, before, if_neg Bool.false_ne_true]
            omega
          · rw [if_neg joins]
            by_cases queued : w.isQueued index = true
            · rw [if_pos (kind.isQueued index queued)] at later
              rw [if_pos queued]
              omega
            · rw [if_neg queued]
              omega

/-! ## Runs -/

/-- The calls in the queue besides one. -/
def World.queuedBeside (w : World n) (index : Nat) : Nat :=
  (w.calls.eraseIdx index).countP Call.inQueue

/-- The call has come back with `ErrQueueFull`. -/
def World.refused (w : World n) (index : Nat) : Prop :=
  ∃ call, w.calls[index]? = some call ∧ call.pc = .returned (.error .queueFull)

theorem refused_set {w next : World n} {index : Nat} {call call' : Call} {other : Nat}
    (found : w.calls[index]? = some call) (calls : next.calls = w.calls.set index call')
    (refused : next.refused other) (before : ¬ w.refused other) :
    other = index ∧ call'.pc = .returned (.error .queueFull) := by
  obtain ⟨c, atIndex, returned⟩ := refused
  rw [calls] at atIndex
  rcases call_of_set found atIndex with ⟨_, old⟩ | ⟨here, rfl⟩
  · exact absurd ⟨c, old, returned⟩ before
  · exact ⟨here, returned⟩

theorem Passed.of_refused {opts : Options} {index : Nat} {call : Call} {after next : World n}
    {pick : Pick} (passed : Passed opts index call after pick next)
    (found : after.calls[index]? = some call) {other : Nat} (refused : next.refused other)
    (before : ¬ after.refused other) :
    other = index ∧ pick.waits = true ∧ call.queued = false ∧ opts.maxQueue ≤ after.waiting := by
  cases passed with
  | queueFull waits fresh full =>
      exact ⟨(refused_set found rfl refused before).1, waits, fresh, full⟩
  | granted lease =>
      have calls := dequeue_calls after call
      have returned :=
        (refused_set found (by simp only [World.setCall, calls]; rfl) refused before).2
      simp at returned
  | noNode =>
      have calls := dequeue_calls after call
      have returned :=
        (refused_set found (by simp only [World.setCall, calls]; rfl) refused before).2
      simp at returned
  | blocked waits affinity room =>
      have calls := enqueue_calls after call
      have returned :=
        (refused_set found (by simp only [World.setCall, calls]; rfl) refused before).2
      simp at returned

/-- An evaluation ends in `ErrQueueFull` only when it has to wait. -/
theorem evaluate_refused {rt : Runtime n} {opts : Options} {w : World n} {index : Nat} {call : Call}
    {schedule : List (List (Interference n))} (found : w.calls[index]? = some call) {other : Nat}
    (refused : (w.evaluate rt opts index call schedule).refused other)
    (before : ¬ w.refused other) :
    other = index ∧ (w.decision rt opts call schedule).2.waits = true ∧ call.queued = false ∧
      opts.maxQueue ≤ w.waiting := by
  have same := decision_sameQueue rt opts w call schedule
  have fresh : ¬ (w.decision rt opts call schedule).1.w.refused other := by
    unfold World.refused
    rw [same.calls]
    exact before
  rw [← same.waiting]
  exact (evaluate_passed rt opts w index call schedule).of_refused (by rw [same.calls, found])
    refused fresh

/-- A call that is not queued itself sees all of the queue beside it. -/
theorem queuedBeside_of_fresh (w : World n) (index : Nat) (call : Call)
    (found : w.calls[index]? = some call) (fresh : call.queued = false) :
    w.queuedBeside index = w.calls.countP Call.inQueue := by
  obtain ⟨inside, here⟩ := List.getElem?_eq_some_iff.mp found
  have split := (List.getElem_cons_eraseIdx_perm inside).countP_eq Call.inQueue
  rw [here, List.countP_cons] at split
  simpa [World.queuedBeside, Call.inQueue, fresh] using split

theorem Accounted.refused {rt : Runtime n} {opts : Options} {w next : World n} {action : Action n}
    {other : Nat} (accounted : Accounted opts w) (stepped : Stepped rt opts w action next)
    (refused : next.refused other) (before : ¬ w.refused other) :
    (w.queuedBeside other : Int) = max 0 opts.maxQueue := by
  have counted := accounted.counted
  have bounded := accounted.bounded
  cases stepped with
  | evaluate index schedule call found deciding =>
      obtain ⟨rfl, _, fresh, full⟩ := evaluate_refused found refused before
      rw [queuedBeside_of_fresh w other call found fresh]
      omega
  | leave index call err found leaving =>
      have returned := (refused_set found rfl refused before).2
      obtain rfl : err = .queueFull := by simpa using returned
      exact absurd leaving (accounted.sound call (List.mem_of_getElem? found)).notFull
  | wake index call channel found blocked closed =>
      have returned := (refused_set found rfl refused before).2
      cases returned
  | affinityExpired index call channel found blocked armed =>
      have returned := (refused_set found rfl refused before).2
      cases returned
  | queueExpired index call channel found blocked =>
      have returned := (refused_set found rfl refused before).2
      cases returned
  | ctxDone index cause call channel found blocked =>
      have returned := (refused_set found rfl refused before).2
      cases returned
  | acquire request =>
      obtain ⟨call, atIndex, returned⟩ := refused
      rcases call_of_append atIndex with old | ⟨_, rfl⟩
      · exact absurd ⟨call, old, returned⟩ before
      · cases returned
  | release index lease found reported => exact absurd refused before
  | other interference =>
      unfold World.refused at refused
      rw [(Unlocked.interference w interference).calls] at refused
      exact absurd refused before

end

theorem accounted_of_reached {instances : List Instance} {defaultMaxConcurrent : Int}
    {opts : Options} {rt : Runtime instances.length} {clock : Int}
    {actions : List (Action instances.length)} {w : World instances.length}
    (reached : Reached instances defaultMaxConcurrent opts rt clock actions w) :
    Accounted opts.clamp w := by
  apply Runs.run_preserves (World.step rt opts.clamp) _ _ actions _ w _ reached
  · intro w action next accounted stepped
    exact accounted.step (step_stepped rt opts.clamp w next action stepped)
  · constructor <;> simp [new, World.idle]

/-- `waiting` counts the calls in the queue and stays within its limit, a call
joins at most once, `ErrQueueFull` means a full queue of others, and an idle
router has an empty queue.  A negative limit is the limit zero. -/
theorem waiting_counts_queued_calls (instances : List Instance) (defaultMaxConcurrent : Int)
    (opts : Options) (rt : Runtime instances.length) (clock : Int)
    (actions : List (Action instances.length)) (w : World instances.length)
    (reached : Reached instances defaultMaxConcurrent opts rt clock actions w) :
    w.waiting = (w.calls.countP Call.inQueue : Nat) ∧
      0 ≤ w.waiting ∧ w.waiting ≤ max 0 opts.maxQueue ∧
      (∀ index, joinCount rt opts.clamp index (new instances defaultMaxConcurrent opts clock)
        actions ≤ 1) ∧
      (∀ action next index, w.step rt opts.clamp action = some next →
        next.refused index → ¬ w.refused index →
        (w.queuedBeside index : Int) = max 0 opts.maxQueue) ∧
      ((∀ call ∈ w.calls, call.pc.isReturned = true) → w.waiting = 0) := by
  have accounted := accounted_of_reached reached
  refine ⟨accounted.counted, ?_, accounted.bounded, ?_, ?_, ?_⟩
  · rw [accounted.counted]
    exact Int.natCast_nonneg _
  · intro index
    have once := joinCount_le_one rt opts.clamp index actions
      (new instances defaultMaxConcurrent opts clock)
    omega
  · intro action next index stepped refused before
    exact accounted.refused (step_stepped rt opts.clamp w next action stepped) refused before
  · intro idle
    have none : w.calls.countP Call.inQueue = 0 := by
      rw [List.countP_eq_zero]
      intro call member
      simp [Call.inQueue, idle call member]
    rw [accounted.counted, none]
    rfl

def Pc.isQueueFull : Pc → Bool
  | .returned (.error .queueFull) => true
  | _ => false

theorem refused_of_isQueueFull {n : Nat} {w : World n} {index : Nat}
    (isFull : (w.calls[index]?.map fun c => c.pc.isQueueFull) = some true) : w.refused index := by
  obtain ⟨call, found, full⟩ := Option.map_eq_some_iff.mp isFull
  unfold Pc.isQueueFull at full
  split at full
  · exact ⟨call, found, by assumption⟩
  · cases full

/-- The one slot is taken and the queue of one is full when the third request
comes. -/
def thirdRequest : List (Action 1) :=
  [.acquire ⟨"", "", none, []⟩, .acquire ⟨"", "", none, []⟩, .acquire ⟨"", "", none, []⟩,
    .evaluate 0 [], .evaluate 1 []]

theorem waiting_counts_after_thirdRequest :
    ∃ w next : World 1, Reached oneSlot 0 oneSlotOptions (Runtime.exact 1) 0 thirdRequest w ∧
      w.step (Runtime.exact 1) oneSlotOptions.clamp (.evaluate 2 []) = some next ∧
      next.refused 2 ∧ w.queuedBeside 2 = 1 ∧ w.waiting = 1 := by
  have evaluated : ((Runs.run (World.step (Runtime.exact 1) oneSlotOptions.clamp)
      (new oneSlot 0 oneSlotOptions 0) thirdRequest).bind fun w =>
        (w.step (Runtime.exact 1) oneSlotOptions.clamp (.evaluate 2 [])).map fun next =>
          (w.waiting, w.calls[2]?.map fun c => c.pc.isReturned,
            next.calls[2]?.map fun c => c.pc.isQueueFull)) =
      some (1, some false, some true) := by
    decide +kernel
  obtain ⟨w, reached, rest⟩ := Option.bind_eq_some_iff.mp evaluated
  obtain ⟨next, stepped, facts⟩ := Option.map_eq_some_iff.mp rest
  simp only [Prod.mk.injEq] at facts
  obtain ⟨one, before, after⟩ := facts
  have refused : next.refused 2 := refused_of_isQueueFull after
  have notYet : ¬ w.refused 2 := by
    rintro ⟨call, found, returned⟩
    simp [found, returned, Pc.isReturned] at before
  have accounts := waiting_counts_queued_calls oneSlot 0 oneSlotOptions (Runtime.exact 1) 0
    thirdRequest w reached
  have beside : (w.queuedBeside 2 : Int) = max 0 1 :=
    accounts.2.2.2.2.1 _ next 2 stepped refused notYet
  exact ⟨w, next, reached, stepped, refused, by omega, one⟩

end RadixGates.Router
