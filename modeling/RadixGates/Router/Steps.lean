import RadixGates.Router.Frame

/-!
# What one step does

The loops of `tryPickLocked` after the placement step, under a name of their
own, and the rule that carries a relation between states through all of them.
`survey` is the log of the collecting loop: what it found out about every node
of the pool.  `Passed` and `Stepped` say once what a pass of `Acquire` and a
step of the system can do.
-/

set_option autoImplicit false

namespace RadixGates.Router

open RadixGates.Breaker (Ticket)

section
variable {n : Nat}

/-- The fallback loop and what follows it. -/
def spill (cands : List (Scored n)) (denied : Bool) (e : Eval n) : Eval n × Pick :=
  match leastLoaded e.w.nodes cands with
  | some best =>
      let tried := tryLeaseLocked e best
      match tried.2 with
      | some lease => (tried.1, .granted lease)
      | none => (tried.1, .noNode)
  | none => (e, if denied then .noNode else .atCapacity)

/-- The decision among candidates in preference order. -/
def settle (limit : Int) (hold : Bool) (cands : List (Scored n)) (e : Eval n) : Eval n × Pick :=
  let offered := offer limit hold true false cands e
  match offered.2 with
  | .inl pick => (offered.1, pick)
  | .inr denied => spill cands denied offered.1

def loadLimit (rt : Runtime n) (opts : Options) (total : Int) (count : Nat) : Int :=
  max (rt.ceilLoad opts.boundedLoadFactor total count) opts.affinityFloor

theorem one_le_clamp_affinityFloor (opts : Options) : 1 ≤ opts.clamp.affinityFloor := by
  simp only [Options.clamp]
  split <;> omega

theorem tryPickLocked_eq (rt : Runtime n) (opts : Options) (kh : UInt64) (group : String)
    (filter : Node → Bool) (exclude : List String) (hold : Bool) (e : Eval n) :
    tryPickLocked rt opts kh group filter exclude hold e =
      let found := collect kh group filter exclude (List.finRange n) e
      if found.2.1 = [] then (found.1, .noNode)
      else
        let placed := rankAndPlace rt opts kh group exclude found
        settle (loadLimit rt opts found.2.2 placed.2.length) hold placed.2 placed.1 :=
  rfl

/-! ## Relations that the loops keep -/

/-- A relation between states that survives the queries of a decision and the
grant of a lease. -/
structure Frame (R : World n → World n → Prop) : Prop where
  trans : ∀ {w w' w''}, R w w' → R w' w'' → R w w''
  unlocked : ∀ {w w'}, Unlocked w w' → R w w'
  grant : ∀ w i t, R w (World.grant w i t)

variable {R : World n → World n → Prop}

theorem Frame.refl (frame : Frame R) (w : World n) : R w w := frame.unlocked (Unlocked.refl w)

theorem Frame.tryLeaseLocked (frame : Frame R) (e : Eval n) (i : Fin n) :
    R e.w (tryLeaseLocked e i).1.w := by
  have asked := frame.unlocked (Unlocked.allow e i)
  simp only [Router.tryLeaseLocked]
  cases (e.allow i).2 with
  | none => exact asked
  | some t => exact frame.trans asked (frame.grant _ i t)

theorem Frame.offer (frame : Frame R) (limit : Int) (hold : Bool) (cands : List (Scored n))
    (first denied : Bool) (e : Eval n) : R e.w (offer limit hold first denied cands e).1.w := by
  induction cands generalizing first denied e with
  | nil => exact frame.refl e.w
  | cons c rest ih =>
      have tried := frame.tryLeaseLocked e c.node
      simp only [Router.offer]
      split_ifs
      · cases (Router.tryLeaseLocked e c.node).2 with
        | some lease => exact tried
        | none => exact frame.trans tried (ih false true _)
      · exact frame.refl e.w
      · exact ih false denied e

theorem Frame.spill (frame : Frame R) (cands : List (Scored n)) (denied : Bool) (e : Eval n) :
    R e.w (spill cands denied e).1.w := by
  simp only [Router.spill]
  cases leastLoaded e.w.nodes cands with
  | none => exact frame.refl e.w
  | some best =>
      have tried := frame.tryLeaseLocked e best
      dsimp only
      cases (Router.tryLeaseLocked e best).2 <;> exact tried

theorem Frame.settle (frame : Frame R) (limit : Int) (hold : Bool) (cands : List (Scored n))
    (e : Eval n) : R e.w (settle limit hold cands e).1.w := by
  have offered := frame.offer limit hold cands true false e
  simp only [Router.settle]
  cases (Router.offer limit hold true false cands e).2 with
  | inl pick => exact offered
  | inr denied => exact frame.trans offered (frame.spill cands denied _)

/-- A relation that the placement step keeps too holds of the whole decision. -/
theorem Frame.tryPickLocked (frame : Frame R) (rt : Runtime n) (opts : Options) (kh : UInt64)
    (group : String) (filter : Node → Bool) (exclude : List String) (hold : Bool) (e : Eval n)
    (placing : ∀ found : Eval n × List (Scored n) × Int,
      R found.1.w (rankAndPlace rt opts kh group exclude found).1.w) :
    R e.w (tryPickLocked rt opts kh group filter exclude hold e).1.w := by
  have found := frame.unlocked (Unlocked.collect kh group filter exclude (List.finRange n) e)
  rw [tryPickLocked_eq]
  dsimp only
  split
  · exact found
  · exact frame.trans (frame.trans found (placing _)) (frame.settle _ hold _ _)

/-! ## The log of the collecting loop -/

/-- What the collecting loop found out about a node. -/
inductive Verdict where
  | skipped
  | unavailable
  | candidate
  deriving DecidableEq, Repr

/-- The node is in the group, passes the filter and was not tried before. -/
def eligible (group : String) (filter : Node → Bool) (exclude : List String) (node : Node) : Bool :=
  (group == "" || node.group == group) && filter node && decide (node.name ∉ exclude)

/-- The verdicts of `collect`, node by node. -/
def survey (group : String) (filter : Node → Bool) (exclude : List String) :
    List (Fin n) → Eval n → List (Fin n × Verdict)
  | [], _ => []
  | i :: rest, e =>
      if eligible group filter exclude (e.w.nodes i) then
        let asked := e.available i
        (i, if asked.2 then .candidate else .unavailable) ::
          survey group filter exclude rest asked.1
      else (i, .skipped) :: survey group filter exclude rest e

theorem eligible_iff (group : String) (filter : Node → Bool) (exclude : List String)
    (node : Node) :
    eligible group filter exclude node = true ↔
      ¬ (group ≠ "" ∧ node.group ≠ group) ∧ filter node = true ∧ node.name ∉ exclude := by
  simp [eligible, and_assoc, imp_iff_not_or]

theorem collect_cons (kh : UInt64) (group : String) (filter : Node → Bool) (exclude : List String)
    (i : Fin n) (rest : List (Fin n)) (e : Eval n) :
    collect kh group filter exclude (i :: rest) e =
      if eligible group filter exclude (e.w.nodes i) then
        let asked := e.available i
        let later := collect kh group filter exclude rest asked.1
        if asked.2 then
          (later.1, ⟨i, score kh (e.w.nodes i).nameHash⟩ :: later.2.1,
            (asked.1.w.nodes i).inflight + later.2.2)
        else later
      else collect kh group filter exclude rest e := by
  simp only [collect, eligible_iff]
  by_cases outside : group ≠ "" ∧ (e.w.nodes i).group ≠ group
  · simp [outside]
  · by_cases passes : filter (e.w.nodes i) = true
    · by_cases excluded : (e.w.nodes i).name ∈ exclude
      · simp [excluded]
      · simp [outside, passes, excluded]
    · simp [passes]

/-- The candidates are the nodes with that verdict, in the same order. -/
theorem collect_survey (kh : UInt64) (group : String) (filter : Node → Bool)
    (exclude : List String) (nodes : List (Fin n)) (e : Eval n) :
    (collect kh group filter exclude nodes e).2.1.map (fun c => c.node) =
      ((survey group filter exclude nodes e).filter fun v => v.2 = .candidate).map
        fun v => v.1 := by
  induction nodes generalizing e with
  | nil => rfl
  | cons i rest ih =>
      rw [collect_cons, survey]
      split_ifs with matching
      · dsimp only
        split_ifs with yes
        · simp [ih]
        · simp [ih]
      · simp [ih]

theorem survey_nodes (group : String) (filter : Node → Bool) (exclude : List String)
    (nodes : List (Fin n)) (e : Eval n) :
    (survey group filter exclude nodes e).map (fun v => v.1) = nodes := by
  induction nodes generalizing e with
  | nil => rfl
  | cons i rest ih =>
      rw [survey]
      split_ifs
      · simp [ih]
      · simp [ih]

theorem mem_collect (kh : UInt64) (group : String) (filter : Node → Bool) (exclude : List String)
    (nodes : List (Fin n)) (e : Eval n) (i : Fin n) :
    (∃ c ∈ (collect kh group filter exclude nodes e).2.1, c.node = i) ↔
      (i, Verdict.candidate) ∈ survey group filter exclude nodes e := by
  have same := congrArg (fun l => i ∈ l) (collect_survey kh group filter exclude nodes e)
  simp only [List.mem_map, List.mem_filter, decide_eq_true_eq, Prod.exists, exists_and_right,
    exists_eq_right, eq_iff_iff] at same
  simpa using same

theorem survey_verdict (group : String) (filter : Node → Bool) (exclude : List String)
    (nodes : List (Fin n)) (e : Eval n) (i : Fin n) (v : Verdict)
    (logged : (i, v) ∈ survey group filter exclude nodes e) :
    ∃ w, Unlocked e.w w ∧ (v = .skipped ↔ eligible group filter exclude (w.nodes i) = false) := by
  induction nodes generalizing e with
  | nil => cases logged
  | cons j rest ih =>
      rw [survey] at logged
      split_ifs at logged with matching
      · rcases List.mem_cons.mp logged with here | later
        · cases here
          refine ⟨e.w, Unlocked.refl e.w, ?_⟩
          simp only [matching]
          split <;> simp
        · obtain ⟨w, unlocked, verdict⟩ := ih _ later
          exact ⟨w, (Unlocked.available e j).trans unlocked, verdict⟩
      · rcases List.mem_cons.mp logged with here | later
        · cases here
          exact ⟨e.w, Unlocked.refl e.w, by simpa using matching⟩
        · exact ih e later

theorem exists_verdict (group : String) (filter : Node → Bool) (exclude : List String)
    (e : Eval n) (i : Fin n) :
    ∃ v, (i, v) ∈ survey group filter exclude (List.finRange n) e := by
  have member := List.mem_finRange i
  rw [← survey_nodes group filter exclude (List.finRange n) e] at member
  obtain ⟨⟨j, v⟩, logged, rfl⟩ := List.mem_map.mp member
  exact ⟨v, logged⟩

/-! ## What a decision leaves alone -/

structure SameQueue (w w' : World n) : Prop where
  waiting : w'.waiting = w.waiting
  notify : w'.notify = w.notify
  calls : w'.calls = w.calls

theorem Ungranted.sameQueue {w w' : World n} (ungranted : Ungranted w w') : SameQueue w w' :=
  ⟨ungranted.waiting, ungranted.notify, ungranted.calls⟩

theorem SameQueue.frame : Frame (SameQueue (n := n)) where
  trans first second :=
    ⟨second.waiting.trans first.waiting, second.notify.trans first.notify,
      second.calls.trans first.calls⟩
  unlocked unlocked := unlocked.ungranted.sameQueue
  grant _ _ _ := ⟨rfl, rfl, rfl⟩

/-- What `New` writes once. -/
structure SameIdentity (w w' : World n) : Prop where
  group : ∀ i, (w'.nodes i).group = (w.nodes i).group
  role : ∀ i, (w'.nodes i).role = (w.nodes i).role
  name : ∀ i, (w'.nodes i).name = (w.nodes i).name
  maxConcurrent : ∀ i, (w'.nodes i).maxConcurrent = (w.nodes i).maxConcurrent

theorem SameIdentity.trans {w w' w'' : World n} (first : SameIdentity w w')
    (second : SameIdentity w' w'') : SameIdentity w w'' where
  group i := (second.group i).trans (first.group i)
  role i := (second.role i).trans (first.role i)
  name i := (second.name i).trans (first.name i)
  maxConcurrent i := (second.maxConcurrent i).trans (first.maxConcurrent i)

theorem Ungranted.sameIdentity {w w' : World n} (ungranted : Ungranted w w') :
    SameIdentity w w' where
  group i := by rw [ungranted.nodes i]
  role i := by rw [ungranted.nodes i]
  name i := by rw [ungranted.nodes i]
  maxConcurrent i := by rw [ungranted.nodes i]

theorem SameIdentity.of_inflight (w : World n) (i : Fin n) (load : Int) :
    SameIdentity w (w.setNode i { w.nodes i with inflight := load }) := by
  constructor
  all_goals
    intro j
    rw [setNode_nodes]
    split
    · rename_i same
      rw [same]
    · rfl

theorem SameIdentity.of_nodes {w w' w'' : World n} (same : SameIdentity w w')
    (nodes : w''.nodes = w'.nodes) : SameIdentity w w'' where
  group i := by rw [nodes, same.group]
  role i := by rw [nodes, same.role]
  name i := by rw [nodes, same.name]
  maxConcurrent i := by rw [nodes, same.maxConcurrent]

theorem SameIdentity.frame : Frame (SameIdentity (n := n)) where
  trans := SameIdentity.trans
  unlocked unlocked := unlocked.ungranted.sameIdentity
  grant w i _ := (SameIdentity.of_inflight w i _).of_nodes rfl

/-! ## One pass of `Acquire` -/

/-- The decision a call makes when it takes the lock. -/
def World.decision (rt : Runtime n) (opts : Options) (w : World n) (call : Call)
    (schedule : List (List (Interference n))) : Eval n × Pick :=
  tryPickLocked rt opts (hashString call.request.prefixHash) call.request.targetGroup
    (call.request.filter.getD entryPoint) call.request.exclude call.hold ⟨w, schedule⟩

/-- The collecting loop of that decision. -/
def World.gathered (w : World n) (call : Call) (schedule : List (List (Interference n))) :
    Eval n × List (Scored n) × Int :=
  collect (hashString call.request.prefixHash) call.request.targetGroup
    (call.request.filter.getD entryPoint) call.request.exclude (List.finRange n) ⟨w, schedule⟩

def World.ranked (rt : Runtime n) (opts : Options) (w : World n) (call : Call)
    (schedule : List (List (Interference n))) : Eval n × List (Scored n) :=
  rankAndPlace rt opts (hashString call.request.prefixHash) call.request.targetGroup
    call.request.exclude (w.gathered call schedule)

theorem decision_eq (rt : Runtime n) (opts : Options) (w : World n) (call : Call)
    (schedule : List (List (Interference n))) :
    w.decision rt opts call schedule =
      if (w.gathered call schedule).2.1 = [] then ((w.gathered call schedule).1, .noNode)
      else
        settle
          (loadLimit rt opts (w.gathered call schedule).2.2
            (w.ranked rt opts call schedule).2.length)
          call.hold (w.ranked rt opts call schedule).2 (w.ranked rt opts call schedule).1 :=
  rfl

theorem gathered_unlocked (w : World n) (call : Call)
    (schedule : List (List (Interference n))) : Unlocked w (w.gathered call schedule).1.w :=
  Unlocked.collect _ _ _ _ _ ⟨w, schedule⟩

theorem Frame.decision (frame : Frame R) (rt : Runtime n) (opts : Options) (w : World n)
    (call : Call) (schedule : List (List (Interference n)))
    (placing : ∀ (kh : UInt64) (group : String) (exclude : List String)
      (found : Eval n × List (Scored n) × Int),
      R found.1.w (rankAndPlace rt opts kh group exclude found).1.w) :
    R w (w.decision rt opts call schedule).1.w :=
  frame.tryPickLocked rt opts _ _ _ _ _ ⟨w, schedule⟩ (placing _ _ _)

theorem decision_sameQueue (rt : Runtime n) (opts : Options) (w : World n) (call : Call)
    (schedule : List (List (Interference n))) :
    SameQueue w (w.decision rt opts call schedule).1.w := by
  apply SameQueue.frame.decision
  intro kh group exclude found
  exact (Ungranted.rankAndPlace rt opts kh group exclude found).sameQueue

theorem decision_sameIdentity (rt : Runtime n) (opts : Options) (w : World n) (call : Call)
    (schedule : List (List (Interference n))) :
    SameIdentity w (w.decision rt opts call schedule).1.w := by
  apply SameIdentity.frame.decision
  intro kh group exclude found
  exact (Ungranted.rankAndPlace rt opts kh group exclude found).sameIdentity

/-- What the collecting loop of a call's decision found out. -/
def World.surveyed (w : World n) (call : Call) (schedule : List (List (Interference n))) :
    List (Fin n × Verdict) :=
  survey call.request.targetGroup (call.request.filter.getD entryPoint) call.request.exclude
    (List.finRange n) ⟨w, schedule⟩

theorem gathered_candidate (w : World n) (call : Call) (schedule : List (List (Interference n)))
    (i : Fin n) :
    (∃ c ∈ (w.gathered call schedule).2.1, c.node = i) ↔
      (i, Verdict.candidate) ∈ w.surveyed call schedule :=
  mem_collect _ _ _ _ _ _ i

theorem candidate_untried (w : World n) (call : Call) (schedule : List (List (Interference n)))
    (c : Scored n) (member : c ∈ (w.gathered call schedule).2.1) :
    ((w.gathered call schedule).1.w.nodes c.node).name ∉ call.request.exclude := by
  have logged := (gathered_candidate w call schedule c.node).mp ⟨c, member, rfl⟩
  obtain ⟨seen, unlocked, verdict⟩ := survey_verdict _ _ _ _ _ _ _ logged
  have matching : eligible call.request.targetGroup (call.request.filter.getD entryPoint)
      call.request.exclude (seen.nodes c.node) = true := by
    simpa using verdict
  have untried := ((eligible_iff _ _ _ _).mp matching).2.2
  rw [(gathered_unlocked w call schedule).ungranted.sameIdentity.name]
  rwa [unlocked.ungranted.sameIdentity.name] at untried

/-- A call that has to wait is counted once. -/
def World.enqueue (w : World n) (call : Call) : World n :=
  if call.queued then w else { w with waiting := w.waiting + 1 }

theorem dequeue_eq (w : World n) (call : Call) :
    w.dequeue call = { w with waiting := (w.dequeue call).waiting } := by
  unfold World.dequeue
  split <;> rfl

theorem enqueue_eq (w : World n) (call : Call) :
    w.enqueue call = { w with waiting := (w.enqueue call).waiting } := by
  unfold World.enqueue
  split <;> rfl

theorem dequeue_calls (w : World n) (call : Call) : (w.dequeue call).calls = w.calls := by
  rw [dequeue_eq]

theorem enqueue_calls (w : World n) (call : Call) : (w.enqueue call).calls = w.calls := by
  rw [enqueue_eq]

def Pick.waits : Pick → Bool
  | .atCapacity => true
  | .preferredBusy => true
  | _ => false

/-- How a pass of `Acquire` ends, after the decision left the state `after`. -/
inductive Passed (opts : Options) (index : Nat) (call : Call) (after : World n) :
    Pick → World n → Prop where
  | granted (lease : Nat) :
      Passed opts index call after (.granted lease)
        ((after.dequeue call).setCall index { call with pc := .returned (.ok lease) })
  | noNode :
      Passed opts index call after .noNode
        ((after.dequeue call).setCall index { call with pc := .returned (.error .noNode) })
  | queueFull {pick : Pick} (waits : pick.waits = true) (fresh : call.queued = false)
      (full : opts.maxQueue ≤ after.waiting) :
      Passed opts index call after pick
        (after.setCall index { call with pc := .returned (.error .queueFull) })
  | blocked {pick : Pick} (waits : pick.waits = true) (affinity : Bool)
      (room : call.queued = false → after.waiting < opts.maxQueue) :
      Passed opts index call after pick
        ((after.enqueue call).setCall index
          { call with queued := true, affinity := affinity, pc := .blocked after.notify })

theorem evaluate_passed (rt : Runtime n) (opts : Options) (w : World n) (index : Nat) (call : Call)
    (schedule : List (List (Interference n))) :
    Passed opts index call (w.decision rt opts call schedule).1.w
      (w.decision rt opts call schedule).2 (w.evaluate rt opts index call schedule) := by
  simp only [World.evaluate, World.decision]
  generalize tryPickLocked rt opts (hashString call.request.prefixHash) _ _ _ call.hold _ = decided
  obtain ⟨after, pick⟩ := decided
  have waited : ∀ (pick : Pick) (busy : Bool), pick.waits = true →
      Passed opts index call after.w pick
        (if call.queued = false ∧ opts.maxQueue ≤ after.w.waiting then
          after.w.setCall index { call with pc := .returned (.error .queueFull) }
        else
          (after.w.enqueue call).setCall index
            { call with
              queued := true
              affinity := call.affinity || busy
              pc := .blocked (after.w.enqueue call).notify }) := by
    intro pick busy waits
    have sameChannel : (after.w.enqueue call).notify = after.w.notify := by
      rw [enqueue_eq]
    split
    · rename_i full
      exact Passed.queueFull waits full.1 full.2
    · rename_i room
      rw [sameChannel]
      apply Passed.blocked waits
      intro fresh
      exact not_le.mp fun full => room ⟨fresh, full⟩
  cases pick with
  | granted lease => exact Passed.granted lease
  | noNode => exact Passed.noNode
  | atCapacity => exact waited .atCapacity false rfl
  | preferredBusy => exact waited .preferredBusy true rfl

/-- Apart from the decision a pass only does the bookkeeping of calls. -/
theorem Passed.bookkeeping {opts : Options} {index : Nat} {call : Call} {after next : World n}
    {pick : Pick} (passed : Passed opts index call after pick next) :
    ∃ waiting calls, next = { after with waiting := waiting, calls := calls } := by
  cases passed with
  | granted lease => exact ⟨_, _, by rw [dequeue_eq]; rfl⟩
  | noNode => exact ⟨_, _, by rw [dequeue_eq]; rfl⟩
  | queueFull waits fresh full => exact ⟨after.waiting, _, rfl⟩
  | blocked waits affinity room => exact ⟨_, _, by rw [enqueue_eq]; rfl⟩

/-! ## One step of the system -/

/-- The action is a pass of this call. -/
def Action.evaluates (index : Nat) : Action n → Bool
  | .evaluate call _ => decide (call = index)
  | _ => false

inductive Stepped (rt : Runtime n) (opts : Options) (w : World n) : Action n → World n → Prop where
  | acquire (request : Request) :
      Stepped rt opts w (.acquire request) { w with calls := w.calls ++ [Call.enter opts request] }
  | evaluate (index : Nat) (schedule : List (List (Interference n))) (call : Call)
      (found : w.calls[index]? = some call) (deciding : call.pc = .deciding) :
      Stepped rt opts w (.evaluate index schedule) (w.evaluate rt opts index call schedule)
  | wake (index : Nat) (call : Call) (channel : Nat) (found : w.calls[index]? = some call)
      (blocked : call.pc = .blocked channel) (closed : channel < w.notify) :
      Stepped rt opts w (.wake index) (w.setCall index { call with pc := .deciding })
  | affinityExpired (index : Nat) (call : Call) (channel : Nat)
      (found : w.calls[index]? = some call) (blocked : call.pc = .blocked channel)
      (armed : call.affinity = true) :
      Stepped rt opts w (.affinityExpired index)
        (w.setCall index { call with hold := false, affinity := false, pc := .deciding })
  | queueExpired (index : Nat) (call : Call) (channel : Nat)
      (found : w.calls[index]? = some call) (blocked : call.pc = .blocked channel) :
      Stepped rt opts w (.queueExpired index)
        (w.setCall index { call with pc := .leaving .queueTimeout })
  | ctxDone (index : Nat) (cause : CtxErr) (call : Call) (channel : Nat)
      (found : w.calls[index]? = some call) (blocked : call.pc = .blocked channel) :
      Stepped rt opts w (.ctxDone index cause)
        (w.setCall index { call with pc := .leaving (.ctx cause) })
  | leave (index : Nat) (call : Call) (err : AcquireError) (found : w.calls[index]? = some call)
      (leaving : call.pc = .leaving err) :
      Stepped rt opts w (.leave index)
        ({ w with waiting := w.waiting - 1 }.setCall index
          { call with pc := .returned (.error err) })
  | release (index : Nat) (lease : Lease n) (found : w.leases[index]? = some lease)
      (reported : lease.phase = .reported) :
      Stepped rt opts w (.release index) (w.release index lease)
  | other (interference : Interference n) :
      Stepped rt opts w (.other interference) (interference.apply w)

theorem step_stepped (rt : Runtime n) (opts : Options) (w next : World n) (action : Action n)
    (stepped : w.step rt opts action = some next) : Stepped rt opts w action next := by
  cases action with
  | acquire request =>
      cases Option.some.inj stepped
      exact Stepped.acquire request
  | other interference =>
      cases Option.some.inj stepped
      exact Stepped.other interference
  | evaluate index schedule =>
      obtain ⟨call, found, stepped⟩ := Option.bind_eq_some_iff.mp stepped
      split at stepped
      · rename_i deciding
        cases Option.some.inj stepped
        exact Stepped.evaluate index schedule call found deciding
      · cases stepped
  | wake index =>
      obtain ⟨call, found, stepped⟩ := Option.bind_eq_some_iff.mp stepped
      split at stepped
      · rename_i channel blocked
        split at stepped
        · rename_i closed
          cases Option.some.inj stepped
          exact Stepped.wake index call channel found blocked closed
        · cases stepped
      · cases stepped
  | affinityExpired index =>
      obtain ⟨call, found, stepped⟩ := Option.bind_eq_some_iff.mp stepped
      split at stepped
      · rename_i channel blocked
        split at stepped
        · rename_i armed
          cases Option.some.inj stepped
          exact Stepped.affinityExpired index call channel found blocked armed
        · cases stepped
      · cases stepped
  | queueExpired index =>
      obtain ⟨call, found, stepped⟩ := Option.bind_eq_some_iff.mp stepped
      split at stepped
      · rename_i channel blocked
        cases Option.some.inj stepped
        exact Stepped.queueExpired index call channel found blocked
      · cases stepped
  | ctxDone index cause =>
      obtain ⟨call, found, stepped⟩ := Option.bind_eq_some_iff.mp stepped
      split at stepped
      · rename_i channel blocked
        cases Option.some.inj stepped
        exact Stepped.ctxDone index cause call channel found blocked
      · cases stepped
  | leave index =>
      obtain ⟨call, found, stepped⟩ := Option.bind_eq_some_iff.mp stepped
      split at stepped
      · rename_i err leaving
        cases Option.some.inj stepped
        exact Stepped.leave index call err found leaving
      · cases stepped
  | release index =>
      obtain ⟨lease, found, stepped⟩ := Option.bind_eq_some_iff.mp stepped
      split at stepped
      · rename_i reported
        cases Option.some.inj stepped
        exact Stepped.release index lease found reported
      · cases stepped

theorem Stepped.sameIdentity {rt : Runtime n} {opts : Options} {w next : World n}
    {action : Action n} (stepped : Stepped rt opts w action next) : SameIdentity w next := by
  cases stepped with
  | evaluate index schedule call found deciding =>
      obtain ⟨waiting, calls, ended⟩ := (evaluate_passed rt opts w index call schedule).bookkeeping
      rw [ended]
      exact (decision_sameIdentity rt opts w call schedule).of_nodes rfl
  | release index lease found reported =>
      exact (SameIdentity.of_inflight w lease.node _).of_nodes rfl
  | other interference => exact (Unlocked.interference w interference).ungranted.sameIdentity
  | acquire | wake | affinityExpired | queueExpired | ctxDone | leave =>
      exact (SameIdentity.frame.refl w).of_nodes rfl

/-- The calls after a pass: the pass rewrites its own one only. -/
theorem Passed.calls {opts : Options} {index : Nat} {call : Call} {after next : World n}
    {pick : Pick} (passed : Passed opts index call after pick next) :
    ∃ call', call'.request = call.request ∧ call'.hold = call.hold ∧
      next.calls = after.calls.set index call' := by
  cases passed with
  | granted lease =>
      refine ⟨{ call with pc := .returned (.ok lease) }, rfl, rfl, ?_⟩
      simp only [World.setCall, dequeue_calls]
  | noNode =>
      refine ⟨{ call with pc := .returned (.error .noNode) }, rfl, rfl, ?_⟩
      simp only [World.setCall, dequeue_calls]
  | queueFull waits fresh full =>
      exact ⟨{ call with pc := .returned (.error .queueFull) }, rfl, rfl, rfl⟩
  | blocked waits affinity room =>
      refine ⟨{ call with queued := true, affinity := affinity, pc := .blocked after.notify },
        rfl, rfl, ?_⟩
      simp only [World.setCall, enqueue_calls]

/-- A call after one of them was rewritten: another one, or that one. -/
theorem call_of_set {calls : List Call} {index other : Nat} {call call' c : Call}
    (found : calls[index]? = some call) (atOther : (calls.set index call')[other]? = some c) :
    (other ≠ index ∧ calls[other]? = some c) ∨ (other = index ∧ c = call') := by
  have inside := (List.getElem?_eq_some_iff.mp found).1
  rw [List.getElem?_set] at atOther
  by_cases here : index = other
  · subst here
    simp only [if_true, inside, Option.some.injEq] at atOther
    exact Or.inr ⟨rfl, atOther.symm⟩
  · rw [if_neg here] at atOther
    exact Or.inl ⟨Ne.symm here, atOther⟩

/-- A call after `Acquire` was entered: an old one, or the new one. -/
theorem call_of_append {calls : List Call} {other : Nat} {entered c : Call}
    (atOther : (calls ++ [entered])[other]? = some c) :
    calls[other]? = some c ∨ (calls.length = other ∧ c = entered) := by
  by_cases inside : other < calls.length
  · rw [List.getElem?_append_left inside] at atOther
    exact Or.inl atOther
  · obtain ⟨member, _⟩ := List.getElem?_eq_some_iff.mp atOther
    simp only [List.length_append, List.length_singleton] at member
    have last : calls.length = other := by omega
    subst last
    rw [List.getElem?_concat_length] at atOther
    exact Or.inr ⟨rfl, (Option.some.inj atOther).symm⟩

theorem forall_mem_set {calls : List Call} {index : Nat} {call : Call} (call' : Call)
    (P : Call → Prop) (all : ∀ c ∈ calls, P c) (found : calls[index]? = some call)
    (kept : P call → P call') : ∀ c ∈ calls.set index call', P c := by
  intro c member
  rcases List.mem_or_eq_of_mem_set member with old | rfl
  · exact all c old
  · exact kept (all call (List.mem_of_getElem? found))

/-- Requests come in by `Acquire` only, and `hold` is only ever dropped. -/
theorem Stepped.requests {rt : Runtime n} {opts : Options} {w next : World n} {action : Action n}
    (stepped : Stepped rt opts w action next) (P : Request → Bool → Prop)
    (all : ∀ call ∈ w.calls, P call.request call.hold)
    (drops : ∀ request hold, P request hold → P request false)
    (entering : ∀ request, action = .acquire request →
      P request (decide (0 < opts.affinityWait))) :
    ∀ call ∈ next.calls, P call.request call.hold := by
  cases stepped with
  | acquire request =>
      intro call member
      rcases List.mem_append.mp member with old | added
      · exact all call old
      · rw [List.mem_singleton.mp added]
        exact entering request rfl
  | evaluate index schedule call found deciding =>
      obtain ⟨call', sameRequest, sameHold, calls⟩ :=
        (evaluate_passed rt opts w index call schedule).calls
      rw [calls, (decision_sameQueue rt opts w call schedule).calls]
      apply forall_mem_set call' (fun c => P c.request c.hold) all found
      rw [sameRequest, sameHold]
      exact id
  | affinityExpired index call channel found blocked armed =>
      exact forall_mem_set _ (fun c => P c.request c.hold) all found (drops _ _)
  | wake index call channel found | queueExpired index call channel found
  | ctxDone index cause call channel found | leave index call err found =>
      exact forall_mem_set _ (fun c => P c.request c.hold) all found id
  | release index lease found reported => exact all
  | other interference =>
      rw [(Unlocked.interference w interference).calls]
      exact all

end

end RadixGates.Router
