import RadixGates.Config.Settings
import RadixGates.Router.Readiness

/-!
# Serving after startup

`main` hands the validated configuration to `New`.  `Validate` does not look at
the number of slots of a node: an instance that sets none gets the global
default, and that one may be zero or negative.  Such a node is up and its
breaker admits requests, but it never has a free slot.
-/

set_option autoImplicit false

namespace RadixGates.Router

/-- What `setupDirectRoutes` reads of the configuration. -/
structure Deployment where
  config : Settings.Config
  sglangInstances : List Instance
  maxConcurrentPerNode : Int

/-- The breaker is left out unless it is enabled. -/
def Deployment.options (d : Deployment) : Options :=
  let b := d.config.reliability.breaker
  { boundedLoadFactor := d.config.routing.boundedLoadFactor
    affinityFloor := d.config.routing.affinityFloor
    affinityWait := d.config.routing.affinityWait
    placementSize := d.config.routing.placementSize
    maxQueue := d.config.admission.maxQueue
    queueTimeout := d.config.admission.queueTimeout
    breaker :=
      if b.enabled then
        some ⟨b.failureThreshold, b.openDuration, b.maxOpenDuration, b.halfOpenMax⟩
      else none }

section
variable {n : Nat}

def World.arrived (opts : Options) (w : World n) (request : Request) : World n :=
  { w with calls := w.calls ++ [Call.enter opts request] }

/-- `Acquire` takes the lock once and comes back with a lease; it was not
queued. -/
def World.ServesAtOnce (rt : Runtime n) (opts : Options) (w : World n) (request : Request) : Prop :=
  ∃ w' call lease,
    Runs.run (World.step rt opts) w [.acquire request, .evaluate w.calls.length []] = some w' ∧
      w'.calls[w.calls.length]? = some call ∧ call.pc = .returned (.ok lease) ∧
      call.queued = false ∧ w'.waiting = w.waiting

/-! ## One undisturbed pass -/

theorem unscheduled_yield (e : Eval n) (unscheduled : e.schedule = []) : e.yield = e := by
  simp only [Eval.yield, unscheduled]

theorem unscheduled_available (e : Eval n) (unscheduled : e.schedule = []) (i : Fin n) :
    (e.available i).1.schedule = [] ∧ (e.available i).1.w.clock = e.w.clock := by
  simp only [Eval.available, unscheduled_yield e unscheduled]
  by_cases up : (e.w.nodes i).up = true
  · rw [if_pos up]
    cases (e.w.nodes i).br <;> exact ⟨unscheduled, rfl⟩
  · rw [if_neg up]
    exact ⟨unscheduled, rfl⟩

/-- Without a schedule no time passes while the candidates are collected. -/
theorem unscheduled_collect (kh : UInt64) (group : String) (filter : Node → Bool)
    (exclude : List String) (nodes : List (Fin n)) (e : Eval n) (unscheduled : e.schedule = []) :
    (collect kh group filter exclude nodes e).1.w.clock = e.w.clock := by
  induction nodes generalizing e with
  | nil => rfl
  | cons i rest ih =>
      obtain ⟨still, clock⟩ := unscheduled_available e unscheduled i
      have later := (ih _ still).trans clock
      rw [collect_cons]
      split_ifs
      · dsimp only
        split_ifs <;> exact later
      · exact ih e unscheduled

/-- The candidates of an undisturbed pass are the entry points that are ready. -/
theorem mem_candidates_arrived (opts : Options) (w : World n) (request : Request)
    (plain : request.plain = true) (i : Fin n) :
    i ∈ (w.arrived opts request).candidates (Call.enter opts request) [] ↔
      entryPoint (w.nodes i) = true ∧ w.readyAt w.clock i = true := by
  have asking : Asking w.clock (w.readyAt w.clock) ⟨w.arrived opts request, []⟩ := by
    refine ⟨by simp [Eval.Ticking], ?_⟩
    intro now j after before
    have same : now = w.clock := le_antisymm before after
    rw [same]
    rfl
  apply mem_candidates_iff _ (Call.enter opts request) [] plain asking
  exact le_of_eq (unscheduled_collect _ _ _ _ _ ⟨w.arrived opts request, []⟩ rfl)

theorem servesAtOnce_iff (rt : Runtime n) (opts : Options) (w : World n) (request : Request) :
    w.ServesAtOnce rt opts request ↔
      ∃ lease, ((w.arrived opts request).decision rt opts (Call.enter opts request) []).2 =
        .granted lease := by
  have queue := decision_sameQueue rt opts (w.arrived opts request) (Call.enter opts request) []
  have passed := evaluate_passed rt opts (w.arrived opts request) w.calls.length
    (Call.enter opts request) []
  have ran : Runs.run (World.step rt opts) w [.acquire request, .evaluate w.calls.length []] =
      some ((w.arrived opts request).evaluate rt opts w.calls.length (Call.enter opts request)
        []) := by
    simp [Runs.run, World.step, World.arrived, Call.enter]
  have index : w.calls.length < (w.arrived opts request).calls.length := by simp [World.arrived]
  simp only [World.ServesAtOnce, ran, Option.some.injEq]
  generalize (w.arrived opts request).evaluate rt opts w.calls.length _ _ = next at passed ⊢
  generalize (w.arrived opts request).decision rt opts _ _ = decided at passed queue ⊢
  obtain ⟨after, pick⟩ := decided
  dsimp only at passed queue ⊢
  have slot : ∀ call : Call,
      (after.w.calls.set w.calls.length call)[w.calls.length]? = some call := by
    intro call
    rw [queue.calls]
    exact List.getElem?_set_self index
  cases passed with
  | granted lease =>
      refine iff_of_true ⟨_, _, lease, rfl, slot _, rfl, rfl, ?_⟩ ⟨lease, rfl⟩
      exact queue.waiting
  | noNode | queueFull waits fresh full | blocked waits affinity room =>
      refine iff_of_false ?_ ?_
      · -- the call has an error or is still waiting
        rintro ⟨_, call, lease, rfl, found, back, _⟩
        cases Option.some.inj ((slot _).symm.trans found)
        cases back
      · rintro ⟨lease, same⟩
        cases same <;> cases waits

/-- A request that finds every candidate below its bound gets one of them. -/
theorem decision_granted (rt : Runtime n) (opts : Options) (w : World n) (call : Call)
    (schedule : List (List (Interference n))) (quiet : Eval.Quiet ⟨w, schedule⟩) (i : Fin n)
    (candidate : i ∈ w.candidates call schedule)
    (free : ∀ j ∈ w.candidates call schedule,
      (w.nodes j).inflight < min (w.nodes j).maxConcurrent (w.limitOf rt opts call schedule)) :
    ∃ lease, (w.decision rt opts call schedule).2 = .granted lease := by
  have load := ranked_load rt opts w call schedule
  have ready := ranked_ready rt opts w call schedule quiet
  obtain ⟨found, gathered, _⟩ := List.mem_map.mp candidate
  rw [decision_eq, if_neg (List.ne_nil_of_mem gathered)]
  have isBelow : ∀ c ∈ (w.ranked rt opts call schedule).2,
      below (w.ranked rt opts call schedule).1.w.nodes (w.limitOf rt opts call schedule) c =
        true := by
    intro c among
    have room := free c.node ((mem_candidates rt opts w call schedule c.node).mpr ⟨c, among, rfl⟩)
    simpa [below, load.inflight, load.limit] using room
  obtain ⟨c, among, _⟩ := (mem_candidates rt opts w call schedule i).mp candidate
  rcases ready.offer (w.limitOf rt opts call schedule) call.hold with
    ⟨held, _⟩ | ⟨lease, offered⟩ | ⟨nobody, _⟩
  · -- the preferred candidate has a free slot
    generalize (w.ranked rt opts call schedule).2 = cands at isBelow held
    cases cands with
    | nil => cases held
    | cons c rest =>
        have room := (lt_min_iff.mp (of_decide_eq_true (isBelow c List.mem_cons_self))).1
        simp only [heldBack, Bool.and_eq_true, decide_eq_true_eq] at held
        omega
  · simp only [World.limitOf] at offered
    exact ⟨lease, by simp only [settle, offered]⟩
  · have member := (mem_belowNodes _ _ _ c among).mpr (isBelow c among)
    rw [nobody] at member
    cases member

/-- A request is only ever served by a candidate with a free slot. -/
theorem free_of_granted (rt : Runtime n) (opts : Options) (w : World n) (call : Call)
    (schedule : List (List (Interference n))) (lease : Nat)
    (granted : (w.decision rt opts call schedule).2 = .granted lease) :
    ∃ i ∈ w.candidates call schedule, (w.nodes i).inflight < (w.nodes i).maxConcurrent := by
  have load := ranked_load rt opts w call schedule
  have onCandidate : ∀ c ∈ (w.ranked rt opts call schedule).2,
      ((w.ranked rt opts call schedule).1.w.nodes c.node).inflight <
        ((w.ranked rt opts call schedule).1.w.nodes c.node).maxConcurrent →
      ∃ i ∈ w.candidates call schedule, (w.nodes i).inflight < (w.nodes i).maxConcurrent := by
    intro c among free
    rw [load.inflight, load.limit] at free
    exact ⟨c.node, (mem_candidates rt opts w call schedule c.node).mpr ⟨c, among, rfl⟩, free⟩
  rw [decision_eq] at granted
  split at granted
  · cases granted
  · cases settle_settled (w.limitOf rt opts call schedule) call.hold
        (w.ranked rt opts call schedule).2 (w.ranked rt opts call schedule).1 with
    | held held busy => exact absurd (granted.symm.trans busy) (by simp)
    | granted other c member free pick onNode allowed => exact onCandidate c member free
    | full none pick => exact absurd (granted.symm.trans pick) (by simp)
    | refused unheld best least all pick logged => exact absurd (granted.symm.trans pick) (by simp)

/-! ## Nodes that are marked down -/

def markDown (nodes : List (Fin n)) : List (Interference n) := nodes.map fun i => .setUp i false

theorem run_others (rt : Runtime n) (opts : Options) (steps : List (Interference n)) (w : World n) :
    Runs.run (World.step rt opts) w (steps.map .other) =
      some (steps.foldl Interference.apply w) := by
  induction steps generalizing w with
  | nil => rfl
  | cons step rest ih => exact ih (step.apply w)

theorem markDown_nodes (nodes : List (Fin n)) (w : World n) (j : Fin n) :
    ((markDown nodes).foldl Interference.apply w).nodes j =
      if j ∈ nodes then { w.nodes j with up := false } else w.nodes j := by
  induction nodes generalizing w with
  | nil => rfl
  | cons i rest ih =>
      have later := ih ((Interference.setUp i false).apply w)
      simp only [Interference.apply, setNode_nodes] at later
      refine later.trans ?_
      by_cases here : j = i
      · simp [here]
      · simp [here]

theorem markDown_rest (nodes : List (Fin n)) (w : World n) :
    ((markDown nodes).foldl Interference.apply w).leases = w.leases ∧
      ((markDown nodes).foldl Interference.apply w).clock = w.clock := by
  induction nodes generalizing w with
  | nil => exact ⟨rfl, rfl⟩
  | cons i rest ih => exact ih ((Interference.setUp i false).apply w)

end

/-! ## The nodes that `New` builds -/

theorem sameIdentity_of_reached {instances : List Instance} {defaultMaxConcurrent : Int}
    {opts : Options} {rt : Runtime instances.length} {clock : Int}
    {actions : List (Action instances.length)} {w : World instances.length}
    (reached : Reached instances defaultMaxConcurrent opts rt clock actions w) :
    SameIdentity (new instances defaultMaxConcurrent opts clock) w := by
  refine Runs.run_preserves (World.step rt opts.clamp) (SameIdentity _) ?_ actions _ w
    (SameIdentity.frame.refl _) reached
  intro state action next same stepped
  exact same.trans (step_stepped rt opts.clamp state next action stepped).sameIdentity

/-- The slots `New` gives to the instance. -/
def Deployment.slots (d : Deployment) (inst : Instance) : Int :=
  if inst.maxConcurrent ≤ 0 then d.maxConcurrentPerNode else inst.maxConcurrent

/-- Whenever no lease is out and some entry point is ready, every request
without a target group, a filter and excluded nodes is served at once. -/
def Deployment.ServesIdle (d : Deployment) (rt : Runtime d.sglangInstances.length) (clock : Int) :
    Prop :=
  ∀ actions w, Reached d.sglangInstances d.maxConcurrentPerNode d.options rt clock actions w →
    (∀ lease ∈ w.leases, lease.phase = .closed) →
    (∃ i, entryPoint (w.nodes i) = true ∧ w.readyAt w.clock i = true) →
    ∀ request : Request, request.plain = true → w.ServesAtOnce rt d.options.clamp request

theorem one_le_limitOf {n : Nat} (rt : Runtime n) (opts : Options) (w : World n) (call : Call)
    (schedule : List (List (Interference n))) : 1 ≤ w.limitOf rt opts.clamp call schedule :=
  (one_le_clamp_affinityFloor opts).trans (le_max_right _ _)

section
variable (d : Deployment) (rt : Runtime d.sglangInstances.length) (clock : Int)

theorem new_entryPoint (i : Fin d.sglangInstances.length) :
    entryPoint ((new d.sglangInstances d.maxConcurrentPerNode d.options clock).nodes i) = true ↔
      (d.sglangInstances.get i).role ≠ "prefill" :=
  bne_iff_ne

/-- With a slot on every entry point an idle gateway serves. -/
theorem servesIdle_of_slots
    (slots : ∀ inst ∈ d.sglangInstances, inst.role ≠ "prefill" → 1 ≤ d.slots inst) :
    d.ServesIdle rt clock := by
  intro actions w reached closed ⟨i, entry, ready⟩ request plain
  have identity := sameIdentity_of_reached reached
  have idle : ∀ j, (w.nodes j).inflight = 0 := by
    intro j
    have none : w.openLeases j = 0 := by
      apply List.countP_eq_zero.mpr
      intro lease member
      simp [Lease.openOn, closed lease member]
    rw [(capacity_of_reached reached).counted j, none]
    rfl
  have candidate := mem_candidates_arrived d.options.clamp w request plain
  rw [servesAtOnce_iff]
  apply decision_granted _ _ _ _ _ (by simp [Eval.Quiet]) i ((candidate i).mpr ⟨entry, ready⟩)
  intro j member
  have role : entryPoint (w.nodes j) = true := ((candidate j).mp member).1
  rw [entryPoint, identity.role j, ← entryPoint, new_entryPoint] at role
  have room : 1 ≤ (w.nodes j).maxConcurrent := by
    rw [identity.maxConcurrent j]
    exact slots _ (List.get_mem d.sglangInstances j) role
  have limit := one_le_limitOf rt d.options (w.arrived d.options.clamp request)
    (Call.enter d.options.clamp request) []
  simp only [World.arrived] at limit ⊢
  rw [idle j]
  exact lt_min (by omega) (by omega)

theorem new_ready (i : Fin d.sglangInstances.length) (now : Int) :
    (new d.sglangInstances d.maxConcurrentPerNode d.options clock).readyAt now i = true := by
  simp only [World.readyAt, new, World.idle, newNode, Bool.true_and]
  cases d.options.clamp.breaker <;> rfl

/-- A node without slots is ready and serves nothing when it is alone. -/
theorem not_servesIdle_of_no_slots (i : Fin d.sglangInstances.length)
    (entry : (d.sglangInstances.get i).role ≠ "prefill")
    (empty : d.slots (d.sglangInstances.get i) ≤ 0) : ¬ d.ServesIdle rt clock := by
  intro serves
  let start := new d.sglangInstances d.maxConcurrentPerNode d.options clock
  let others := (List.finRange d.sglangInstances.length).filter fun j => j ≠ i
  let w := (markDown others).foldl Interference.apply start
  have reached : Reached d.sglangInstances d.maxConcurrentPerNode d.options rt clock
      ((markDown others).map .other) w := run_others rt d.options.clamp (markDown others) start
  have alone : w.nodes i = start.nodes i := by
    simp [w, markDown_nodes, others]
  have down : ∀ j, j ≠ i → w.readyAt w.clock j = false := by
    intro j away
    simp [World.readyAt, w, markDown_nodes, others, away]
  have isReady : w.readyAt w.clock i = true := by
    rw [World.readyAt, alone]
    exact new_ready d clock i w.clock
  have isEntry : entryPoint (w.nodes i) = true := by
    rw [alone]
    exact (new_entryPoint d clock i).mpr entry
  have closed : ∀ lease ∈ w.leases, lease.phase = .closed := by
    have none : w.leases = [] := (markDown_rest others start).1
    simp [none]
  obtain ⟨lease, granted⟩ := (servesAtOnce_iff rt d.options.clamp w ⟨"", "", none, []⟩).mp
    (serves _ w reached closed ⟨i, isEntry, isReady⟩ ⟨"", "", none, []⟩ rfl)
  obtain ⟨j, candidate, free⟩ := free_of_granted rt d.options.clamp _ _ [] lease granted
  have ready := ((mem_candidates_arrived d.options.clamp w _ rfl j).mp candidate).2
  by_cases here : j = i
  · subst here
    have limit : (w.nodes j).maxConcurrent = d.slots (d.sglangInstances.get j) := by
      rw [alone]
      rfl
    have load : (w.nodes j).inflight = 0 := by
      rw [alone]
      rfl
    simp only [World.arrived] at free
    omega
  · rw [down j here] at ready
    cases ready

/-- An idle gateway serves, in every state it can reach, exactly if all its
entry points have a slot. -/
theorem servesIdle_iff_slots :
    d.ServesIdle rt clock ↔
      ∀ inst ∈ d.sglangInstances, inst.role ≠ "prefill" → 1 ≤ d.slots inst := by
  constructor
  · intro serves inst member entry
    obtain ⟨i, rfl⟩ := List.get_of_mem member
    by_contra short
    exact not_servesIdle_of_no_slots d rt clock i entry (by omega) serves
  · exact servesIdle_of_slots d rt clock

end

/-- The instance sets no limit of its own and the global default is zero. -/
def noSlots : Deployment where
  config := ⟨⟨5 / 4, 4, 0, 0⟩, Settings.defaultReliability, ⟨128, 10 * second⟩⟩
  sglangInstances := [⟨"", "a", 1, 0, ""⟩]
  maxConcurrentPerNode := 0

theorem noSlots_valid_but_queues :
    Settings.validate noSlots.config = .ok () ∧
      (∃ inst ∈ noSlots.sglangInstances, inst.role ≠ "prefill") ∧
      (anyAvailable (List.finRange 1)
        ⟨new noSlots.sglangInstances 0 noSlots.options 0, []⟩).2 = true ∧
      ¬ noSlots.ServesIdle (Runtime.exact 1) 0 := by
  refine ⟨by decide +kernel, by decide, by decide +kernel, ?_⟩
  exact not_servesIdle_of_no_slots noSlots (Runtime.exact 1) 0 (0 : Fin 1) (by decide) (by decide)

end RadixGates.Router
