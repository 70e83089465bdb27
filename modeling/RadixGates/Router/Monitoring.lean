import RadixGates.Lib.Simulation
import RadixGates.Router.Placement
import RadixGates.Router.Startup
import RadixGates.Router.Watched

/-!
# Monitoring is free

`Snapshot`, which `/admin/nodes` returns and every gauge of
`gateway-go/metrics/metrics.go` reads, and `AnyAvailable`, which `/readyz`
asks, run beside the traffic and promote breakers whose cool-down is over.
The traffic does not notice: the run without them takes the same steps to a
state that differs only in promotions that are due anyway.
-/

set_option autoImplicit false

namespace RadixGates.Breaker

def State.text : State → String
  | .closed => "closed"
  | .opened => "open"
  | .halfOpen => "half_open"

end RadixGates.Breaker

namespace RadixGates.Router

section
variable {n : Nat}

/-! ## Snapshots -/

structure Status where
  name : String
  group : String
  role : String
  up : Bool
  breaker : String
  inflight : Int
  max : Int
  placed : Int
  deriving DecidableEq, Repr

/-- One iteration of `Snapshot`: the flag and the breaker are read without the
router lock being of use, the counters are guarded by it. -/
def Eval.status (e : Eval n) (i : Fin n) : Eval n × Status :=
  let read := e.yield
  let up := (read.w.nodes i).up
  let e := read.yield
  let node := e.w.nodes i
  match node.br with
  | none =>
      (e, ⟨node.name, node.group, node.role, up, Breaker.State.closed.text, node.inflight,
        node.maxConcurrent, node.placed⟩)
  | some b =>
      let told := b.readState e.w.clock
      (e.setBreaker i told.1, ⟨node.name, node.group, node.role, up, told.2.text, node.inflight,
        node.maxConcurrent, node.placed⟩)

def snapshot : List (Fin n) → Eval n → Eval n × List Status
  | [], e => (e, [])
  | i :: rest, e =>
      let told := e.status i
      let later := snapshot rest told.1
      (later.1, told.2 :: later.2)

/-! ## Traffic with monitoring -/

/-- What was scheduled and did not happen during the call happens after it. -/
def Eval.drain (e : Eval n) : World n := e.schedule.flatten.foldl Interference.apply e.w

inductive Monitored (n : Nat) where
  | act (action : Action n)
  | snapshot (schedule : List (List (Interference n)))
  | anyAvailable (schedule : List (List (Interference n)))

def World.monitoredStep (rt : Runtime n) (opts : Options) (w : World n) :
    Monitored n → Option (World n)
  | .act action => w.step rt opts action
  | .snapshot schedule => some (snapshot (List.finRange n) ⟨w, schedule⟩).1.drain
  | .anyAvailable schedule => some (anyAvailable (List.finRange n) ⟨w, schedule⟩).1.drain

/-- The same action with the observations beside it left out. -/
def Action.unwatched : Action n → List (Action n)
  | .other step => (Router.unwatched [step]).map .other
  | .evaluate index schedule => [.evaluate index (schedule.map Router.unwatched)]
  | action => [action]

/-- What is left of the traffic without monitoring. -/
def Monitored.traffic : Monitored n → List (Action n)
  | .act action => action.unwatched
  | .snapshot schedule | .anyAvailable schedule =>
      (Router.unwatched schedule.flatten).map .other

/-! ## Steps of the router -/

/-- Requests come with filters that do not look at breakers; the handler's is
the default one. -/
def Request.Blind (request : Request) : Prop :=
  BreakerBlind (request.filter.getD entryPoint)

def World.Blind (w : World n) : Prop := ∀ call ∈ w.calls, call.request.Blind

theorem Watched.step {rt : Runtime n} {opts : Options} {w v next : World n} {action : Action n}
    (watched : Watched w v) (blind : v.Blind) (stepped : v.step rt opts action = some next) :
    ∃ w', Runs.run (World.step rt opts) w action.unwatched = some w' ∧ Watched w' next := by
  have calls : w.calls = v.calls := by rw [watched.fields]
  have leases : w.leases = v.leases := by rw [watched.fields]
  have notify : w.notify = v.notify := by rw [watched.fields]
  -- a step whose action stays as it is
  have alone : ∀ {action : Action n} {w'}, w.step rt opts action = some w' →
      Runs.run (World.step rt opts) w [action] = some w' := by
    intro action w' taken
    simp [Runs.run, taken]
  cases step_stepped rt opts v next action stepped with
  | acquire request =>
      refine ⟨_, alone rfl, ?_⟩
      exact watched.setFields (fun u => { u with calls := u.calls ++ [Call.enter opts request] })
        rfl rfl fun _ => rfl
  | evaluate index schedule call found deciding =>
      refine ⟨w.evaluate rt opts index call (schedule.map unwatched), alone ?_, ?_⟩
      · simp [World.step, calls, found, deciding]
      · exact watched.evaluate rt opts index call (blind call (List.mem_of_getElem? found)) schedule
  | wake index call channel found blocked closed =>
      refine ⟨w.setCall index { call with pc := .deciding }, alone ?_, watched.setCall index _⟩
      simp [World.step, calls, found, blocked, notify, closed]
  | affinityExpired index call channel found blocked armed =>
      refine ⟨w.setCall index { call with hold := false, affinity := false, pc := .deciding },
        alone ?_, watched.setCall index _⟩
      simp [World.step, calls, found, blocked, armed]
  | queueExpired index call channel found blocked =>
      refine ⟨w.setCall index { call with pc := .leaving .queueTimeout }, alone ?_,
        watched.setCall index _⟩
      simp [World.step, calls, found, blocked]
  | ctxDone index cause call channel found blocked =>
      refine ⟨w.setCall index { call with pc := .leaving (.ctx cause) }, alone ?_,
        watched.setCall index _⟩
      simp [World.step, calls, found, blocked]
  | leave index call err found leaving =>
      refine ⟨{ w with waiting := w.waiting - 1 }.setCall index
        { call with pc := .returned (.error err) }, alone ?_, ?_⟩
      · simp [World.step, calls, found, leaving]
      · exact (watched.setFields (fun u => { u with waiting := u.waiting - 1 }) rfl rfl
          fun _ => rfl).setCall index _
  | release index lease found reported =>
      refine ⟨w.release index lease, alone ?_, ?_⟩
      · simp [World.step, leases, found, reported]
      · exact (watched.setOther lease.node (fun node => { node with inflight := node.inflight - 1 })
          fun _ _ => rfl).setFields (fun u => { u with
            notify := u.notify + 1
            leases := u.leases.set index { lease with phase := .closed } }) rfl rfl fun _ => rfl
  | other interference =>
      refine ⟨(unwatched [interference]).foldl Interference.apply w, ?_, ?_⟩
      · exact run_others rt opts (unwatched [interference]) w
      · exact watched.foldl [interference]

/-! ## Snapshots and readiness probes -/

theorem drain_yield (e : Eval n) : e.yield.drain = e.drain := by
  obtain ⟨w, schedule⟩ := e
  cases schedule with
  | nil => rfl
  | cons steps rest => simp [Eval.drain, Eval.yield, List.foldl_append]

theorem Eval.Watched.drain {e d : Eval n} (watched : e.Watched d) :
    Router.Watched e.drain d.drain := by
  have drained := watched.world.foldl d.schedule.flatten
  have same : unwatched d.schedule.flatten = e.schedule.flatten := by
    rw [watched.schedule, unwatched, List.filter_flatten]
    rfl
  rw [same] at drained
  exact drained

/-- The bare run only lets the others do what they do meanwhile. -/
def Eval.Follows (e d d' : Eval n) : Prop :=
  e.Watched d → ∃ e' : Eval n, e'.drain = e.drain ∧ e'.Watched d'

/-- Promoting one breaker of the watched state is an observation. -/
theorem Eval.Watched.observed {e d : Eval n} (watched : e.Watched d) (i : Fin n) (b : Breaker)
    (present : (d.w.nodes i).br = some b) :
    e.Watched (d.setBreaker i (b.advanceLocked d.w.clock)) := by
  refine ⟨?_, watched.schedule⟩
  have scraped := watched.world.observe i
  simp only [Interference.apply, present, Option.map_some] at scraped
  exact scraped

theorem Eval.Follows.status (e d : Eval n) (i : Fin n) : e.Follows d (d.status i).1 := by
  intro watched
  refine ⟨e.yield.yield, by rw [drain_yield, drain_yield], ?_⟩
  have waited := watched.yield.yield
  simp only [Eval.status]
  cases present : (d.yield.yield.w.nodes i).br with
  | none => exact waited
  | some b => exact waited.observed i b present

theorem Eval.Follows.available (e d : Eval n) (i : Fin n) : e.Follows d (d.available i).1 := by
  intro watched
  simp only [Eval.available]
  split
  · refine ⟨e.yield.yield, by rw [drain_yield, drain_yield], ?_⟩
    have waited := watched.yield.yield
    cases present : (d.yield.yield.w.nodes i).br with
    | none => exact waited
    | some b =>
        dsimp only
        rw [available_fst]
        exact waited.observed i b present
  · exact ⟨e.yield, drain_yield e, watched.yield⟩

theorem Eval.Follows.snapshot (nodes : List (Fin n)) (e d : Eval n) :
    e.Follows d (Router.snapshot nodes d).1 := by
  intro watched
  induction nodes generalizing e d with
  | nil => exact ⟨e, rfl, watched⟩
  | cons i rest ih =>
      obtain ⟨e', drained, read⟩ := Eval.Follows.status e d i watched
      obtain ⟨e'', drainedLater, later⟩ := ih e' _ read
      exact ⟨e'', drainedLater.trans drained, later⟩

theorem Eval.Follows.anyAvailable (nodes : List (Fin n)) (e d : Eval n) :
    e.Follows d (Router.anyAvailable nodes d).1 := by
  intro watched
  induction nodes generalizing e d with
  | nil => exact ⟨e, rfl, watched⟩
  | cons i rest ih =>
      obtain ⟨e', drained, asked⟩ := Eval.Follows.available e d i watched
      simp only [Router.anyAvailable]
      split_ifs
      · exact ⟨e', drained, asked⟩
      · obtain ⟨e'', drainedLater, later⟩ := ih e' _ asked
        exact ⟨e'', drainedLater.trans drained, later⟩
      · exact ih e d watched

/-! ## Runs -/

/-- The requests that come in during the run. -/
def Monitored.Blind : Monitored n → Prop
  | .act (.acquire request) => request.Blind
  | _ => True

theorem blind_of_calls {w v : World n} (blind : w.Blind) (calls : v.calls = w.calls) : v.Blind := by
  unfold World.Blind
  rw [calls]
  exact blind

theorem Unlocked.drain (e : Eval n) : Unlocked e.w e.drain :=
  Unlocked.foldl e.schedule.flatten e.w

theorem Unlocked.snapshot (nodes : List (Fin n)) (e : Eval n) :
    Unlocked e.w (Router.snapshot nodes e).1.w := by
  induction nodes generalizing e with
  | nil => exact Unlocked.refl e.w
  | cons i rest ih =>
      refine Unlocked.trans ?_ (ih (e.status i).1)
      have waited := (Unlocked.yield e).trans (Unlocked.yield e.yield)
      simp only [Eval.status]
      split
      · exact waited
      · exact waited.trans (Unlocked.setBreaker e.yield.yield i _)

theorem Unlocked.anyAvailable (nodes : List (Fin n)) (e : Eval n) :
    Unlocked e.w (Router.anyAvailable nodes e).1.w := by
  induction nodes generalizing e with
  | nil => exact Unlocked.refl e.w
  | cons i rest ih =>
      have asked := Unlocked.available e i
      simp only [Router.anyAvailable]
      split_ifs
      · exact asked
      · exact asked.trans (ih _)
      · exact ih e

theorem World.Blind.step {rt : Runtime n} {opts : Options} {v next : World n}
    {action : Monitored n} (blind : v.Blind) (ok : action.Blind)
    (stepped : v.monitoredStep rt opts action = some next) : next.Blind := by
  cases action with
  | act action =>
      refine (step_stepped rt opts v next action stepped).requests (fun request _ => request.Blind)
        blind (fun _ _ kept => kept) ?_
      rintro request rfl
      exact ok
  | snapshot schedule =>
      cases Option.some.inj stepped
      have unlocked := (Unlocked.snapshot (List.finRange n) ⟨v, schedule⟩).trans (Unlocked.drain _)
      exact blind_of_calls blind unlocked.calls
  | anyAvailable schedule =>
      cases Option.some.inj stepped
      have unlocked :=
        (Unlocked.anyAvailable (List.finRange n) ⟨v, schedule⟩).trans (Unlocked.drain _)
      exact blind_of_calls blind unlocked.calls

theorem Watched.monitoredStep {rt : Runtime n} {opts : Options} {w v next : World n}
    {action : Monitored n} (watched : Watched w v) (blind : v.Blind)
    (stepped : v.monitoredStep rt opts action = some next) :
    ∃ w', Runs.run (World.step rt opts) w action.traffic = some w' ∧ Watched w' next := by
  -- what is left of an observer: the others take their steps
  have observer : ∀ (schedule : List (List (Interference n))) (d : Eval n),
      (⟨w, schedule.map unwatched⟩ : Eval n).Follows ⟨v, schedule⟩ d →
      ∃ w', Runs.run (World.step rt opts) w ((unwatched schedule.flatten).map .other) = some w' ∧
        Watched w' d.drain := by
    intro schedule d follows
    obtain ⟨e', drained, later⟩ := follows ⟨watched, rfl⟩
    refine ⟨e'.drain, ?_, later.drain⟩
    rw [run_others, drained]
    simp only [Eval.drain, unwatched, List.filter_flatten]
    rfl
  cases action with
  | act action => exact watched.step blind stepped
  | snapshot schedule =>
      cases Option.some.inj stepped
      exact observer schedule _ (Eval.Follows.snapshot (List.finRange n) _ _)
  | anyAvailable schedule =>
      cases Option.some.inj stepped
      exact observer schedule _ (Eval.Follows.anyAvailable (List.finRange n) _ _)

/-- Two states that no request can tell apart: everything agrees but breakers
whose cool-down is over, and these agree once they are asked. -/
structure Indistinguishable (w v : World n) : Prop where
  clock : v.clock = w.clock
  calls : v.calls = w.calls
  leases : v.leases = w.leases
  queue : v.waiting = w.waiting ∧ v.notify = w.notify
  placements : v.placeMap = w.placeMap ∧ v.placeLRU = w.placeLRU
  nodes : ∀ i, v.nodes i = { w.nodes i with br := (v.nodes i).br }
  breakers : ∀ i, (v.nodes i).br.map (fun b => b.advanceLocked v.clock) =
    (w.nodes i).br.map fun b => b.advanceLocked w.clock

theorem Watched.indistinguishable {w v : World n} (watched : Watched w v) :
    Indistinguishable w v where
  clock := by rw [watched.fields]
  calls := by rw [watched.fields]
  leases := by rw [watched.fields]
  queue := ⟨by rw [watched.fields], by rw [watched.fields]⟩
  placements := ⟨by rw [watched.fields], by rw [watched.fields]⟩
  nodes := watched.node
  breakers i := by
    have clock : v.clock = w.clock := by rw [watched.fields]
    rw [clock]
    rcases watched.breaker_cases i with ⟨left, right⟩ | ⟨b, c, left, right, ahead⟩
    · rw [left, right]
    · rw [left, right, Option.map_some, Option.map_some, ahead.advanceLocked]

/-- Whatever was monitored during a run, the traffic without it is a run too,
and no request can tell its end from that of the monitored one. -/
theorem monitoring_is_free (rt : Runtime n) (opts : Options) (w final : World n)
    (actions : List (Monitored n)) (idle : w.calls = [])
    (blind : ∀ action ∈ actions, action.Blind)
    (reached : Runs.run (World.monitoredStep rt opts) w actions = some final) :
    ∃ bare, Runs.run (World.step rt opts) w (actions.flatMap Monitored.traffic) = some bare ∧
      Indistinguishable bare final := by
  have start : w.Blind := by
    intro call member
    rw [idle] at member
    cases member
  obtain ⟨bare, ran, watched, _⟩ := Runs.run_mapped (World.monitoredStep rt opts)
    (World.step rt opts) (fun v w => Watched w v ∧ v.Blind) Monitored.Blind Monitored.traffic
    (fun v action next w related ok stepped => by
      obtain ⟨w', ran, watched⟩ := related.1.monitoredStep related.2 stepped
      exact ⟨w', ran, watched, related.2.step ok stepped⟩)
    actions w final w ⟨Watched.refl w, start⟩ blind reached
  exact ⟨bare, ran, watched.indistinguishable⟩

/-! ## What a snapshot says -/

/-- The part of a status that the router lock guards or that never changes. -/
def Node.guarded (node : Node) : String × String × String × Int × Int × Int :=
  (node.name, node.group, node.role, node.inflight, node.maxConcurrent, node.placed)

def Status.guarded (status : Status) : String × String × String × Int × Int × Int :=
  (status.name, status.group, status.role, status.inflight, status.max, status.placed)

theorem Unlocked.guarded {w w' : World n} (unlocked : Unlocked w w') (i : Fin n) :
    (w'.nodes i).guarded = (w.nodes i).guarded := by
  rw [unlocked.nodes i]
  rfl

theorem status_guarded (e : Eval n) (i : Fin n) :
    (e.status i).2.guarded = (e.w.nodes i).guarded := by
  have waited := ((Unlocked.yield e).trans (Unlocked.yield e.yield)).guarded i
  rw [← waited]
  simp only [Eval.status]
  split <;> rfl

/-- Other goroutines may run during the scan, but its numbers are those of one
instant. -/
theorem snapshot_guarded (nodes : List (Fin n)) (e : Eval n) :
    (snapshot nodes e).2.map Status.guarded = nodes.map fun i => (e.w.nodes i).guarded := by
  induction nodes generalizing e with
  | nil => rfl
  | cons i rest ih =>
      have told := Unlocked.snapshot [i] e
      simp only [snapshot] at told
      simp only [snapshot, List.map_cons, status_guarded, ih]
      congr 1
      apply List.map_congr_left
      intro j _
      exact told.guarded j

end

/-- In every reachable state, whatever goes on during the scan, a snapshot
lists the configured nodes in order, with the open leases of each of them
within its limit, and the placed prefixes add up to the placement memory. -/
theorem snapshot_is_consistent (instances : List Instance) (defaultMaxConcurrent : Int)
    (opts : Options) (rt : Runtime instances.length) (clock : Int)
    (actions : List (Action instances.length)) (w : World instances.length)
    (reached : Reached instances defaultMaxConcurrent opts rt clock actions w)
    (schedule : List (List (Interference instances.length))) (statuses : List Status)
    (scanned : (snapshot (List.finRange instances.length) ⟨w, schedule⟩).2 = statuses) :
    statuses.map Status.name = instances.map (fun inst => hostPort inst.host inst.port) ∧
      statuses.map Status.inflight =
        (List.finRange instances.length).map (fun i => (w.openLeases i : Int)) ∧
      (∀ status ∈ statuses, 0 ≤ status.inflight ∧
        (0 ≤ status.max → status.inflight ≤ status.max)) ∧
      (1 ≤ opts.placementSize → (statuses.map Status.placed).sum = w.placeLRU.length ∧
        (w.placeLRU.length : Int) ≤ opts.placementSize) := by
  have capacity := capacity_of_reached reached
  have identity := sameIdentity_of_reached reached
  have guarded : statuses.map Status.guarded =
      (List.finRange instances.length).map fun i => (w.nodes i).guarded := by
    rw [← scanned]
    exact snapshot_guarded _ _
  -- a column of the snapshot is the field of the nodes
  have column : ∀ {α : Type} (field : String × String × String × Int × Int × Int → α),
      statuses.map (fun status => field status.guarded) =
        (List.finRange instances.length).map fun i => field (w.nodes i).guarded := by
    intro α field
    have mapped := congrArg (List.map field) guarded
    simpa [List.map_map, Function.comp_def] using mapped
  refine ⟨?_, ?_, ?_, ?_⟩
  · have names := column fun row => row.1
    refine names.trans ?_
    apply List.ext_getElem
    · simp
    · intro k _ _
      simp [Node.guarded, identity.name, new, World.idle, newNode]
  · refine (column fun row => row.2.2.2.1).trans ?_
    apply List.map_congr_left
    intro i _
    exact capacity.counted i
  · intro status member
    have row : status.guarded ∈ statuses.map Status.guarded := List.mem_map_of_mem member
    rw [guarded, List.mem_map] at row
    obtain ⟨i, _, same⟩ := row
    have load : status.inflight = (w.nodes i).inflight := congrArg (fun row => row.2.2.2.1) same.symm
    have limit : status.max = (w.nodes i).maxConcurrent :=
      congrArg (fun row => row.2.2.2.2.1) same.symm
    rw [load, limit]
    refine ⟨?_, capacity.bounded i⟩
    rw [capacity.counted i]
    exact Int.natCast_nonneg _
  · intro sized
    have memory := memory_of_reached sized reached
    refine ⟨?_, memory.bounded⟩
    have placed := column fun row => row.2.2.2.2.2
    have total : ∑ i, (w.nodes i).placed = w.placeLRU.length := by
      rw [← sum_countP_node w.placeLRU, Nat.cast_sum]
      exact Finset.sum_congr rfl fun i _ => memory.placed i
    rw [← total, ← List.sum_ofFn, List.ofFn_eq_map]
    exact congrArg List.sum placed

/-- The one node fails a request; a snapshot after its cool-down promotes its
breaker, before the next request comes and is watched in turn. -/
def scrapedProbe : List (Monitored 1) :=
  [.act (.acquire promptA), .act (.evaluate 0 []), .act (.other (.report 0 (some false))),
    .act (.release 0), .act (.other (.tick 1000000000)), .snapshot [[.tick 5]],
    .act (.acquire promptA), .act (.evaluate 1 [[.observe (Fin.last 0)], [.tick 1]])]

theorem scrapedProbe_blind : ∀ action ∈ scrapedProbe, action.Blind := by
  simp [scrapedProbe, Monitored.Blind, Request.Blind, promptA, BreakerBlind, entryPoint]

theorem monitoring_of_scrapedProbe :
    ∃ bare final : World 1,
      Runs.run (World.monitoredStep (Runtime.exact 1) breakerOptions.clamp)
        (new oneSlot 0 breakerOptions 0) scrapedProbe = some final ∧
      Runs.run (World.step (Runtime.exact 1) breakerOptions.clamp)
        (new oneSlot 0 breakerOptions 0) (scrapedProbe.flatMap Monitored.traffic) = some bare ∧
      bare.leases.length = 2 ∧ final.leases = bare.leases := by
  have evaluated : (Runs.run (World.monitoredStep (Runtime.exact 1) breakerOptions.clamp)
      (new oneSlot 0 breakerOptions 0) scrapedProbe).map (fun w : World 1 => w.leases.length) =
      some 2 := by
    decide +kernel
  obtain ⟨final, reached, two⟩ := Option.map_eq_some_iff.mp evaluated
  obtain ⟨bare, ran, same⟩ := monitoring_is_free (Runtime.exact 1) breakerOptions.clamp
    (new oneSlot 0 breakerOptions 0) final scrapedProbe rfl scrapedProbe_blind reached
  exact ⟨bare, final, reached, ran, same.leases ▸ two, same.leases⟩

theorem snapshot_after_twoPrefixes :
    ∃ (w : World 2) (statuses : List Status),
      Reached pairOfNodes 0 forgetfulOptions (Runtime.exact 2) 0 twoPrefixes w ∧
      (snapshot (List.finRange 2) ⟨w, [[.setUp (Fin.last 1) false]]⟩).2 = statuses ∧
      statuses.map Status.name = ["a:1", "b:1"] ∧ (statuses.map Status.placed).sum = 1 := by
  have evaluated : (Runs.run (World.step (Runtime.exact 2) forgetfulOptions.clamp)
      (new pairOfNodes 0 forgetfulOptions 0) twoPrefixes).map
        (fun w : World 2 => w.placeLRU.length) = some 1 := by
    decide +kernel
  obtain ⟨w, reached, one⟩ := Option.map_eq_some_iff.mp evaluated
  obtain ⟨names, _, _, placed⟩ := snapshot_is_consistent pairOfNodes 0 forgetfulOptions
    (Runtime.exact 2) 0 twoPrefixes w reached [[.setUp (Fin.last 1) false]] _ rfl
  refine ⟨w, _, reached, rfl, names.trans (by decide +kernel), ?_⟩
  exact (placed (by decide)).1.trans (by exact_mod_cast one)

end RadixGates.Router
