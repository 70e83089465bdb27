import RadixGates.Gateway.Ledger
import RadixGates.Router.Isolation

/-!
# The accounts of the gateway

The counters of the router in terms of the requests: the slots in use of a node
are the requests that hold a lease on it, and the queue is the requests that
wait in it.  When every request is over, only those whose response had a status
code that `WriteHeader` refuses still count.
-/

set_option autoImplicit false

namespace RadixGates.Gateway

open RadixGates.Handler
open RadixGates.Ownership (Owned)
open RadixGates.Router (Action Call Lease Options Runtime World)

section
variable {n : Nat}

/-- The request holds a lease on the node. -/
def Client.worksOn (w : World n) (i : Fin n) (c : Client) : Bool :=
  (c.lease w).any fun index => w.leases[index]?.any fun lease => decide (lease.node = i)

/-- The request is in the queue of the router. -/
def Client.waits (w : World n) (c : Client) : Bool :=
  c.call.any fun index => w.calls[index]?.any Call.inQueue

theorem Ledger.openLeases {g : System n} (ledger : Ledger g) (i : Fin n) :
    g.w.openLeases i = g.clients.countP (Client.worksOn g.w i) := by
  have counted := ledger.leases.countP fun lease => decide (lease.node = i)
  unfold World.openLeases
  rw [show g.clients.countP (Client.worksOn g.w i) = _ from counted]
  apply List.countP_congr
  intro lease _
  simp [Lease.openOn, Lease.isOpen, and_comm]

theorem Ledger.inQueue {g : System n} (ledger : Ledger g) :
    g.w.calls.countP Call.inQueue = g.clients.countP (Client.waits g.w) := by
  have pending : Owned (fun k : Nat => g.clients[k]?.bind fun c => c.call.filter g.w.isPending)
      (fun index => g.w.calls[index]?.any (fun call => !call.pc.isReturned) = true)
      (fun index => g.w.calls[index]?.any (fun call => !call.pc.isReturned) = true) := by
    have owner : (fun k : Nat => (g.clients[k]?.bind Client.call).filter g.w.isPending) =
        fun k : Nat => g.clients[k]?.bind fun c => c.call.filter g.w.isPending := by
      funext k
      cases g.clients[k]? <;> rfl
    rw [← owner]
    exact (ledger.calls.filter g.w.isPending).mono (fun _ out => ⟨out, out⟩) fun _ out => out.2
  have counted := pending.countP Call.inQueue
  calc
    g.w.calls.countP Call.inQueue =
        g.w.calls.countP fun call => (!call.pc.isReturned) && call.inQueue := by
      apply List.countP_congr
      intro call _
      simp [Call.inQueue]
    _ = _ := counted.symm
    _ = g.clients.countP (Client.waits g.w) := by
      apply List.countP_congr
      intro c _
      cases sits : c.call with
      | none => simp [Client.waits, sits]
      | some index =>
          simp only [Client.waits, sits, Option.any_some, Option.filter_some]
          by_cases out : g.w.isPending index = true
          · simp [out]
          · -- a call that has returned is not in the queue
            have idle : g.w.calls[index]?.any Call.inQueue = false := by
              unfold World.isPending at out
              cases called : g.w.calls[index]? with
              | none => rfl
              | some call =>
                  rw [called] at out
                  simp_all [Call.inQueue]
            simp [out, idle]

/-! ## Requests that are over -/

def Client.isOver (c : Client) : Bool :=
  match c.stage with
  | .ended _ _ => true
  | _ => false

/-- How the handler of the request panicked, if it did. -/
def Client.panic (c : Client) : Option Panic :=
  match c.stage with
  | .ended served _ => served.panic
  | _ => none

/-- A request that is over has a lease exactly if `WriteHeader` has refused the
status of its answer; one that gives its lease back is not about to end so. -/
structure Client.Tidy (w : World n) (c : Client) : Prop where
  isOver : c.isOver = true → (c.lease w ≠ none ↔ c.panic = some .invalidCode)
  closing : ∀ lease verdict finished served,
    c.stage = .closing lease verdict finished (.inr served) → served.panic ≠ some .invalidCode

theorem Client.tidy_resume (w : World n) (c : Client) (next : Loop ⊕ Served)
    (valid : ∀ served, next = .inr served → served.panic ≠ some .invalidCode) :
    (c.resume none next).Tidy w := by
  constructor
  · intro isOver
    cases next with
    | inl loop => cases isOver
    | inr served => exact iff_of_false (fun held => held rfl) (valid served rfl)
  · intro lease verdict finished served stage
    cases next <;> cases stage

theorem Client.Tidy.world {w : World n} {c : Client} (tidy : c.Tidy w) (w' : World n) :
    c.Tidy w' := by
  refine ⟨?_, tidy.closing⟩
  intro isOver
  rw [← tidy.isOver isOver]
  unfold Client.isOver at isOver
  unfold Client.lease
  cases stage : c.stage <;> simp_all

theorem tidy_step {h : DirectChatHandler} {rt : Runtime n} {opts : Options} {g next : System n}
    {move : Move n} (tidy : ∀ c ∈ g.clients, c.Tidy g.w) (moved : Moved h rt opts g move next) :
    ∀ c ∈ next.clients, c.Tidy next.w := by
  have set : ∀ (k : Nat) (c' : Client) (w : World n), c'.Tidy w →
      ∀ c ∈ g.clients.set k c', c.Tidy w := by
    intro k c' w here c member
    rcases List.mem_or_eq_of_mem_set member with old | rfl
    · exact (tidy c old).world w
    · exact here
  cases moved with
  | arrived prefixHash target stream clientGone =>
      intro c member
      rcases List.mem_append.mp member with old | fresh
      · exact tidy c old
      · cases List.mem_singleton.mp fresh
        exact ⟨by simp [Client.isOver], by simp⟩
  | entered k c found looping due more => exact set k _ _ ⟨by simp [Client.isOver], by simp⟩
  | exhausted k c found looping due spent =>
      exact set k _ _ ⟨fun _ => by simp [Client.lease, Client.panic], by simp⟩
  | granted k c found index acquiring call called lease returned =>
      exact set k _ _ ⟨by simp [Client.isOver], by simp⟩
  | refused k c found index acquiring call called err returned =>
      apply set k _ _ (c.tidy_resume g.w _ _)
      intro served ended invalid
      obtain ⟨resp, commits, _⟩ := iterate_panics ended invalid
      cases commits.answered
  | forwarded k c found index started forwarding lease leased exchange =>
      apply set k
      rcases forwarded_cases h c index started (g.w.nodes lease.node).name exchange with
        ⟨verdict, finished, after, out, valid⟩ | ⟨served, panics, out⟩
      · rw [out]
        refine ⟨by simp [Client.isOver], ?_⟩
        intro lease' verdict' finished' served stage
        cases stage
        exact valid served rfl
      · rw [out]
        exact ⟨fun _ => iff_of_true (by simp [Client.lease]) panics, by simp⟩
  | closed k c found index verdict finished after closing due lease leased reported =>
      apply set k _ _ (c.tidy_resume _ after _)
      rintro served rfl
      exact (tidy c (List.mem_of_getElem? found)).closing index verdict finished served closing
  | routed action permitted w stepped => exact fun c member => (tidy c member).world w

end

section
variable {h : DirectChatHandler} {instances : List Router.Instance} {defaultMaxConcurrent : Int}
  {opts : Options} {rt : Runtime instances.length} {clock : Int}
  {moves : List (Move instances.length)} {g : System instances.length}

theorem tidy_of_reached
    (reached : Reached h instances defaultMaxConcurrent opts rt clock moves g) :
    ∀ c ∈ g.clients, c.Tidy g.w := by
  apply Runs.run_preserves (System.step h rt opts.clamp) (fun g => ∀ c ∈ g.clients, c.Tidy g.w) _
    moves _ g _ reached
  · intro g move next tidy stepped
    exact tidy_step tidy (step_moved h rt opts.clamp g next move stepped)
  · simp

theorem inflight_of_reached
    (reached : Reached h instances defaultMaxConcurrent opts rt clock moves g)
    (i : Fin instances.length) :
    (g.w.nodes i).inflight = (g.clients.countP (Client.worksOn g.w i) : Int) := by
  obtain ⟨actions, routed⟩ := router_reached reached
  rw [(Router.capacity_of_reached routed).counted i, (ledger_of_reached reached).openLeases i]

theorem waiting_of_reached
    (reached : Reached h instances defaultMaxConcurrent opts rt clock moves g) :
    g.w.waiting = (g.clients.countP (Client.waits g.w) : Int) := by
  obtain ⟨actions, routed⟩ := router_reached reached
  rw [(Router.accounted_of_reached routed).counted, (ledger_of_reached reached).inQueue]

end

/-- A node's slots in use are the requests that hold a lease on it, no more than
its limit, and the queue is the requests that wait in it, no more than its
limit. -/
theorem slots_are_requests (h : DirectChatHandler) (instances : List Router.Instance)
    (defaultMaxConcurrent : Int) (opts : Options) (rt : Runtime instances.length) (clock : Int)
    (moves : List (Move instances.length)) (g : System instances.length)
    (reached : Reached h instances defaultMaxConcurrent opts rt clock moves g) :
    (∀ i, (g.w.nodes i).inflight = (g.clients.countP (Client.worksOn g.w i) : Int) ∧
      (0 ≤ (g.w.nodes i).maxConcurrent →
        (g.clients.countP (Client.worksOn g.w i) : Int) ≤ (g.w.nodes i).maxConcurrent)) ∧
      g.w.waiting = (g.clients.countP (Client.waits g.w) : Int) ∧
      (g.clients.countP (Client.waits g.w) : Int) ≤ max 0 opts.maxQueue := by
  obtain ⟨actions, routed⟩ := router_reached reached
  refine ⟨?_, waiting_of_reached reached, ?_⟩
  · intro i
    refine ⟨inflight_of_reached reached i, ?_⟩
    rw [← inflight_of_reached reached i]
    exact (Router.capacity_of_reached routed).bounded i
  · rw [← waiting_of_reached reached]
    exact (Router.accounted_of_reached routed).bounded

theorem ticketsOut_of_no_openLeases {n : Nat} (w : World n) (i : Fin n) (none : w.openLeases i = 0) :
    w.ticketsOut i = [] := by
  apply List.filterMap_eq_nil_iff.mpr
  intro lease member
  have closed := List.countP_eq_zero.mp none lease member
  apply if_neg
  rintro ⟨rfl, granted⟩
  simp [Lease.openOn, granted] at closed

/-- When all requests are over, nobody waits, and the slots in use of a node are
the requests whose upstream there answered with a status that `WriteHeader`
refuses; if there was none, every node is free again and so are the probe slots. -/
theorem finished_requests_give_back (h : DirectChatHandler) (instances : List Router.Instance)
    (defaultMaxConcurrent : Int) (opts : Options) (rt : Runtime instances.length) (clock : Int)
    (moves : List (Move instances.length)) (g : System instances.length)
    (reached : Reached h instances defaultMaxConcurrent opts rt clock moves g)
    (finished : ∀ c ∈ g.clients, c.isOver = true) :
    g.w.waiting = 0 ∧
      (∀ c ∈ g.clients, c.panic = some .invalidCode ↔ ∃ i, c.worksOn g.w i = true) ∧
      ∀ i, (g.w.nodes i).inflight = (g.clients.countP fun c =>
          decide (c.panic = some .invalidCode) && c.worksOn g.w i : Nat) ∧
        ((∀ c ∈ g.clients, c.panic ≠ some .invalidCode) →
          (g.w.nodes i).inflight = 0 ∧
            ∀ cfg, opts.breaker = some cfg →
              ∃ b, (g.w.nodes i).br = some b ∧ (b.state = .halfOpen → b.halfInFlight = 0)) := by
  have ledger := ledger_of_reached reached
  have kept : ∀ c ∈ g.clients, c.panic = some .invalidCode ↔ ∃ i, c.worksOn g.w i = true := by
    intro c member
    rw [← ((tidy_of_reached reached) c member).isOver (finished c member)]
    obtain ⟨k, found⟩ := List.mem_iff_getElem?.mp member
    cases holds : c.lease g.w with
    | none => simp [Client.worksOn, holds]
    | some index =>
        have live := ledger.leases.within k index (by rw [found, Option.bind_some, holds])
        unfold isOpen at live
        cases leased : g.w.leases[index]? with
        | none => simp [leased] at live
        | some lease => simp [Client.worksOn, holds, leased]
  have slots : ∀ i, (g.w.nodes i).inflight = (g.clients.countP fun c =>
      decide (c.panic = some .invalidCode) && c.worksOn g.w i : Nat) := by
    intro i
    rw [inflight_of_reached reached i]
    congr 1
    apply List.countP_congr
    intro c member
    have invalid := (kept c member).mpr
    simp only [Bool.and_eq_true, decide_eq_true_eq]
    exact ⟨fun works => ⟨invalid ⟨i, works⟩, works⟩, fun both => both.2⟩
  refine ⟨?_, kept, fun i => ⟨slots i, ?_⟩⟩
  · have nobody : g.clients.countP (Client.waits g.w) = 0 := by
      apply List.countP_eq_zero.mpr
      intro c member waits
      have isOver := finished c member
      unfold Client.waits Client.call at waits
      unfold Client.isOver at isOver
      cases stage : c.stage <;> simp_all
    rw [waiting_of_reached reached, nobody]
    rfl
  · intro valid
    have nobody : g.clients.countP (Client.worksOn g.w i) = 0 := by
      apply List.countP_eq_zero.mpr
      intro c member works
      exact valid c member ((kept c member).mpr ⟨i, works⟩)
    refine ⟨by rw [inflight_of_reached reached i, nobody]; rfl, ?_⟩
    intro cfg enabled
    obtain ⟨actions, routed⟩ := router_reached reached
    obtain ⟨events, s, session, tracks⟩ := Router.session_of_reached routed cfg enabled i
    have none := ticketsOut_of_no_openLeases g.w i
      (by rw [ledger.openLeases i, nobody])
    have out : s.outstanding = [] := List.perm_nil.mp (none ▸ tracks.tickets)
    refine ⟨s.b, tracks.breaker, ?_⟩
    intro half
    rw [(Breaker.Session.sound_of_reached session).slots half, out]
    rfl

def plainAnswer : Exchange :=
  ⟨false, ⟨1, some ⟨200, "text/plain", ⟨readOf "hi", [], .eof⟩⟩, 0⟩, 0, ⟨0, false⟩⟩

/-- Two requests for the one slot: the second one waits in the queue while the
first one is answered. -/
def twoClients : List (Move 1) :=
  [.arrive "a" "" true none, .arrive "a" "" true none, .acquire 0, .acquire 1,
    .router (.evaluate 0 []), .router (.evaluate 1 []), .answer 0, .forward 0 plainAnswer]

/-- Both are served. -/
def twoServed : List (Move 1) :=
  twoClients ++
    [.router (.other (.tick 10)), .router (.other (.report 0 (some true))), .close 0,
      .router (.wake 1), .router (.evaluate 1 []), .answer 1, .forward 1 plainAnswer,
      .router (.other (.tick 10)), .router (.other (.report 1 (some true))), .close 1]

theorem slots_of_twoClients :
    ∃ g : System 1, Reached defaultHandler Router.oneSlot 0 Router.breakerOptions
        (Runtime.exact 1) 0 twoClients g ∧
      g.clients.countP (Client.worksOn g.w 0) = 1 ∧ g.clients.countP (Client.waits g.w) = 1 := by
  have evaluated : (Runs.run (System.step defaultHandler (Runtime.exact 1)
      Router.breakerOptions.clamp) ⟨Router.new Router.oneSlot 0 Router.breakerOptions 0, []⟩
        twoClients).map (fun g : System 1 => ((g.w.nodes 0).inflight, g.w.waiting)) =
          some (1, 1) := by
    decide +kernel
  obtain ⟨g, reached, facts⟩ := Option.map_eq_some_iff.mp evaluated
  obtain ⟨one, waits⟩ := Prod.mk.inj facts
  obtain ⟨slots, queue, _⟩ := slots_are_requests defaultHandler Router.oneSlot 0
    Router.breakerOptions (Runtime.exact 1) 0 twoClients g reached
  have works : (g.w.nodes 0).inflight = (g.clients.countP (Client.worksOn g.w 0) : Int) :=
    (slots (0 : Fin 1)).1
  have queued : (g.clients.countP (Client.waits g.w) : Int) = 1 := queue.symm.trans waits
  exact ⟨g, reached, by omega, by exact_mod_cast queued⟩

theorem finished_of_twoServed :
    ∃ g : System 1, Reached defaultHandler Router.oneSlot 0 Router.breakerOptions
        (Runtime.exact 1) 0 twoServed g ∧
      g.clients.length = 2 ∧ g.w.waiting = 0 ∧ (g.w.nodes 0).inflight = 0 := by
  have evaluated : (Runs.run (System.step defaultHandler (Runtime.exact 1)
      Router.breakerOptions.clamp) ⟨Router.new Router.oneSlot 0 Router.breakerOptions 0, []⟩
        twoServed).map (fun g : System 1 => (g.clients.length, g.clients.all Client.isOver,
          g.clients.all fun c => decide (c.panic ≠ some .invalidCode))) =
            some (2, true, true) := by
    decide +kernel
  obtain ⟨g, reached, facts⟩ := Option.map_eq_some_iff.mp evaluated
  obtain ⟨two, facts⟩ := Prod.mk.inj facts
  obtain ⟨isOver, valid⟩ := Prod.mk.inj facts
  obtain ⟨waits, _, slots⟩ := finished_requests_give_back defaultHandler Router.oneSlot 0
    Router.breakerOptions (Runtime.exact 1) 0 twoServed g reached (List.all_eq_true.mp isOver)
  have free : (g.w.nodes 0).inflight = 0 := ((slots (0 : Fin 1)).2
    (fun c member => of_decide_eq_true (List.all_eq_true.mp valid c member))).1
  exact ⟨g, reached, two, waits, free⟩

end RadixGates.Gateway
