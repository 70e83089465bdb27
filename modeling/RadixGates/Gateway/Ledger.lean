import RadixGates.Gateway.Moves
import RadixGates.Lib.Ownership
import RadixGates.Router.Holdings

/-!
# Who holds what

Every call of `Acquire` that has not returned belongs to one request, and every
lease that is not closed is held by exactly one, from the moment `Acquire`
returns it.  A finished request holds a lease only if the upstream's status
code made `WriteHeader` panic.  So the slots of a node are the requests that
work on it, and a gateway whose requests are all done is as good as new.
-/

set_option autoImplicit false

namespace RadixGates.Gateway

open RadixGates.Handler
open RadixGates.Ownership (Owned)
open RadixGates.Router (Action Call Lease Options Runtime World)

/-- The call of `Acquire` that the request sits in. -/
def Client.call (c : Client) : Option Nat :=
  match c.stage with
  | .acquiring call => some call
  | _ => none

section
variable {n : Nat}

/-- The lease that the request holds; it may not have seen it yet. -/
def Client.lease (w : World n) (c : Client) : Option Nat :=
  match c.stage with
  | .looping => none
  | .acquiring call => w.answered call
  | .forwarding lease _ | .closing lease _ _ _ => some lease
  | .ended _ kept => kept

def isOpen (w : World n) (lease : Nat) : Prop := w.leases[lease]?.any Lease.isOpen = true

structure Ledger (g : System n) : Prop where
  calls : Owned (fun k : Nat => g.clients[k]?.bind Client.call)
    (fun call => g.w.isPending call = true) (fun call => call < g.w.calls.length)
  leases : Owned (fun k : Nat => g.clients[k]?.bind (Client.lease g.w)) (isOpen g.w) (isOpen g.w)

/-! ## Changing one request -/

theorem holding_set {clients : List Client} {k : Nat} {c : Client} (found : clients[k]? = some c)
    (c' : Client) (holding : Client → Option Nat) :
    (fun j : Nat => (clients.set k c')[j]?.bind holding) =
      Function.update (fun j : Nat => clients[j]?.bind holding) k (holding c') := by
  have within := (List.getElem?_eq_some_iff.mp found).1
  funext j
  by_cases here : j = k
  · subst here
    simp [List.getElem?_set_self within]
  · rw [Function.update_of_ne here, List.getElem?_set_ne (Ne.symm here)]

theorem holding_set_same {clients : List Client} {k : Nat} {c : Client}
    (found : clients[k]? = some c) (c' : Client) (holding : Client → Option Nat)
    (same : holding c' = holding c) :
    (fun j : Nat => (clients.set k c')[j]?.bind holding) =
      fun j : Nat => clients[j]?.bind holding := by
  rw [holding_set found]
  apply Function.update_eq_self_iff.mpr
  rw [same, found]
  rfl

theorem holding_append (clients : List Client) (c : Client) (holding : Client → Option Nat)
    (free : holding c = none) :
    (fun j : Nat => (clients ++ [c])[j]?.bind holding) = fun j : Nat => clients[j]?.bind holding := by
  funext j
  rcases Nat.lt_trichotomy j clients.length with before | rfl | after
  · rw [List.getElem?_append_left before]
  · simp [free]
  · rw [List.getElem?_eq_none (by simp; omega), List.getElem?_eq_none (by omega)]

theorem lease_congr {w w' : World n} (answered : ∀ call, w'.answered call = w.answered call) :
    Client.lease w' = Client.lease w := by
  funext c
  unfold Client.lease
  cases c.stage with
  | acquiring call => exact answered call
  | looping | forwarding _ _ | closing _ _ _ _ | ended _ _ => rfl

/-- A request that keeps its call and its lease. -/
theorem Ledger.keep {g : System n} (ledger : Ledger g) {k : Nat} {c : Client}
    (found : g.clients[k]? = some c) (c' : Client) (calls : c'.call = c.call)
    (leases : c'.lease g.w = c.lease g.w) : Ledger (g.setClient k c') where
  calls := by
    simp only [System.setClient, holding_set_same found c' Client.call calls]
    exact ledger.calls
  leases := by
    simp only [System.setClient, holding_set_same found c' (Client.lease g.w) leases]
    exact ledger.leases

/-- A request that has seen the answer of its call. -/
theorem Ledger.answered {g : System n} (ledger : Ledger g) {k : Nat} {c : Client}
    (found : g.clients[k]? = some c) {index : Nat} (acquiring : c.stage = .acquiring index)
    {call : Call} (called : g.w.calls[index]? = some call) (returned : call.pc.isReturned = true)
    (c' : Client) (calls : c'.call = none) (leases : c'.lease g.w = g.w.answered index) :
    Ledger (g.setClient k c') where
  calls := by
    have held : g.clients[k]?.bind Client.call = some index := by
      simp [found, Client.call, acquiring]
    simp only [System.setClient, holding_set found, calls]
    refine (ledger.calls.drop k index held).mono ?_ fun r inside => inside.1
    rintro r pending
    refine ⟨pending, ?_⟩
    rintro rfl
    simp [World.isPending, called, returned] at pending
  leases := by
    have same : c'.lease g.w = c.lease g.w := by
      rw [leases, Client.lease, acquiring]
    simp only [System.setClient, holding_set_same found c' (Client.lease g.w) same]
    exact ledger.leases

/-! ## The end of an attempt -/

theorem head?_verdicts_none (events : List Event) (silent : (verdicts events).head? = none) :
    closings events = 0 := by
  have none : verdicts events = [] := List.head?_eq_none_iff.mp silent
  apply List.countP_eq_zero.mpr
  intro e member closes
  have unseen := List.filterMap_eq_nil_iff.mp none e member
  cases e <;> simp_all [Event.verdict, Event.closes]

theorem resume_call (c : Client) (kept : Option Nat) (next : Loop ⊕ Served) :
    (c.resume kept next).call = none := by
  cases next <;> rfl

theorem resume_lease (w : World n) (c : Client) (next : Loop ⊕ Served) :
    (c.resume none next).lease w = none := by
  cases next <;> rfl

theorem iterate_refused (h : DirectChatHandler) (c : Client) (started : Int) (node : String)
    (exchange : Exchange) (resp : Response)
    (commits : Commits exchange.requestFails exchange.upstream resp) (low : resp.status < 100) :
    ∃ served, c.iterate h (c.turn started (.granted node) exchange) = .inr served ∧
      served.panic = some .invalidCode := by
  have panics : ∀ later, (c.loop.attemptOn h.init (c.ctx h) c.stream
      (fun _ => c.turn started (.granted node) exchange) later node).result.exit =
        .panicked .invalidCode := by
    intro later
    simp only [Loop.attemptOn, Client.turn]
    rw [commits.attempt, commit_refused _ _ _ _ _ low]
  refine ⟨⟨c.loop.records ++ [c.loop.attemptOn h.init (c.ctx h) c.stream
      (fun _ => c.turn started (.granted node) exchange)
      (c.loop.now + (started - c.loop.now).toNat) node], [], some .invalidCode⟩, ?_, rfl⟩
  simp only [Client.iterate, Loop.iterate, Handler.acquire]
  have got : (c.turn started (.granted node) exchange).acquire c.loop.exclude =
      ⟨(started - c.loop.now).toNat, .granted node⟩ := if_pos rfl
  simp only [got, panics]

/-- Only the status of an answer makes `WriteHeader` panic. -/
theorem iterate_panics {h : DirectChatHandler} {c : Client} {turn : Turn} {served : Served}
    (ended : c.iterate h turn = .inr served) (panics : served.panic = some .invalidCode) :
    ∃ resp, Commits turn.requestFails turn.upstream resp ∧ resp.status < 100 := by
  have iterated := iterate_iterated h.init (c.ctx h) c.stream (fun _ => turn) c.loop
  change Iterated h.init (c.ctx h) c.stream (fun _ => turn) c.loop (c.iterate h turn) at iterated
  rw [ended] at iterated
  cases iterated with
  | panicked made panic isMade exit =>
      cases Option.some.inj panics
      cases isMade.booked h.init (c.ctx h) c.stream (fun _ => turn) with
      | refused resp commits low => exact ⟨resp, commits, low⟩
      | retried _ other | aborted other =>
          rw [exit] at other
          cases other
      | committed _ _ status => exact absurd exit status
  | refused | done | aborted | noBackoff | cut => cases panics

/-- `attempt` keeps the lease of the request until it is closed; it is not closed
exactly when a panic of `WriteHeader` ends the request. -/
theorem forwarded_cases (h : DirectChatHandler) (c : Client) (lease : Nat) (started : Int)
    (node : String) (exchange : Exchange) :
    (∃ verdict finished next, c.forwarded h lease started node exchange =
        { c with stage := .closing lease verdict finished next } ∧
        ∀ served, next = .inr served → served.panic ≠ some .invalidCode) ∨
      ∃ served, served.panic = some .invalidCode ∧
        c.forwarded h lease started node exchange =
          { c with stage := .ended served (some lease) } := by
  have booked := attempt_booked h.init (c.ctx h) c.stream started c.loop.attempt node
    exchange.requestFails exchange.upstream
  have panics : ∀ resp, Commits exchange.requestFails exchange.upstream resp → resp.status < 100 →
      verdicts (attempt h.init (c.ctx h) c.stream started c.loop.attempt node
        exchange.requestFails exchange.upstream).events = [] := by
    intro resp commits low
    rw [commits.attempt, commit_refused _ _ _ _ _ low]
    exact (headers_clientOnly resp node c.loop.attempt).verdicts
  simp only [Client.forwarded]
  generalize attempt h.init (c.ctx h) c.stream started c.loop.attempt node exchange.requestFails
    exchange.upstream = result at booked panics ⊢
  cases first : (verdicts result.events).head? with
  | some verdict =>
      refine Or.inl ⟨verdict, _, _, rfl, ?_⟩
      intro served ended invalid
      obtain ⟨resp, commits, low⟩ := iterate_panics ended invalid
      rw [panics resp commits low] at first
      cases first
  | none =>
      right
      have unclosed := head?_verdicts_none _ first
      cases booked with
      | retried _ _ closed _ | aborted _ _ closed _ | committed _ _ _ closed _ => omega
      | refused resp commits low _ _ _ =>
          obtain ⟨served, ended, panics⟩ := iterate_refused h c started node exchange resp commits
            low
          refine ⟨served, panics, ?_⟩
          rw [ended]
          rfl

/-! ## Steps -/

theorem isOpen_shapes (w : World n) (lease : Nat) :
    isOpen w lease ↔ (w.shapes[lease]?.any fun shape => shape.2) = true := by
  simp only [isOpen, World.shapes, List.getElem?_map, Option.any_map]
  rfl

theorem isOpen_congr {w w' : World n} (shapes : w'.shapes = w.shapes) : isOpen w' = isOpen w := by
  funext lease
  rw [eq_iff_iff, isOpen_shapes, isOpen_shapes, shapes]

theorem isOpen_snoc {w w' : World n} {i : Fin n} (shapes : w'.shapes = w.shapes ++ [(i, true)])
    (lease : Nat) : isOpen w' lease ↔ isOpen w lease ∨ lease = w.leases.length := by
  rw [isOpen_shapes, isOpen_shapes, shapes, ← Router.length_shapes]
  rcases Nat.lt_trichotomy lease w.shapes.length with before | rfl | after
  · rw [List.getElem?_append_left before]
    simp [before.ne]
  · simp
  · rw [List.getElem?_eq_none (by simp; omega), List.getElem?_eq_none (by omega)]
    simp [after.ne']

theorem stage_of_call {c : Client} {call : Nat} (sits : c.call = some call) :
    c.stage = .acquiring call := by
  unfold Client.call at sits
  cases stage : c.stage <;> simp_all

theorem answered_of_pending (w : World n) (index : Nat) (pending : w.isPending index = true) :
    w.answered index = none := by
  unfold World.isPending at pending
  unfold World.answered
  cases called : w.calls[index]? with
  | none => rfl
  | some call =>
      rw [called] at pending
      exact Router.Pc.lease_of_not_returned (by simpa using pending)

theorem lease_of_call (w : World n) {c : Client} {call : Nat} (sits : c.call = some call) :
    c.lease w = w.answered call := by
  unfold Client.lease
  rw [stage_of_call sits]

/-- When a call is answered, the one request that sits in it gets a lease. -/
theorem holding_answered {g : System n} (ledger : Ledger g) {w : World n} {index lease k : Nat}
    (owns : g.clients[k]?.bind Client.call = some index)
    (answered : ∀ call, w.answered call = if call = index then some lease else g.w.answered call) :
    (fun j : Nat => g.clients[j]?.bind (Client.lease w)) =
      Function.update (fun j : Nat => g.clients[j]?.bind (Client.lease g.w)) k (some lease) := by
  funext j
  by_cases here : j = k
  · subst here
    obtain ⟨c, found, sits⟩ := Option.bind_eq_some_iff.mp owns
    rw [Function.update_self, found, Option.bind_some, lease_of_call w sits, answered, if_pos rfl]
  · rw [Function.update_of_ne here]
    cases found : g.clients[j]? with
    | none => rfl
    | some c =>
        simp only [Option.bind_some, Client.lease]
        cases stage : c.stage with
        | acquiring call =>
            have apart : call ≠ index := by
              rintro rfl
              apply here
              apply ledger.calls.unique j k call _ owns
              simp [found, Client.call, stage]
            exact (answered call).trans (if_neg apart)
        | looping | forwarding _ _ | closing _ _ _ _ | ended _ _ => rfl

/-- The router grants a lease to the request whose call it was. -/
theorem Ledger.routed {g : System n} (ledger : Ledger g) {w : World n}
    (shifted : Router.Shifted g.w w) : Ledger { g with w := w } := by
  cases shifted with
  | kept shapes length answered pending =>
      constructor
      · refine ledger.calls.mono pending fun call inside => ?_
        simpa only [length] using inside
      · simp only [lease_congr answered, isOpen_congr shapes]
        exact ledger.leases
  | granted index i was shapes length answered pending =>
      constructor
      · refine ledger.calls.mono pending fun call inside => ?_
        simpa only [length] using inside
      · obtain ⟨k, owns⟩ := ledger.calls.covered index was
        obtain ⟨c, found, sits⟩ := Option.bind_eq_some_iff.mp owns
        have free : g.clients[k]?.bind (Client.lease g.w) = none := by
          rw [found, Option.bind_some, lease_of_call g.w sits, answered_of_pending g.w index was]
        have fresh : ¬ isOpen g.w g.w.leases.length := by simp [isOpen]
        simp only [holding_answered ledger owns answered]
        exact (ledger.leases.take k free g.w.leases.length fresh).mono
          (fun r live => (isOpen_snoc shapes r).mp live)
          fun r live => (isOpen_snoc shapes r).mpr live

theorem Ledger.entered {g : System n} (ledger : Ledger g) (opts : Options) {k : Nat} {c : Client}
    (found : g.clients[k]? = some c) (looping : c.stage = .looping) :
    Ledger
      ⟨{ g.w with calls := g.w.calls ++ [Call.enter opts c.request] },
        g.clients.set k { c with stage := .acquiring g.w.calls.length }⟩ := by
  have answered : ∀ call,
      { g.w with calls := g.w.calls ++ [Call.enter opts c.request] }.answered call =
        g.w.answered call := by
    intro call
    simp only [World.answered]
    rcases Nat.lt_trichotomy call g.w.calls.length with before | rfl | after
    · rw [List.getElem?_append_left before]
    · simp [Call.enter, Router.Pc.lease]
    · rw [List.getElem?_eq_none (by simp; omega), List.getElem?_eq_none (by omega)]
  constructor
  · simp only [holding_set found, Client.call]
    have free : g.clients[k]?.bind Client.call = none := by
      simp [found, Client.call, looping]
    refine (ledger.calls.take k free g.w.calls.length (by omega)).mono ?_ ?_
    · intro call pending
      rcases Nat.lt_trichotomy call g.w.calls.length with before | rfl | after
      · left
        simpa only [World.isPending, List.getElem?_append_left before] using pending
      · exact Or.inr rfl
      · rw [World.isPending, List.getElem?_eq_none (by simp; omega)] at pending
        cases pending
    · rintro call (inside | rfl)
      · simp only [List.length_append, List.length_singleton]
        omega
      · simp
  · rw [lease_congr answered, holding_set_same found]
    · exact ledger.leases
    · simp [Client.lease, looping, World.answered]

theorem Ledger.released {g : System n} (ledger : Ledger g) {k : Nat} {c : Client}
    (found : g.clients[k]? = some c) {index : Nat} {verdict : Option Bool} {finished : Int}
    {next : Loop ⊕ Served} (closing : c.stage = .closing index verdict finished next)
    {lease : Lease n} (leased : g.w.leases[index]? = some lease) :
    Ledger ⟨g.w.release index lease, g.clients.set k (c.resume none next)⟩ := by
  have within := (List.getElem?_eq_some_iff.mp leased).1
  constructor
  · rw [holding_set_same found]
    · exact ledger.calls
    · rw [resume_call, Client.call, closing]
  · have held : g.clients[k]?.bind (Client.lease g.w) = some index := by
      simp [found, Client.lease, closing]
    have live : ∀ r, isOpen (g.w.release index lease) r ↔ isOpen g.w r ∧ r ≠ index := by
      intro r
      simp only [isOpen, World.release]
      by_cases here : r = index
      · subst here
        simp [List.getElem?_set_self within, Lease.isOpen]
      · rw [List.getElem?_set_ne (Ne.symm here)]
        simp [here]
    have kept : Client.lease (g.w.release index lease) = Client.lease g.w :=
      lease_congr fun call => rfl
    rw [kept, holding_set found, resume_lease]
    exact (ledger.leases.drop k index held).mono (fun r => (live r).mp) fun r => (live r).mpr

theorem Ledger.step {h : DirectChatHandler} {rt : Runtime n} {opts : Options} {g next : System n}
    {move : Move n} (ledger : Ledger g) (moved : Moved h rt opts g move next) : Ledger next := by
  cases moved with
  | arrived prefixHash target stream clientGone =>
      constructor
      · rw [System.arrive, holding_append _ _ _ rfl]
        exact ledger.calls
      · rw [System.arrive, holding_append _ _ _ rfl]
        exact ledger.leases
  | entered k c found looping due more => exact ledger.entered opts found looping
  | exhausted k c found looping due spent =>
      apply ledger.keep found <;> simp [Client.call, Client.lease, looping]
  | granted k c found index acquiring call called lease returned =>
      apply ledger.answered found acquiring called (by rw [returned]; rfl)
      · rfl
      · simp [Client.lease, World.answered, called, returned, Router.Pc.lease]
  | refused k c found index acquiring call called err returned =>
      apply ledger.answered found acquiring called (by rw [returned]; rfl)
      · exact resume_call c none _
      · rw [resume_lease]
        simp [World.answered, called, returned, Router.Pc.lease]
  | forwarded k c found index started forwarding lease leased exchange =>
      rcases forwarded_cases h c index started (g.w.nodes lease.node).name exchange with
        ⟨verdict, finished, after, out, _⟩ | ⟨served, _, out⟩
      · rw [out]
        apply ledger.keep found <;> simp [Client.call, Client.lease, forwarding]
      · rw [out]
        apply ledger.keep found <;> simp [Client.call, Client.lease, forwarding]
  | closed k c found index verdict finished after closing due lease leased reported =>
      exact ledger.released found closing leased
  | routed action permitted w stepped =>
      apply ledger.routed
      apply (Router.step_stepped rt opts g.w w action stepped).shifted
      · rintro request rfl
        cases permitted
      · rintro lease rfl
        cases permitted

end

theorem ledger_of_reached {h : DirectChatHandler} {instances : List Router.Instance}
    {defaultMaxConcurrent : Int} {opts : Options} {rt : Runtime instances.length} {clock : Int}
    {moves : List (Move instances.length)} {g : System instances.length}
    (reached : Reached h instances defaultMaxConcurrent opts rt clock moves g) : Ledger g := by
  apply Runs.run_preserves (System.step h rt opts.clamp) Ledger _ moves _ g _ reached
  · intro g move next ledger stepped
    exact ledger.step (step_moved h rt opts.clamp g next move stepped)
  · constructor
    · constructor <;> simp [Router.new, World.idle, World.isPending]
    · constructor <;> simp [Router.new, World.idle, isOpen]

end RadixGates.Gateway
