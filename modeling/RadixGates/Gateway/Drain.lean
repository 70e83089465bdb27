import RadixGates.Gateway.Accounts
import RadixGates.Gateway.Requests
import RadixGates.Lib.Progress
import Mathlib.Algebra.Order.BigOperators.Group.Finset

/-!
# Every request can end

A round of the retry loop is four steps of the request: it enters `Acquire`, sees
the answer, makes its attempt and gives the lease back.  So a request takes no
more steps than its rounds allow, in any interleaving.  And it is never stuck: the
router answers a call that it was left waiting in when the queue timer expires,
and every other step is up to the request.  When no new ones come, all of them
end, whatever the upstreams do.
-/

set_option autoImplicit false

namespace RadixGates.Gateway

open RadixGates.Handler
open RadixGates.Router (Action Call Lease Options Runtime World)

section
variable {n : Nat} (h : DirectChatHandler)

/-- The move is a step of this request's goroutine. -/
def Move.isOf (k : Nat) : Move n → Bool
  | .acquire client | .answer client | .forward client _ | .close client => client == k
  | .arrive _ _ _ _ | .router _ => false

/-- Nobody comes any more, and the outside world treats each attempt like this; it
may know all that has happened so far. -/
def System.Drains (outside : System n → Nat → Exchange) (g : System n) : Move n → Prop
  | .arrive _ _ _ _ => False
  | .forward client exchange => exchange = outside g client
  | _ => True

/-! ## The steps that are left -/

def Loop.rounds (loop : Loop) : Nat := (h.init.maxAttempts + 1 - loop.attempt).toNat

def Client.left (c : Client) : Nat :=
  match c.stage with
  | .looping => 4 * Loop.rounds h c.loop + 1
  | .acquiring _ => 4 * Loop.rounds h c.loop
  | .forwarding _ _ => 4 * Loop.rounds h c.loop - 1
  | .closing _ _ _ (.inl loop) => 4 * Loop.rounds h loop + 2
  | .closing _ _ _ (.inr _) => 1
  | .ended _ _ => 0

/-- A request that has not arrived has all its rounds before it. -/
def System.left (g : System n) (k : Nat) : Nat :=
  match g.clients[k]? with
  | some c => c.left h
  | none => 4 * h.init.maxAttempts.toNat + 1

variable {h}

theorem Client.left_resume (c : Client) (kept : Option Nat) (next : Loop ⊕ Served) :
    (c.resume kept next).left h =
      match next with
      | .inl loop => 4 * Loop.rounds h loop + 1
      | .inr _ => 0 := by
  cases next <;> rfl

theorem rounds_iterate {c : Client} (inside : (c.loop.attempt : Int) ≤ h.init.maxAttempts)
    {turn : Turn} {loop : Loop} (again : c.iterate h turn = .inl loop) :
    Loop.rounds h loop + 1 = Loop.rounds h c.loop := by
  have next : c.loop.Next h.init (c.ctx h) c.stream (fun _ => turn) loop := ⟨inside, again⟩
  have counted := next.attempt
  unfold Loop.rounds
  omega

theorem left_iterate {c : Client} (inside : (c.loop.attempt : Int) ≤ h.init.maxAttempts)
    (turn : Turn) (kept : Option Nat) :
    (c.resume kept (c.iterate h turn)).left h + 3 ≤ 4 * Loop.rounds h c.loop := by
  have positive : 1 ≤ Loop.rounds h c.loop := by
    unfold Loop.rounds
    omega
  rw [Client.left_resume]
  cases again : c.iterate h turn with
  | inl loop =>
      have fewer := rounds_iterate inside again
      dsimp only
      omega
  | inr served =>
      dsimp only
      omega

theorem left_forwarded {c : Client} (inside : (c.loop.attempt : Int) ≤ h.init.maxAttempts)
    (lease : Nat) (started : Int) (node : String) (exchange : Exchange) :
    (c.forwarded h lease started node exchange).left h + 2 ≤ 4 * Loop.rounds h c.loop := by
  have positive : 1 ≤ Loop.rounds h c.loop := by
    unfold Loop.rounds
    omega
  simp only [Client.forwarded]
  split
  · cases again : c.iterate h (c.turn started (.granted node) exchange) with
    | inl loop =>
        have fewer := rounds_iterate inside again
        simp only [Client.left]
        omega
    | inr served =>
        simp only [Client.left]
        omega
  · have := left_iterate inside (c.turn started (.granted node) exchange) (some lease)
    omega

theorem left_set {g : System n} {j : Nat} {c : Client} (found : g.clients[j]? = some c)
    (w : World n) (c' : Client) (k : Nat) :
    (System.mk w (g.clients.set j c')).left h k = if j = k then c'.left h else g.left h k := by
  have within := (List.getElem?_eq_some_iff.mp found).1
  unfold System.left
  by_cases here : j = k
  · subst here
    simp [List.getElem?_set_self within]
  · rw [if_neg here]
    simp [List.getElem?_set_ne here]

/-- One request gets closer to its end, and the others stay where they are. -/
theorem left_of_set {g : System n} {j : Nat} {c : Client} (found : g.clients[j]? = some c)
    (w : World n) (c' : Client) (closer : c'.left h + 1 ≤ c.left h) (k : Nat) (move : Move n)
    (own : move.isOf k = (j == k)) :
    (System.mk w (g.clients.set j c')).left h k + (if move.isOf k then 1 else 0) ≤ g.left h k := by
  rw [left_set found, own]
  by_cases here : j = k
  · subst here
    simpa [System.left, found] using closer
  · simp [here]

theorem Moved.left {rt : Runtime n} {opts : Options} {owner : List Nat} {g next : System n}
    {move : Move n} (followed : Followed h rt opts owner g) (moved : Moved h rt opts g move next)
    (k : Nat) :
    next.left h k + (if move.isOf k then 1 else 0) ≤ g.left h k := by
  have inside : ∀ (j : Nat) (c : Client), g.clients[j]? = some c → ∀ index,
      c.stage = .acquiring index → (c.loop.attempt : Int) ≤ h.init.maxAttempts := by
    intro j c found index acquiring
    obtain ⟨_, _, _, _, inside, _⟩ := (followed.clients j c found).inAcquire acquiring
    exact inside
  cases moved with
  | arrived prefixHash target stream clientGone =>
      simp only [Move.isOf, System.left, System.arrive]
      rcases Nat.lt_trichotomy k g.clients.length with before | rfl | after
      · simp [List.getElem?_append_left before]
      · simp [Client.left, Loop.rounds, Loop.start]
      · rw [List.getElem?_eq_none (by simp; omega), List.getElem?_eq_none (by omega)]
        simp
  | entered j c found looping due more =>
      apply left_of_set found _ _ _ k
      · rfl
      · simp [Client.left, looping]
  | exhausted j c found looping due spent =>
      apply left_of_set found _ _ _ k
      · rfl
      · simp [Client.left, looping]
  | granted j c found index acquiring call called lease returned =>
      apply left_of_set found _ _ _ k
      · rfl
      · have := inside j c found index acquiring
        simp only [Client.left, acquiring, Loop.rounds]
        omega
  | refused j c found index acquiring call called err returned =>
      apply left_of_set found _ _ _ k
      · rfl
      · have closer := left_iterate (inside j c found index acquiring)
          (c.turn g.w.clock (refusal err) Exchange.none) none
        simp only [Client.left, acquiring] at closer ⊢
        omega
  | forwarded j c found index started forwarding lease leased exchange =>
      apply left_of_set found _ _ _ k
      · rfl
      · obtain ⟨_, _, _, _, _, inside, _⟩ := (followed.clients j c found).inAttempt forwarding
        have closer := left_forwarded inside index started (g.w.nodes lease.node).name exchange
        have here : c.left h = 4 * Loop.rounds h c.loop - 1 := by
          simp only [Client.left, forwarding]
        omega
  | closed j c found index verdict finished after closing due lease leased reported =>
      apply left_of_set found _ _ _ k
      · rfl
      · rw [Client.left_resume]
        cases after <;> simp [Client.left, closing]
  | routed action permitted w stepped => simp [Move.isOf, System.left]

/-! ## No request is stuck -/

/-- A step of the router that no request has to agree to. -/
def free (action : Action n) : Prop := ∀ g : System n, g.permits h action = true

theorem run_router (rt : Runtime n) (opts : Options) (actions : List (Action n))
    (allowed : ∀ action ∈ actions, free (h := h) action) (g : System n) (w : World n)
    (ran : Runs.run (World.step rt opts) g.w actions = some w) :
    Runs.run (System.step h rt opts) g (actions.map Move.router) = some { g with w := w } := by
  induction actions generalizing g with
  | nil =>
      cases Option.some.inj ran
      rfl
  | cons action rest ih =>
      obtain ⟨next, stepped, rested⟩ := (Runs.run_cons_some _ _ _ _ _).mp ran
      apply (Runs.run_cons_some _ _ _ _ _).mpr
      refine ⟨{ g with w := next }, ?_, ?_⟩
      · simp [System.step, allowed action List.mem_cons_self g, stepped]
      · exact ih (fun later member => allowed later (List.mem_cons_of_mem action member))
          { g with w := next } rested

/-- The router can be brought to answer the call without any request's help. -/
def CanAnswer (h : DirectChatHandler) (rt : Runtime n) (opts : Options) (index : Nat)
    (w : World n) : Prop :=
  ∃ actions w' call, (∀ action ∈ actions, free (h := h) action) ∧
    Runs.run (World.step rt opts) w actions = some w' ∧ w'.calls[index]? = some call ∧
      call.pc.isReturned = true

theorem CanAnswer.before {rt : Runtime n} {opts : Options} {index : Nat} {w next : World n}
    (can : CanAnswer h rt opts index next) {action : Action n} (allowed : free (h := h) action)
    (stepped : w.step rt opts action = some next) : CanAnswer h rt opts index w := by
  obtain ⟨actions, w', call, every, ran, called⟩ := can
  refine ⟨action :: actions, w', call, ?_, ?_, called⟩
  · intro a member
    rcases List.mem_cons.mp member with rfl | later
    · exact allowed
    · exact every a later
  · exact (Runs.run_cons_some _ _ _ _ _).mpr ⟨next, stepped, ran⟩

theorem canAnswer_returned (rt : Runtime n) (opts : Options) {index : Nat} {w : World n}
    {call : Call} (called : w.calls[index]? = some call) (returned : call.pc.isReturned = true) :
    CanAnswer h rt opts index w :=
  ⟨[], w, call, by simp, rfl, called, returned⟩

theorem canAnswer_leaving (rt : Runtime n) (opts : Options) {index : Nat} {w : World n}
    {call : Call} (called : w.calls[index]? = some call) {err : Router.AcquireError}
    (leaving : call.pc = .leaving err) : CanAnswer h rt opts index w := by
  have within := (List.getElem?_eq_some_iff.mp called).1
  have stepped : w.step rt opts (.leave index) =
      some ({ w with waiting := w.waiting - 1 }.setCall index
        { call with pc := .returned (.error err) }) := by
    simp [World.step, called, leaving]
  refine CanAnswer.before ?_ (fun _ => rfl) stepped
  exact canAnswer_returned rt opts (List.getElem?_set_self within) rfl

/-- The queue timer ends the wait. -/
theorem canAnswer_blocked (rt : Runtime n) (opts : Options) {index : Nat} {w : World n}
    {call : Call} (called : w.calls[index]? = some call) {channel : Nat}
    (blocked : call.pc = .blocked channel) : CanAnswer h rt opts index w := by
  have within := (List.getElem?_eq_some_iff.mp called).1
  have stepped : w.step rt opts (.queueExpired index) =
      some (w.setCall index { call with pc := .leaving .queueTimeout }) := by
    simp [World.step, called, blocked]
  refine CanAnswer.before ?_ (fun _ => rfl) stepped
  exact canAnswer_leaving rt opts (List.getElem?_set_self within) rfl

theorem canAnswer (rt : Runtime n) (opts : Options) {index : Nat} {w : World n} {call : Call}
    (called : w.calls[index]? = some call) : CanAnswer h rt opts index w := by
  cases pc : call.pc with
  | returned result => exact canAnswer_returned rt opts called (by rw [pc]; rfl)
  | leaving err => exact canAnswer_leaving rt opts called pc
  | blocked channel => exact canAnswer_blocked rt opts called pc
  | deciding =>
      have stepped : w.step rt opts (.evaluate index []) =
          some (w.evaluate rt opts index call []) := by
        simp [World.step, called, pc]
      refine CanAnswer.before ?_ (fun _ => rfl) stepped
      have passed := Router.evaluate_passed rt opts w index call []
      have same := (Router.decision_sameQueue rt opts w call []).calls
      have within : index < (w.decision rt opts call []).1.w.calls.length := by
        rw [same]
        exact (List.getElem?_eq_some_iff.mp called).1
      generalize w.evaluate rt opts index call [] = next at passed ⊢
      generalize (w.decision rt opts call []).2 = pick at passed
      cases passed with
      | granted lease | noNode =>
          refine canAnswer_returned rt opts (List.getElem?_set_self ?_) rfl
          rw [Router.dequeue_calls]
          exact within
      | queueFull waits fresh full =>
          exact canAnswer_returned rt opts (List.getElem?_set_self within) rfl
      | blocked waits affinity room =>
          refine canAnswer_blocked rt opts (List.getElem?_set_self ?_) rfl
          rw [Router.enqueue_calls]
          exact within

theorem leased_of_open {w : World n} {index : Nat} (live : isOpen w index) :
    ∃ lease, w.leases[index]? = some lease ∧ lease.phase ≠ .closed := by
  unfold isOpen at live
  cases leased : w.leases[index]? with
  | none => simp [leased] at live
  | some lease =>
      rw [leased] at live
      exact ⟨lease, rfl, by simpa [Lease.isOpen] using live⟩

/-- Once the lease is reported its slot can be released. -/
theorem reported_of_report {w : World n} {index : Nat} (verdict : Option Bool) {lease : Lease n}
    (leased : w.leases[index]? = some lease) (live : lease.phase ≠ .closed) :
    ∃ lease', (w.report index verdict).leases[index]? = some lease' ∧
      lease'.phase = .reported := by
  have within := (List.getElem?_eq_some_iff.mp leased).1
  simp only [World.report, leased]
  by_cases granted : lease.phase = .granted
  · rw [if_pos granted]
    exact ⟨{ lease with phase := .reported }, List.getElem?_set_self within, rfl⟩
  · rw [if_neg granted]
    refine ⟨lease, leased, ?_⟩
    cases phase : lease.phase <;> simp_all

/-- The request can be brought to its next step, whatever it exchanges with the
upstream. -/
def CanMove (h : DirectChatHandler) (rt : Runtime n) (opts : Options)
    (outside : System n → Nat → Exchange) (g : System n) (k : Nat) : Prop :=
  ∃ moves next, Runs.run (System.step h rt opts) g moves = some next ∧
    Runs.Along (System.step h rt opts) (System.Drains outside) g moves ∧
    1 ≤ moves.countP (Move.isOf k)

/-- Steps of the router, and then the one of the request. -/
theorem canMove_snoc {rt : Runtime n} {opts : Options} {outside : System n → Nat → Exchange}
    {g middle : System n} {k : Nat} (before : List (Action n)) (last : Move n)
    (ran : Runs.run (System.step h rt opts) g (before.map .router) = some middle)
    (enabled : (middle.step h rt opts last).isSome = true) (drains : middle.Drains outside last)
    (own : last.isOf k = true) : CanMove h rt opts outside g k := by
  obtain ⟨next, stepped⟩ := Option.isSome_iff_exists.mp enabled
  refine ⟨before.map .router ++ [last], next, Runs.run_snoc _ _ _ _ _ _ ran stepped, ?_, ?_⟩
  · apply Runs.along_concat _ _ _ _ g middle ran
    · apply Runs.along_of_forall
      intro move member state
      obtain ⟨action, _, rfl⟩ := List.mem_map.mp member
      trivial
    · exact ⟨drains, fun _ _ => trivial⟩
  · rw [List.countP_append, List.countP_singleton, if_pos own]
    omega

variable {rt : Runtime n} {opts : Options} {g : System n} {k : Nat} {c : Client}

/-- At the head of the loop, once the backoff is over. -/
theorem canMove_looping (outside : System n → Nat → Exchange) (found : g.clients[k]? = some c)
    (looping : c.stage = .looping) : CanMove h rt opts outside g k := by
  have late : c.loop.now ≤ g.w.clock + ((c.loop.now - g.w.clock).toNat : Int) := by omega
  have ticked : Runs.run (System.step h rt opts) g
      ([.other (.tick (c.loop.now - g.w.clock).toNat)].map .router) =
        some { g with
          w := { g.w with clock := g.w.clock + ((c.loop.now - g.w.clock).toNat : Int) } } := rfl
  refine canMove_snoc _ (.acquire k) ticked ?_ trivial (by simp [Move.isOf])
  simp only [System.step, found, Option.bind_some, System.acquire, looping, if_pos late]
  split
  · rfl
  · rfl

/-- In `Acquire`, which can answer in any case. -/
theorem canMove_acquiring (outside : System n → Nat → Exchange) (found : g.clients[k]? = some c)
    {index : Nat} (acquiring : c.stage = .acquiring index) {call : Call}
    (called : g.w.calls[index]? = some call) : CanMove h rt opts outside g k := by
  obtain ⟨actions, w', call', allowed, ran, called', returned⟩ := canAnswer (h := h) rt opts called
  refine canMove_snoc _ (.answer k) (run_router rt opts actions allowed g w' ran) ?_ trivial
    (by simp [Move.isOf])
  simp only [System.step, found, Option.bind_some, System.answer, acquiring, called']
  cases pc : call'.pc with
  | returned result => cases result <;> rfl
  | deciding | blocked _ | leaving _ => simp [pc, Router.Pc.isReturned] at returned

theorem canMove_forwarding (outside : System n → Nat → Exchange) (found : g.clients[k]? = some c)
    {index : Nat} {started : Int} (forwarding : c.stage = .forwarding index started)
    {lease : Lease n} (leased : g.w.leases[index]? = some lease) :
    CanMove h rt opts outside g k := by
  refine canMove_snoc [] (.forward k (outside g k)) rfl ?_ rfl (by simp [Move.isOf])
  simp [System.step, found, System.forward, forwarding, leased]

/-- The lease is reported and released when the attempt is over. -/
theorem canMove_closing (outside : System n → Nat → Exchange) (found : g.clients[k]? = some c)
    {index : Nat} {verdict : Option Bool} {finished : Int} {after : Loop ⊕ Served}
    (closing : c.stage = .closing index verdict finished after) {lease : Lease n}
    (leased : g.w.leases[index]? = some lease) (live : lease.phase ≠ .closed) :
    CanMove h rt opts outside g k := by
  obtain ⟨lease', leased', reported⟩ := reported_of_report verdict leased live
  have reports : g.permits h (.other (.report index verdict)) = true := by
    simp only [System.permits, System.backs, List.any_eq_true]
    exact ⟨c, List.mem_of_getElem? found, by simp [Client.reports, closing]⟩
  have ran : Runs.run (System.step h rt opts) g
      ([.other (.report index verdict),
        .other (.tick (finished - (g.w.report index verdict).clock).toNat)].map .router) =
      some { g with
        w := { g.w.report index verdict with
          clock := (g.w.report index verdict).clock +
            ((finished - (g.w.report index verdict).clock).toNat : Int) } } := by
    simp only [List.map_cons, Runs.run, System.step, if_pos reports]
    rfl
  refine canMove_snoc _ (.close k) ran ?_ trivial (by simp [Move.isOf])
  have due : finished ≤ (g.w.report index verdict).clock +
      ((finished - (g.w.report index verdict).clock).toNat : Int) := by omega
  simp only [System.step, found, Option.bind_some, System.close, closing, if_pos due, World.step,
    leased', if_pos reported, Option.map_some, Option.isSome_some]

/-- What every move keeps. -/
def Kept (h : DirectChatHandler) (rt : Runtime n) (opts : Options) (g : System n) : Prop :=
  Ledger g ∧ ∃ owner, Followed h rt opts owner g

/-- Each request that is not over can be brought to its next step. -/
theorem request_moves (kept : Kept h rt opts g) (found : g.clients[k]? = some c)
    (unfinished : c.isOver = false) (outside : System n → Nat → Exchange) :
    CanMove h rt opts outside g k := by
  obtain ⟨ledger, owner, followed⟩ := kept
  have leases : ∀ index, c.lease g.w = some index →
      ∃ lease, g.w.leases[index]? = some lease ∧ lease.phase ≠ .closed := by
    intro index holds
    apply leased_of_open (ledger.leases.within k index _)
    simp [found, holds]
  cases followed.clients k c found with
  | looping stage => exact canMove_looping outside found stage
  | acquiring _ index _ stage _ _ call called => exact canMove_acquiring outside found stage called
  | forwarding _ _ index started _ stage =>
      obtain ⟨lease, leased, _⟩ := leases index (by simp [Client.lease, stage])
      exact canMove_forwarding outside found stage leased
  | closing index verdict finished after stage =>
      obtain ⟨lease, leased, live⟩ := leases index (by simp [Client.lease, stage])
      exact canMove_closing outside found stage leased live
  | ended served kept stage => simp [Client.isOver, stage] at unfinished

/-! ## Runs -/

theorem Kept.step {next : System n} {move : Move n} (kept : Kept h rt opts g)
    (stepped : g.step h rt opts move = some next) : Kept h rt opts next := by
  have moved := step_moved h rt opts g next move stepped
  obtain ⟨ledger, owner, followed⟩ := kept
  exact ⟨ledger.step moved, _, followed.step moved⟩

theorem left_of_run {final : System n} {moves : List (Move n)} (kept : Kept h rt opts g)
    (ran : Runs.run (System.step h rt opts) g moves = some final) (k : Nat) :
    final.left h k + moves.countP (Move.isOf k) ≤ g.left h k := by
  apply Runs.run_bounded (System.step h rt opts) (Kept h rt opts) (Move.isOf k)
    (fun g => g.left h k) _ _ moves g final kept ran
  · exact fun _ _ _ kept stepped => kept.step stepped
  · rintro g move next ⟨_, owner, followed⟩ stepped
    exact (step_moved h rt opts g next move stepped).left followed k

theorem clients_of_drain {final : System n} {moves : List (Move n)}
    {outside : System n → Nat → Exchange}
    (drains : Runs.Along (System.step h rt opts) (System.Drains outside) g moves)
    (ran : Runs.run (System.step h rt opts) g moves = some final) :
    final.clients.length = g.clients.length := by
  apply Runs.run_preserves_along (System.step h rt opts)
    (fun now => now.clients.length = g.clients.length) (System.Drains outside) _ moves g final rfl
    drains ran
  intro now move next same drains stepped
  rw [← same]
  cases step_moved h rt opts now next move stepped with
  | arrived => cases drains
  | entered | exhausted | granted | refused | forwarded | closed => simp [System.setClient]
  | routed => rfl

/-- The steps that are left to all requests together. -/
def System.allLeft (h : DirectChatHandler) (g : System n) : Nat :=
  ∑ k ∈ Finset.range g.clients.length, g.left h k

theorem drain_advances (kept : Kept h rt opts g) (outside : System n → Nat → Exchange) :
    (∀ c ∈ g.clients, c.isOver = true) ∨
      ∃ moves next, Runs.run (System.step h rt opts) g moves = some next ∧
        Runs.Along (System.step h rt opts) (System.Drains outside) g moves ∧
          Kept h rt opts next ∧
          next.allLeft h < g.allLeft h := by
  by_cases finished : ∀ c ∈ g.clients, c.isOver = true
  · exact Or.inl finished
  right
  push Not at finished
  obtain ⟨c, member, unfinished⟩ := finished
  obtain ⟨k, found⟩ := List.mem_iff_getElem?.mp member
  have within := (List.getElem?_eq_some_iff.mp found).1
  obtain ⟨moves, next, ran, drains, own⟩ :=
    request_moves kept found (by simpa using unfinished) outside
  refine ⟨moves, next, ran, drains, ?_, ?_⟩
  · exact Runs.run_preserves _ (Kept h rt opts) (fun _ _ _ kept stepped => kept.step stepped) moves
      g next kept ran
  · unfold System.allLeft
    rw [clients_of_drain drains ran]
    apply Finset.sum_lt_sum
    · intro j _
      have := left_of_run kept ran j
      omega
    · refine ⟨k, Finset.mem_range.mpr within, ?_⟩
      have := left_of_run kept ran k
      omega

end

/-- A request takes at most four steps a round and one more, in any interleaving;
and from every state that the gateway reaches, without new requests, all of them
can end, whatever each of their attempts exchanges with its upstream. -/
theorem requests_end (h : DirectChatHandler) (instances : List Router.Instance)
    (defaultMaxConcurrent : Int) (opts : Options) (rt : Runtime instances.length) (clock : Int)
    (moves : List (Move instances.length)) (g : System instances.length)
    (reached : Reached h instances defaultMaxConcurrent opts rt clock moves g) :
    (∀ k, moves.countP (Move.isOf k) ≤ 4 * h.init.maxAttempts.toNat + 1) ∧
      ∀ outside : System instances.length → Nat → Exchange, ∃ more final,
        Runs.Along (System.step h rt opts.clamp) (System.Drains outside) g more ∧
        Reached h instances defaultMaxConcurrent opts rt clock (moves ++ more) final ∧
        final.clients.length = g.clients.length ∧ ∀ c ∈ final.clients, c.isOver = true := by
  have atStart : Reached h instances defaultMaxConcurrent opts rt clock []
      ⟨Router.new instances defaultMaxConcurrent opts clock, []⟩ := rfl
  have fresh : Kept h rt opts.clamp ⟨Router.new instances defaultMaxConcurrent opts clock, []⟩ :=
    ⟨ledger_of_reached atStart, _, followed_of_reached atStart⟩
  have kept : Kept h rt opts.clamp g :=
    ⟨ledger_of_reached reached, _, followed_of_reached reached⟩
  refine ⟨?_, ?_⟩
  · intro k
    have spent := left_of_run fresh reached k
    simp only [System.left, List.getElem?_nil] at spent
    omega
  · intro outside
    obtain ⟨more, final, ran, drains, _, finished⟩ := Runs.run_until (System.step h rt opts.clamp)
      (Kept h rt opts.clamp) (fun g => ∀ c ∈ g.clients, c.isOver = true)
      (System.Drains outside) (System.allLeft h)
      (fun g kept => drain_advances kept outside) g kept
    refine ⟨more, final, drains, ?_, clients_of_drain drains ran, finished⟩
    unfold Reached
    rw [Runs.run_append, reached]
    exact ran

/-- Connections are refused in the first attempt of a request only. -/
def refusedFirst (g : System 1) (k : Nat) : Exchange :=
  match g.clients[k]? with
  | some c => if c.loop.attempt = 1 then Exchange.none else plainAnswer
  | none => plainAnswer

/-- One request has its answer and one is in the queue; both can end. -/
theorem requests_end_after_twoClients :
    ∃ (g : System 1) (more : List (Move 1)) (final : System 1),
      Reached defaultHandler Router.oneSlot 0 Router.breakerOptions (Runtime.exact 1) 0 twoClients
        g ∧
      Reached defaultHandler Router.oneSlot 0 Router.breakerOptions (Runtime.exact 1) 0
          (twoClients ++ more) final ∧
        final.clients.length = 2 ∧ (∀ c ∈ final.clients, c.isOver = true) ∧
        Runs.Along (System.step defaultHandler (Runtime.exact 1) Router.breakerOptions.clamp)
          (System.Drains refusedFirst) g more := by
  have evaluated : (Runs.run (System.step defaultHandler (Runtime.exact 1)
      Router.breakerOptions.clamp) ⟨Router.new Router.oneSlot 0 Router.breakerOptions 0, []⟩
        twoClients).map (fun g : System 1 => g.clients.length) = some 2 := by
    decide +kernel
  obtain ⟨g, reached, two⟩ := Option.map_eq_some_iff.mp evaluated
  obtain ⟨_, drain⟩ := requests_end defaultHandler Router.oneSlot 0 Router.breakerOptions
    (Runtime.exact 1) 0 twoClients g reached
  obtain ⟨more, final, drains, ended, same, finished⟩ := drain refusedFirst
  exact ⟨g, more, final, reached, ended, same.trans two, finished, drains⟩

end RadixGates.Gateway
