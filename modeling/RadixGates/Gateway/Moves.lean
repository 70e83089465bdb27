import RadixGates.Gateway.System
import RadixGates.Lib.Simulation
import RadixGates.Router.Steps

/-!
# What one move of the gateway does

`Moved` says once what a move can do to the requests and to the router.  Seen
from the router, every run of the gateway is a run of the router.
-/

set_option autoImplicit false

namespace RadixGates.Gateway

open RadixGates.Router (Action AcquireError Options Runtime World)
open RadixGates.Handler

section
variable {n : Nat} (h : DirectChatHandler) (rt : Runtime n) (opts : Options)

inductive Moved (g : System n) : Move n → System n → Prop where
  | arrived (prefixHash target : String) (stream : Bool) (clientGone : Option Int) :
      Moved g (.arrive prefixHash target stream clientGone)
        (g.arrive prefixHash target stream clientGone)
  | entered (k : Nat) (c : Client) (found : g.clients[k]? = some c) (looping : c.stage = .looping)
      (due : c.loop.now ≤ g.w.clock) (more : (c.loop.attempt : Int) ≤ h.init.maxAttempts) :
      Moved g (.acquire k)
        ⟨{ g.w with calls := g.w.calls ++ [Router.Call.enter opts c.request] },
          g.clients.set k { c with stage := .acquiring g.w.calls.length }⟩
  | exhausted (k : Nat) (c : Client) (found : g.clients[k]? = some c)
      (looping : c.stage = .looping) (due : c.loop.now ≤ g.w.clock)
      (spent : h.init.maxAttempts < c.loop.attempt) :
      Moved g (.acquire k)
        (g.setClient k
          { c with
            stage := .ended
              ⟨c.loop.records, allFailed h.init.maxAttempts c.loop.lastReason, none⟩ none })
  | granted (k : Nat) (c : Client) (found : g.clients[k]? = some c) (index : Nat)
      (acquiring : c.stage = .acquiring index) (call : Router.Call)
      (called : g.w.calls[index]? = some call) (lease : Nat)
      (returned : call.pc = .returned (.ok lease)) :
      Moved g (.answer k) (g.setClient k { c with stage := .forwarding lease g.w.clock })
  | refused (k : Nat) (c : Client) (found : g.clients[k]? = some c) (index : Nat)
      (acquiring : c.stage = .acquiring index) (call : Router.Call)
      (called : g.w.calls[index]? = some call) (err : AcquireError)
      (returned : call.pc = .returned (.error err)) :
      Moved g (.answer k)
        (g.setClient k
          (c.resume none (c.iterate h (c.turn g.w.clock (refusal err) Exchange.none))))
  | forwarded (k : Nat) (c : Client) (found : g.clients[k]? = some c) (index : Nat)
      (started : Int) (forwarding : c.stage = .forwarding index started)
      (lease : Router.Lease n) (leased : g.w.leases[index]? = some lease) (exchange : Exchange) :
      Moved g (.forward k exchange)
        (g.setClient k (c.forwarded h index started (g.w.nodes lease.node).name exchange))
  | closed (k : Nat) (c : Client) (found : g.clients[k]? = some c) (index : Nat)
      (verdict : Option Bool) (finished : Int) (next : Loop ⊕ Served)
      (closing : c.stage = .closing index verdict finished next) (due : finished ≤ g.w.clock)
      (lease : Router.Lease n) (leased : g.w.leases[index]? = some lease)
      (reported : lease.phase = .reported) :
      Moved g (.close k) ⟨g.w.release index lease, g.clients.set k (c.resume none next)⟩
  | routed (action : Action n) (permitted : g.permits h action = true) (w : World n)
      (stepped : g.w.step rt opts action = some w) :
      Moved g (.router action) { g with w := w }

theorem acquire_moved (g next : System n) (k : Nat) (c : Client) (found : g.clients[k]? = some c)
    (stepped : g.acquire h rt opts k c = some next) : Moved h rt opts g (.acquire k) next := by
  unfold System.acquire at stepped
  cases stage : c.stage with
  | looping =>
      simp only [stage] at stepped
      split_ifs at stepped with due more
      · simp only [World.step, Option.map_some, Option.some.injEq] at stepped
        cases stepped
        exact .entered k c found stage due more
      · cases stepped
        exact .exhausted k c found stage due (by omega)
  | acquiring _ | forwarding _ _ | closing _ _ _ _ | ended _ _ =>
      simp only [stage] at stepped
      cases stepped

theorem answer_moved (g next : System n) (k : Nat) (c : Client) (found : g.clients[k]? = some c)
    (stepped : g.answer h k c = some next) : Moved h rt opts g (.answer k) next := by
  unfold System.answer at stepped
  cases stage : c.stage with
  | acquiring index =>
      simp only [stage] at stepped
      obtain ⟨call, called, answered⟩ := Option.bind_eq_some_iff.mp stepped
      cases pc : call.pc with
      | returned result =>
          cases result with
          | ok lease =>
              simp only [pc] at answered
              cases answered
              exact .granted k c found index stage call called lease pc
          | error err =>
              simp only [pc] at answered
              cases answered
              exact .refused k c found index stage call called err pc
      | deciding | blocked _ | leaving _ =>
          simp only [pc] at answered
          cases answered
  | looping | forwarding _ _ | closing _ _ _ _ | ended _ _ =>
      simp only [stage] at stepped
      cases stepped

theorem forward_moved (g next : System n) (k : Nat) (c : Client) (found : g.clients[k]? = some c)
    (exchange : Exchange) (stepped : g.forward h k c exchange = some next) :
    Moved h rt opts g (.forward k exchange) next := by
  unfold System.forward at stepped
  cases stage : c.stage with
  | forwarding index started =>
      simp only [stage] at stepped
      obtain ⟨lease, leased, rfl⟩ := Option.map_eq_some_iff.mp stepped
      exact .forwarded k c found index started stage lease leased exchange
  | looping | acquiring _ | closing _ _ _ _ | ended _ _ =>
      simp only [stage] at stepped
      cases stepped

theorem close_moved (g next : System n) (k : Nat) (c : Client) (found : g.clients[k]? = some c)
    (stepped : g.close rt opts k c = some next) : Moved h rt opts g (.close k) next := by
  unfold System.close at stepped
  cases stage : c.stage with
  | closing index verdict finished after =>
      simp only [stage] at stepped
      split_ifs at stepped with due
      obtain ⟨w, released, rfl⟩ := Option.map_eq_some_iff.mp stepped
      simp only [World.step] at released
      obtain ⟨lease, leased, once⟩ := Option.bind_eq_some_iff.mp released
      split_ifs at once with reported
      cases once
      exact .closed k c found index verdict finished after stage due lease leased reported
  | looping | acquiring _ | forwarding _ _ | ended _ _ =>
      simp only [stage] at stepped
      cases stepped

theorem step_moved (g next : System n) (move : Move n)
    (stepped : g.step h rt opts move = some next) : Moved h rt opts g move next := by
  cases move with
  | arrive prefixHash target stream clientGone =>
      cases Option.some.inj stepped
      exact .arrived prefixHash target stream clientGone
  | acquire k =>
      obtain ⟨c, found, moved⟩ := Option.bind_eq_some_iff.mp stepped
      exact acquire_moved h rt opts g next k c found moved
  | answer k =>
      obtain ⟨c, found, moved⟩ := Option.bind_eq_some_iff.mp stepped
      exact answer_moved h rt opts g next k c found moved
  | forward k exchange =>
      obtain ⟨c, found, moved⟩ := Option.bind_eq_some_iff.mp stepped
      exact forward_moved h rt opts g next k c found exchange moved
  | close k =>
      obtain ⟨c, found, moved⟩ := Option.bind_eq_some_iff.mp stepped
      exact close_moved h rt opts g next k c found moved
  | router action =>
      simp only [System.step] at stepped
      split_ifs at stepped with permitted
      obtain ⟨w, routed, rfl⟩ := Option.map_eq_some_iff.mp stepped
      exact .routed action permitted w routed

/-! ## The router of the gateway -/

theorem Moved.router {g next : System n} {move : Move n} (moved : Moved h rt opts g move next) :
    ∃ actions, Runs.run (World.step rt opts) g.w actions = some next.w := by
  have single : ∀ (action : Action n) (w : World n), g.w.step rt opts action = some w →
      Runs.run (World.step rt opts) g.w [action] = some w := by
    intro action w stepped
    simp [Runs.run, stepped]
  cases moved with
  | arrived | exhausted | granted | refused | forwarded => exact ⟨[], rfl⟩
  | entered k c found looping due more => exact ⟨[.acquire c.request], single _ _ rfl⟩
  | closed k c found index verdict finished next closing due lease leased reported =>
      refine ⟨[.release index], single _ _ ?_⟩
      simp [World.step, leased, reported]
  | routed action permitted w stepped => exact ⟨[action], single action w stepped⟩

end

theorem router_reached {h : DirectChatHandler} {instances : List Router.Instance}
    {defaultMaxConcurrent : Int} {opts : Options} {rt : Runtime instances.length} {clock : Int}
    {moves : List (Move instances.length)} {g : System instances.length}
    (reached : Reached h instances defaultMaxConcurrent opts rt clock moves g) :
    ∃ actions, Router.Reached instances defaultMaxConcurrent opts rt clock actions g.w := by
  obtain ⟨actions, w, ran, rfl⟩ := Runs.run_matched (System.step h rt opts.clamp)
    (World.step rt opts.clamp) (fun g w => g.w = w)
    (by
      rintro g move next _ rfl stepped
      obtain ⟨actions, ran⟩ := (step_moved h rt opts.clamp g next move stepped).router
      exact ⟨actions, next.w, ran, rfl⟩)
    moves ⟨Router.new instances defaultMaxConcurrent opts clock, []⟩ g _ rfl reached
  exact ⟨actions, ran⟩

end RadixGates.Gateway
