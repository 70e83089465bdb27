import RadixGates.Handler.Charges
import RadixGates.Router.System

/-!
# The gateway as a whole

Many requests at a time go through `DirectChatHandler.ServeHTTP`, and all of
them use one router.  A request here is one that was accepted for forwarding:
a `POST` whose body could be read, parsed and encoded again; the others never
touch the router.

A request is a goroutine.  Between its steps the other requests, the health
checks and the scrapes may do anything.  It enters `Acquire`, sees the answer,
makes its attempt, reports its lease to the breaker, releases the slot and goes
around the loop, as one iteration of the handler's loop says; the iteration is
the handler model's own.  A lease is reported without the router lock, so this
may also happen in the middle of a decision for another request.
-/

set_option autoImplicit false

namespace RadixGates.Gateway

open RadixGates.Router (Action AcquireError CtxErr Interference Options Request Runtime World)
open RadixGates.Handler

/-- Where the goroutine of a request is. -/
inductive Stage where
  /-- At the head of the retry loop. -/
  | looping
  /-- In `Acquire`. -/
  | acquiring (call : Nat)
  /-- In `attempt`, since the lease was granted. -/
  | forwarding (lease : Nat) (started : Int)
  /-- `attempt` has made up its mind about the lease; what follows is known. -/
  | closing (lease : Nat) (verdict : Option Bool) (finished : Int) (next : Loop ⊕ Served)
  /-- Done, with the lease that was never closed, if there is one. -/
  | ended (served : Served) (kept : Option Nat)
  deriving DecidableEq

structure Client where
  prefixHash : String
  target : String
  stream : Bool
  arrived : Int
  clientGone : Option Int
  loop : Loop
  stage : Stage
  deriving DecidableEq

/-- The router with every request that has arrived. -/
structure System (n : Nat) where
  w : World n
  clients : List Client

/-- What the outside world does to one attempt and the pause after it. -/
structure Exchange where
  requestFails : Bool
  upstream : Upstream
  jitter : Nat
  sleep : Sleep
  deriving DecidableEq

inductive Move (n : Nat) where
  | arrive (prefixHash target : String) (stream : Bool) (clientGone : Option Int)
  | acquire (client : Nat)
  | answer (client : Nat)
  | forward (client : Nat) (exchange : Exchange)
  | close (client : Nat)
  | router (action : Action n)

section
variable (h : DirectChatHandler)

def Client.ctx (c : Client) : Ctx := h.ctx c.arrived c.clientGone

/-- `Acquire` is always called without a filter. -/
def Client.request (c : Client) : Request := ⟨c.prefixHash, c.target, none, c.loop.exclude⟩

/-- The turn of the handler's loop in which `Acquire` answers this. -/
def Client.turn (c : Client) (now : Int) (answer : Answer) (exchange : Exchange) : Turn where
  acquire exclude :=
    if exclude = c.loop.exclude then ⟨(now - c.loop.now).toNat, answer⟩ else ⟨0, .noNode⟩
  requestFails := exchange.requestFails
  upstream := exchange.upstream
  jitter := exchange.jitter
  sleep := exchange.sleep

def Client.iterate (c : Client) (turn : Turn) : Loop ⊕ Served :=
  c.loop.iterate h.init (c.ctx h) c.stream fun _ => turn

def refusal : AcquireError → Answer
  | .noNode => .noNode
  | .queueFull => .queueFull
  | .queueTimeout => .queueTimeout
  | .ctx _ => .ctxDone

/-- Nothing is exchanged when `Acquire` fails. -/
def Exchange.none : Exchange := ⟨false, ⟨0, .none, 0⟩, 0, ⟨0, false⟩⟩

def Client.resume (c : Client) (kept : Option Nat) : Loop ⊕ Served → Client
  | .inl loop => { c with loop := loop, stage := .looping }
  | .inr served => { c with stage := .ended served kept }

/-- The end of `attempt`, on the node with this name. -/
def Client.forwarded (c : Client) (lease : Nat) (started : Int) (node : String)
    (exchange : Exchange) : Client :=
  let result := attempt h.init (c.ctx h) c.stream started c.loop.attempt node
    exchange.requestFails exchange.upstream
  let next := c.iterate h (c.turn started (.granted node) exchange)
  match (verdicts result.events).head? with
  | some verdict => { c with stage := .closing lease verdict result.now next }
  | none => c.resume (some lease) next

/-! ## What the others may do -/

/-- The request is about to report this about the lease. -/
def Client.reports (lease : Nat) (verdict : Option Bool) (c : Client) : Bool :=
  match c.stage with
  | .closing l v _ _ => decide (l = lease ∧ v = verdict)
  | _ => false

/-- The request's context has ended in this call. -/
def Client.givesUp (now : Int) (call : Nat) (cause : CtxErr) (c : Client) : Bool :=
  match c.stage with
  | .acquiring index => decide (index = call ∧ (c.ctx h).err now = some cause)
  | _ => false

section
variable {n : Nat}

/-- Leases are reported by the requests that hold them. -/
def System.backs (g : System n) : Interference n → Bool
  | .report lease verdict => g.clients.any (Client.reports lease verdict)
  | _ => true

/-- The steps of the router that are not steps of a request's goroutine. -/
def System.permits (g : System n) : Action n → Bool
  | .acquire _ | .release _ => false
  | .evaluate _ schedule => schedule.all fun steps => steps.all g.backs
  | .ctxDone call cause => g.clients.any (Client.givesUp h g.w.clock call cause)
  | .other step => g.backs step
  | _ => true

/-! ## Steps -/

variable (rt : Runtime n) (opts : Options)

def System.setClient (g : System n) (k : Nat) (c : Client) : System n :=
  { g with clients := g.clients.set k c }

def System.arrive (g : System n) (prefixHash target : String) (stream : Bool)
    (clientGone : Option Int) : System n :=
  { g with
    clients := g.clients ++
      [⟨prefixHash, target, stream, g.w.clock, clientGone, Loop.start g.w.clock, .looping⟩] }

/-- The head of the loop: the next `Acquire`, or the reply that all attempts
failed. -/
def System.acquire (g : System n) (k : Nat) (c : Client) : Option (System n) :=
  match c.stage with
  | .looping =>
      if c.loop.now ≤ g.w.clock then
        if (c.loop.attempt : Int) ≤ h.init.maxAttempts then
          (g.w.step rt opts (.acquire c.request)).map fun w =>
            ⟨w, g.clients.set k { c with stage := .acquiring g.w.calls.length }⟩
        else
          some (g.setClient k
            { c with
              stage := .ended
                ⟨c.loop.records, allFailed h.init.maxAttempts c.loop.lastReason, none⟩ none })
      else none
  | _ => none

def System.answer (g : System n) (k : Nat) (c : Client) : Option (System n) :=
  match c.stage with
  | .acquiring index =>
      g.w.calls[index]?.bind fun call =>
        match call.pc with
        | .returned (.ok lease) =>
            some (g.setClient k { c with stage := .forwarding lease g.w.clock })
        | .returned (.error err) =>
            some (g.setClient k
              (c.resume none (c.iterate h (c.turn g.w.clock (refusal err) Exchange.none))))
        | _ => none
  | _ => none

def System.forward (g : System n) (k : Nat) (c : Client) (exchange : Exchange) :
    Option (System n) :=
  match c.stage with
  | .forwarding index started =>
      g.w.leases[index]?.map fun lease =>
        g.setClient k (c.forwarded h index started (g.w.nodes lease.node).name exchange)
  | _ => none

/-- The release of the slot, once the lease was reported. -/
def System.close (g : System n) (k : Nat) (c : Client) : Option (System n) :=
  match c.stage with
  | .closing lease _ finished next =>
      if finished ≤ g.w.clock then
        (g.w.step rt opts (.release lease)).map fun w => ⟨w, g.clients.set k (c.resume none next)⟩
      else none
  | _ => none

def System.step (g : System n) : Move n → Option (System n)
  | .arrive prefixHash target stream clientGone =>
      some (g.arrive prefixHash target stream clientGone)
  | .acquire k => g.clients[k]?.bind fun c => g.acquire h rt opts k c
  | .answer k => g.clients[k]?.bind fun c => g.answer h k c
  | .forward k exchange => g.clients[k]?.bind fun c => g.forward h k c exchange
  | .close k => g.clients[k]?.bind fun c => g.close rt opts k c
  | .router action =>
      if g.permits h action then (g.w.step rt opts action).map fun w => { g with w := w } else none

end

end

/-- The states of a gateway whose router `New` has built. -/
def Reached (h : DirectChatHandler) (instances : List Router.Instance)
    (defaultMaxConcurrent : Int) (opts : Options) (rt : Runtime instances.length) (clock : Int)
    (moves : List (Move instances.length)) (g : System instances.length) : Prop :=
  Runs.run (System.step h rt opts.clamp)
    ⟨Router.new instances defaultMaxConcurrent opts clock, []⟩ moves = some g

end RadixGates.Gateway
