import RadixGates.Lib.Runs
import RadixGates.Router.Pool

/-!
# Concurrent `Acquire` calls and leases

The router as a system of goroutines.  A step is one critical section of the
router lock or one step outside it; between two steps anything may happen,
and inside a decision the schedule of `Eval` says what happens without the
lock.  `Acquire` is split where the source gives up the lock: it decides, then
sits in the `select` on the channel it captured, then either decides again or
leaves the queue.
-/

set_option autoImplicit false

namespace RadixGates.Router

@[ext]
structure Instance where
  group : String
  host : String
  port : Int
  maxConcurrent : Int
  role : String
  deriving DecidableEq, Repr

def hostPort (host : String) (port : Int) : String := host ++ ":" ++ toString port

def Options.clamp (opts : Options) : Options :=
  { opts with
    boundedLoadFactor := if opts.boundedLoadFactor < 1 then 1 else opts.boundedLoadFactor
    affinityFloor := if opts.affinityFloor < 1 then 1 else opts.affinityFloor }

def newNode (inst : Instance) (defaultMaxConcurrent : Int) (opts : Options) : Node where
  group := inst.group
  role := inst.role
  name := hostPort inst.host inst.port
  maxConcurrent := if inst.maxConcurrent ≤ 0 then defaultMaxConcurrent else inst.maxConcurrent
  inflight := 0
  placed := 0
  up := true
  br := opts.breaker.map Breaker.new

def World.idle {n : Nat} (clock : Int) (nodes : Fin n → Node) : World n where
  clock := clock
  nodes := nodes
  waiting := 0
  notify := 0
  placeMap := fun _ => none
  placeLRU := []
  nextElement := 0
  leases := []
  calls := []

def new (instances : List Instance) (defaultMaxConcurrent : Int) (opts : Options) (clock : Int) :
    World instances.length :=
  World.idle clock fun i => newNode (instances.get i) defaultMaxConcurrent opts.clamp

section
variable {n : Nat}

def Call.enter (opts : Options) (request : Request) : Call where
  request := request
  hold := decide (0 < opts.affinityWait)
  queued := false
  affinity := false
  pc := .deciding

def World.setCall (w : World n) (index : Nat) (call : Call) : World n :=
  { w with calls := w.calls.set index call }

/-- The critical section that ends a queued call also takes it off the queue. -/
def World.dequeue (w : World n) (call : Call) : World n :=
  if call.queued then { w with waiting := w.waiting - 1 } else w

/-- One pass of the loop of `Acquire`, from taking the lock to giving it up. -/
def World.evaluate (rt : Runtime n) (opts : Options) (w : World n) (index : Nat) (call : Call)
    (schedule : List (List (Interference n))) : World n :=
  let request := call.request
  let filter := request.filter.getD entryPoint
  let decided := tryPickLocked rt opts (hashString request.prefixHash) request.targetGroup filter
    request.exclude call.hold ⟨w, schedule⟩
  let w := decided.1.w
  let wait := fun (preferredBusy : Bool) =>
    if call.queued = false ∧ opts.maxQueue ≤ w.waiting then
      w.setCall index { call with pc := .returned (.error .queueFull) }
    else
      let w := if call.queued then w else { w with waiting := w.waiting + 1 }
      w.setCall index
        { call with
          queued := true
          affinity := call.affinity || preferredBusy
          pc := .blocked w.notify }
  match decided.2 with
  | .granted lease => (w.dequeue call).setCall index { call with pc := .returned (.ok lease) }
  | .noNode => (w.dequeue call).setCall index { call with pc := .returned (.error .noNode) }
  | .atCapacity => wait false
  | .preferredBusy => wait true

/-- `Router.release`, the part of `Lease.Done` and `Lease.Release` under the
router lock. -/
def World.release (w : World n) (index : Nat) (lease : Lease n) : World n :=
  let node := w.nodes lease.node
  { w.setNode lease.node { node with inflight := node.inflight - 1 } with
    notify := w.notify + 1
    leases := w.leases.set index { lease with phase := .closed } }

inductive Action (n : Nat) where
  /-- A goroutine calls `Acquire`. -/
  | acquire (request : Request)
  /-- A deciding call takes the lock. -/
  | evaluate (call : Nat) (schedule : List (List (Interference n)))
  /-- `case <-ch`. -/
  | wake (call : Nat)
  /-- `case <-affinity`. -/
  | affinityExpired (call : Nat)
  /-- `case <-deadline`. -/
  | queueExpired (call : Nat)
  /-- `case <-ctx.Done()`. -/
  | ctxDone (call : Nat) (cause : CtxErr)
  /-- The critical section of a call that gives up. -/
  | leave (call : Nat)
  /-- `release` on behalf of a lease whose once has reported. -/
  | release (lease : Nat)
  /-- A step without the router lock. -/
  | other (interference : Interference n)

/-- A step of the system; `none` when no goroutine can take it. -/
def World.step (rt : Runtime n) (opts : Options) (w : World n) : Action n → Option (World n)
  | .acquire request => some { w with calls := w.calls ++ [Call.enter opts request] }
  | .evaluate index schedule =>
      w.calls[index]?.bind fun call =>
        match call.pc with
        | .deciding => some (w.evaluate rt opts index call schedule)
        | _ => none
  | .wake index =>
      w.calls[index]?.bind fun call =>
        match call.pc with
        | .blocked channel =>
            if channel < w.notify then some (w.setCall index { call with pc := .deciding })
            else none
        | _ => none
  | .affinityExpired index =>
      w.calls[index]?.bind fun call =>
        match call.pc with
        | .blocked _ =>
            if call.affinity then
              some (w.setCall index { call with hold := false, affinity := false, pc := .deciding })
            else none
        | _ => none
  | .queueExpired index =>
      w.calls[index]?.bind fun call =>
        match call.pc with
        | .blocked _ => some (w.setCall index { call with pc := .leaving .queueTimeout })
        | _ => none
  | .ctxDone index cause =>
      w.calls[index]?.bind fun call =>
        match call.pc with
        | .blocked _ => some (w.setCall index { call with pc := .leaving (.ctx cause) })
        | _ => none
  | .leave index =>
      w.calls[index]?.bind fun call =>
        match call.pc with
        | .leaving err =>
            some ({ w with waiting := w.waiting - 1 }.setCall index
              { call with pc := .returned (.error err) })
        | _ => none
  | .release index =>
      w.leases[index]?.bind fun lease =>
        if lease.phase = .reported then some (w.release index lease) else none
  | .other interference => some (interference.apply w)

end

/-- The states a router built by `New` can reach, under any interleaving. -/
def Reached (instances : List Instance) (defaultMaxConcurrent : Int) (opts : Options)
    (rt : Runtime instances.length) (clock : Int) (actions : List (Action instances.length))
    (w : World instances.length) : Prop :=
  Runs.run (World.step rt opts.clamp) (new instances defaultMaxConcurrent opts clock) actions =
    some w

end RadixGates.Router
