import Mathlib.Logic.Function.Basic
import RadixGates.Lib.KeyedSort
import RadixGates.Breaker.State
import RadixGates.Router.Hash

/-!
# The node pool and one routing decision

Functional model of `tryPickLocked` and everything under it in
`gateway-go/router/router.go`.  A node pointer is an index of the pool.  The
heap the goroutines share is one record: the nodes, the leases that were
handed out, the queue length, the notify channel and the placement memory.

The router lock covers the whole decision, but a node's `up` flag and its
breaker are reached without it.  So the decision is a function of a schedule
that says what other goroutines do between its atomic steps; with the empty
schedule nothing interferes.
-/

set_option autoImplicit false

namespace RadixGates.Router

open RadixGates.Breaker (Ticket)
open RadixGates.KeyedSort (SortFunc)

/-- One SGLang server.  The source caches `nameHash`; `New` sets it to the
hash of the name and nothing writes it again. -/
structure Node where
  group : String
  role : String
  name : String
  maxConcurrent : Int
  inflight : Int
  placed : Int
  up : Bool
  br : Option Breaker

def Node.nameHash (node : Node) : UInt64 := hashString node.name

/-- Prefill-only nodes are not request entry points. -/
def entryPoint (node : Node) : Bool := node.role != "prefill"

structure Options where
  boundedLoadFactor : Rat
  affinityFloor : Int
  affinityWait : Int
  placementSize : Int
  maxQueue : Int
  queueTimeout : Int
  breaker : Option Breaker.Config

/-- A lease until its `sync.Once` has run: granted, then reported to the
breaker, then closed by the release of its slot. -/
inductive LeasePhase where
  | granted
  | reported
  | closed
  deriving DecidableEq, Repr

structure Lease (n : Nat) where
  node : Fin n
  ticket : Ticket
  phase : LeasePhase
  deriving DecidableEq, Repr

/-- An element of the LRU list with the `placement` it points to. -/
structure Placement (n : Nat) where
  id : Nat
  key : UInt64
  node : Fin n
  deriving DecidableEq, Repr

inductive CtxErr where
  | canceled
  | deadlineExceeded
  deriving DecidableEq, Repr

inductive AcquireError where
  | noNode
  | queueFull
  | queueTimeout
  | ctx (cause : CtxErr)
  deriving DecidableEq, Repr

structure Request where
  prefixHash : String
  targetGroup : String
  filter : Option (Node → Bool)
  exclude : List String

/-- Where an `Acquire` call is: about to take the lock and decide, in the
`select` on a notify channel, past it on a timeout or a done context, or
back at its caller. -/
inductive Pc where
  | deciding
  | blocked (channel : Nat)
  | leaving (err : AcquireError)
  | returned (result : Except AcquireError Nat)

/-- The local variables of an `Acquire` call; `affinity` says whether the
affinity timer is armed. -/
structure Call where
  request : Request
  hold : Bool
  queued : Bool
  affinity : Bool
  pc : Pc

/-- Everything the goroutines share.  Channels are numbered: `notify` is the
current one and all smaller ones are closed. -/
structure World (n : Nat) where
  clock : Int
  nodes : Fin n → Node
  waiting : Int
  notify : Nat
  placeMap : UInt64 → Option Nat
  placeLRU : List (Placement n)
  nextElement : Nat
  leases : List (Lease n)
  calls : List Call

section
variable {n : Nat}

def World.setNode (w : World n) (i : Fin n) (node : Node) : World n :=
  { w with nodes := Function.update w.nodes i node }

/-! ## What happens without the router lock -/

/-- Steps of other goroutines that do not take the router lock: time passes, a
health probe writes the flag, a scrape reads the breaker, and a lease's
`sync.Once` reports to the breaker, with a verdict or without one. -/
inductive Interference (n : Nat) where
  | tick (elapsed : Nat)
  | setUp (i : Fin n) (v : Bool)
  | observe (i : Fin n)
  | report (lease : Nat) (verdict : Option Bool)
  deriving DecidableEq, Repr

def reportTo (b : Breaker) (now : Int) (t : Ticket) : Option Bool → Breaker
  | some success => b.done now t success
  | none => b.cancel t

/-- The part of `Lease.Done` and `Lease.Release` before `release`; a lease whose
once has run ignores the call. -/
def World.report (w : World n) (index : Nat) (verdict : Option Bool) : World n :=
  match w.leases[index]? with
  | none => w
  | some lease =>
      if lease.phase = .granted then
        let node := w.nodes lease.node
        { w.setNode lease.node
            { node with br := node.br.map fun b => reportTo b w.clock lease.ticket verdict } with
          leases := w.leases.set index { lease with phase := .reported } }
      else w

def Interference.apply (w : World n) : Interference n → World n
  | .tick elapsed => { w with clock := w.clock + elapsed }
  | .setUp i v => w.setNode i { w.nodes i with up := v }
  | .observe i =>
      w.setNode i { w.nodes i with br := (w.nodes i).br.map fun b => b.advanceLocked w.clock }
  | .report lease verdict => w.report lease verdict

/-- A decision in progress: the shared state and what is still scheduled to
happen between its atomic steps. -/
structure Eval (n : Nat) where
  w : World n
  schedule : List (List (Interference n))

/-- The point before an atomic step, where other goroutines run. -/
def Eval.yield (e : Eval n) : Eval n :=
  match e.schedule with
  | [] => e
  | steps :: rest => ⟨steps.foldl Interference.apply e.w, rest⟩

def Eval.setBreaker (e : Eval n) (i : Fin n) (b : Breaker) : Eval n :=
  { e with w := e.w.setNode i { e.w.nodes i with br := some b } }

def Eval.available (e : Eval n) (i : Fin n) : Eval n × Bool :=
  let e := e.yield
  if (e.w.nodes i).up then
    let e := e.yield
    match (e.w.nodes i).br with
    | none => (e, true)
    | some b => (e.setBreaker i (b.available e.w.clock).1, (b.available e.w.clock).2)
  else (e, false)

/-- `Node.allow`; without a breaker the ticket is the zero value. -/
def Eval.allow (e : Eval n) (i : Fin n) : Eval n × Option Ticket :=
  let e := e.yield
  match (e.w.nodes i).br with
  | none => (e, some ⟨false, 0⟩)
  | some b => (e.setBreaker i (b.allow e.w.clock).1, (b.allow e.w.clock).2)

/-! ## Candidates -/

structure Scored (n : Nat) where
  node : Fin n
  s : UInt64
  deriving DecidableEq, Repr

/-- Library behaviour the language leaves open: the order `slices.SortFunc`
gives to equal scores, and the rounding of
`int(math.Ceil(f * float64(total+1) / float64(count)))`. -/
structure Runtime (n : Nat) where
  sort : SortFunc (Scored n) Nat
  ceilLoad : Rat → Int → Nat → Int

def Runtime.exact (n : Nat) : Runtime n where
  sort := SortFunc.insertion
  ceilLoad f total count := (f * (total + 1) / count).ceil

/-- The loop that collects the candidates and their total load. -/
def collect (kh : UInt64) (group : String) (filter : Node → Bool) (exclude : List String) :
    List (Fin n) → Eval n → Eval n × List (Scored n) × Int
  | [], e => (e, [], 0)
  | i :: rest, e =>
      let node := e.w.nodes i
      if group ≠ "" ∧ node.group ≠ group then collect kh group filter exclude rest e
      else if !filter node then collect kh group filter exclude rest e
      else if node.name ∈ exclude then collect kh group filter exclude rest e
      else
        let asked := e.available i
        if asked.2 then
          let later := collect kh group filter exclude rest asked.1
          (later.1, ⟨i, score kh node.nameHash⟩ :: later.2.1,
            (asked.1.w.nodes i).inflight + later.2.2)
        else collect kh group filter exclude rest asked.1

/-! ## Placement memory -/

/-- `list.MoveToFront` on the element with this id. -/
def moveToFront (id : Nat) (l : List (Placement n)) : List (Placement n) :=
  l.filter (fun p => p.id = id) ++ l.filter (fun p => p.id ≠ id)

/-- The candidate holding the fewest placed keys, then the fewest in flight;
ties keep the better rank. -/
def leastPlaced (nodes : Fin n → Node) (cands : List (Scored n)) : Nat :=
  let better := fun (best i : Nat) =>
    match cands[i]?, cands[best]? with
    | some c, some d =>
        let a := nodes c.node
        let b := nodes d.node
        if a.placed < b.placed ∨ (a.placed = b.placed ∧ a.inflight < b.inflight) then i else best
    | _, _ => best
  (List.range' 1 (cands.length - 1)).foldl better 0

def World.addPlaced (w : World n) (i : Fin n) (delta : Int) : World n :=
  w.setNode i { w.nodes i with placed := (w.nodes i).placed + delta }

/-- The eviction loop of `setPlacementLocked`; it runs at most once for each
element of the list. -/
def World.evict (size : Int) : Nat → World n → World n
  | 0, w => w
  | fuel + 1, w =>
      if size < w.placeLRU.length then
        match w.placeLRU.getLast? with
        | none => w
        | some last =>
            World.evict size fuel
              { w.addPlaced last.node (-1) with
                placeMap := Function.update w.placeMap last.key none
                placeLRU := w.placeLRU.dropLast }
      else w

def World.findPlacement (w : World n) (key : UInt64) : Option (Placement n) :=
  (w.placeMap key).bind fun id => w.placeLRU.find? fun p => p.id = id

def World.movePlacement (w : World n) (p : Placement n) (i : Fin n) : World n :=
  { (w.addPlaced p.node (-1)).addPlaced i 1 with
    placeLRU := w.placeLRU.map fun q => if q.id = p.id then { q with node := i } else q }

def World.pushPlacement (w : World n) (key : UInt64) (i : Fin n) : World n :=
  { w.addPlaced i 1 with
    placeMap := Function.update w.placeMap key (some w.nextElement)
    placeLRU := ⟨w.nextElement, key, i⟩ :: w.placeLRU
    nextElement := w.nextElement + 1 }

def World.touchPlacement (w : World n) (p : Placement n) : World n :=
  { w with placeLRU := moveToFront p.id w.placeLRU }

def World.setPlacementLocked (w : World n) (size : Int) (key : UInt64) (i : Fin n) : World n :=
  match w.findPlacement key with
  | some p => (if p.node ≠ i then w.movePlacement p i else w).touchPlacement p
  | none => World.evict size (w.placeLRU.length + 1) (w.pushPlacement key i)

def placeOnLeast (size : Int) (key : UInt64) (cands : List (Scored n)) (e : Eval n) :
    Eval n × Nat :=
  let best := leastPlaced e.w.nodes cands
  match cands[best]? with
  | some c => ({ e with w := e.w.setPlacementLocked size key c.node }, best)
  | none => (e, best)

/-- The index in `cands` of the node the key goes to; records the placement.
A node that is only excluded because this request failed there keeps the key. -/
def placeLocked (size : Int) (key : UInt64) (cands : List (Scored n)) (exclude : List String)
    (e : Eval n) : Eval n × Nat :=
  match e.w.findPlacement key with
  | some p =>
      match cands.findIdx? fun c => c.node = p.node with
      | some i => ({ e with w := e.w.touchPlacement p }, i)
      | none =>
          if (e.w.nodes p.node).name ∈ exclude then
            let asked := e.available p.node
            if asked.2 then (asked.1, leastPlaced asked.1.w.nodes cands)
            else placeOnLeast size key cands asked.1
          else placeOnLeast size key cands e
  | none => placeOnLeast size key cands e

/-- `copy(cands[1:i+1], cands[:i]); cands[0] = moved`. -/
def promote (i : Nat) (cands : List (Scored n)) : List (Scored n) :=
  match cands[i]? with
  | some moved => moved :: cands.eraseIdx i
  | none => cands

/-! ## The decision -/

inductive Pick where
  | granted (lease : Nat)
  | noNode
  | preferredBusy
  | atCapacity
  deriving DecidableEq, Repr

def World.grant (w : World n) (i : Fin n) (t : Ticket) : World n :=
  { w.setNode i { w.nodes i with inflight := (w.nodes i).inflight + 1 } with
    leases := w.leases ++ [⟨i, t, .granted⟩] }

def tryLeaseLocked (e : Eval n) (i : Fin n) : Eval n × Option Nat :=
  let asked := e.allow i
  match asked.2 with
  | none => (asked.1, none)
  | some t => ({ asked.1 with w := asked.1.w.grant i t }, some asked.1.w.leases.length)

/-- The preference loop: a grant or a hold ends the decision, otherwise it says
whether some breaker refused. -/
def offer (limit : Int) (hold : Bool) :
    Bool → Bool → List (Scored n) → Eval n → Eval n × (Pick ⊕ Bool)
  | _, denied, [], e => (e, .inr denied)
  | first, denied, c :: rest, e =>
      let node := e.w.nodes c.node
      if node.inflight < min node.maxConcurrent limit then
        let tried := tryLeaseLocked e c.node
        match tried.2 with
        | some lease => (tried.1, .inl (.granted lease))
        | none => offer limit hold false true rest tried.1
      else if first ∧ hold ∧ node.maxConcurrent ≤ node.inflight ∧ node.inflight < limit then
        (e, .inl .preferredBusy)
      else offer limit hold false denied rest e

/-- One step of the fallback loop: a candidate with a free slot replaces the
best one so far if it has strictly less in flight. -/
def lessLoaded (nodes : Fin n → Node) (best : Option (Fin n)) (c : Scored n) : Option (Fin n) :=
  if (nodes c.node).inflight < (nodes c.node).maxConcurrent then
    match best with
    | none => some c.node
    | some b => if (nodes c.node).inflight < (nodes b).inflight then some c.node else some b
  else best

def leastLoaded (nodes : Fin n → Node) (cands : List (Scored n)) : Option (Fin n) :=
  cands.foldl (lessLoaded nodes) none

/-- The candidates in preference order: by score, with the placed node first
when placement memory is on. -/
def rankAndPlace (rt : Runtime n) (opts : Options) (kh : UInt64) (group : String)
    (exclude : List String) (found : Eval n × List (Scored n) × Int) :
    Eval n × List (Scored n) :=
  let ranked := rt.sort.run (fun c => c.s.toNat) found.2.1
  if 0 < opts.placementSize then
    let chosen := placeLocked opts.placementSize (mix64 (kh ^^^ hashString group)) ranked exclude
      found.1
    (chosen.1, promote chosen.2 ranked)
  else (found.1, ranked)

def tryPickLocked (rt : Runtime n) (opts : Options) (kh : UInt64) (group : String)
    (filter : Node → Bool) (exclude : List String) (hold : Bool) (e : Eval n) : Eval n × Pick :=
  let found := collect kh group filter exclude (List.finRange n) e
  if found.2.1 = [] then (found.1, .noNode)
  else
    let placed := rankAndPlace rt opts kh group exclude found
    let limit := max (rt.ceilLoad opts.boundedLoadFactor found.2.2 placed.2.length)
      opts.affinityFloor
    let offered := offer limit hold true false placed.2 placed.1
    match offered.2 with
    | .inl pick => (offered.1, pick)
    | .inr denied =>
        -- over their bounded-load limit: spill to the least loaded
        match leastLoaded offered.1.w.nodes placed.2 with
        | some best =>
            let tried := tryLeaseLocked offered.1 best
            match tried.2 with
            | some lease => (tried.1, .granted lease)
            | none => (tried.1, .noNode)
        | none => (offered.1, if denied then .noNode else .atCapacity)

/-- Node names by rendezvous score for the key, health ignored. -/
def ranking (rt : Runtime n) (nodes : Fin n → Node) (key : String) : List String :=
  let kh := hashString key
  let sc := (List.finRange n).map fun i => (⟨i, score kh (nodes i).nameHash⟩ : Scored n)
  (rt.sort.run (fun c => c.s.toNat) sc).map fun c => (nodes c.node).name

end

end RadixGates.Router
