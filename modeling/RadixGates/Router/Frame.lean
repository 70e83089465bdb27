import Mathlib.Data.List.Basic
import RadixGates.Router.System

/-!
# What the steps of a decision leave alone

`Unlocked` relates two states when only steps without the router lock lie
between them: flags, breakers, the clock and the reports of leases may differ,
everything the lock guards is the same.  The queries of a decision are such
steps.  `Ungranted` also allows the placement memory to change, and `SameLoad`
looks at the slots only.
-/

set_option autoImplicit false

namespace RadixGates.Router

open RadixGates.Breaker (Ticket)

section
variable {n : Nat}

def Lease.openOn (i : Fin n) (lease : Lease n) : Bool :=
  decide (lease.node = i) && decide (lease.phase ≠ .closed)

def World.openLeases (w : World n) (i : Fin n) : Nat := w.leases.countP (Lease.openOn i)

@[simp] theorem setNode_self (w : World n) (i : Fin n) (node : Node) :
    (w.setNode i node).nodes i = node := by
  simp [World.setNode]

theorem setNode_nodes (w : World n) (i j : Fin n) (node : Node) :
    (w.setNode i node).nodes j = if j = i then node else w.nodes j := by
  simp [World.setNode, Function.update_apply]

def Node.SameGuarded (a b : Node) : Prop := b = { a with up := b.up, br := b.br }

theorem Node.SameGuarded.refl (a : Node) : a.SameGuarded a := rfl

theorem Node.SameGuarded.trans {a b c : Node} (first : a.SameGuarded b)
    (second : b.SameGuarded c) : a.SameGuarded c := by
  unfold Node.SameGuarded at *
  rw [second, first]

/-- Only steps without the router lock lie between the two states. -/
structure Unlocked (w w' : World n) : Prop where
  clock : w.clock ≤ w'.clock
  nodes : ∀ i, (w.nodes i).SameGuarded (w'.nodes i)
  waiting : w'.waiting = w.waiting
  notify : w'.notify = w.notify
  placeMap : w'.placeMap = w.placeMap
  placeLRU : w'.placeLRU = w.placeLRU
  nextElement : w'.nextElement = w.nextElement
  calls : w'.calls = w.calls
  granted : w'.leases.length = w.leases.length
  leases : ∀ i, w'.openLeases i = w.openLeases i

theorem Unlocked.refl (w : World n) : Unlocked w w :=
  ⟨le_rfl, fun i => Node.SameGuarded.refl (w.nodes i), rfl, rfl, rfl, rfl, rfl, rfl, rfl,
    fun _ => rfl⟩

theorem Unlocked.trans {w w' w'' : World n} (first : Unlocked w w') (second : Unlocked w' w'') :
    Unlocked w w'' where
  clock := first.clock.trans second.clock
  nodes i := (first.nodes i).trans (second.nodes i)
  waiting := second.waiting.trans first.waiting
  notify := second.notify.trans first.notify
  placeMap := second.placeMap.trans first.placeMap
  placeLRU := second.placeLRU.trans first.placeLRU
  nextElement := second.nextElement.trans first.nextElement
  calls := second.calls.trans first.calls
  granted := second.granted.trans first.granted
  leases i := (second.leases i).trans (first.leases i)

theorem Unlocked.setNode (w : World n) (i : Fin n) (node : Node)
    (guarded : (w.nodes i).SameGuarded node) : Unlocked w (w.setNode i node) where
  clock := le_rfl
  nodes j := by
    rw [setNode_nodes]
    split
    · rename_i same
      rw [same]
      exact guarded
    · exact Node.SameGuarded.refl _
  waiting := rfl
  notify := rfl
  placeMap := rfl
  placeLRU := rfl
  nextElement := rfl
  calls := rfl
  granted := rfl
  leases _ := rfl

/-- Replacing one element moves a count by what the two elements differ. -/
theorem countP_set_balance {α : Type} (p : α → Bool) (l : List α) (index : Nat) (a b : α)
    (found : l[index]? = some a) :
    (l.set index b).countP p + (if p a = true then 1 else 0) =
      l.countP p + if p b = true then 1 else 0 := by
  obtain ⟨inside, atIndex⟩ := List.getElem?_eq_some_iff.mp found
  rw [List.countP_set inside, atIndex]
  have counted : p a = true → 0 < l.countP p := by
    intro holds
    exact List.countP_pos_iff.mpr ⟨a, atIndex ▸ List.getElem_mem inside, holds⟩
  by_cases holds : p a = true
  · have := counted holds
    simp only [holds, if_true]
    omega
  · simp only [holds]
    simp

theorem Unlocked.report (w : World n) (index : Nat) (verdict : Option Bool) :
    Unlocked w (w.report index verdict) := by
  unfold World.report
  cases found : w.leases[index]? with
  | none => exact Unlocked.refl w
  | some lease =>
      dsimp only
      split
      · rename_i granted
        have written := Unlocked.setNode w lease.node
          { w.nodes lease.node with
            br := (w.nodes lease.node).br.map fun b =>
              reportTo b w.clock lease.ticket verdict } rfl
        refine { written with granted := ?_, leases := ?_ }
        · simp
        · intro i
          have moved := countP_set_balance (Lease.openOn i) w.leases index lease
            { lease with phase := .reported } found
          have same : Lease.openOn i { lease with phase := .reported } = lease.openOn i := by
            simp [Lease.openOn, granted]
          rw [same] at moved
          simp only [World.openLeases]
          omega
      · exact Unlocked.refl w

theorem Unlocked.interference (w : World n) (step : Interference n) :
    Unlocked w (step.apply w) := by
  cases step with
  | tick elapsed =>
      refine { Unlocked.refl w with clock := ?_ }
      simp only [Interference.apply]
      omega
  | setUp i v => exact Unlocked.setNode w i _ rfl
  | observe i => exact Unlocked.setNode w i _ rfl
  | report lease verdict => exact Unlocked.report w lease verdict

theorem Unlocked.foldl (steps : List (Interference n)) (w : World n) :
    Unlocked w (steps.foldl Interference.apply w) := by
  induction steps generalizing w with
  | nil => exact Unlocked.refl w
  | cons step rest ih => exact (Unlocked.interference w step).trans (ih (step.apply w))

theorem Unlocked.yield (e : Eval n) : Unlocked e.w e.yield.w := by
  unfold Eval.yield
  split
  · exact Unlocked.refl e.w
  · exact Unlocked.foldl _ e.w

theorem Unlocked.setBreaker (e : Eval n) (i : Fin n) (b : Breaker) :
    Unlocked e.w (e.setBreaker i b).w :=
  Unlocked.setNode e.w i _ rfl

theorem Unlocked.available (e : Eval n) (i : Fin n) : Unlocked e.w (e.available i).1.w := by
  unfold Eval.available
  have first := Unlocked.yield e
  dsimp only
  split
  · have second := first.trans (Unlocked.yield e.yield)
    split
    · exact second
    · exact second.trans (Unlocked.setBreaker e.yield.yield i _)
  · exact first

theorem Unlocked.allow (e : Eval n) (i : Fin n) : Unlocked e.w (e.allow i).1.w := by
  unfold Eval.allow
  have first := Unlocked.yield e
  dsimp only
  split
  · exact first
  · exact first.trans (Unlocked.setBreaker e.yield i _)

theorem Unlocked.collect (kh : UInt64) (group : String) (filter : Node → Bool)
    (exclude : List String) (nodes : List (Fin n)) (e : Eval n) :
    Unlocked e.w (collect kh group filter exclude nodes e).1.w := by
  induction nodes generalizing e with
  | nil => exact Unlocked.refl e.w
  | cons i rest ih =>
      simp only [Router.collect]
      split_ifs
      · exact ih e
      · exact ih e
      · exact ih e
      · exact (Unlocked.available e i).trans (ih _)
      · exact (Unlocked.available e i).trans (ih _)

/-! ## Loads -/

structure SameLoad (w w' : World n) : Prop where
  inflight : ∀ i, (w'.nodes i).inflight = (w.nodes i).inflight
  limit : ∀ i, (w'.nodes i).maxConcurrent = (w.nodes i).maxConcurrent
  leases : ∀ i, w'.openLeases i = w.openLeases i

theorem SameLoad.refl (w : World n) : SameLoad w w := ⟨fun _ => rfl, fun _ => rfl, fun _ => rfl⟩

theorem SameLoad.trans {w w' w'' : World n} (first : SameLoad w w') (second : SameLoad w' w'') :
    SameLoad w w'' where
  inflight i := (second.inflight i).trans (first.inflight i)
  limit i := (second.limit i).trans (first.limit i)
  leases i := (second.leases i).trans (first.leases i)

theorem Unlocked.sameLoad {w w' : World n} (unlocked : Unlocked w w') : SameLoad w w' where
  inflight i := by rw [unlocked.nodes i]
  limit i := by rw [unlocked.nodes i]
  leases := unlocked.leases

theorem SameLoad.of_nodes_leases {w w' w'' : World n} (same : SameLoad w w')
    (nodes : w''.nodes = w'.nodes) (leases : w''.leases = w'.leases) : SameLoad w w'' where
  inflight i := by rw [nodes]; exact same.inflight i
  limit i := by rw [nodes]; exact same.limit i
  leases i := by
    simp only [World.openLeases, leases]
    exact same.leases i

/-! ## Before the grant -/

def Node.SameButPlaced (a b : Node) : Prop :=
  b = { a with up := b.up, br := b.br, placed := b.placed }

theorem Node.SameButPlaced.trans {a b c : Node} (first : a.SameButPlaced b)
    (second : b.SameButPlaced c) : a.SameButPlaced c := by
  unfold Node.SameButPlaced at *
  rw [second, first]

/-- What a decision may change before it grants: the placement memory and
whatever needs no lock. -/
structure Ungranted (w w' : World n) : Prop where
  nodes : ∀ i, (w.nodes i).SameButPlaced (w'.nodes i)
  waiting : w'.waiting = w.waiting
  notify : w'.notify = w.notify
  calls : w'.calls = w.calls
  leases : ∀ i, w'.openLeases i = w.openLeases i

theorem Ungranted.refl (w : World n) : Ungranted w w :=
  ⟨fun _ => rfl, rfl, rfl, rfl, fun _ => rfl⟩

theorem Ungranted.trans {w w' w'' : World n} (first : Ungranted w w')
    (second : Ungranted w' w'') : Ungranted w w'' where
  nodes i := (first.nodes i).trans (second.nodes i)
  waiting := second.waiting.trans first.waiting
  notify := second.notify.trans first.notify
  calls := second.calls.trans first.calls
  leases i := (second.leases i).trans (first.leases i)

theorem Unlocked.ungranted {w w' : World n} (unlocked : Unlocked w w') : Ungranted w w' where
  nodes i := by
    have same := unlocked.nodes i
    unfold Node.SameGuarded at same
    unfold Node.SameButPlaced
    rw [same]
  waiting := unlocked.waiting
  notify := unlocked.notify
  calls := unlocked.calls
  leases := unlocked.leases

theorem Ungranted.sameLoad {w w' : World n} (ungranted : Ungranted w w') : SameLoad w w' where
  inflight i := by rw [ungranted.nodes i]
  limit i := by rw [ungranted.nodes i]
  leases := ungranted.leases

/-- Writing the placement memory is no grant. -/
theorem Ungranted.remember {w w' : World n} (ungranted : Ungranted w w')
    (map : UInt64 → Option Nat) (lru : List (Placement n)) (next : Nat) :
    Ungranted w { w' with placeMap := map, placeLRU := lru, nextElement := next } :=
  { ungranted with }

theorem Ungranted.addPlaced (w : World n) (i : Fin n) (delta : Int) :
    Ungranted w (w.addPlaced i delta) := by
  refine { Ungranted.refl w with nodes := ?_ }
  intro j
  simp only [World.addPlaced, setNode_nodes]
  split
  · rename_i same
    rw [same]
    rfl
  · rfl

theorem Ungranted.evict (size : Int) (fuel : Nat) (w : World n) :
    Ungranted w (World.evict size fuel w) := by
  induction fuel generalizing w with
  | zero => exact Ungranted.refl w
  | succ fuel ih =>
      simp only [World.evict]
      split
      · split
        · exact Ungranted.refl w
        · rename_i last _
          apply Ungranted.trans _ (ih _)
          exact (Ungranted.addPlaced w last.node (-1)).remember _ _ _
      · exact Ungranted.refl w

theorem Ungranted.movePlacement (w : World n) (p : Placement n) (i : Fin n) :
    Ungranted w (w.movePlacement p i) :=
  ((Ungranted.addPlaced w p.node (-1)).trans (Ungranted.addPlaced _ i 1)).remember _ _ _

theorem Ungranted.touchPlacement (w : World n) (p : Placement n) :
    Ungranted w (w.touchPlacement p) :=
  (Ungranted.refl w).remember _ _ _

theorem Ungranted.setPlacementLocked (w : World n) (size : Int) (key : UInt64) (i : Fin n) :
    Ungranted w (w.setPlacementLocked size key i) := by
  unfold World.setPlacementLocked
  split
  · rename_i p _
    apply Ungranted.trans _ (Ungranted.touchPlacement _ p)
    split
    · exact Ungranted.movePlacement w p i
    · exact Ungranted.refl w
  · apply Ungranted.trans _ (Ungranted.evict size _ _)
    exact (Ungranted.addPlaced w i 1).remember _ _ _

theorem Ungranted.placeOnLeast (size : Int) (key : UInt64) (cands : List (Scored n))
    (e : Eval n) : Ungranted e.w (placeOnLeast size key cands e).1.w := by
  simp only [Router.placeOnLeast]
  split
  · exact Ungranted.setPlacementLocked e.w size key _
  · exact Ungranted.refl e.w

theorem Ungranted.placeLocked (size : Int) (key : UInt64) (cands : List (Scored n))
    (exclude : List String) (e : Eval n) :
    Ungranted e.w (placeLocked size key cands exclude e).1.w := by
  unfold Router.placeLocked
  split
  · rename_i p _
    split
    · exact Ungranted.touchPlacement e.w p
    · split
      · have asked := (Unlocked.available e p.node).ungranted
        dsimp only
        split
        · exact asked
        · exact asked.trans (Ungranted.placeOnLeast size key cands _)
      · exact Ungranted.placeOnLeast size key cands e
  · exact Ungranted.placeOnLeast size key cands e

theorem Ungranted.rankAndPlace (rt : Runtime n) (opts : Options) (kh : UInt64) (group : String)
    (exclude : List String) (found : Eval n × List (Scored n) × Int) :
    Ungranted found.1.w (rankAndPlace rt opts kh group exclude found).1.w := by
  simp only [Router.rankAndPlace]
  split
  · exact Ungranted.placeLocked _ _ _ _ _
  · exact Ungranted.refl _

end

end RadixGates.Router
