import Mathlib.Logic.Relation
import RadixGates.Router.Readiness

/-!
# The atoms of a run

A step of the router takes a whole critical section, with everything that
happens beside it.  Seen from a breaker or a lease that is too coarse: the
decision asks many breakers, other goroutines report to them in between, and
one admission leads to the lease.  Here every step is taken apart into atoms: a
step without the router lock, an admission with the grant that follows it, a
release, and the writes that concern neither breakers nor leases.  Asking a
breaker, with whatever answer, leaves it as a scrape does, so a decision is a
drift of steps that grant nothing, with one grant at its end or none.
-/

set_option autoImplicit false

namespace RadixGates.Router

open RadixGates.Breaker (Ticket)

section
variable {n : Nat}

/-- `tryLeaseLocked` at one instant: what a successful `Allow` and the grant
leave. -/
def World.leased (w : World n) (i : Fin n) : Option (World n) :=
  match (w.nodes i).br with
  | none => some (w.grant i ⟨false, 0⟩)
  | some b =>
      (b.allow w.clock).2.map fun t =>
        (w.setNode i { w.nodes i with br := some (b.allow w.clock).1 }).grant i t

/-- Only the placement memory, the queue and the calls differ. -/
structure Recorded (w w' : World n) : Prop where
  clock : w'.clock = w.clock
  leases : w'.leases = w.leases
  nodes : ∀ i, w'.nodes i = { w.nodes i with placed := (w'.nodes i).placed }

theorem Recorded.refl (w : World n) : Recorded w w := ⟨rfl, rfl, fun _ => rfl⟩

theorem Recorded.trans {w w' w'' : World n} (first : Recorded w w') (second : Recorded w' w'') :
    Recorded w w'' where
  clock := second.clock.trans first.clock
  leases := second.leases.trans first.leases
  nodes i := by rw [second.nodes i, first.nodes i]

/-- The placement memory and the book of calls are beside the point. -/
theorem Recorded.of_fields {w w' w'' : World n} (recorded : Recorded w w')
    (clock : w''.clock = w'.clock) (leases : w''.leases = w'.leases)
    (nodes : w''.nodes = w'.nodes) : Recorded w w'' where
  clock := clock.trans recorded.clock
  leases := leases.trans recorded.leases
  nodes i := by rw [nodes]; exact recorded.nodes i

theorem Recorded.addPlaced (w : World n) (i : Fin n) (delta : Int) :
    Recorded w (w.addPlaced i delta) := by
  refine ⟨rfl, rfl, fun j => ?_⟩
  simp only [World.addPlaced, setNode_nodes]
  by_cases same : j = i
  · subst same
    simp
  · simp [same]

theorem Recorded.evict (size : Int) (fuel : Nat) (w : World n) :
    Recorded w (World.evict size fuel w) := by
  induction fuel generalizing w with
  | zero => exact Recorded.refl w
  | succ fuel ih =>
      simp only [World.evict]
      split
      · split
        · exact Recorded.refl w
        · rename_i last _
          apply Recorded.trans _ (ih _)
          exact (Recorded.addPlaced w last.node (-1)).of_fields rfl rfl rfl
      · exact Recorded.refl w

theorem Recorded.movePlacement (w : World n) (p : Placement n) (i : Fin n) :
    Recorded w (w.movePlacement p i) :=
  ((Recorded.addPlaced w p.node (-1)).trans (Recorded.addPlaced _ i 1)).of_fields rfl rfl rfl

theorem Recorded.setPlacementLocked (w : World n) (size : Int) (key : UInt64) (i : Fin n) :
    Recorded w (w.setPlacementLocked size key i) := by
  unfold World.setPlacementLocked
  split
  · rename_i p _
    split
    · exact (Recorded.movePlacement w p i).of_fields rfl rfl rfl
    · exact (Recorded.refl w).of_fields rfl rfl rfl
  · apply Recorded.trans _ (Recorded.evict size _ _)
    exact (Recorded.addPlaced w i 1).of_fields rfl rfl rfl

/-! ## Atoms -/

/-- What happens in a decision apart from its grant. -/
inductive Still (w : World n) : World n → Prop where
  | other (step : Interference n) : Still w (step.apply w)
  | record (next : World n) (recorded : Recorded w next) : Still w next

abbrev Drift : World n → World n → Prop := Relation.ReflTransGen Still

theorem Drift.other (w : World n) (step : Interference n) : Drift w (step.apply w) :=
  .single (.other step)

theorem Drift.record {w next : World n} (recorded : Recorded w next) : Drift w next :=
  .single (.record next recorded)

theorem Drift.preserves {w next : World n} (drift : Drift w next) (Inv : World n → Prop)
    (keeps : ∀ w next, Inv w → Still w next → Inv next) (holds : Inv w) : Inv next := by
  induction drift with
  | refl => exact holds
  | tail _ still ih => exact keeps _ _ ih still

theorem Drift.foldl (steps : List (Interference n)) (w : World n) :
    Drift w (steps.foldl Interference.apply w) := by
  induction steps generalizing w with
  | nil => exact .refl
  | cons step rest ih => exact (Drift.other w step).trans (ih (step.apply w))

theorem Drift.yield (e : Eval n) : Drift e.w e.yield.w := by
  unfold Eval.yield
  split
  · exact .refl
  · exact Drift.foldl _ e.w

/-! ## Before the grant -/

theorem allow_refused (b : Breaker) (now : Int) (refused : (b.allow now).2 = none) :
    (b.allow now).1 = b.advanceLocked now := by
  unfold Breaker.allow at refused ⊢
  dsimp only at refused ⊢
  split at refused
  · cases refused
  · split at refused
    · cases refused
    · rename_i full
      rw [if_neg full]
  · rfl

/-- A breaker that was asked in vain was only observed. -/
theorem Drift.observed (w : World n) (i : Fin n) (b : Breaker)
    (present : (w.nodes i).br = some b) :
    Drift w (w.setNode i { w.nodes i with br := some (b.advanceLocked w.clock) }) := by
  have scraped := Drift.other w (.observe i)
  simpa only [Interference.apply, present, Option.map_some] using scraped

theorem Drift.available (e : Eval n) (i : Fin n) : Drift e.w (e.available i).1.w := by
  unfold Eval.available
  dsimp only
  split
  · have waited := (Drift.yield e).trans (Drift.yield e.yield)
    split
    · exact waited
    · rename_i b present
      apply waited.trans
      rw [available_fst]
      exact Drift.observed e.yield.yield.w i b present
  · exact Drift.yield e

theorem Drift.collect (kh : UInt64) (group : String) (filter : Node → Bool)
    (exclude : List String) (nodes : List (Fin n)) (e : Eval n) :
    Drift e.w (collect kh group filter exclude nodes e).1.w := by
  induction nodes generalizing e with
  | nil => exact .refl
  | cons i rest ih =>
      have asked := Drift.available e i
      simp only [Router.collect]
      split_ifs
      · exact ih e
      · exact ih e
      · exact ih e
      · exact asked.trans (ih _)
      · exact asked.trans (ih _)

theorem Drift.placeOnLeast (size : Int) (key : UInt64) (cands : List (Scored n)) (e : Eval n) :
    Drift e.w (placeOnLeast size key cands e).1.w := by
  simp only [Router.placeOnLeast]
  split
  · exact Drift.record (Recorded.setPlacementLocked e.w size key _)
  · exact .refl

theorem Drift.placeLocked (size : Int) (key : UInt64) (cands : List (Scored n))
    (exclude : List String) (e : Eval n) :
    Drift e.w (placeLocked size key cands exclude e).1.w := by
  unfold Router.placeLocked
  split
  · rename_i p _
    split
    · exact Drift.record ((Recorded.refl e.w).of_fields rfl rfl rfl)
    · split
      · have asked := Drift.available e p.node
        dsimp only
        split
        · exact asked
        · exact asked.trans (Drift.placeOnLeast size key cands _)
      · exact Drift.placeOnLeast size key cands e
  · exact Drift.placeOnLeast size key cands e

theorem Drift.rankAndPlace (rt : Runtime n) (opts : Options) (kh : UInt64) (group : String)
    (exclude : List String) (found : Eval n × List (Scored n) × Int) :
    Drift found.1.w (rankAndPlace rt opts kh group exclude found).1.w := by
  simp only [Router.rankAndPlace]
  split
  · exact Drift.placeLocked _ _ _ _ _
  · exact .refl

theorem Drift.ranked (rt : Runtime n) (opts : Options) (w : World n) (call : Call)
    (schedule : List (List (Interference n))) :
    Drift w (w.ranked rt opts call schedule).1.w :=
  (Drift.collect _ _ _ _ _ ⟨w, schedule⟩).trans (Drift.rankAndPlace _ _ _ _ _ _)

/-! ## The grant -/

/-- The last thing that happened was the grant of this lease on this node. -/
def Leased (w final : World n) (i : Fin n) (lease : Nat) : Prop :=
  ∃ middle, Drift w middle ∧ middle.leased i = some final ∧ lease = middle.leases.length

theorem Leased.after {w w' final : World n} {i : Fin n} {lease : Nat} (drift : Drift w w')
    (leased : Leased w' final i lease) : Leased w final i lease := by
  obtain ⟨middle, rest, granted⟩ := leased
  exact ⟨middle, drift.trans rest, granted⟩

theorem tryLeaseLocked_ends (e : Eval n) (i : Fin n) :
    match (tryLeaseLocked e i).2 with
    | none => Drift e.w (tryLeaseLocked e i).1.w
    | some lease => Leased e.w (tryLeaseLocked e i).1.w i lease := by
  have waited := Drift.yield e
  simp only [tryLeaseLocked, Eval.allow]
  cases present : (e.yield.w.nodes i).br with
  | none =>
      refine ⟨e.yield.w, waited, ?_, rfl⟩
      simp [World.leased, present]
  | some b =>
      dsimp only
      cases admitted : (b.allow e.yield.w.clock).2 with
      | none =>
          simp only [Eval.setBreaker, allow_refused b _ admitted]
          exact waited.trans (Drift.observed e.yield.w i b present)
      | some t =>
          refine ⟨e.yield.w, waited, ?_, rfl⟩
          simp [World.leased, present, admitted, Eval.setBreaker]

/-- How a decision among these candidates ends. -/
def Decided (w : World n) (cands : List (Scored n)) (pick : Pick) (final : World n) : Prop :=
  match pick with
  | .granted lease => ∃ c ∈ cands, Leased w final c.node lease
  | _ => Drift w final

theorem Decided.after {w w' final : World n} {cands : List (Scored n)} {pick : Pick}
    (drift : Drift w w') (decided : Decided w' cands pick final) : Decided w cands pick final := by
  cases pick with
  | granted lease =>
      obtain ⟨c, member, leased⟩ := decided
      exact ⟨c, member, leased.after drift⟩
  | noNode | preferredBusy | atCapacity => exact drift.trans decided

def Offered (w : World n) (cands : List (Scored n)) (outcome : Pick ⊕ Bool) (final : World n) :
    Prop :=
  match outcome with
  | .inl pick => Decided w cands pick final
  | .inr _ => Drift w final

theorem Offered.after {w w' final : World n} {c : Scored n} {cands : List (Scored n)}
    {outcome : Pick ⊕ Bool} (drift : Drift w w') (offered : Offered w' cands outcome final) :
    Offered w (c :: cands) outcome final := by
  cases outcome with
  | inr denied => exact drift.trans offered
  | inl pick =>
      cases pick with
      | granted lease =>
          obtain ⟨d, member, leased⟩ := offered
          exact ⟨d, List.mem_cons_of_mem c member, leased.after drift⟩
      | noNode | preferredBusy | atCapacity => exact drift.trans offered

theorem offer_offered (limit : Int) (hold : Bool) (cands : List (Scored n)) (first denied : Bool)
    (e : Eval n) :
    Offered e.w cands (offer limit hold first denied cands e).2
      (offer limit hold first denied cands e).1.w := by
  induction cands generalizing first denied e with
  | nil => exact .refl
  | cons c rest ih =>
      have tried := tryLeaseLocked_ends e c.node
      simp only [offer]
      split_ifs
      · cases answer : (tryLeaseLocked e c.node).2 with
        | some lease =>
            rw [answer] at tried
            exact ⟨c, List.mem_cons_self, tried⟩
        | none =>
            rw [answer] at tried
            exact Offered.after tried (ih false true _)
      · exact .refl
      · exact Offered.after .refl (ih false denied e)

theorem spill_decided (cands : List (Scored n)) (denied : Bool) (e : Eval n) :
    Decided e.w cands (spill cands denied e).2 (spill cands denied e).1.w := by
  simp only [spill]
  cases least : leastLoaded e.w.nodes cands with
  | none =>
      dsimp only
      split <;> exact .refl
  | some best =>
      obtain ⟨c, member, rfl, _⟩ := leastLoaded_chosen e.w.nodes cands best least
      have tried := tryLeaseLocked_ends e c.node
      dsimp only
      cases answer : (tryLeaseLocked e c.node).2 with
      | some lease =>
          rw [answer] at tried
          exact ⟨c, member, tried⟩
      | none =>
          rw [answer] at tried
          exact tried

theorem settle_decided (limit : Int) (hold : Bool) (cands : List (Scored n)) (e : Eval n) :
    Decided e.w cands (settle limit hold cands e).2 (settle limit hold cands e).1.w := by
  have offered := offer_offered limit hold cands true false e
  simp only [settle]
  cases outcome : (offer limit hold true false cands e).2 with
  | inl pick =>
      rw [outcome] at offered
      exact offered
  | inr denied =>
      rw [outcome] at offered
      exact (spill_decided cands denied _).after offered

theorem decision_decided (rt : Runtime n) (opts : Options) (w : World n) (call : Call)
    (schedule : List (List (Interference n))) :
    Decided w (w.ranked rt opts call schedule).2 (w.decision rt opts call schedule).2
      (w.decision rt opts call schedule).1.w := by
  rw [decision_eq]
  split
  · exact Drift.collect _ _ _ _ _ ⟨w, schedule⟩
  · exact (settle_decided _ _ _ _).after (Drift.ranked rt opts w call schedule)

/-! ## A step and a run -/

inductive Atom (w : World n) : World n → Prop where
  | still (next : World n) (step : Still w next) : Atom w next
  | lease (i : Fin n) (next : World n) (admitted : w.leased i = some next) : Atom w next
  | release (index : Nat) (lease : Lease n) (found : w.leases[index]? = some lease)
      (reported : lease.phase = .reported) : Atom w (w.release index lease)

abbrev Path : World n → World n → Prop := Relation.ReflTransGen Atom

/-- What every atom preserves, every path does. -/
theorem Path.preserves {w next : World n} (path : Path w next) (Inv : World n → Prop)
    (keeps : ∀ w next, Inv w → Atom w next → Inv next) (holds : Inv w) : Inv next := by
  induction path with
  | refl => exact holds
  | tail _ atom ih => exact keeps _ _ ih atom

theorem Drift.path {w next : World n} (drift : Drift w next) : Path w next := by
  induction drift with
  | refl => exact .refl
  | tail _ step ih => exact ih.tail (.still _ step)

theorem Path.record {w next : World n} (recorded : Recorded w next) : Path w next :=
  .single (.still next (.record next recorded))

theorem Decided.path {w final : World n} {cands : List (Scored n)} {pick : Pick}
    (decided : Decided w cands pick final) : Path w final := by
  cases pick with
  | granted lease =>
      obtain ⟨c, _, middle, drift, admitted, _⟩ := decided
      exact drift.path.tail (.lease c.node final admitted)
  | noNode | preferredBusy | atCapacity => exact Drift.path decided

theorem Path.step {rt : Runtime n} {opts : Options} {w next : World n} {action : Action n}
    (stepped : w.step rt opts action = some next) : Path w next := by
  cases step_stepped rt opts w next action stepped with
  | evaluate index schedule call found deciding =>
      obtain ⟨waiting, calls, ended⟩ := (evaluate_passed rt opts w index call schedule).bookkeeping
      rw [ended]
      exact (decision_decided rt opts w call schedule).path.trans
        (Path.record ((Recorded.refl _).of_fields rfl rfl rfl))
  | release index lease found reported => exact .single (.release index lease found reported)
  | other interference => exact (Drift.other w interference).path
  | acquire | wake | affinityExpired | queueExpired | ctxDone | leave =>
      exact Path.record ((Recorded.refl w).of_fields rfl rfl rfl)

theorem Path.run (rt : Runtime n) (opts : Options) (actions : List (Action n)) (w final : World n)
    (reached : Runs.run (World.step rt opts) w actions = some final) : Path w final :=
  Runs.run_preserves (World.step rt opts) (Path w)
    (fun _ _ _ path stepped => path.trans (Path.step stepped)) actions w final .refl reached

end

end RadixGates.Router
