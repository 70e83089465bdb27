import RadixGates.Router.Steps

/-!
# The capacity invariant

A decision either leaves every load as it was or takes one slot on a node that
had a free one, whichever of its three loops grants it and whatever other
goroutines do meanwhile.  With the release of a lease as the only step that
frees a slot, a node's `inflight` is the number of its leases that are not
closed, and never exceeds its limit.
-/

set_option autoImplicit false

namespace RadixGates.Router

open RadixGates.Breaker (Ticket)

section
variable {n : Nat}

/-- The slot that a decision took: on a node with a free one, with no load
changed before. -/
def TookSlot (w w' : World n) : Prop :=
  ∃ middle i t, SameLoad w middle ∧
    (middle.nodes i).inflight < (middle.nodes i).maxConcurrent ∧ w' = middle.grant i t

theorem TookSlot.after {w w' w'' : World n} (first : SameLoad w w') (took : TookSlot w' w'') :
    TookSlot w w'' := by
  obtain ⟨middle, i, t, same, free, granted⟩ := took
  exact ⟨middle, i, t, first.trans same, free, granted⟩

def PickLoad (w w' : World n) : Pick → Prop
  | .granted _ => TookSlot w w'
  | _ => SameLoad w w'

def OfferLoad (w w' : World n) : Pick ⊕ Bool → Prop
  | .inl pick => PickLoad w w' pick
  | .inr _ => SameLoad w w'

theorem PickLoad.after {w w' w'' : World n} {pick : Pick} (first : SameLoad w w')
    (second : PickLoad w' w'' pick) : PickLoad w w'' pick := by
  cases pick with
  | granted lease => exact TookSlot.after first second
  | noNode | preferredBusy | atCapacity => exact first.trans second

theorem OfferLoad.after {w w' w'' : World n} {outcome : Pick ⊕ Bool} (first : SameLoad w w')
    (second : OfferLoad w' w'' outcome) : OfferLoad w w'' outcome := by
  cases outcome with
  | inl pick => exact PickLoad.after first second
  | inr denied => exact first.trans second

theorem tryLeaseLocked_refused (e : Eval n) (i : Fin n) (refused : (tryLeaseLocked e i).2 = none) :
    SameLoad e.w (tryLeaseLocked e i).1.w := by
  have asked := (Unlocked.allow e i).sameLoad
  unfold tryLeaseLocked at refused ⊢
  cases answer : (e.allow i).2 with
  | none => simpa [answer] using asked
  | some t => simp [answer] at refused

theorem tryLeaseLocked_took (e : Eval n) (i : Fin n) (lease : Nat)
    (free : (e.w.nodes i).inflight < (e.w.nodes i).maxConcurrent)
    (granted : (tryLeaseLocked e i).2 = some lease) :
    TookSlot e.w (tryLeaseLocked e i).1.w := by
  have asked := (Unlocked.allow e i).sameLoad
  unfold tryLeaseLocked at granted ⊢
  cases answer : (e.allow i).2 with
  | none => simp [answer] at granted
  | some t =>
      refine ⟨(e.allow i).1.w, i, t, asked, ?_, by simp [answer]⟩
      rw [asked.inflight i, asked.limit i]
      exact free

theorem offer_load (limit : Int) (hold : Bool) (cands : List (Scored n)) (first denied : Bool)
    (e : Eval n) :
    OfferLoad e.w (offer limit hold first denied cands e).1.w
      (offer limit hold first denied cands e).2 := by
  induction cands generalizing first denied e with
  | nil => exact SameLoad.refl e.w
  | cons c rest ih =>
      simp only [offer]
      by_cases below : (e.w.nodes c.node).inflight < min (e.w.nodes c.node).maxConcurrent limit
      · rw [if_pos below]
        have free : (e.w.nodes c.node).inflight < (e.w.nodes c.node).maxConcurrent :=
          below.trans_le (min_le_left _ _)
        cases tried : (tryLeaseLocked e c.node).2 with
        | some lease => exact tryLeaseLocked_took e c.node lease free tried
        | none => exact OfferLoad.after (tryLeaseLocked_refused e c.node tried) (ih _ _ _)
      · rw [if_neg below]
        split
        · exact SameLoad.refl e.w
        · exact ih false denied e

theorem lessLoaded_chosen (nodes : Fin n → Node) (best : Option (Fin n)) (c : Scored n)
    (chosen : Fin n) (after : lessLoaded nodes best c = some chosen) :
    best = some chosen ∨
      c.node = chosen ∧ (nodes chosen).inflight < (nodes chosen).maxConcurrent := by
  unfold lessLoaded at after
  split at after
  · rename_i free
    cases best with
    | none =>
        cases after
        exact Or.inr ⟨rfl, free⟩
    | some other =>
        dsimp only at after
        split at after
        · cases after
          exact Or.inr ⟨rfl, free⟩
        · exact Or.inl after
  · exact Or.inl after

theorem leastLoaded_chosen (nodes : Fin n → Node) (cands : List (Scored n)) (best : Fin n)
    (found : leastLoaded nodes cands = some best) :
    ∃ c ∈ cands, c.node = best ∧ (nodes best).inflight < (nodes best).maxConcurrent := by
  have kept : ∀ (cands : List (Scored n)) (start : Option (Fin n)),
      cands.foldl (lessLoaded nodes) start = some best →
      start = some best ∨
        ∃ c ∈ cands, c.node = best ∧ (nodes best).inflight < (nodes best).maxConcurrent := by
    intro cands
    induction cands with
    | nil => exact fun start found => Or.inl found
    | cons c rest ih =>
        intro start found
        rcases ih _ found with now | ⟨d, later, facts⟩
        · rcases lessLoaded_chosen nodes start c best now with before | here
          · exact Or.inl before
          · exact Or.inr ⟨c, List.mem_cons_self, here⟩
        · exact Or.inr ⟨d, List.mem_cons_of_mem c later, facts⟩
  rcases kept cands none found with absent | chosen
  · cases absent
  · exact chosen

theorem spill_load (cands : List (Scored n)) (denied : Bool) (e : Eval n) :
    PickLoad e.w (spill cands denied e).1.w (spill cands denied e).2 := by
  simp only [spill]
  cases least : leastLoaded e.w.nodes cands with
  | none =>
      dsimp only
      split <;> exact SameLoad.refl e.w
  | some best =>
      obtain ⟨_, _, _, free⟩ := leastLoaded_chosen e.w.nodes cands best least
      dsimp only
      cases tried : (tryLeaseLocked e best).2 with
      | some lease => exact tryLeaseLocked_took e best lease free tried
      | none => exact tryLeaseLocked_refused e best tried

theorem settle_load (limit : Int) (hold : Bool) (cands : List (Scored n)) (e : Eval n) :
    PickLoad e.w (settle limit hold cands e).1.w (settle limit hold cands e).2 := by
  have offered := offer_load limit hold cands true false e
  simp only [settle]
  cases outcome : (offer limit hold true false cands e).2 with
  | inl pick =>
      rw [outcome] at offered
      exact offered
  | inr denied =>
      rw [outcome] at offered
      exact PickLoad.after offered (spill_load cands denied _)

theorem tryPickLocked_load (rt : Runtime n) (opts : Options) (kh : UInt64) (group : String)
    (filter : Node → Bool) (exclude : List String) (hold : Bool) (e : Eval n) :
    PickLoad e.w (tryPickLocked rt opts kh group filter exclude hold e).1.w
      (tryPickLocked rt opts kh group filter exclude hold e).2 := by
  have found := (Unlocked.collect kh group filter exclude (List.finRange n) e).sameLoad
  rw [tryPickLocked_eq]
  dsimp only
  split
  · exact found
  · -- the placement step, if any, changes no load
    have placed := found.trans (Ungranted.rankAndPlace rt opts kh group exclude
      (collect kh group filter exclude (List.finRange n) e)).sameLoad
    exact PickLoad.after placed (settle_load _ hold _ _)

/-! ## The invariant -/

/-- Slots in use are open leases, within the limit of every node that has a
sensible one. -/
structure Capacity (w : World n) : Prop where
  counted : ∀ i, (w.nodes i).inflight = (w.openLeases i : Int)
  bounded : ∀ i, 0 ≤ (w.nodes i).maxConcurrent → (w.nodes i).inflight ≤ (w.nodes i).maxConcurrent

theorem Capacity.of_sameLoad {w w' : World n} (capacity : Capacity w) (same : SameLoad w w') :
    Capacity w' where
  counted i := by
    rw [same.inflight, same.leases]
    exact capacity.counted i
  bounded i := by
    rw [same.inflight, same.limit]
    exact capacity.bounded i

theorem openLeases_grant (w : World n) (i j : Fin n) (t : Ticket) :
    (w.grant i t).openLeases j = w.openLeases j + if i = j then 1 else 0 := by
  simp [World.grant, World.openLeases, Lease.openOn, List.countP_append, List.countP_cons]

theorem grant_nodes (w : World n) (i j : Fin n) (t : Ticket) :
    (w.grant i t).nodes j =
      if j = i then { w.nodes i with inflight := (w.nodes i).inflight + 1 } else w.nodes j :=
  setNode_nodes w i j _

theorem Capacity.of_tookSlot {w w' : World n} (capacity : Capacity w) (took : TookSlot w w') :
    Capacity w' := by
  obtain ⟨middle, i, t, same, free, rfl⟩ := took
  have before := capacity.of_sameLoad same
  refine ⟨?_, ?_⟩
  · intro j
    have counted := before.counted j
    rw [grant_nodes, openLeases_grant]
    by_cases here : j = i
    · subst here
      simp only [if_true]
      push_cast
      omega
    · rw [if_neg here, if_neg (Ne.symm here)]
      simpa using counted
  · intro j
    rw [grant_nodes]
    by_cases here : j = i
    · subst here
      simp only [if_true]
      omega
    · rw [if_neg here]
      exact before.bounded j

theorem Capacity.of_release {w : World n} (capacity : Capacity w) (index : Nat) (lease : Lease n)
    (found : w.leases[index]? = some lease) (reported : lease.phase = .reported) :
    Capacity (w.release index lease) := by
  have closes : ∀ i, (w.release index lease).openLeases i + (if lease.node = i then 1 else 0) =
      w.openLeases i := by
    intro i
    have moved := countP_set_balance (Lease.openOn i) w.leases index lease
      { lease with phase := .closed } found
    have wasOpen : lease.openOn i = decide (lease.node = i) := by
      simp [Lease.openOn, reported]
    have isClosed : Lease.openOn i { lease with phase := .closed } = false := by
      simp [Lease.openOn]
    rw [wasOpen, isClosed] at moved
    simpa [World.release, World.openLeases] using moved
  have nodes : ∀ i, (w.release index lease).nodes i =
      if i = lease.node then
        { w.nodes lease.node with inflight := (w.nodes lease.node).inflight - 1 }
      else w.nodes i := by
    intro i
    exact setNode_nodes w lease.node i _
  refine ⟨?_, ?_⟩
  · intro i
    have counted := capacity.counted i
    have closed := closes i
    rw [nodes]
    by_cases here : i = lease.node
    · subst here
      simp only [if_true] at closed ⊢
      omega
    · rw [if_neg here]
      rw [if_neg (Ne.symm here)] at closed
      omega
  · intro i
    rw [nodes]
    by_cases here : i = lease.node
    · subst here
      have := capacity.bounded lease.node
      simp only [if_true]
      omega
    · rw [if_neg here]
      exact capacity.bounded i

/-! ## Runs -/

theorem Capacity.of_evaluate {w : World n} (capacity : Capacity w) (rt : Runtime n)
    (opts : Options) (index : Nat) (call : Call) (schedule : List (List (Interference n))) :
    Capacity (w.evaluate rt opts index call schedule) := by
  have decided : Capacity (w.decision rt opts call schedule).1.w := by
    have load := tryPickLocked_load rt opts (hashString call.request.prefixHash)
      call.request.targetGroup (call.request.filter.getD entryPoint) call.request.exclude call.hold
      ⟨w, schedule⟩
    simp only [World.decision]
    generalize tryPickLocked rt opts (hashString call.request.prefixHash) _ _ _ call.hold _ = result
      at load ⊢
    obtain ⟨after, pick⟩ := result
    cases pick with
    | granted lease => exact capacity.of_tookSlot load
    | noNode | preferredBusy | atCapacity => exact capacity.of_sameLoad load
  obtain ⟨waiting, calls, passed⟩ :=
    (evaluate_passed rt opts w index call schedule).bookkeeping
  rw [passed]
  exact decided.of_sameLoad ((SameLoad.refl _).of_nodes_leases rfl rfl)

theorem Capacity.step (rt : Runtime n) (opts : Options) (w : World n) (action : Action n)
    (next : World n) (capacity : Capacity w) (stepped : w.step rt opts action = some next) :
    Capacity next := by
  cases step_stepped rt opts w next action stepped with
  | evaluate index schedule call _ _ => exact capacity.of_evaluate rt opts index call schedule
  | release index lease found reported => exact capacity.of_release index lease found reported
  | other interference =>
      exact capacity.of_sameLoad (Unlocked.interference w interference).sameLoad
  | acquire | wake | affinityExpired | queueExpired | ctxDone | leave =>
      exact capacity.of_sameLoad ((SameLoad.refl w).of_nodes_leases rfl rfl)

end

theorem capacity_of_reached {instances : List Instance} {defaultMaxConcurrent : Int}
    {opts : Options} {rt : Runtime instances.length} {clock : Int}
    {actions : List (Action instances.length)} {w : World instances.length}
    (reached : Reached instances defaultMaxConcurrent opts rt clock actions w) : Capacity w := by
  have initial : Capacity (new instances defaultMaxConcurrent opts clock) := by
    refine ⟨fun _ => rfl, ?_⟩
    intro i limit
    exact limit
  exact Runs.run_preserves (World.step rt opts.clamp) Capacity (Capacity.step rt opts.clamp) actions
    _ w initial reached

/-- In every state that any interleaving reaches, a node's slots in use are its
open leases, and within its limit. -/
theorem inflight_counts_open_leases (instances : List Instance) (defaultMaxConcurrent : Int)
    (opts : Options) (rt : Runtime instances.length) (clock : Int)
    (actions : List (Action instances.length)) (w : World instances.length)
    (reached : Reached instances defaultMaxConcurrent opts rt clock actions w)
    (i : Fin instances.length) :
    (w.nodes i).inflight = (w.openLeases i : Int) ∧ 0 ≤ (w.nodes i).inflight ∧
      (0 ≤ (w.nodes i).maxConcurrent → (w.nodes i).inflight ≤ (w.nodes i).maxConcurrent) := by
  have capacity := capacity_of_reached reached
  refine ⟨capacity.counted i, ?_, capacity.bounded i⟩
  rw [capacity.counted i]
  omega

def oneSlot : List Instance := [⟨"", "a", 1, 1, ""⟩]

def oneSlotOptions : Options := ⟨1, 1, 0, 0, 1, 1, none⟩

/-- Two requests for the one slot; the second one is queued. -/
def twoRequests : List (Action 1) :=
  [.acquire ⟨"", "", none, []⟩, .acquire ⟨"", "", none, []⟩, .evaluate 0 [], .evaluate 1 []]

/-- The first one reports and gives its slot back, and the second one gets it. -/
def slotHandedOn : List (Action 1) :=
  twoRequests ++ [.other (.report 0 (some true)), .release 0, .wake 1, .evaluate 1 []]

theorem inflight_counts_after_twoRequests :
    ∃ w : World 1, Reached oneSlot 0 oneSlotOptions (Runtime.exact 1) 0 slotHandedOn w ∧
      w.leases.length = 2 ∧ (w.nodes 0).inflight = 1 ∧ w.openLeases 0 = 1 ∧ w.waiting = 0 := by
  have evaluated : (Runs.run (World.step (Runtime.exact 1) oneSlotOptions.clamp)
      (new oneSlot 0 oneSlotOptions 0) slotHandedOn).map
        (fun w => (w.leases.length, (w.nodes 0).inflight, w.waiting)) = some (2, 1, 0) := by
    decide +kernel
  obtain ⟨w, reached, facts⟩ := Option.map_eq_some_iff.mp evaluated
  obtain ⟨both, facts⟩ := Prod.mk.inj facts
  obtain ⟨one, waits⟩ := Prod.mk.inj facts
  refine ⟨w, reached, both, one, ?_, waits⟩
  have counted : (w.nodes 0).inflight = (w.openLeases 0 : Int) :=
    (inflight_counts_open_leases oneSlot 0 oneSlotOptions (Runtime.exact 1) 0
      slotHandedOn w reached (0 : Fin 1)).1
  omega

end RadixGates.Router
