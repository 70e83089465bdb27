import RadixGates.Router.Preferred
import RadixGates.Router.Queue

/-!
# Waiting for the preferred node

With an affinity wait a call holds out for a preferred node that is full but
not over the load limit, until its timer expires.  Until then it is served
elsewhere only if the preferred node is over the limit or refuses; from then on
it takes any free slot.  The wait counts against the admission queue, so a call
that is held may be turned away while another candidate is idle.
-/

set_option autoImplicit false

namespace RadixGates.Router

section
variable {n : Nat}

/-! ## One decision -/

/-- The node has no free slot and is not over the load limit. -/
def World.full (w : World n) (limit : Int) (i : Fin n) : Prop :=
  (w.nodes i).maxConcurrent ≤ (w.nodes i).inflight ∧ (w.nodes i).inflight < limit

theorem settle_busy (limit : Int) (hold : Bool) (cands : List (Scored n)) (e : Eval n)
    (busy : (settle limit hold cands e).2 = .preferredBusy) :
    heldBack e.w.nodes limit hold cands = true := by
  cases settle_settled limit hold cands e with
  | held held pick => exact held
  | granted lease c member free pick onNode allowed => exact absurd (busy.symm.trans pick) (by simp)
  | full none pick => exact absurd (busy.symm.trans pick) (by simp)
  | refused unheld best least all pick logged => exact absurd (busy.symm.trans pick) (by simp)

/-- A call is held only for a preferred candidate that is full. -/
theorem decision_busy (rt : Runtime n) (opts : Options) (w : World n) (call : Call)
    (schedule : List (List (Interference n)))
    (busy : (w.decision rt opts call schedule).2 = .preferredBusy) :
    call.hold = true ∧ ∃ i, w.preferred rt opts call schedule = some i ∧
      i ∈ w.candidates call schedule ∧ w.full (w.limitOf rt opts call schedule) i := by
  have load := ranked_load rt opts w call schedule
  rw [decision_eq] at busy
  split at busy
  · cases busy
  rename_i some
  obtain ⟨c, rest, ranked, isPreferred⟩ := ranked_head rt opts w call schedule some
  have held := settle_busy _ _ _ _ busy
  rw [load.heldBack, ranked] at held
  simp only [heldBack, Bool.and_eq_true, decide_eq_true_eq] at held
  obtain ⟨⟨holding, taken⟩, under⟩ := held
  have inRanked : c ∈ (w.ranked rt opts call schedule).2 := by simp [ranked]
  refine ⟨holding, c.node, isPreferred, ?_, taken, ?_⟩
  · exact (mem_candidates rt opts w call schedule c.node).mpr ⟨c, inRanked, rfl⟩
  · rw [World.limitOf, ranked]
    exact under

/-- A call that holds out waits for a preferred node that is full. -/
theorem decision_held (rt : Runtime n) (opts : Options) (w : World n) (call : Call)
    (schedule : List (List (Interference n))) (holding : call.hold = true) (j : Fin n)
    (isPreferred : w.preferred rt opts call schedule = some j)
    (full : w.full (w.limitOf rt opts call schedule) j) :
    (w.decision rt opts call schedule).2 = .preferredBusy := by
  have load := ranked_load rt opts w call schedule
  have candidates : (w.gathered call schedule).2.1 ≠ [] := by
    intro empty
    have sorted := (rt.sort.perm (fun c => c.s.toNat) (w.gathered call schedule).2.1)
    rw [empty] at sorted
    simp [World.preferred, empty, sorted.eq_nil] at isPreferred
  obtain ⟨c, rest, ranked, first⟩ := ranked_head rt opts w call schedule candidates
  rw [isPreferred] at first
  obtain rfl := Option.some.inj first
  obtain ⟨taken, under⟩ := full
  have held : heldBack (w.ranked rt opts call schedule).1.w.nodes
      (w.limitOf rt opts call schedule) call.hold (w.ranked rt opts call schedule).2 = true := by
    rw [load.heldBack, ranked]
    simp [heldBack, holding, taken, under]
  rw [decision_eq, if_neg candidates]
  change (settle (w.limitOf rt opts call schedule) _ _ _).2 = _
  simp only [settle, offer_heldBack _ _ _ _ _ held]

/-- A call that is told to wait and is not held has no candidate with a free
slot. -/
theorem decision_atCapacity (rt : Runtime n) (opts : Options) (w : World n) (call : Call)
    (schedule : List (List (Interference n)))
    (waits : (w.decision rt opts call schedule).2 = .atCapacity) (i : Fin n)
    (member : i ∈ w.candidates call schedule) :
    (w.nodes i).maxConcurrent ≤ (w.nodes i).inflight := by
  have load := ranked_load rt opts w call schedule
  obtain ⟨c, inRanked, rfl⟩ := (mem_candidates rt opts w call schedule i).mp member
  rw [decision_eq] at waits
  split at waits
  · cases waits
  cases settle_settled _ call.hold (w.ranked rt opts call schedule).2
      (w.ranked rt opts call schedule).1 with
  | held held pick => exact absurd (waits.symm.trans pick) (by simp)
  | granted lease c member free pick onNode allowed =>
      exact absurd (waits.symm.trans pick) (by simp)
  | refused unheld best least all pick logged => exact absurd (waits.symm.trans pick) (by simp)
  | full none pick =>
      have full := (foldl_lessLoaded_none _ _ _ none).2 c inRanked
      rwa [load.inflight, load.limit] at full

/-- As long as a call holds, the preferred node is passed over only when it is
over the limit or refuses. -/
theorem settle_elsewhere (limit : Int) (c : Scored n) (rest : List (Scored n)) (e : Eval n)
    (lease : Nat) (i : Fin n) (granted : (settle limit true (c :: rest) e).2 = .granted lease)
    (onNode : (settle limit true (c :: rest) e).1.w.leases[lease]?.map (fun l => l.node) = some i) :
    i = c.node ∨ limit ≤ (e.w.nodes c.node).inflight ∨
      c.node ∈ settleRefusals limit true (c :: rest) e := by
  by_cases under : (e.w.nodes c.node).inflight < min (e.w.nodes c.node).maxConcurrent limit
  · cases tried : (tryLeaseLocked e c.node).2 with
    | some other =>
        have leased := (tryLeaseLocked_grantedOn e c.node other tried).node
        simp only [settle, offer, if_pos under, tried, Pick.granted.injEq] at granted onNode
        rw [← granted, leased] at onNode
        exact Or.inl (Option.some.inj onNode).symm
    | none =>
        refine Or.inr (Or.inr ?_)
        simp only [settleRefusals, offerRefusals, if_pos under, tried]
        exact List.mem_append_left _ List.mem_cons_self
  · by_cases room : (e.w.nodes c.node).inflight < limit
    · rw [lt_min_iff] at under
      have full : (e.w.nodes c.node).maxConcurrent ≤ (e.w.nodes c.node).inflight := by omega
      have held : heldBack e.w.nodes limit true (c :: rest) = true := by
        simp [heldBack, full, room]
      simp only [settle, offer_heldBack limit true false _ e held] at granted
      cases granted
    · exact Or.inr (Or.inl (not_lt.mp room))

theorem decision_elsewhere (rt : Runtime n) (opts : Options) (w : World n) (call : Call)
    (schedule : List (List (Interference n))) (holding : call.hold = true) (lease : Nat) (i : Fin n)
    (granted : (w.decision rt opts call schedule).2 = .granted lease)
    (onNode : (w.decision rt opts call schedule).1.w.leases[lease]?.map (fun l => l.node) =
      some i) :
    ∃ j, w.preferred rt opts call schedule = some j ∧
      (i = j ∨ w.limitOf rt opts call schedule ≤ (w.nodes j).inflight ∨
        j ∈ w.refusals rt opts call schedule) := by
  have load := ranked_load rt opts w call schedule
  rw [decision_eq] at granted onNode
  split at granted
  · cases granted
  rename_i some
  obtain ⟨c, rest, ranked, isPreferred⟩ := ranked_head rt opts w call schedule some
  refine ⟨c.node, isPreferred, ?_⟩
  rw [if_neg some] at onNode
  rw [World.limitOf, World.refusals, if_neg some, World.limitOf, ← load.inflight]
  rw [holding] at granted onNode ⊢
  generalize (w.ranked rt opts call schedule).2 = cands at ranked granted onNode ⊢
  subst ranked
  exact settle_elsewhere _ c rest _ lease i granted onNode

/-- A call that no longer holds takes a free slot if nobody refuses. -/
theorem decision_spills (rt : Runtime n) (opts : Options) (w : World n) (call : Call)
    (schedule : List (List (Interference n))) (unheld : call.hold = false) (i : Fin n)
    (member : i ∈ w.candidates call schedule)
    (free : (w.nodes i).inflight < (w.nodes i).maxConcurrent)
    (willing : w.refusals rt opts call schedule = []) :
    ∃ lease, (w.decision rt opts call schedule).2 = .granted lease := by
  have load := ranked_load rt opts w call schedule
  obtain ⟨c, inRanked, rfl⟩ := (mem_candidates rt opts w call schedule i).mp member
  have some : (w.gathered call schedule).2.1 ≠ [] :=
    List.ne_nil_of_mem ((ranked_perm rt opts w call schedule).subset inRanked)
  rw [World.refusals, if_neg some] at willing
  rw [decision_eq, if_neg some]
  cases settle_settled (w.limitOf rt opts call schedule) call.hold
      (w.ranked rt opts call schedule).2 (w.ranked rt opts call schedule).1 with
  | held held pick =>
      rw [unheld] at held
      cases cands : (w.ranked rt opts call schedule).2 with
      | nil => simp [cands, heldBack] at held
      | cons d rest => simp [cands, heldBack] at held
  | granted lease c member free pick onNode allowed => exact ⟨lease, pick⟩
  | full none pick =>
      have full := (foldl_lessLoaded_none _ _ _ none).2 c inRanked
      rw [load.inflight, load.limit] at full
      omega
  | refused unheld best least all pick logged =>
      rw [willing] at logged
      simp at logged

/-! ## The timer -/

/-- What a step does to `hold`: entering sets it, the timer drops it and
nothing else writes it. -/
theorem Stepped.hold {rt : Runtime n} {opts : Options} {w next : World n} {action : Action n}
    (stepped : Stepped rt opts w action next) (index : Nat) (call' : Call)
    (found' : next.calls[index]? = some call') :
    (∃ call, w.calls[index]? = some call ∧ call'.hold = call.hold ∧
        action ≠ .affinityExpired index) ∨
      (action = .affinityExpired index ∧ call'.hold = false) ∨
      (w.calls.length = index ∧ call'.hold = decide (0 < opts.affinityWait) ∧
        action ≠ .affinityExpired index) := by
  -- a step that rewrites one call and keeps its `hold`
  have rewritten : ∀ (other : Nat) (call replaced : Call), w.calls[other]? = some call →
      (w.calls.set other replaced)[index]? = some call' → replaced.hold = call.hold →
      ∃ call, w.calls[index]? = some call ∧ call'.hold = call.hold := by
    intro other call replaced found after same
    rcases call_of_set found after with ⟨_, old⟩ | ⟨rfl, rfl⟩
    · exact ⟨call', old, rfl⟩
    · exact ⟨call, found, same⟩
  have kept : action ≠ .affinityExpired index →
      (∃ call, w.calls[index]? = some call ∧ call'.hold = call.hold) →
      ∃ call, w.calls[index]? = some call ∧ call'.hold = call.hold ∧
        action ≠ .affinityExpired index := by
    rintro other ⟨call, found, same⟩
    exact ⟨call, found, same, other⟩
  cases stepped with
  | acquire request =>
      rcases call_of_append found' with old | ⟨last, rfl⟩
      · exact Or.inl (kept (by simp) ⟨call', old, rfl⟩)
      · exact Or.inr (Or.inr ⟨last, rfl, by simp⟩)
  | evaluate other schedule call found deciding =>
      obtain ⟨replaced, _, same, calls⟩ := (evaluate_passed rt opts w other call schedule).calls
      rw [calls, (decision_sameQueue rt opts w call schedule).calls] at found'
      exact Or.inl (kept (by simp) (rewritten other call replaced found found' same))
  | affinityExpired other call channel found blocked armed =>
      rcases call_of_set found found' with ⟨apart, old⟩ | ⟨rfl, rfl⟩
      · refine Or.inl (kept ?_ ⟨call', old, rfl⟩)
        intro same
        cases same
        exact apart rfl
      · exact Or.inr (Or.inl ⟨rfl, rfl⟩)
  | wake other call channel found | queueExpired other call channel found
  | ctxDone other cause call channel found | leave other call err found =>
      exact Or.inl (kept (by simp) (rewritten other call _ found found' rfl))
  | release lease _ found reported => exact Or.inl (kept (by simp) ⟨call', found', rfl⟩)
  | other interference =>
      rw [(Unlocked.interference w interference).calls] at found'
      exact Or.inl (kept (by simp) ⟨call', found', rfl⟩)

/-- After these actions a call holds exactly if there is an affinity wait whose
expiry it has not received. -/
def HoldsUntilExpiry (opts : Options) (actions : List (Action n)) (w : World n) : Prop :=
  ∀ index, (.affinityExpired index ∈ actions → index < w.calls.length) ∧
    ∀ call, w.calls[index]? = some call →
      (call.hold = true ↔ 0 < opts.affinityWait ∧ .affinityExpired index ∉ actions)

theorem Stepped.calls_length {rt : Runtime n} {opts : Options} {w next : World n}
    {action : Action n} (stepped : Stepped rt opts w action next) :
    w.calls.length ≤ next.calls.length := by
  cases stepped with
  | acquire request => simp
  | evaluate index schedule call found deciding =>
      obtain ⟨replaced, _, _, calls⟩ := (evaluate_passed rt opts w index call schedule).calls
      rw [calls, (decision_sameQueue rt opts w call schedule).calls, List.length_set]
  | release => exact le_rfl
  | other interference => rw [(Unlocked.interference w interference).calls]
  | wake | affinityExpired | queueExpired | ctxDone | leave =>
      simp only [World.setCall, List.length_set, le_rfl]

theorem HoldsUntilExpiry.step {rt : Runtime n} {opts : Options} {actions : List (Action n)}
    {w next : World n} {action : Action n} (before : HoldsUntilExpiry opts actions w)
    (stepped : Stepped rt opts w action next) :
    HoldsUntilExpiry opts (actions ++ [action]) next := by
  have longer := stepped.calls_length
  intro index
  refine ⟨?_, ?_⟩
  · intro expired
    rcases List.mem_append.mp expired with earlier | now
    · exact lt_of_lt_of_le ((before index).1 earlier) longer
    · cases stepped with
      | affinityExpired other call channel found blocked armed =>
          cases List.mem_singleton.mp now
          exact lt_of_lt_of_le (List.getElem?_eq_some_iff.mp found).1 longer
      | acquire | evaluate | wake | queueExpired | ctxDone | leave | release | other =>
          simp at now
  · intro call' found'
    simp only [List.mem_append, List.mem_singleton, not_or]
    rcases stepped.hold index call' found' with
      ⟨call, found, same, other⟩ | ⟨rfl, dropped⟩ | ⟨last, fresh, other⟩
    · rw [same, (before index).2 call found]
      exact ⟨fun both => ⟨both.1, both.2, Ne.symm other⟩, fun all => ⟨all.1, all.2.1⟩⟩
    · simp [dropped]
    · have notYet : .affinityExpired index ∉ actions := by
        intro earlier
        have := (before index).1 earlier
        omega
      simp [fresh, notYet, Ne.symm other]

end

theorem holdsUntilExpiry_of_reached {instances : List Instance} {defaultMaxConcurrent : Int}
    {opts : Options} {rt : Runtime instances.length} {clock : Int}
    {actions : List (Action instances.length)} {w : World instances.length}
    (reached : Reached instances defaultMaxConcurrent opts rt clock actions w) :
    HoldsUntilExpiry opts.clamp actions w := by
  apply Runs.run_history (World.step rt opts.clamp)
    (fun actions w => HoldsUntilExpiry opts.clamp actions w) _ _ _ actions w reached
  · intro index
    simp [new, World.idle]
  · intro actions w action next _ before stepped
    exact before.step (step_stepped rt opts.clamp w next action stepped)

/-! ## The affinity hold -/

/-- Until its timer expires, a call is served by another node than the preferred
one only if that one is over the load limit or its breaker refused, and waits
for it only if it is a candidate that is full and not over the limit.  From then
on it is served whenever a candidate has a free slot and no breaker refuses. -/
theorem affinity_hold (instances : List Instance) (defaultMaxConcurrent : Int) (opts : Options)
    (rt : Runtime instances.length) (clock : Int) (actions : List (Action instances.length))
    (w : World instances.length) (waits : 0 < opts.affinityWait)
    (reached : Reached instances defaultMaxConcurrent opts rt clock actions w) (index : Nat)
    (call : Call) (found : w.calls[index]? = some call)
    (schedule : List (List (Interference instances.length))) :
    let decided := w.decision rt opts.clamp call schedule
    let limit := w.limitOf rt opts.clamp call schedule
    (.affinityExpired index ∉ actions → ∀ lease i, decided.2 = .granted lease →
      decided.1.w.leases[lease]?.map (fun l => l.node) = some i →
      ∃ j, w.preferred rt opts.clamp call schedule = some j ∧
        (i = j ∨ limit ≤ (w.nodes j).inflight ∨ j ∈ w.refusals rt opts.clamp call schedule)) ∧
      (decided.2 = .preferredBusy → .affinityExpired index ∉ actions ∧
        ∃ j, w.preferred rt opts.clamp call schedule = some j ∧
          j ∈ w.candidates call schedule ∧ w.full limit j) ∧
      (.affinityExpired index ∈ actions →
        (∃ i ∈ w.candidates call schedule, (w.nodes i).inflight < (w.nodes i).maxConcurrent) →
        w.refusals rt opts.clamp call schedule = [] → ∃ lease, decided.2 = .granted lease) ∧
      (opts.placementSize ≤ 0 → ∀ j, w.preferred rt opts.clamp call schedule = some j →
        ∃ c ∈ (w.gathered call schedule).2.1, c.node = j ∧
          ∀ d ∈ (w.gathered call schedule).2.1, d.s.toNat ≤ c.s.toNat) ∧
      (1 ≤ opts.placementSize → w.touches call schedule = true →
        (w.evaluate rt opts.clamp index call schedule).recorded (placementKey call.request) =
          w.preferred rt opts.clamp call schedule) := by
  intro decided limit
  have holds := (holdsUntilExpiry_of_reached reached index).2 call found
  refine ⟨?_, ?_, ?_, ?_, ?_⟩
  · intro unexpired lease i granted onNode
    exact decision_elsewhere rt opts.clamp w call schedule (holds.mpr ⟨waits, unexpired⟩) lease i
      granted onNode
  · intro busy
    obtain ⟨holding, full⟩ := decision_busy rt opts.clamp w call schedule busy
    exact ⟨(holds.mp holding).2, full⟩
  · rintro expired ⟨i, member, free⟩ willing
    have unheld : call.hold = false := by
      by_contra holding
      exact (holds.mp (Bool.eq_true_of_not_eq_false holding)).2 expired
    exact decision_spills rt opts.clamp w call schedule unheld i member free willing
  · intro off j isPreferred
    exact preferred_top rt opts.clamp w call schedule off j isPreferred
  · intro sized used
    exact (memory_of_reached sized reached).preferred_recorded rt opts.clamp sized index call
      schedule used

def holdOptions (maxQueue : Int) : Options := ⟨2, 1, 1, 0, maxQueue, 1, none⟩

/-- The second request waits for the node of the first until its timer expires. -/
def heldThenExpired : List (Action 2) :=
  [.acquire promptA, .acquire promptA, .evaluate 0 [], .evaluate 1 [], .affinityExpired 1]

theorem heldThenExpired_spills :
    ∃ (w : World 2) (call : Call),
      Reached pairOfSlots 0 (holdOptions 1) (Runtime.exact 2) 0 heldThenExpired w ∧
      w.calls[1]? = some call ∧ w.waiting = 1 ∧
      w.preferred (Runtime.exact 2) (holdOptions 1).clamp call [] = some 1 ∧
      (w.nodes 1).maxConcurrent ≤ (w.nodes 1).inflight ∧
      ∃ lease, (w.decision (Runtime.exact 2) (holdOptions 1).clamp call []).2 = .granted lease := by
  have evaluated : ((Runs.run (World.step (Runtime.exact 2) (holdOptions 1).clamp)
      (new pairOfSlots 0 (holdOptions 1) 0) heldThenExpired).bind fun w : World 2 =>
        w.calls[1]?.map fun call =>
          (w.waiting, w.preferred (Runtime.exact 2) (holdOptions 1).clamp call [],
            w.candidates call [], w.refusals (Runtime.exact 2) (holdOptions 1).clamp call [],
            decide ((w.nodes 1).maxConcurrent ≤ (w.nodes 1).inflight ∧
              (w.nodes 0).inflight < (w.nodes 0).maxConcurrent))) =
      some (1, some 1, [0, 1], [], true) := by
    decide +kernel
  obtain ⟨w, reached, rest⟩ := Option.bind_eq_some_iff.mp evaluated
  obtain ⟨call, found, facts⟩ := Option.map_eq_some_iff.mp rest
  simp only [Prod.mk.injEq, decide_eq_true_eq] at facts
  obtain ⟨queue, isPreferred, candidates, willing, taken, free⟩ := facts
  have hold := affinity_hold pairOfSlots 0 (holdOptions 1) (Runtime.exact 2) 0 heldThenExpired w
    (by decide) reached 1 call found []
  have member : (0 : Fin 2) ∈ w.candidates call [] := by simp [candidates]
  have expired : Action.affinityExpired 1 ∈ heldThenExpired := by simp [heldThenExpired]
  exact ⟨w, call, reached, found, queue, isPreferred, taken,
    hold.2.2.1 expired ⟨(0 : Fin 2), member, free⟩ willing⟩

/-! ## The queue -/

/-- A fresh call that has to wait is turned away by a full queue. -/
theorem Passed.refused_of_full {n : Nat} {opts : Options} {index : Nat} {call : Call}
    {after next : World n} {pick : Pick} (passed : Passed opts index call after pick next)
    (found : after.calls[index]? = some call) (waits : pick.waits = true)
    (fresh : call.queued = false) (full : opts.maxQueue ≤ after.waiting) : next.refused index := by
  have inside := (List.getElem?_eq_some_iff.mp found).1
  cases passed with
  | granted lease => cases waits
  | noNode => cases waits
  | queueFull =>
      exact ⟨{ call with pc := .returned (.error .queueFull) }, by simp [World.setCall, inside], rfl⟩
  | blocked _ affinity room =>
      have := room fresh
      omega

/-- `ErrQueueFull` means that the queue is full and that all candidates are full
or, with an affinity wait, that the call is held for its preferred node.  A call
that is held is turned away whenever it cannot be queued. -/
theorem queueFull_only_full_or_held (instances : List Instance) (defaultMaxConcurrent : Int)
    (opts : Options) (rt : Runtime instances.length) (clock : Int)
    (actions : List (Action instances.length)) (w next : World instances.length)
    (reached : Reached instances defaultMaxConcurrent opts rt clock actions w) (index : Nat)
    (schedule : List (List (Interference instances.length)))
    (stepped : w.step rt opts.clamp (.evaluate index schedule) = some next) :
    (next.refused index → opts.maxQueue ≤ w.waiting ∧ ∃ call, w.calls[index]? = some call ∧
      ((∀ i ∈ w.candidates call schedule, (w.nodes i).maxConcurrent ≤ (w.nodes i).inflight) ∨
        (0 < opts.affinityWait ∧ ∃ j, w.preferred rt opts.clamp call schedule = some j ∧
          j ∈ w.candidates call schedule ∧
          w.full (w.limitOf rt opts.clamp call schedule) j))) ∧
      ∀ call, w.calls[index]? = some call → call.queued = false → opts.maxQueue ≤ w.waiting →
        0 < opts.affinityWait → .affinityExpired index ∉ actions →
        ∀ j, w.preferred rt opts.clamp call schedule = some j →
        w.full (w.limitOf rt opts.clamp call schedule) j → next.refused index := by
  have holds := (holdsUntilExpiry_of_reached reached index).2
  cases step_stepped rt opts.clamp w next _ stepped with
  | evaluate _ _ call found deciding =>
      constructor
      · intro refused
        have undecided : ¬ w.refused index := by
          rintro ⟨other, atIndex, returned⟩
          rw [found] at atIndex
          cases Option.some.inj atIndex
          rw [deciding] at returned
          cases returned
        obtain ⟨_, waits, _, queue⟩ := evaluate_refused found refused undecided
        refine ⟨queue, call, found, ?_⟩
        cases pick : (w.decision rt opts.clamp call schedule).2 with
        | atCapacity =>
            exact Or.inl (decision_atCapacity rt opts.clamp w call schedule pick)
        | preferredBusy =>
            obtain ⟨holding, full⟩ := decision_busy rt opts.clamp w call schedule pick
            exact Or.inr ⟨((holds call found).mp holding).1, full⟩
        | granted lease =>
            rw [pick] at waits
            cases waits
        | noNode =>
            rw [pick] at waits
            cases waits
      · intro other atIndex fresh queue armed unexpired j isPreferred full
        rw [found] at atIndex
        cases Option.some.inj atIndex
        have same := decision_sameQueue rt opts.clamp w call schedule
        have busy := decision_held rt opts.clamp w call schedule
          ((holds call found).mpr ⟨armed, unexpired⟩) j isPreferred full
        apply (evaluate_passed rt opts.clamp w index call schedule).refused_of_full
        · rw [same.calls, found]
        · rw [busy]
          rfl
        · exact fresh
        · rw [same.waiting]
          exact queue

/-- The second request arrives while its preferred node is busy, the other one is
idle and nobody may wait. -/
def heldWithoutQueue : List (Action 2) := [.acquire promptA, .acquire promptA, .evaluate 0 []]

theorem heldWithoutQueue_reaches :
    ∃ (w next : World 2) (call : Call),
      Reached pairOfSlots 0 (holdOptions 0) (Runtime.exact 2) 0 heldWithoutQueue w ∧
      w.step (Runtime.exact 2) (holdOptions 0).clamp (.evaluate 1 []) = some next ∧
      next.refused 1 ∧ w.calls[1]? = some call ∧ w.candidates call [] = [0, 1] ∧
      (w.nodes 0).inflight < (w.nodes 0).maxConcurrent := by
  have evaluated : ((Runs.run (World.step (Runtime.exact 2) (holdOptions 0).clamp)
      (new pairOfSlots 0 (holdOptions 0) 0) heldWithoutQueue).bind fun w : World 2 =>
        (w.step (Runtime.exact 2) (holdOptions 0).clamp (.evaluate 1 [])).bind fun next =>
          w.calls[1]?.map fun call =>
            (next.calls[1]?.map fun c => c.pc.isQueueFull, w.candidates call [],
              decide ((w.nodes 0).inflight < (w.nodes 0).maxConcurrent))) =
      some (some true, [0, 1], true) := by
    decide +kernel
  obtain ⟨w, reached, rest⟩ := Option.bind_eq_some_iff.mp evaluated
  obtain ⟨next, stepped, rest⟩ := Option.bind_eq_some_iff.mp rest
  obtain ⟨call, found, facts⟩ := Option.map_eq_some_iff.mp rest
  simp only [Prod.mk.injEq, decide_eq_true_eq] at facts
  obtain ⟨isFull, candidates, free⟩ := facts
  exact ⟨w, next, call, reached, stepped, refused_of_isQueueFull isFull, found, candidates, free⟩

theorem idle_node_and_queueFull :
    ∃ (w next : World 2) (call : Call),
      Reached pairOfSlots 0 (holdOptions 0) (Runtime.exact 2) 0 heldWithoutQueue w ∧
      w.step (Runtime.exact 2) (holdOptions 0).clamp (.evaluate 1 []) = some next ∧
      next.refused 1 ∧ w.calls[1]? = some call ∧
      ¬ ∀ i ∈ w.candidates call [], (w.nodes i).maxConcurrent ≤ (w.nodes i).inflight := by
  obtain ⟨w, next, call, reached, stepped, refused, found, candidates, free⟩ :=
    heldWithoutQueue_reaches
  refine ⟨w, next, call, reached, stepped, refused, found, ?_⟩
  intro full
  have := full 0 (by simp [candidates])
  omega

theorem heldWithoutQueue_is_held :
    ∃ (w next : World 2) (call : Call),
      Reached pairOfSlots 0 (holdOptions 0) (Runtime.exact 2) 0 heldWithoutQueue w ∧
      w.step (Runtime.exact 2) (holdOptions 0).clamp (.evaluate 1 []) = some next ∧
      next.refused 1 ∧ w.calls[1]? = some call ∧
      ∃ j, w.preferred (Runtime.exact 2) (holdOptions 0).clamp call [] = some j ∧
        w.full (w.limitOf (Runtime.exact 2) (holdOptions 0).clamp call []) j := by
  obtain ⟨w, next, call, reached, stepped, refused, found, candidates, free⟩ :=
    heldWithoutQueue_reaches
  obtain ⟨_, other, atIndex, full | ⟨_, j, isPreferred, _, full⟩⟩ :=
    (queueFull_only_full_or_held pairOfSlots 0 (holdOptions 0) (Runtime.exact 2) 0 heldWithoutQueue
      w next reached 1 [] stepped).1 refused
  · rw [found] at atIndex
    cases Option.some.inj atIndex
    have member : (0 : Fin 2) ∈ w.candidates call [] := by simp [candidates]
    have := full (0 : Fin 2) member
    omega
  · rw [found] at atIndex
    cases Option.some.inj atIndex
    exact ⟨w, next, call, reached, stepped, refused, found, j, isPreferred, full⟩

end RadixGates.Router
