import RadixGates.Lib.Recency
import RadixGates.Router.Placement

/-!
# Placements are sticky

A recorded placement moves in one case only: an evaluation for its own key does
not find its node among the candidates although it belongs to the group and
passes the filter.  Then `available` said no, in the collecting loop or, for a
node that the request had tried before, in the placement step.  The keys that
are remembered are the ones touched last.
-/

set_option autoImplicit false

namespace RadixGates.Router

section
variable {n : Nat}

def World.recorded (w : World n) (key : UInt64) : Option (Fin n) :=
  (w.findPlacement key).map fun p => p.node

/-- The remembered keys, most recently used first. -/
def World.keys (w : World n) : List UInt64 := w.placeLRU.map fun p => p.key

theorem Consistent.recorded_iff {w : World n} (consistent : Consistent w) (key : UInt64)
    (i : Fin n) :
    w.recorded key = some i ↔ ∃ p ∈ w.placeLRU, p.key = key ∧ p.node = i := by
  simp only [World.recorded, Option.map_eq_some_iff, consistent.find_iff, and_assoc]

theorem SamePlacement.recorded {w w' : World n} (same : SamePlacement w w') (key : UInt64) :
    w'.recorded key = w.recorded key := by
  simp only [World.recorded, World.findPlacement, same.placeMap, same.placeLRU]

theorem SamePlacement.keys {w w' : World n} (same : SamePlacement w w') : w'.keys = w.keys := by
  simp only [World.keys, same.placeLRU]

/-! ## The order of the keys -/

theorem moveToFront_eq {w : World n} (consistent : Consistent w) (p : Placement n)
    (inList : p ∈ w.placeLRU) :
    moveToFront p.id w.placeLRU = p :: w.placeLRU.filter fun q => q.key ≠ p.key := by
  have front : (w.placeLRU.filter fun q => q.id = p.id) = [p] := by
    have only : (w.placeLRU.filter fun q => q.id = p.id) = w.placeLRU.filter fun q => q = p := by
      apply List.filter_congr
      intro q member
      simp only [decide_eq_decide]
      exact ⟨consistent.same_of_id member inList, fun same => by rw [same]⟩
    have once := List.count_eq_one_of_mem consistent.ids.of_map inList
    rw [only, List.filter_eq, once]
    rfl
  have others : (w.placeLRU.filter fun q => q.id ≠ p.id) =
      w.placeLRU.filter fun q => q.key ≠ p.key := by
    apply List.filter_congr
    intro q member
    simp only [decide_eq_decide, ne_eq, not_iff_not]
    constructor
    · intro same
      rw [consistent.same_of_id member inList same]
    · intro same
      rw [consistent.same_of_key member inList same]
  rw [moveToFront, front, others]
  rfl

theorem Memory.touchPlacement_keys {size : Int} {w : World n} (memory : Memory size w)
    (p : Placement n) (inList : p ∈ w.placeLRU) :
    (w.touchPlacement p).keys = Recency.touch size.toNat p.key w.keys := by
  have moved : (w.touchPlacement p).keys = p.key :: w.keys.filter (· ≠ p.key) := by
    simp only [World.keys, World.touchPlacement, moveToFront_eq memory.toConsistent p inList,
      List.map_cons, List.filter_map]
    rfl
  have fits := (memory.touchPlacement p).bounded
  rw [Recency.touch, ← moved, List.take_of_length_le]
  simp only [World.keys, List.length_map]
  omega

theorem Memory.setPlacementLocked_keys {size : Int} {w : World n} (memory : Memory size w)
    (key : UInt64) (i : Fin n) :
    (w.setPlacementLocked size key i).keys = Recency.touch size.toNat key w.keys := by
  unfold World.setPlacementLocked
  cases found : w.findPlacement key with
  | some p =>
      obtain ⟨inList, rfl⟩ := (memory.find_iff key p).mp found
      dsimp only
      split
      · -- the element is the same one, with another node in it
        have sameElement : (w.movePlacement p i).touchPlacement p =
            (w.movePlacement p i).touchPlacement (p.moved i p) := by
          simp only [World.touchPlacement, moved_id]
        have sameKeys : (w.movePlacement p i).keys = w.keys := movePlacement_keys w p i
        rw [sameElement, (memory.movePlacement p i inList).touchPlacement_keys (p.moved i p)
          (List.mem_map_of_mem inList), moved_key, sameKeys]
      · exact memory.touchPlacement_keys p inList
  | none =>
      have absent := memory.find_none key found
      obtain ⟨bound, rfl⟩ := Int.eq_ofNat_of_zero_le ((Int.natCast_nonneg _).trans memory.bounded)
      have others : w.keys.filter (· ≠ key) = w.keys := by
        apply List.filter_eq_self.mpr
        intro other member
        obtain ⟨p, inList, rfl⟩ := List.mem_map.mp member
        simpa using absent p inList
      dsimp only
      simp only [World.keys] at others ⊢
      rw [evict_placeLRU bound _ _ (by simp [World.pushPlacement]), List.map_take, Recency.touch,
        others]
      rfl

/-! ## One placement step -/

/-- The elements after a placement: the key's own with the new node, and old
ones of other keys. -/
theorem Memory.setPlacementLocked_mem {size : Int} {w : World n} (memory : Memory size w)
    (key : UInt64) (i : Fin n) (q : Placement n)
    (member : q ∈ (w.setPlacementLocked size key i).placeLRU) :
    (q.key = key ∧ q.node = i) ∨ (q.key ≠ key ∧ q ∈ w.placeLRU) := by
  unfold World.setPlacementLocked at member
  cases found : w.findPlacement key with
  | some p =>
      obtain ⟨inList, rfl⟩ := (memory.find_iff key p).mp found
      rw [found] at member
      have untouched := (moveToFront_perm p.id _).subset member
      have old : ∀ r ∈ w.placeLRU, r.key = p.key → r = p :=
        fun r inOld same => memory.same_of_key inOld inList same
      split at untouched
      · obtain ⟨r, inOld, rfl⟩ := List.mem_map.mp untouched
        change ((p.moved i r).key = p.key ∧ (p.moved i r).node = i) ∨
          ((p.moved i r).key ≠ p.key ∧ p.moved i r ∈ w.placeLRU)
        rw [moved_key]
        by_cases same : r.key = p.key
        · refine Or.inl ⟨same, ?_⟩
          simp [Placement.moved, old r inOld same]
        · have other : r.id ≠ p.id :=
            fun equal => same (by rw [memory.same_of_id inOld inList equal])
          rw [moved_of_ne p r i other]
          exact Or.inr ⟨same, inOld⟩
      · rename_i stays
        by_cases same : q.key = p.key
        · rw [old q untouched same]
          exact Or.inl ⟨rfl, not_not.mp stays⟩
        · exact Or.inr ⟨same, untouched⟩
  | none =>
      rw [found] at member
      have absent := memory.find_none key found
      obtain ⟨bound, rfl⟩ := Int.eq_ofNat_of_zero_le ((Int.natCast_nonneg _).trans memory.bounded)
      dsimp only at member
      rw [evict_placeLRU bound _ _ (by simp [World.pushPlacement])] at member
      rcases List.mem_cons.mp (List.mem_of_mem_take member) with rfl | inOld
      · exact Or.inl ⟨rfl, rfl⟩
      · exact Or.inr ⟨absent q inOld, inOld⟩

/-- Every element after the placement step is an old one, or the key's own on the
preferred candidate. -/
theorem Memory.chosen_mem {size : Int} {key : UInt64} {cands : List (Scored n)}
    {exclude : List String} {e : Eval n} {c : Scored n} {w : World n} (memory : Memory size e.w)
    (chosen : Chosen size key cands exclude e c w) (q : Placement n) (member : q ∈ w.placeLRU) :
    q ∈ e.w.placeLRU ∨ (q.key = key ∧ c.node = q.node) := by
  cases chosen with
  | touched p found same =>
      exact Or.inl ((moveToFront_perm p.id _).subset member)
  | kept p found excluded yes =>
      rw [(Unlocked.available e p.node).placeLRU] at member
      exact Or.inl member
  | placed w unlocked least lost =>
      rcases (memory.of_same unlocked.samePlacement).setPlacementLocked_mem key c.node q member with
        ⟨same, here⟩ | ⟨_, inOld⟩
      · exact Or.inr ⟨same, here.symm⟩
      · rw [unlocked.placeLRU] at inOld
        exact Or.inl inOld

/-- A recorded node gives way only in the placement of its own key, when it is
no candidate and, if it was tried before, has refused a second time. -/
theorem Memory.chosen_recorded {size : Int} {key : UInt64} {cands : List (Scored n)}
    {exclude : List String} {e : Eval n} {c : Scored n} {w : World n} (memory : Memory size e.w)
    (chosen : Chosen size key cands exclude e c w) (other : UInt64) (x y : Fin n)
    (before : e.w.recorded other = some x) (after : w.recorded other = some y) (moved : y ≠ x) :
    other = key ∧ (∀ c ∈ cands, c.node ≠ x) ∧
      ((e.w.nodes x).name ∈ exclude → (e.available x).2 = false) := by
  have memory' := memory.chosen chosen
  obtain ⟨p, inOld, rfl, rfl⟩ := (memory.recorded_iff other x).mp before
  obtain ⟨q, inNew, sameKey, rfl⟩ := (memory'.recorded_iff p.key y).mp after
  have notOld : q ∉ e.w.placeLRU := by
    intro stayed
    rw [memory.same_of_key stayed inOld sameKey] at moved
    exact moved rfl
  rcases memory.chosen_mem chosen q inNew with stayed | ⟨atKey, _⟩
  · exact absurd stayed notOld
  have here : p.key = key := sameKey.symm.trans atKey
  have recorded : e.w.findPlacement key = some p :=
    (memory.find_iff key p).mpr ⟨inOld, here⟩
  refine ⟨here, ?_⟩
  cases chosen with
  | touched p' found same =>
      exact absurd ((moveToFront_perm p'.id _).subset inNew) notOld
  | kept p' found excluded yes =>
      rw [(Unlocked.available e p'.node).placeLRU] at inNew
      exact absurd inNew notOld
  | placed w unlocked least lost => exact lost p recorded

/-- The recorded node was tried before by this request and is available. -/
def Eval.excludedButAvailable (e : Eval n) (key : UInt64) (exclude : List String) : Bool :=
  match e.w.findPlacement key with
  | some p => decide ((e.w.nodes p.node).name ∈ exclude) && (e.available p.node).2
  | none => false

theorem Memory.chosen_keys {size : Int} {key : UInt64} {cands : List (Scored n)}
    {exclude : List String} {e : Eval n} {c : Scored n} {w : World n} (memory : Memory size e.w)
    (chosen : Chosen size key cands exclude e c w)
    (untried : (e.w.nodes c.node).name ∉ exclude) :
    w.keys =
      if e.excludedButAvailable key exclude then e.w.keys
      else Recency.touch size.toNat key e.w.keys := by
  cases chosen with
  | touched p found same =>
      obtain ⟨inList, rfl⟩ := (memory.find_iff key p).mp found
      have fresh := untried
      rw [same] at fresh
      rw [memory.touchPlacement_keys p inList]
      simp [Eval.excludedButAvailable, found, fresh]
  | kept p found excluded yes =>
      rw [(Unlocked.available e p.node).samePlacement.keys]
      simp [Eval.excludedButAvailable, found, excluded, yes]
  | placed w unlocked least lost =>
      rw [(memory.of_same unlocked.samePlacement).setPlacementLocked_keys key c.node,
        unlocked.samePlacement.keys, if_neg]
      unfold Eval.excludedButAvailable
      cases recorded : e.w.findPlacement key with
      | none => simp
      | some p =>
          have refused := (lost p recorded).2
          simpa using refused

/-! ## One evaluation -/

/-- The node is in the request's group and an entry point. -/
def Request.admits (request : Request) (node : Node) : Bool :=
  (request.targetGroup == "" || node.group == request.targetGroup) && entryPoint node

/-- `available` said no to this evaluation: in the collecting loop, or in the
placement step about a node that the request had tried before. -/
def World.FailedAvailable (w : World n) (call : Call) (schedule : List (List (Interference n)))
    (i : Fin n) : Prop :=
  (i, Verdict.unavailable) ∈ w.surveyed call schedule ∨
    ((w.nodes i).name ∈ call.request.exclude ∧
      ((w.gathered call schedule).1.available i).2 = false)

/-- The evaluation uses its key: it has a candidate and does not find the
recorded node excluded but available. -/
def World.touches (w : World n) (call : Call) (schedule : List (List (Interference n))) : Bool :=
  !(w.gathered call schedule).2.1.isEmpty &&
    !(w.gathered call schedule).1.excludedButAvailable (placementKey call.request)
      call.request.exclude

theorem candidate_admitted (w : World n) (call : Call) (schedule : List (List (Interference n)))
    (usual : call.request.filter.getD entryPoint = entryPoint)
    (c : Scored n) (member : c ∈ (w.gathered call schedule).2.1) :
    call.request.admits (w.nodes c.node) = true := by
  have logged := (gathered_candidate w call schedule c.node).mp ⟨c, member, rfl⟩
  obtain ⟨seen, unlocked, verdict⟩ := survey_verdict _ _ _ _ _ _ _ logged
  have same := unlocked.ungranted.sameIdentity
  have matching : eligible call.request.targetGroup entryPoint call.request.exclude
      (seen.nodes c.node) = true := by
    rw [← usual]
    simpa using verdict
  simp only [eligible, entryPoint, same.group, same.role, Bool.and_eq_true] at matching
  simp only [Request.admits, entryPoint, Bool.and_eq_true]
  exact matching.1

/-- A node of the request's group that is no candidate was refused. -/
theorem failedAvailable_of_admitted (w : World n) (call : Call)
    (schedule : List (List (Interference n)))
    (usual : call.request.filter.getD entryPoint = entryPoint) (i : Fin n)
    (admitted : call.request.admits (w.nodes i) = true)
    (absent : ∀ c ∈ (w.gathered call schedule).2.1, c.node ≠ i)
    (again : (w.nodes i).name ∈ call.request.exclude →
      ((w.gathered call schedule).1.available i).2 = false) :
    w.FailedAvailable call schedule i := by
  obtain ⟨v, logged⟩ := exists_verdict call.request.targetGroup
    (call.request.filter.getD entryPoint) call.request.exclude ⟨w, schedule⟩ i
  cases v with
  | unavailable => exact Or.inl logged
  | candidate =>
      obtain ⟨c, member, same⟩ := (gathered_candidate w call schedule i).mpr logged
      exact absurd same (absent c member)
  | skipped =>
      obtain ⟨seen, unlocked, verdict⟩ := survey_verdict _ _ _ _ _ _ _ logged
      have same := unlocked.ungranted.sameIdentity
      have outside := verdict.mp rfl
      simp only [usual, eligible, entryPoint, same.group, same.role, same.name] at outside
      simp only [Request.admits, entryPoint] at admitted
      have tried : (w.nodes i).name ∈ call.request.exclude := by
        rw [admitted] at outside
        simpa using outside
      exact Or.inr ⟨tried, again tried⟩

theorem Memory.evaluate_keys {w : World n} (rt : Runtime n) (opts : Options)
    (memory : Memory opts.placementSize w) (sized : 1 ≤ opts.placementSize) (index : Nat)
    (call : Call) (schedule : List (List (Interference n))) :
    (w.evaluate rt opts index call schedule).keys =
      if w.touches call schedule then
        Recency.touch opts.placementSize.toNat (placementKey call.request) w.keys
      else w.keys := by
  have unlocked := (gathered_unlocked w call schedule).samePlacement
  have gathered := memory.of_same unlocked
  rcases evaluate_placement rt opts w index call schedule sized with
    ⟨none, same⟩ | ⟨some, cands, c, placed, perm, inCands, chosen, same⟩
  · rw [same.keys, unlocked.keys]
    simp [World.touches, none]
  · have untried := candidate_untried w call schedule c (perm.subset inCands)
    rw [same.keys, gathered.chosen_keys chosen untried, unlocked.keys]
    have isSome : (w.gathered call schedule).2.1.isEmpty = false := by simpa using some
    cases spared : (w.gathered call schedule).1.excludedButAvailable (placementKey call.request)
      call.request.exclude <;> simp [World.touches, isSome, spared]

/-- A recorded node gives way in the evaluations of its own key only. -/
theorem Memory.evaluate_recorded {w : World n} (rt : Runtime n) (opts : Options)
    (memory : Memory opts.placementSize w) (sized : 1 ≤ opts.placementSize) (index : Nat)
    (call : Call) (schedule : List (List (Interference n))) (key : UInt64) (x y : Fin n)
    (before : w.recorded key = some x)
    (after : (w.evaluate rt opts index call schedule).recorded key = some y) (moved : y ≠ x) :
    key = placementKey call.request ∧
      (∀ c ∈ (w.gathered call schedule).2.1, c.node ≠ x) ∧
      ((w.nodes x).name ∈ call.request.exclude →
        ((w.gathered call schedule).1.available x).2 = false) := by
  have unlocked := gathered_unlocked w call schedule
  have gathered := memory.of_same unlocked.samePlacement
  rw [← unlocked.samePlacement.recorded] at before
  rcases evaluate_placement rt opts w index call schedule sized with
    ⟨none, same⟩ | ⟨some, cands, c, placed, perm, inCands, chosen, same⟩
  · rw [same.recorded, before] at after
    exact absurd (Option.some.inj after).symm moved
  · rw [same.recorded] at after
    obtain ⟨here, absent, again⟩ :=
      gathered.chosen_recorded chosen key x y before after moved
    rw [unlocked.ungranted.sameIdentity.name] at again
    exact ⟨here, fun c member => absent c (perm.symm.subset member), again⟩

/-! ## Runs -/

theorem SameIdentity.admits {w w' : World n} (same : SameIdentity w w') (request : Request)
    (i : Fin n) : request.admits (w'.nodes i) = request.admits (w.nodes i) := by
  simp only [Request.admits, entryPoint, same.group, same.role]

/-- Every placement lies on a node that a known request with its key admits. -/
structure Homed (known : Request → Prop) (w : World n) : Prop where
  calls : ∀ call ∈ w.calls, known call.request
  homes : ∀ p ∈ w.placeLRU, ∃ request, known request ∧ placementKey request = p.key ∧
    request.admits (w.nodes p.node) = true

theorem Homed.step {known : Request → Prop} {rt : Runtime n} {opts : Options} {w next : World n}
    {action : Action n} (homed : Homed known w) (memory : Memory opts.placementSize w)
    (sized : 1 ≤ opts.placementSize)
    (usual : ∀ request, known request → request.filter.getD entryPoint = entryPoint)
    (entering : ∀ request, action = .acquire request → known request)
    (stepped : Stepped rt opts w action next) : Homed known next := by
  have identity := stepped.sameIdentity
  refine ⟨stepped.requests (fun request _ => known request) homed.calls (fun _ _ => id) entering, ?_⟩
  intro q member
  have kept : q ∈ w.placeLRU → ∃ request, known request ∧ placementKey request = q.key ∧
      request.admits (next.nodes q.node) = true := by
    intro old
    obtain ⟨request, isKnown, sameKey, admitted⟩ := homed.homes q old
    exact ⟨request, isKnown, sameKey, by rw [identity.admits, admitted]⟩
  rcases stepped.placement with ⟨index, schedule, call, _, found, _, rfl⟩ | same
  · have unlocked := gathered_unlocked w call schedule
    have gathered := memory.of_same unlocked.samePlacement
    have isKnown := homed.calls call (List.mem_of_getElem? found)
    rcases evaluate_placement rt opts w index call schedule sized with
      ⟨none, same⟩ | ⟨some, cands, c, placed, perm, inCands, chosen, same⟩
    · rw [same.placeLRU, unlocked.placeLRU] at member
      exact kept member
    · rw [same.placeLRU] at member
      rcases gathered.chosen_mem chosen q member with old | ⟨here, onNode⟩
      · rw [unlocked.placeLRU] at old
        exact kept old
      · refine ⟨call.request, isKnown, here.symm, ?_⟩
        rw [identity.admits, ← onNode]
        exact candidate_admitted w call schedule (usual _ isKnown) c (perm.subset inCands)
  · rw [same.placeLRU] at member
    exact kept member

/-- The keys a step uses. -/
def World.touchedBy (w : World n) : Action n → List UInt64
  | .evaluate index schedule =>
      match w.calls[index]? with
      | some call => if w.touches call schedule then [placementKey call.request] else []
      | none => []
  | _ => []

/-- The keys used along a run, in that order. -/
def touchHistory (rt : Runtime n) (opts : Options) : World n → List (Action n) → List UInt64
  | _, [] => []
  | w, action :: rest =>
      w.touchedBy action ++
        match w.step rt opts action with
        | some next => touchHistory rt opts next rest
        | none => []

theorem Memory.step_keys {rt : Runtime n} {opts : Options} {w next : World n} {action : Action n}
    (memory : Memory opts.placementSize w) (sized : 1 ≤ opts.placementSize)
    (stepped : Stepped rt opts w action next) :
    next.keys = (w.touchedBy action).foldl
      (fun l key => Recency.touch opts.placementSize.toNat key l) w.keys := by
  cases stepped with
  | evaluate index schedule call found deciding =>
      rw [memory.evaluate_keys rt opts sized]
      simp only [World.touchedBy, found]
      split <;> rfl
  | other interference => exact (Unlocked.interference w interference).samePlacement.keys
  | acquire | wake | affinityExpired | queueExpired | ctxDone | leave | release => rfl

theorem Memory.run_keys (rt : Runtime n) (opts : Options) (sized : 1 ≤ opts.placementSize)
    (actions : List (Action n)) (w final : World n) (memory : Memory opts.placementSize w)
    (reached : Runs.run (World.step rt opts) w actions = some final) :
    final.keys = (touchHistory rt opts w actions).foldl
      (fun l key => Recency.touch opts.placementSize.toNat key l) w.keys := by
  induction actions generalizing w with
  | nil =>
      cases Option.some.inj reached
      rfl
  | cons action rest ih =>
      obtain ⟨next, stepped, rested⟩ := (Runs.run_cons_some _ w final action rest).mp reached
      have later := ih next (memory.step rt opts sized w action next stepped) rested
      rw [later, memory.step_keys sized (step_stepped rt opts w next action stepped)]
      simp only [touchHistory, stepped, List.foldl_append]

/-- Without placement memory nothing is ever recorded. -/
theorem Stepped.nothing_placed {rt : Runtime n} {opts : Options} {w next : World n}
    {action : Action n} (off : ¬ 1 ≤ opts.placementSize)
    (stepped : Stepped rt opts w action next) : SamePlacement w next := by
  rcases stepped.placement with ⟨index, schedule, call, _, found, _, rfl⟩ | same
  · obtain ⟨waiting, calls, ended⟩ := (evaluate_passed rt opts w index call schedule).bookkeeping
    have decided : SamePlacement w (w.decision rt opts call schedule).1.w := by
      apply SamePlacement.frame.decision
      intro kh group exclude found
      have disabled : ¬ 0 < opts.placementSize := by omega
      simp only [rankAndPlace, if_neg disabled]
      exact SamePlacement.frame.refl _
    rw [ended]
    exact ⟨decided.placeMap, decided.placeLRU, decided.nextElement, decided.placed⟩
  · exact same

end

theorem homed_of_reached {instances : List Instance} {defaultMaxConcurrent : Int}
    {opts : Options} {rt : Runtime instances.length} {clock : Int}
    {actions : List (Action instances.length)} {w : World instances.length}
    (sized : 1 ≤ opts.placementSize)
    (reached : Reached instances defaultMaxConcurrent opts rt clock actions w)
    (usual : ∀ request, .acquire request ∈ actions →
      request.filter.getD entryPoint = entryPoint) :
    Homed (fun request => .acquire request ∈ actions) w := by
  have both := Runs.run_preserves_of_forall (World.step rt opts.clamp)
    (fun w => Memory opts.clamp.placementSize w ∧
      Homed (fun request => .acquire request ∈ actions) w)
    (fun action => action ∈ actions) ?_ actions _ w ?_ (fun _ member => member) reached
  · exact both.2
  · rintro w action next ⟨memory, homed⟩ inRun stepped
    refine ⟨memory.step rt opts.clamp sized w action next stepped, ?_⟩
    apply homed.step memory sized usual _ (step_stepped rt opts.clamp w next action stepped)
    rintro request rfl
    exact inRun
  · refine ⟨memory_new instances defaultMaxConcurrent opts clock sized, ?_⟩
    constructor <;> simp [new, World.idle]

theorem nothing_recorded_of_reached {instances : List Instance} {defaultMaxConcurrent : Int}
    {opts : Options} {rt : Runtime instances.length} {clock : Int}
    {actions : List (Action instances.length)} {w : World instances.length}
    (off : ¬ 1 ≤ opts.placementSize)
    (reached : Reached instances defaultMaxConcurrent opts rt clock actions w) :
    SamePlacement (new instances defaultMaxConcurrent opts clock) w := by
  apply Runs.run_preserves (World.step rt opts.clamp) _ _ actions _ w _ reached
  · intro w action next same stepped
    have disabled : ¬ 1 ≤ opts.clamp.placementSize := off
    exact same.trans ((step_stepped rt opts.clamp w next action stepped).nothing_placed disabled)
  · exact SamePlacement.frame.refl _

/-- A recorded node changes only in an evaluation for its key in which it
failed `available`, and the remembered keys are the last ones used. -/
theorem placements_are_sticky (instances : List Instance) (defaultMaxConcurrent : Int)
    (opts : Options) (rt : Runtime instances.length) (clock : Int)
    (actions : List (Action instances.length)) (w : World instances.length)
    (reached : Reached instances defaultMaxConcurrent opts rt clock actions w)
    (usual : ∀ request, .acquire request ∈ actions →
      request.filter.getD entryPoint = entryPoint)
    (distinct : ∀ r s : Request, .acquire r ∈ actions → .acquire s ∈ actions →
      placementKey r = placementKey s →
      r.targetGroup = s.targetGroup ∧ r.prefixHash = s.prefixHash) :
    (∀ action next key x y, w.step rt opts.clamp action = some next →
      w.recorded key = some x → next.recorded key = some y → y ≠ x →
      ∃ index schedule call, action = .evaluate index schedule ∧
        w.calls[index]? = some call ∧ placementKey call.request = key ∧
        w.FailedAvailable call schedule x) ∧
      w.keys = Recency.recent opts.placementSize.toNat
        (touchHistory rt opts.clamp (new instances defaultMaxConcurrent opts clock) actions) := by
  by_cases sized : 1 ≤ opts.placementSize
  · have memory := memory_of_reached sized reached
    have homed := homed_of_reached sized reached usual
    refine ⟨?_, ?_⟩
    · intro action next key x y stepped before after moved
      rcases (step_stepped rt _ w next action stepped).placement with
        ⟨index, schedule, call, rfl, found, _, rfl⟩ | same
      · obtain ⟨here, absent, again⟩ := memory.evaluate_recorded rt opts.clamp sized index call
          schedule key x y before after moved
        refine ⟨index, schedule, call, rfl, found, here.symm, ?_⟩
        obtain ⟨p, inList, atKey, rfl⟩ := (memory.recorded_iff key x).mp before
        obtain ⟨request, isKnown, sameKey, admitted⟩ := homed.homes p inList
        have inRun := homed.calls call (List.mem_of_getElem? found)
        -- without a collision the placement was made for the same group
        have sameGroup := (distinct request call.request isKnown inRun
          (sameKey.trans (atKey.trans here))).1
        apply failedAvailable_of_admitted w call schedule (usual _ inRun) p.node _ absent again
        simpa only [Request.admits, sameGroup] using admitted
      · rw [same.recorded, before] at after
        exact absurd (Option.some.inj after).symm moved
    · have initial := memory_new instances defaultMaxConcurrent opts clock sized
      rw [Memory.run_keys rt opts.clamp sized actions _ w initial reached]
      exact Recency.foldl_touch _ _
  · have same := nothing_recorded_of_reached sized reached
    refine ⟨?_, ?_⟩
    · intro action next key x y stepped before
      rw [same.recorded] at before
      simp [World.recorded, World.findPlacement, new, World.idle] at before
    · have disabled : opts.placementSize.toNat = 0 := by omega
      rw [same.keys, disabled, Recency.recent, List.take_zero]
      rfl

def promptP : Request := ⟨"p", "", none, []⟩

/-- The node that holds the prefix goes down before the next request for it. -/
def nodeLost : List (Action 2) :=
  [.acquire promptP, .evaluate 0 [], .other (.setUp 1 false), .acquire promptP]

theorem placement_moves_after_nodeLost :
    ∃ w next : World 2,
      Reached pairOfNodes 0 forgetfulOptions (Runtime.exact 2) 0 nodeLost w ∧
      w.step (Runtime.exact 2) forgetfulOptions.clamp (.evaluate 1 []) = some next ∧
      w.recorded (placementKey promptP) = some 1 ∧ next.recorded (placementKey promptP) = some 0 ∧
      (∃ call, w.calls[1]? = some call ∧ w.FailedAvailable call [] 1) ∧
      w.keys = [placementKey promptP] := by
  have evaluated : ((Runs.run (World.step (Runtime.exact 2) forgetfulOptions.clamp)
      (new pairOfNodes 0 forgetfulOptions 0) nodeLost).bind fun w =>
        (w.step (Runtime.exact 2) forgetfulOptions.clamp (.evaluate 1 [])).map fun next =>
          (w.recorded (placementKey promptP), next.recorded (placementKey promptP), w.keys)) =
      some (some 1, some 0, [placementKey promptP]) := by
    decide +kernel
  obtain ⟨w, reached, rest⟩ := Option.bind_eq_some_iff.mp evaluated
  obtain ⟨next, stepped, facts⟩ := Option.map_eq_some_iff.mp rest
  simp only [Prod.mk.injEq] at facts
  obtain ⟨before, after, keys⟩ := facts
  have sameRequest : ∀ request, .acquire request ∈ nodeLost → request = promptP := by
    intro request member
    simpa [nodeLost] using member
  have sticky := placements_are_sticky pairOfNodes 0 forgetfulOptions (Runtime.exact 2) 0 nodeLost w
    reached ?_ ?_
  · have moved : (0 : Fin 2) ≠ 1 := by decide
    obtain ⟨index, schedule, call, same, found, _, failed⟩ :=
      sticky.1 _ next _ (1 : Fin 2) (0 : Fin 2) stepped before after moved
    cases same
    exact ⟨w, next, reached, stepped, before, after, ⟨call, found, failed⟩, keys⟩
  · intro request member
    rw [sameRequest request member]
    rfl
  · intro r s inRun inRun' _
    rw [sameRequest r inRun, sameRequest s inRun']
    exact ⟨rfl, rfl⟩

end RadixGates.Router
