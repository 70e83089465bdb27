import Mathlib.Algebra.Order.BigOperators.Group.List
import Mathlib.Algebra.Order.Field.Rat
import Mathlib.Tactic.Linarith
import RadixGates.Router.Choice

/-!
# Bounded load

A node may hold at most the load factor times the mean load of the candidates,
counting the new request, and never less than the floor.  Not all candidates
can be at such a limit at once.  So when they all have the same number of
slots the fallback of the decision, which ignores the limit, never grants.
-/

set_option autoImplicit false

namespace RadixGates.Router

open RadixGates.KeyedSort (SortFunc)

/-- Some load is under the limit computed from the mean of all of them. -/
theorem exists_lt_mean_limit (loads : List Int) (factor : Rat) (floor : Int)
    (nonempty : loads ≠ []) (atLeast : 1 ≤ factor) (positive : 1 ≤ floor) :
    ∃ x ∈ loads, x < max floor (factor * (loads.sum + 1) / loads.length).ceil := by
  by_contra none
  push Not at none
  set limit := max floor (factor * (loads.sum + 1) / loads.length).ceil
  have one : 1 ≤ limit := positive.trans (le_max_left _ _)
  have count : (0 : Rat) < loads.length := by
    exact_mod_cast List.length_pos_iff.mpr nonempty
  have summed : loads.length * limit ≤ loads.sum := by
    simpa using List.card_nsmul_le_sum loads limit none
  have nonneg : (0 : Rat) ≤ loads.sum + 1 := by
    have : 0 ≤ (loads.length : Int) * limit := by positivity
    exact_mod_cast (by omega : 0 ≤ loads.sum + 1)
  have mean : factor * (loads.sum + 1) / loads.length ≤ limit :=
    Rat.le_ceil.trans (Int.cast_le.mpr (le_max_right _ _))
  rw [div_le_iff₀ count] at mean
  have scaled : (loads.sum : Rat) + 1 ≤ factor * (loads.sum + 1) :=
    le_mul_of_one_le_left nonneg atLeast
  have exceeded : (loads.sum : Rat) + 1 ≤ loads.length * limit := by
    linarith [mul_comm (limit : Rat) loads.length]
  have : loads.sum + 1 ≤ loads.length * limit := by exact_mod_cast exceeded
  omega

section
variable {n : Nat}

/-- The ceiling is computed exactly, equal scores are sorted in any way. -/
def Runtime.withSort (sort : SortFunc (Scored n) Nat) : Runtime n :=
  { Runtime.exact n with sort := sort }

/-- The most that a node may hold beside these candidates. -/
def boundedLoad (opts : Options) (nodes : Fin n → Node) (cands : List (Fin n)) : Int :=
  max opts.affinityFloor
    (opts.boundedLoadFactor * ((cands.map fun i => (nodes i).inflight).sum + 1) /
      cands.length).ceil

theorem exists_lt_boundedLoad (opts : Options) (nodes : Fin n → Node) (cands : List (Fin n))
    (nonempty : cands ≠ []) :
    ∃ i ∈ cands, (nodes i).inflight < boundedLoad opts.clamp nodes cands := by
  have atLeast : 1 ≤ opts.clamp.boundedLoadFactor := by
    simp only [Options.clamp]
    split
    · exact le_rfl
    · exact not_lt.mp ‹_›
  have some : cands.map (fun i => (nodes i).inflight) ≠ [] := by simpa using nonempty
  obtain ⟨x, member, under⟩ := exists_lt_mean_limit _ opts.clamp.boundedLoadFactor
    opts.clamp.affinityFloor some atLeast (one_le_clamp_affinityFloor opts)
  obtain ⟨i, inCands, rfl⟩ := List.mem_map.mp member
  refine ⟨i, inCands, ?_⟩
  simpa [boundedLoad] using under

theorem collect_total (kh : UInt64) (group : String) (filter : Node → Bool)
    (exclude : List String) (nodes : List (Fin n)) (e : Eval n) :
    (collect kh group filter exclude nodes e).2.2 =
      ((collect kh group filter exclude nodes e).2.1.map fun c =>
        (e.w.nodes c.node).inflight).sum := by
  induction nodes generalizing e with
  | nil => rfl
  | cons i rest ih =>
      have same := (Unlocked.available e i).sameLoad.inflight
      have later := ih (e.available i).1
      simp only [same] at later
      rw [collect_cons]
      split_ifs
      · dsimp only
        split_ifs
        · simp [later, same]
        · exact later
      · exact ih e

theorem limitOf_eq (sort : SortFunc (Scored n) Nat) (opts : Options) (w : World n) (call : Call)
    (schedule : List (List (Interference n))) :
    w.limitOf (Runtime.withSort sort) opts call schedule =
      boundedLoad opts w.nodes (w.candidates call schedule) := by
  have counted := (ranked_perm (Runtime.withSort sort) opts w call schedule).length_eq
  have total : (w.gathered call schedule).2.2 =
      ((w.gathered call schedule).2.1.map fun c => (w.nodes c.node).inflight).sum :=
    collect_total _ _ _ _ _ ⟨w, schedule⟩
  rw [World.limitOf, loadLimit, counted, total, boundedLoad, World.candidates, max_comm]
  simp only [List.map_map, List.length_map, Runtime.withSort, Runtime.exact, Function.comp_def]

/-- Every candidate under the limit is full and the node has the least in flight
of those with a free slot. -/
structure World.SpillsTo (w : World n) (cands : List (Fin n)) (limit : Int) (i : Fin n) : Prop where
  saturated : ∀ j ∈ cands, (w.nodes j).inflight < limit →
    (w.nodes j).maxConcurrent ≤ (w.nodes j).inflight
  free : (w.nodes i).inflight < (w.nodes i).maxConcurrent
  least : ∀ j ∈ cands, (w.nodes j).inflight < (w.nodes j).maxConcurrent →
    (w.nodes i).inflight ≤ (w.nodes j).inflight

/-- With the same number of slots everywhere nothing is spilled. -/
theorem World.SpillsTo.mixed {w : World n} {opts : Options} {cands : List (Fin n)} {i : Fin n}
    (spills : w.SpillsTo cands (boundedLoad opts.clamp w.nodes cands) i) (member : i ∈ cands) :
    ∃ j ∈ cands, (w.nodes j).maxConcurrent ≠ (w.nodes i).maxConcurrent := by
  obtain ⟨j, inCands, under⟩ := exists_lt_boundedLoad opts w.nodes cands (List.ne_nil_of_mem member)
  refine ⟨j, inCands, ?_⟩
  intro same
  have full := spills.saturated j inCands under
  have above : boundedLoad opts.clamp w.nodes cands ≤ (w.nodes i).inflight := by
    by_contra below
    have := spills.saturated i member (not_le.mp below)
    have := spills.free
    omega
  have := spills.free
  omega

theorem granted_within_or_spilled (sort : SortFunc (Scored n) Nat) (opts : Options) (w : World n)
    (call : Call) (schedule : List (List (Interference n))) (quiet : Eval.Quiet ⟨w, schedule⟩)
    (lease : Nat) (i : Fin n)
    (granted : (w.decision (Runtime.withSort sort) opts call schedule).2 = .granted lease)
    (onNode : (w.decision (Runtime.withSort sort) opts call schedule).1.w.leases[lease]?.map
      (fun l => l.node) = some i) :
    i ∈ w.candidates call schedule ∧
      (((w.decision (Runtime.withSort sort) opts call schedule).1.w.nodes i).inflight ≤
          boundedLoad opts w.nodes (w.candidates call schedule) ∨
        w.SpillsTo (w.candidates call schedule)
          (boundedLoad opts w.nodes (w.candidates call schedule)) i) := by
  have load := ranked_load (Runtime.withSort sort) opts w call schedule
  have member := mem_candidates (Runtime.withSort sort) opts w call schedule
  have limit := limitOf_eq sort opts w call schedule
  rw [decision_eq] at granted onNode ⊢
  split at granted
  · cases granted
  rename_i some
  rw [if_neg some] at onNode ⊢
  cases (ranked_ready (Runtime.withSort sort) opts w call schedule quiet).settle
      (w.limitOf (Runtime.withSort sort) opts call schedule) call.hold with
  | held held pick => exact absurd (granted.symm.trans pick) (by simp)
  | full none pick => exact absurd (granted.symm.trans pick) (by simp)
  | within other c inRanked isBelow pick on =>
      cases granted.symm.trans pick
      cases Option.some.inj (onNode.symm.trans on.node)
      refine ⟨(member c.node).mpr ⟨c, inRanked, rfl⟩, Or.inl ?_⟩
      have under := (lt_min_iff.mp (of_decide_eq_true isBelow)).2
      have grown := on.inflight
      rw [limit] at under
      simp only [World.limitOf] at grown
      omega
  | spilled other best nobody least pick on =>
      cases granted.symm.trans pick
      cases Option.some.inj (onNode.symm.trans on.node)
      obtain ⟨c, inRanked, rfl, free⟩ := leastLoaded_chosen _ _ _ least
      refine ⟨(member c.node).mpr ⟨c, inRanked, rfl⟩, Or.inr ⟨?_, ?_, ?_⟩⟩
      · intro j inCands under
        obtain ⟨d, among, rfl⟩ := (member j).mp inCands
        have above : below (w.ranked (Runtime.withSort sort) opts call schedule).1.w.nodes
            (w.limitOf (Runtime.withSort sort) opts call schedule) d ≠ true := by
          intro isBelow
          have := (mem_belowNodes _ _ _ d among).mpr isBelow
          rw [nobody] at this
          cases this
        simp only [below, limit, load.inflight, load.limit, ne_eq, decide_eq_true_eq, lt_min_iff]
          at above
        omega
      · rwa [load.inflight, load.limit] at free
      · intro j inCands free
        obtain ⟨d, among, rfl⟩ := (member j).mp inCands
        rw [← load.inflight, ← load.inflight]
        apply leastLoaded_least _ _ _ least d among
        rwa [load.inflight, load.limit]

/-- How a decision that is not disturbed by a report ends: the bound is kept
unless all candidates under it are full, which takes different numbers of
slots, and without a hold a request waits only when all candidates are full. -/
theorem bounded_load (sort : SortFunc (Scored n) Nat) (opts : Options) (w : World n) (call : Call)
    (schedule : List (List (Interference n))) (quiet : Eval.Quiet ⟨w, schedule⟩) :
    let cands := w.candidates call schedule
    let limit := boundedLoad opts.clamp w.nodes cands
    let decided := w.decision (Runtime.withSort sort) opts.clamp call schedule
    (∀ lease i, decided.2 = .granted lease →
      decided.1.w.leases[lease]?.map (fun l => l.node) = some i →
      ((decided.1.w.nodes i).inflight ≤ limit ∨ w.SpillsTo cands limit i) ∧
        ((∀ j ∈ cands, ∀ k ∈ cands, (w.nodes j).maxConcurrent = (w.nodes k).maxConcurrent) →
          ¬ w.SpillsTo cands limit i ∧ (decided.1.w.nodes i).inflight ≤ limit)) ∧
      (call.hold = false → decided.2.waits = true →
        ∀ j ∈ cands, (w.nodes j).maxConcurrent ≤ (w.nodes j).inflight) := by
  intro cands limit decided
  refine ⟨?_, ?_⟩
  · intro lease i granted onNode
    have placed := granted_within_or_spilled sort opts.clamp w call schedule quiet lease i granted
      onNode
    refine ⟨placed.2, ?_⟩
    intro same
    have unspilled : ¬ w.SpillsTo cands limit i := by
      intro spills
      obtain ⟨j, inCands, mixed⟩ := spills.mixed placed.1
      exact mixed (same j inCands i placed.1)
    exact ⟨unspilled, placed.2.resolve_right unspilled⟩
  · intro unheld waits j inCands
    obtain ⟨c, gathered, here⟩ := List.mem_map.mp inCands
    have candidate := (gathered_candidate w call schedule j).mp ⟨c, gathered, here⟩
    have full := decision_full (Runtime.withSort sort) opts.clamp w call schedule unheld waits j
      candidate
    have same := ungranted_sameLoad (Runtime.withSort sort) opts.clamp w call schedule
      (Pick.ungranted_of_waits waits)
    rwa [same.inflight, same.limit] at full

end

/-- A full server with one slot beside a loaded one with eight. -/
def smallAndLarge : World 2 :=
  World.idle 0 fun i =>
    if i = Fin.last 1 then ⟨"", "", "b:1", 8, 3, 0, true, none⟩
    else ⟨"", "", "a:1", 1, 1, 0, true, none⟩

def plainCall : Call := Call.enter oneSlotOptions ⟨"", "", none, []⟩

theorem smallAndLarge_spills :
    ∃ lease i,
      let decided := smallAndLarge.decision (Runtime.withSort SortFunc.insertion)
        oneSlotOptions.clamp plainCall [[.tick 1]]
      decided.2 = .granted lease ∧ (decided.1.w.nodes i).inflight = 4 ∧
      boundedLoad oneSlotOptions.clamp smallAndLarge.nodes
        (smallAndLarge.candidates plainCall [[.tick 1]]) = 3 ∧
      smallAndLarge.SpillsTo (smallAndLarge.candidates plainCall [[.tick 1]]) 3 i := by
  have evaluated :
      (let decided := smallAndLarge.decision (Runtime.withSort SortFunc.insertion)
        oneSlotOptions.clamp plainCall [[.tick 1]]
      (decided.2, decided.1.w.leases[0]?.map fun l => l.node, (decided.1.w.nodes 1).inflight,
        boundedLoad oneSlotOptions.clamp smallAndLarge.nodes
          (smallAndLarge.candidates plainCall [[.tick 1]]))) =
      (.granted 0, some 1, 4, 3) := by
    decide +kernel
  simp only [Prod.mk.injEq] at evaluated
  obtain ⟨granted, onNode, load, limit⟩ := evaluated
  have quiet : Eval.Quiet (⟨smallAndLarge, [[.tick 1]]⟩ : Eval 2) := by
    simp [Eval.Quiet, Interference.quiet]
  obtain ⟨placed, _⟩ := (bounded_load SortFunc.insertion oneSlotOptions smallAndLarge plainCall
    [[.tick 1]] quiet).1 0 1 granted onNode
  rw [limit, load] at placed
  exact ⟨0, 1, granted, load, limit, placed.resolve_left (by decide)⟩

end RadixGates.Router
