import RadixGates.Router.Preferred
import RadixGates.Router.Queue

/-!
# What a rejected request leaves behind

A call that is turned away at once takes no slot and no place in the queue.
Its placement was decided before that, while the candidates were ranked: with
placement memory a rejected request uses its key like any other, and the use
may push out the key that was used longest ago.
-/

set_option autoImplicit false

namespace RadixGates.Router

section
variable {n : Nat}

def World.rejected (w : World n) (index : Nat) : Prop :=
  ∃ call, w.calls[index]? = some call ∧
    (call.pc = .returned (.error .noNode) ∨ call.pc = .returned (.error .queueFull))

/-- A fresh call that is rejected changes no load and no queue. -/
theorem Passed.of_rejected {opts : Options} {index : Nat} {call : Call} {after next : World n}
    {pick : Pick} (passed : Passed opts index call after pick next)
    (found : after.calls[index]? = some call) (fresh : call.queued = false)
    (rejected : next.rejected index) :
    next.nodes = after.nodes ∧ next.waiting = after.waiting ∧
      ∀ lease, pick ≠ .granted lease := by
  have inside := (List.getElem?_eq_some_iff.mp found).1
  have unqueued : after.dequeue call = after := by simp [World.dequeue, fresh]
  obtain ⟨ended, atIndex, errors⟩ := rejected
  cases passed with
  | noNode =>
      rw [unqueued]
      exact ⟨rfl, rfl, by simp⟩
  | queueFull waits _ _ => exact ⟨rfl, rfl, Pick.ungranted_of_waits waits⟩
  | granted lease =>
      rw [unqueued] at atIndex
      simp only [World.setCall, List.getElem?_set, if_true, inside, Option.some.injEq] at atIndex
      simp [← atIndex] at errors
  | blocked waits affinity room =>
      have calls := enqueue_calls after call
      simp only [World.setCall, calls, List.getElem?_set, if_true, inside, Option.some.injEq]
        at atIndex
      simp [← atIndex] at errors

theorem evaluate_rejected (rt : Runtime n) (opts : Options) (w : World n) (index : Nat)
    (call : Call) (schedule : List (List (Interference n))) (found : w.calls[index]? = some call)
    (fresh : call.queued = false)
    (rejected : (w.evaluate rt opts index call schedule).rejected index) :
    (∀ i, ((w.evaluate rt opts index call schedule).nodes i).inflight = (w.nodes i).inflight) ∧
      (w.evaluate rt opts index call schedule).waiting = w.waiting := by
  have queue := decision_sameQueue rt opts w call schedule
  obtain ⟨nodes, waiting, none⟩ := (evaluate_passed rt opts w index call schedule).of_rejected
    (by rw [queue.calls, found]) fresh rejected
  have load := ungranted_sameLoad rt opts w call schedule none
  refine ⟨?_, waiting.trans queue.waiting⟩
  intro i
  rw [nodes]
  exact load.inflight i

/-! ## The placement memory -/

/-- An evaluation that does not use its key leaves the memory as it is. -/
theorem untouched_samePlacement (rt : Runtime n) (opts : Options) (w : World n) (index : Nat)
    (call : Call) (schedule : List (List (Interference n)))
    (unused : opts.placementSize ≤ 0 ∨ w.touches call schedule = false) :
    SamePlacement w (w.evaluate rt opts index call schedule) := by
  have unlocked := (gathered_unlocked w call schedule).samePlacement
  by_cases none : (w.gathered call schedule).2.1 = []
  · exact unlocked.trans (unplaced_samePlacement rt opts w index call schedule none)
  have later := ranked_samePlacement rt opts w index call schedule none
  refine (unlocked.trans ?_).trans later
  by_cases sized : 1 ≤ opts.placementSize
  · have spared : (w.gathered call schedule).1.excludedButAvailable (placementKey call.request)
        call.request.exclude = true := by
      have unused := unused.resolve_left (by omega)
      have isSome : (w.gathered call schedule).2.1.isEmpty = false := by simpa using none
      simpa [World.touches, isSome] using unused
    obtain ⟨cands, c, perm, member, _, chosen⟩ :=
      ranked_chosen rt opts w call schedule sized none
    simp only [Eval.excludedButAvailable] at spared
    generalize (w.ranked rt opts call schedule).1.w = placed at chosen
    cases chosen with
    | touched p found same =>
        simp only [found, Bool.and_eq_true, decide_eq_true_eq] at spared
        have untried := candidate_untried w call schedule c (perm.subset member)
        rw [same] at untried
        exact absurd spared.1 untried
    | kept p found excluded yes => exact (Unlocked.available _ p.node).samePlacement
    | placed middle between least lost =>
        split at spared
        · rename_i p found
          simp only [Bool.and_eq_true, decide_eq_true_eq] at spared
          rw [(lost p found).2 spared.1] at spared
          cases spared.2
        · cases spared
  · have off : ¬ 0 < opts.placementSize := by omega
    simp only [World.ranked, rankAndPlace, if_neg off]
    exact SamePlacement.frame.refl _

/-- What is still remembered of the other keys is what was recorded before. -/
theorem Memory.evaluate_others {w : World n} (rt : Runtime n) (opts : Options)
    (memory : Memory opts.placementSize w) (sized : 1 ≤ opts.placementSize) (index : Nat)
    (call : Call) (schedule : List (List (Interference n))) (key : UInt64)
    (other : key ≠ placementKey call.request) (i : Fin n)
    (after : (w.evaluate rt opts index call schedule).recorded key = some i) :
    w.recorded key = some i := by
  have kept : key ∈ w.keys := by
    have later := memory.evaluate rt opts index call schedule sized
    obtain ⟨p, member, here, _⟩ := (later.recorded_iff key i).mp after
    have inKeys : key ∈ (w.evaluate rt opts index call schedule).keys :=
      List.mem_map.mpr ⟨p, member, here⟩
    rw [memory.evaluate_keys rt opts sized] at inKeys
    split at inKeys
    · rcases List.mem_cons.mp (List.mem_of_mem_take inKeys) with same | old
      · exact absurd same other
      · exact List.mem_of_mem_filter old
    · exact inKeys
  obtain ⟨p, member, here⟩ := List.mem_map.mp kept
  have before : w.recorded key = some p.node := (memory.recorded_iff key p.node).mpr
    ⟨p, member, here, rfl⟩
  by_cases moved : i = p.node
  · rw [moved]
    exact before
  · exact absurd (memory.evaluate_recorded rt opts sized index call schedule key p.node i before
      after moved).1 other

/-- A placed counter counts the remembered keys recorded on its node. -/
theorem Consistent.placed_recorded {w : World n} (consistent : Consistent w) (i : Fin n) :
    (w.nodes i).placed = (w.keys.countP fun key => w.recorded key = some i : Nat) := by
  rw [consistent.placed, World.keys, List.countP_map]
  congr 1
  apply List.countP_congr
  intro p member
  have onNode : w.recorded p.key = some p.node :=
    (consistent.recorded_iff p.key p.node).mpr ⟨p, member, rfl, rfl⟩
  simp [onNode]

end

/-- A call rejected by its first evaluation leaves the loads and the queue as they
were, and the placement memory too unless it has used its key.  Then that key is
the last one used and recorded on the preferred node, what is remembered of the
others has not moved, and the placed counters count what is recorded. -/
theorem rejection_only_uses_key (instances : List Instance) (defaultMaxConcurrent : Int)
    (opts : Options) (rt : Runtime instances.length) (clock : Int)
    (actions : List (Action instances.length)) (w next : World instances.length)
    (reached : Reached instances defaultMaxConcurrent opts rt clock actions w) (index : Nat)
    (call : Call) (found : w.calls[index]? = some call) (fresh : call.queued = false)
    (schedule : List (List (Interference instances.length)))
    (stepped : w.step rt opts.clamp (.evaluate index schedule) = some next)
    (rejected : next.rejected index) :
    (∀ i, (next.nodes i).inflight = (w.nodes i).inflight) ∧ next.waiting = w.waiting ∧
      (opts.placementSize ≤ 0 ∨ w.touches call schedule = false → SamePlacement w next) ∧
      (1 ≤ opts.placementSize → w.touches call schedule = true →
        next.keys = Recency.touch opts.placementSize.toNat (placementKey call.request) w.keys ∧
          next.recorded (placementKey call.request) = w.preferred rt opts.clamp call schedule ∧
          (∀ key i, key ≠ placementKey call.request → next.recorded key = some i →
            w.recorded key = some i) ∧
          ∀ i, (w.nodes i).placed = (w.keys.countP fun key => w.recorded key = some i : Nat) ∧
            (next.nodes i).placed =
              (next.keys.countP fun key => next.recorded key = some i : Nat)) := by
  cases step_stepped rt opts.clamp w next _ stepped with
  | evaluate _ _ other atIndex deciding =>
      rw [found] at atIndex
      cases Option.some.inj atIndex
      obtain ⟨loads, queue⟩ :=
        evaluate_rejected rt opts.clamp w index call schedule found fresh rejected
      refine ⟨loads, queue, ?_, ?_⟩
      · exact untouched_samePlacement rt opts.clamp w index call schedule
      · intro sized used
        have memory := memory_of_reached sized reached
        have later := memory.evaluate rt opts.clamp index call schedule sized
        refine ⟨?_, ?_, ?_, ?_⟩
        · have keys := memory.evaluate_keys rt opts.clamp sized index call schedule
          rwa [if_pos used] at keys
        · exact memory.preferred_recorded rt opts.clamp sized index call schedule used
        · intro key i apart after
          exact memory.evaluate_others rt opts.clamp sized index call schedule key apart i after
        · intro i
          exact ⟨memory.placed_recorded i, later.placed_recorded i⟩

/-! ## A rejected request evicts a placement -/

def tinyMemory : Options := ⟨1, 1, 0, 1, 0, 1, none⟩

/-- The prefix `p` is being served when a request with the fresh prefix `q` comes
to the full pool. -/
def freshPrefix : List (Action 1) :=
  [.acquire promptP, .evaluate 0 [], .acquire ⟨"q", "", none, []⟩]

theorem freshPrefix_reaches :
    ∃ (w next : World 1) (call : Call),
      Reached oneSlot 0 tinyMemory (Runtime.exact 1) 0 freshPrefix w ∧
      w.step (Runtime.exact 1) tinyMemory.clamp (.evaluate 1 []) = some next ∧
      w.calls[1]? = some call ∧ call.queued = false ∧ next.refused 1 ∧
      w.touches call [] = true ∧ w.recorded (placementKey promptP) = some 0 ∧
      w.keys = [placementKey promptP] ∧ next.keys = [placementKey call.request] ∧
      placementKey call.request ≠ placementKey promptP := by
  have evaluated : ((Runs.run (World.step (Runtime.exact 1) tinyMemory.clamp)
      (new oneSlot 0 tinyMemory 0) freshPrefix).bind fun w : World 1 =>
        (w.step (Runtime.exact 1) tinyMemory.clamp (.evaluate 1 [])).bind fun next =>
          w.calls[1]?.map fun call =>
            (next.calls[1]?.map fun c => c.pc.isQueueFull, w.recorded (placementKey promptP),
              decide (call.queued = false ∧ w.touches call [] = true ∧
                w.keys = [placementKey promptP] ∧ next.keys = [placementKey call.request] ∧
                placementKey call.request ≠ placementKey promptP))) =
      some (some true, some 0, true) := by
    decide +kernel
  obtain ⟨w, reached, rest⟩ := Option.bind_eq_some_iff.mp evaluated
  obtain ⟨next, stepped, rest⟩ := Option.bind_eq_some_iff.mp rest
  obtain ⟨call, found, facts⟩ := Option.map_eq_some_iff.mp rest
  simp only [Prod.mk.injEq, decide_eq_true_eq] at facts
  obtain ⟨isFull, recorded, fresh, used, keys, after, apart⟩ := facts
  exact ⟨w, next, call, reached, stepped, found, fresh, refused_of_isQueueFull isFull, used,
    recorded, keys, after, apart⟩

theorem refused_prefix_evicts :
    ∃ w next : World 1,
      Reached oneSlot 0 tinyMemory (Runtime.exact 1) 0 freshPrefix w ∧
      w.step (Runtime.exact 1) tinyMemory.clamp (.evaluate 1 []) = some next ∧
      next.refused 1 ∧ w.recorded (placementKey promptP) = some 0 ∧
      placementKey promptP ∉ next.keys ∧ next.placeLRU ≠ w.placeLRU := by
  obtain ⟨w, next, call, reached, stepped, _, _, refused, _, recorded, keys, after, apart⟩ :=
    freshPrefix_reaches
  refine ⟨w, next, reached, stepped, refused, recorded, ?_, ?_⟩
  · rw [after, List.mem_singleton]
    exact Ne.symm apart
  · intro same
    have sameKeys : next.keys = w.keys := by
      rw [World.keys, same]
      rfl
    rw [after, keys, List.cons.injEq] at sameKeys
    exact apart sameKeys.1

theorem freshPrefix_takes_no_slot :
    ∃ (w next : World 1) (call : Call),
      Reached oneSlot 0 tinyMemory (Runtime.exact 1) 0 freshPrefix w ∧
      w.step (Runtime.exact 1) tinyMemory.clamp (.evaluate 1 []) = some next ∧
      next.rejected 1 ∧ (next.nodes 0).inflight = (w.nodes 0).inflight ∧
      next.waiting = w.waiting ∧
      next.keys = Recency.touch 1 (placementKey call.request) w.keys := by
  obtain ⟨w, next, call, reached, stepped, found, fresh, ⟨ended, atIndex, refused⟩, used, _⟩ :=
    freshPrefix_reaches
  have rejected : next.rejected 1 := ⟨ended, atIndex, Or.inr refused⟩
  have left := rejection_only_uses_key oneSlot 0 tinyMemory (Runtime.exact 1) 0 freshPrefix w next
    reached 1 call found fresh [] stepped rejected
  exact ⟨w, next, call, reached, stepped, rejected, left.1 (0 : Fin 1), left.2.1,
    (left.2.2.2 (by decide) used).1⟩

end RadixGates.Router
