import RadixGates.Router.Choice
import RadixGates.Router.Stickiness

/-!
# The preferred node

A decision tries one candidate before all others: the one the placement step
chose or, without placement memory, the top-ranked one.  With placement memory
it is the node the key is recorded on after the step, except for a retry whose
recorded node is available but was tried before.
-/

set_option autoImplicit false

namespace RadixGates.Router

section
variable {n : Nat}

def World.preferred (rt : Runtime n) (opts : Options) (w : World n) (call : Call)
    (schedule : List (List (Interference n))) : Option (Fin n) :=
  let found := w.gathered call schedule
  let ranked := rt.sort.run (fun c => c.s.toNat) found.2.1
  if 0 < opts.placementSize then
    let chosen := placeLocked opts.placementSize (placementKey call.request) ranked
      call.request.exclude found.1
    ranked[chosen.2]?.map fun c => c.node
  else ranked.head?.map fun c => c.node

theorem sorted_ne_nil (rt : Runtime n) (w : World n) (call : Call)
    (schedule : List (List (Interference n))) (some : (w.gathered call schedule).2.1 ≠ []) :
    rt.sort.run (fun c => c.s.toNat) (w.gathered call schedule).2.1 ≠ [] := by
  intro empty
  have perm := rt.sort.perm (fun c => c.s.toNat) (w.gathered call schedule).2.1
  rw [empty] at perm
  exact some perm.nil_eq.symm

theorem promote_head (i : Nat) (cands : List (Scored n)) (c : Scored n)
    (found : cands[i]? = some c) : promote i cands = c :: cands.eraseIdx i := by
  simp only [promote, found]

/-- The preference order starts with the preferred node. -/
theorem ranked_head (rt : Runtime n) (opts : Options) (w : World n) (call : Call)
    (schedule : List (List (Interference n))) (some : (w.gathered call schedule).2.1 ≠ []) :
    ∃ c rest, (w.ranked rt opts call schedule).2 = c :: rest ∧
      w.preferred rt opts call schedule = .some c.node := by
  have nonempty := sorted_ne_nil rt w call schedule some
  simp only [World.ranked, rankAndPlace, World.preferred]
  split
  · obtain ⟨c, found, _⟩ := placeLocked_chosen opts.placementSize (placementKey call.request)
      (rt.sort.run (fun c => c.s.toNat) (w.gathered call schedule).2.1) call.request.exclude
      (w.gathered call schedule).1 nonempty
    have promoted := promote_head _ _ c found
    rw [found]
    exact ⟨c, _, promoted, rfl⟩
  · obtain ⟨c, rest, sorted⟩ := List.exists_cons_of_ne_nil nonempty
    exact ⟨c, rest, sorted, by rw [sorted]; rfl⟩

/-- Without placement memory no candidate scores higher. -/
theorem preferred_top (rt : Runtime n) (opts : Options) (w : World n) (call : Call)
    (schedule : List (List (Interference n))) (off : opts.placementSize ≤ 0) (i : Fin n)
    (isPreferred : w.preferred rt opts call schedule = some i) :
    ∃ c ∈ (w.gathered call schedule).2.1, c.node = i ∧
      ∀ d ∈ (w.gathered call schedule).2.1, d.s.toNat ≤ c.s.toNat := by
  have perm := rt.sort.perm (fun c => c.s.toNat) (w.gathered call schedule).2.1
  have descending := rt.sort.descending (fun c => c.s.toNat) (w.gathered call schedule).2.1
  simp only [World.preferred, if_neg (not_lt.mpr off)] at isPreferred
  obtain ⟨c, first, here⟩ := Option.map_eq_some_iff.mp isPreferred
  obtain ⟨rest, sorted⟩ := List.head?_eq_some_iff.mp first
  rw [sorted] at perm descending
  refine ⟨c, perm.subset List.mem_cons_self, here, ?_⟩
  intro d member
  exact descending.head_largest d (perm.symm.subset member)

theorem ranked_chosen (rt : Runtime n) (opts : Options) (w : World n) (call : Call)
    (schedule : List (List (Interference n))) (sized : 1 ≤ opts.placementSize)
    (some : (w.gathered call schedule).2.1 ≠ []) :
    ∃ (cands : List (Scored n)) (c : Scored n), cands.Perm (w.gathered call schedule).2.1 ∧
      c ∈ cands ∧ w.preferred rt opts call schedule = .some c.node ∧
      Chosen opts.placementSize (placementKey call.request) cands call.request.exclude
        (w.gathered call schedule).1 c (w.ranked rt opts call schedule).1.w := by
  have positive : 0 < opts.placementSize := by omega
  obtain ⟨c, found, chosen⟩ := placeLocked_chosen opts.placementSize (placementKey call.request)
    _ call.request.exclude (w.gathered call schedule).1 (sorted_ne_nil rt w call schedule some)
  refine ⟨_, c, rt.sort.perm _ _, List.mem_of_getElem? found, ?_, ?_⟩
  · simp only [World.preferred, if_pos positive, found]
    rfl
  · simp only [World.ranked, rankAndPlace, if_pos positive]
    exact chosen

/-! ## The recorded node -/

theorem Memory.setPlacementLocked_recorded {size : Int} {w : World n} (memory : Memory size w)
    (sized : 1 ≤ size) (key : UInt64) (i : Fin n) :
    (w.setPlacementLocked size key i).recorded key = some i := by
  have after := memory.setPlacementLocked key i
  have inKeys : key ∈ (w.setPlacementLocked size key i).keys := by
    rw [memory.setPlacementLocked_keys key i, Recency.touch]
    obtain ⟨k, same⟩ : ∃ k, size.toNat = k + 1 := ⟨size.toNat - 1, by omega⟩
    simp [same]
  obtain ⟨q, member, here⟩ := List.mem_map.mp inKeys
  rw [after.recorded_iff]
  rcases memory.setPlacementLocked_mem key i q member with ⟨_, onNode⟩ | ⟨other, _⟩
  · exact ⟨q, member, here, onNode⟩
  · exact absurd here other

theorem Consistent.touchPlacement_recorded {w : World n} (consistent : Consistent w)
    (p : Placement n) (key : UInt64) :
    (w.touchPlacement p).recorded key = w.recorded key := by
  have after := consistent.touchPlacement p
  ext i
  rw [after.recorded_iff, consistent.recorded_iff]
  simp only [World.touchPlacement, (moveToFront_perm p.id w.placeLRU).mem_iff]

/-- After the placement step the key is recorded on the preferred node. -/
theorem Memory.preferred_recorded {w : World n} (rt : Runtime n) (opts : Options)
    (memory : Memory opts.placementSize w) (sized : 1 ≤ opts.placementSize) (index : Nat)
    (call : Call) (schedule : List (List (Interference n)))
    (used : w.touches call schedule = true) :
    (w.evaluate rt opts index call schedule).recorded (placementKey call.request) =
      w.preferred rt opts call schedule := by
  simp only [World.touches, Bool.and_eq_true, Bool.not_eq_true', List.isEmpty_eq_false_iff] at used
  obtain ⟨some, unspared⟩ := used
  have gathered := memory.of_same (gathered_unlocked w call schedule).samePlacement
  obtain ⟨cands, c, _, _, isPreferred, chosen⟩ := ranked_chosen rt opts w call schedule sized some
  rw [(ranked_samePlacement rt opts w index call schedule some).recorded, isPreferred]
  generalize (w.ranked rt opts call schedule).1.w = placed at chosen
  cases chosen with
  | touched p found same =>
      rw [gathered.toConsistent.touchPlacement_recorded p]
      simp only [World.recorded, found, Option.map_some, same]
  | kept p found excluded yes => simp [Eval.excludedButAvailable, found, excluded, yes] at unspared
  | placed middle unlocked least lost =>
      exact (gathered.of_same unlocked.samePlacement).setPlacementLocked_recorded sized _ _

end

end RadixGates.Router
