import RadixGates.Router.Evenness
import Mathlib.Algebra.Order.BigOperators.Group.Finset

/-!
# Where the prefixes of a fleet live

The log of the leases that the router grants, by prefix.  While the candidates
stay the same and every request gets the node it prefers, each prefix has one
node, and no node has more of them than its share.
-/

set_option autoImplicit false

namespace RadixGates.Router

section
variable {n : Nat} (rt : Runtime n) (opts : Options)

/-- The prefix and the node of the lease that the step grants, if it does. -/
def World.grantOf (w : World n) : Action n → Option (String × Fin n)
  | .evaluate index schedule =>
      w.calls[index]?.bind fun call =>
        match (w.decision rt opts call schedule).2 with
        | .granted lease =>
            (w.decision rt opts call schedule).1.w.leases[lease]?.map fun l =>
              (call.request.prefixHash, l.node)
        | _ => none
  | _ => none

def grantLog : World n → List (Action n) → List (String × Fin n)
  | _, [] => []
  | w, action :: rest =>
      (w.grantOf rt opts action).toList ++
        match w.step rt opts action with
        | some next => grantLog next rest
        | none => []

/-- A request gets its preferred node or none: the load limit, the slots and the
breaker of that node do not turn it away. -/
def World.Unspilled (w : World n) : Action n → Prop
  | .evaluate index schedule => ∀ call ∈ w.calls[index]?,
      ∀ grant ∈ w.grantOf rt opts (.evaluate index schedule),
        w.preferred rt opts call schedule = some grant.2
  | _ => True

instance (w : World n) (action : Action n) : Decidable (w.Unspilled rt opts action) :=
  match action with
  | .evaluate index schedule =>
      inferInstanceAs (Decidable (∀ call ∈ w.calls[index]?,
        ∀ grant ∈ w.grantOf rt opts (.evaluate index schedule),
          w.preferred rt opts call schedule = some grant.2))
  | .acquire _ | .wake _ | .affinityExpired _ | .queueExpired _ | .ctxDone _ _ | .leave _
  | .release _ | .other _ => inferInstanceAs (Decidable True)

/-- Every evaluation is steady and gets its preferred node. -/
def World.Settled (cands : List (Fin n)) (group : String) (prefixes : List String) (w : World n)
    (action : Action n) : Prop :=
  w.Steady cands group prefixes action ∧ w.Unspilled rt opts action

instance (cands : List (Fin n)) (group : String) (prefixes : List String) (w : World n)
    (action : Action n) : Decidable (w.Settled rt opts cands group prefixes action) :=
  inferInstanceAs (Decidable (_ ∧ _))

variable {rt opts} {cands : List (Fin n)} {group : String} {prefixes : List String}

/-- A granted prefix is recorded on the node that it was granted. -/
theorem Even.granted {w next : World n} {action : Action n} (nonempty : cands ≠ [])
    (few : (prefixes.length : Int) ≤ opts.placementSize)
    (even : Even opts.placementSize cands (prefixes.map (groupKey group)) w)
    (settled : w.Settled rt opts cands group prefixes action)
    (stepped : w.step rt opts action = some next) {grant : String × Fin n}
    (granted : w.grantOf rt opts action = some grant) :
    next.recorded (groupKey group grant.1) = some grant.2 := by
  cases action with
  | evaluate index schedule =>
      have logged := granted
      obtain ⟨call, found, decided⟩ := Option.bind_eq_some_iff.mp granted
      obtain ⟨i, isPreferred, recorded, _⟩ :=
        even.preferred rt opts nonempty few index call found schedule settled.1
      have given := settled.2 call found grant logged
      rw [isPreferred] at given
      cases Option.some.inj given
      cases step_stepped rt opts w next _ stepped with
      | evaluate _ _ other atIndex deciding =>
          rw [found] at atIndex
          cases Option.some.inj atIndex
          have hash : grant.1 = call.request.prefixHash := by
            split at decided
            · obtain ⟨l, _, rfl⟩ := Option.map_eq_some_iff.mp decided
              rfl
            · cases decided
          rw [hash]
          exact recorded
  | acquire | wake | affinityExpired | queueExpired | ctxDone | leave | release | other =>
      cases granted

/-- Every lease of the log is on the node that its prefix is recorded on in the
end. -/
theorem log_recorded (nonempty : cands ≠ []) (few : (prefixes.length : Int) ≤ opts.placementSize)
    (actions : List (Action n)) (start w : World n)
    (even : Even opts.placementSize cands (prefixes.map (groupKey group)) start)
    (ran : Runs.run (World.step rt opts) start actions = some w)
    (settled : Runs.Along (World.step rt opts) (World.Settled rt opts cands group prefixes) start
      actions) :
    Settles opts.placementSize cands (prefixes.map (groupKey group)) start w ∧
      ∀ grant ∈ grantLog rt opts start actions,
        w.recorded (groupKey group grant.1) = some grant.2 := by
  induction actions generalizing start with
  | nil =>
      cases Option.some.inj ran
      exact ⟨⟨even, fun _ _ => id⟩, by simp [grantLog]⟩
  | cons action rest ih =>
      obtain ⟨next, stepped, rested⟩ := (Runs.run_cons_some _ _ _ _ _).mp ran
      have now := even.step few settled.1.1 (step_stepped rt opts start next action stepped)
      obtain ⟨later, logged⟩ := ih next now.even rested (settled.2 next stepped)
      refine ⟨⟨later.even, fun key i recorded => later.keeps key i (now.keeps key i recorded)⟩, ?_⟩
      intro grant member
      rw [grantLog, stepped] at member
      rcases List.mem_append.mp member with first | after
      · have granted := Option.mem_toList.mp first
        exact later.keeps _ _ (even.granted nonempty few settled.1 stepped granted)
      · exact logged grant after

/-! ## The share of a node -/

/-- The prefixes fit into as many caches of this size as there are candidates, so
a candidate has no more of them than fit into one. -/
theorem Even.share {size : Int} {known : List UInt64} {w : World n}
    (even : Even size cands known w) (distinct : cands.Nodup) (room : Nat)
    (fits : known.length ≤ cands.length * room) (i : Fin n) (member : i ∈ cands) :
    (w.nodes i).placed ≤ room := by
  by_contra exceeded
  push Not at exceeded
  have subset : w.keys ⊆ known := by
    intro key inKeys
    obtain ⟨p, inList, rfl⟩ := List.mem_map.mp inKeys
    exact even.inside p inList
  have few : w.placeLRU.length ≤ known.length := by
    have := (List.subperm_of_subset even.keys subset).length_le
    simpa [World.keys] using this
  have total : ∑ j, (w.nodes j).placed = (w.placeLRU.length : Int) := by
    rw [← sum_countP_node w.placeLRU, Nat.cast_sum]
    exact Finset.sum_congr rfl fun j _ => even.placed j
  have part : ∑ j ∈ cands.toFinset, (w.nodes j).placed ≤ ∑ j, (w.nodes j).placed := by
    apply Finset.sum_le_univ_sum_of_nonneg
    intro j
    rw [even.placed j]
    exact Int.natCast_nonneg _
  -- the others have at least as many as fit, and this one has more
  have more : ∑ j ∈ cands.toFinset, (room : Int) < ∑ j ∈ cands.toFinset, (w.nodes j).placed := by
    apply Finset.sum_lt_sum
    · intro j inCands
      have := even.even i member j (List.mem_toFinset.mp inCands)
      omega
    · exact ⟨i, List.mem_toFinset.mpr member, exceeded⟩
  rw [Finset.sum_const, List.toFinset_card_of_nodup distinct, nsmul_eq_mul] at more
  have bound : ((known.length : Nat) : Int) ≤ cands.length * room := by exact_mod_cast fits
  omega

end

end RadixGates.Router
