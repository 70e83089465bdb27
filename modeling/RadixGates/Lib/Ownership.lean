import Mathlib.Data.List.Range
import Mathlib.Data.List.Nodup
import Mathlib.Logic.Function.Basic

/-!
# Ownership

Parties hold resources: every party at most one, and no resource is held by two
of them.  Which resources have to be held and which may be is a pair of
predicates, so that a resource can be on its way.  When the two agree, parties
and resources are in bijection and can be counted against each other.
-/

set_option autoImplicit false

namespace RadixGates.Ownership

section
variable {K R : Type}

/-- What each party holds, if anything. -/
structure Owned (owner : K → Option R) (must may : R → Prop) : Prop where
  unique : ∀ k k' r, owner k = some r → owner k' = some r → k = k'
  within : ∀ k r, owner k = some r → may r
  covered : ∀ r, must r → ∃ k, owner k = some r

variable {owner : K → Option R} {must may : R → Prop}

theorem Owned.mono {must' may' : R → Prop} (owned : Owned owner must may)
    (less : ∀ r, must' r → must r) (more : ∀ r, may r → may' r) : Owned owner must' may' where
  unique := owned.unique
  within k r held := more r (owned.within k r held)
  covered r needed := owned.covered r (less r needed)

/-- Only some of the resources are looked at. -/
theorem Owned.filter (owned : Owned owner must may) (p : R → Bool) :
    Owned (fun k => (owner k).filter p) (fun r => must r ∧ p r = true)
      (fun r => may r ∧ p r = true) where
  unique k k' r first second :=
    owned.unique k k' r (Option.filter_eq_some_iff.mp first).1 (Option.filter_eq_some_iff.mp second).1
  within k r held := by
    obtain ⟨before, seen⟩ := Option.filter_eq_some_iff.mp held
    exact ⟨owned.within k r before, seen⟩
  covered r needed := by
    obtain ⟨k, before⟩ := owned.covered r needed.1
    exact ⟨k, Option.filter_eq_some_iff.mpr ⟨before, needed.2⟩⟩

variable [DecidableEq K]

/-- A party gives its resource back. -/
theorem Owned.drop (owned : Owned owner must may) (k : K) (r : R) (held : owner k = some r) :
    Owned (Function.update owner k none) (fun x => must x ∧ x ≠ r) (fun x => may x ∧ x ≠ r) := by
  have kept : ∀ {k' x}, Function.update owner k none k' = some x → k' ≠ k ∧ owner k' = some x := by
    intro k' x now
    by_cases here : k' = k
    · subst here
      simp at now
    · exact ⟨here, by rwa [Function.update_of_ne here] at now⟩
  refine ⟨?_, ?_, ?_⟩
  · intro k₁ k₂ x first second
    exact owned.unique k₁ k₂ x (kept first).2 (kept second).2
  · intro k' x now
    obtain ⟨other, before⟩ := kept now
    refine ⟨owned.within k' x before, ?_⟩
    rintro rfl
    exact other (owned.unique k' k x before held)
  · rintro x ⟨needed, other⟩
    obtain ⟨k', before⟩ := owned.covered x needed
    have elsewhere : k' ≠ k := by
      rintro rfl
      exact other (Option.some.inj (before.symm.trans held))
    exact ⟨k', by rwa [Function.update_of_ne elsewhere]⟩

/-- A party that holds nothing takes a resource that nobody may hold yet. -/
theorem Owned.take (owned : Owned owner must may) (k : K) (free : owner k = none) (r : R)
    (fresh : ¬ may r) :
    Owned (Function.update owner k (some r)) (fun x => must x ∨ x = r)
      (fun x => may x ∨ x = r) := by
  have cases' : ∀ {k' x}, Function.update owner k (some r) k' = some x →
      (k' = k ∧ x = r) ∨ (k' ≠ k ∧ owner k' = some x) := by
    intro k' x now
    by_cases here : k' = k
    · subst here
      exact Or.inl ⟨rfl, by simpa using now.symm⟩
    · exact Or.inr ⟨here, by rwa [Function.update_of_ne here] at now⟩
  refine ⟨?_, ?_, ?_⟩
  · intro k₁ k₂ x first second
    rcases cases' first with ⟨rfl, rfl⟩ | ⟨other₁, before₁⟩
    · rcases cases' second with ⟨rfl, _⟩ | ⟨_, before₂⟩
      · rfl
      · exact absurd (owned.within k₂ x before₂) fresh
    · rcases cases' second with ⟨_, rfl⟩ | ⟨_, before₂⟩
      · exact absurd (owned.within k₁ _ before₁) fresh
      · exact owned.unique k₁ k₂ x before₁ before₂
  · intro k' x now
    rcases cases' now with ⟨_, rfl⟩ | ⟨_, before⟩
    · exact Or.inr rfl
    · exact Or.inl (owned.within k' x before)
  · rintro x (needed | rfl)
    · obtain ⟨k', before⟩ := owned.covered x needed
      have elsewhere : k' ≠ k := by
        rintro rfl
        rw [free] at before
        cases before
      exact ⟨k', by rwa [Function.update_of_ne elsewhere]⟩
    · exact ⟨k, by simp⟩

end

/-! ## Parties and resources in lists -/

section
variable {C L : Type}

theorem countP_getElem? (p : L → Bool) (l : List L) :
    l.countP p = (List.range l.length).countP fun i => l[i]?.any p := by
  induction l with
  | nil => rfl
  | cons x rest ih =>
      rw [List.countP_cons, List.length_cons, List.range_succ_eq_map, List.countP_cons,
        List.countP_map, ih]
      rfl

/-- When exactly the live resources are held, the parties whose resource has a
property are as many as the live resources that have it. -/
theorem Owned.countP {parties : List C} {holding : C → Option Nat} {resources : List L}
    {live : L → Bool}
    (owned : Owned (fun k : Nat => parties[k]?.bind holding)
      (fun r => resources[r]?.any live = true) (fun r => resources[r]?.any live = true))
    (p : L → Bool) :
    (parties.countP fun c => (holding c).any fun r => resources[r]?.any p) =
      resources.countP fun x => live x && p x := by
  have held : (parties.filterMap holding).Nodup := by
    rw [List.Nodup, List.pairwise_filterMap, List.pairwise_iff_getElem]
    intro i j hi hj before r first r' second same
    subst same
    have equal := owned.unique i j r
      (by simp [List.getElem?_eq_getElem hi, first]) (by simp [List.getElem?_eq_getElem hj, second])
    omega
  have same : (parties.filterMap holding).Perm
      ((List.range resources.length).filter fun r => resources[r]?.any live) := by
    rw [List.perm_ext_iff_of_nodup held (List.nodup_range.filter _)]
    intro r
    rw [List.mem_filterMap, List.mem_filter, List.mem_range]
    constructor
    · rintro ⟨c, member, holds⟩
      obtain ⟨k, inside, rfl⟩ := List.mem_iff_getElem.mp member
      have alive := owned.within k r (by simp [List.getElem?_eq_getElem inside, holds])
      refine ⟨?_, alive⟩
      by_contra outside
      rw [List.getElem?_eq_none (by omega)] at alive
      cases alive
    · rintro ⟨_, alive⟩
      obtain ⟨k, holds⟩ := owned.covered r alive
      obtain ⟨c, found, holds⟩ := Option.bind_eq_some_iff.mp holds
      exact ⟨c, List.mem_of_getElem? found, holds⟩
  have counted := same.countP_eq fun r => resources[r]?.any p
  rw [List.countP_filterMap, List.countP_filter] at counted
  rw [countP_getElem? (fun x => live x && p x) resources]
  calc
    _ = parties.countP fun c => ((holding c).map fun r => resources[r]?.any p).getD false := by
      apply List.countP_congr
      intro c _
      cases holding c <;> simp
    _ = _ := counted
    _ = _ := by
      apply List.countP_congr
      intro r _
      cases resources[r]? with
      | none => simp
      | some x => simp [and_comm]

end

end RadixGates.Ownership
