import Mathlib.Data.Finset.Card
import RadixGates.Lib.Recency

/-!
# A linked list with an index

The usual implementation of a least-recently-used set: a list of elements, most
recently used first, and a map from a key to its element.  The two views agree
after every operation, the keys in the list are those that `Recency.touch`
keeps, and a key is found exactly when it is one of them.

Over a whole history of uses a key is missed at its first use, and when all the
keys fit it is never missed again.
-/

set_option autoImplicit false

namespace RadixGates

structure IndexedLru (K : Type) where
  elements : List (Nat × K)
  index : K → Option Nat
  nextId : Nat

namespace IndexedLru

section
variable {K : Type} [DecidableEq K]

def empty : IndexedLru K := ⟨[], fun _ => none, 0⟩

/-- The element with this id goes to the front. -/
def moveToFront (id : Nat) (elements : List (Nat × K)) : List (Nat × K) :=
  elements.filter (fun e => e.1 = id) ++ elements.filter (fun e => e.1 ≠ id)

def push (c : IndexedLru K) (key : K) : IndexedLru K :=
  ⟨(c.nextId, key) :: c.elements, Function.update c.index key (some c.nextId), c.nextId + 1⟩

/-- The loop that removes the last element while there are more than `size`. -/
def evict (size : Int) : Nat → IndexedLru K → IndexedLru K
  | 0, c => c
  | fuel + 1, c =>
      if size < c.elements.length then
        match c.elements.getLast? with
        | none => c
        | some last =>
            evict size fuel
              { c with
                elements := c.elements.dropLast
                index := Function.update c.index last.2 none }
      else c

/-- Whether the key was there; it is now the most recently used one. -/
def touch (size : Int) (c : IndexedLru K) (key : K) : IndexedLru K × Bool :=
  match c.index key with
  | some id => ({ c with elements := moveToFront id c.elements }, true)
  | none => (evict size (c.elements.length + 1) (c.push key), false)

def keys (c : IndexedLru K) : List K := c.elements.map Prod.snd

/-! ## The two views -/

structure Consistent (c : IndexedLru K) : Prop where
  fresh : ∀ e ∈ c.elements, e.1 < c.nextId
  ids : (c.elements.map Prod.fst).Nodup
  keys : c.keys.Nodup
  indexed : ∀ key id, c.index key = some id ↔ (id, key) ∈ c.elements

omit [DecidableEq K] in
theorem consistent_empty : Consistent (empty : IndexedLru K) := by
  constructor <;> simp [empty, IndexedLru.keys]

omit [DecidableEq K] in
theorem Consistent.index_isSome {c : IndexedLru K} (consistent : Consistent c) (key : K) :
    (c.index key).isSome = true ↔ key ∈ c.keys := by
  rw [Option.isSome_iff_exists]
  simp only [consistent.indexed, IndexedLru.keys, List.mem_map, Prod.exists, exists_eq_right]

omit [DecidableEq K] in
theorem Consistent.key_of_id {c : IndexedLru K} (consistent : Consistent c) {id : Nat} {key : K}
    (member : (id, key) ∈ c.elements) {e : Nat × K} (other : e ∈ c.elements) :
    e.1 = id ↔ e.2 = key := by
  constructor
  · intro same
    rw [List.inj_on_of_nodup_map consistent.ids other member same]
  · intro same
    rw [List.inj_on_of_nodup_map consistent.keys other member same]

omit [DecidableEq K] in
theorem Consistent.reorder {c : IndexedLru K} (consistent : Consistent c)
    (elements : List (Nat × K)) (perm : elements.Perm c.elements) :
    Consistent { c with elements := elements } where
  fresh e member := consistent.fresh e (perm.subset member)
  ids := (perm.map _).nodup_iff.mpr consistent.ids
  keys := (perm.map Prod.snd).nodup_iff.mpr consistent.keys
  indexed key id := by
    rw [consistent.indexed key id]
    exact perm.mem_iff.symm

theorem Consistent.push {c : IndexedLru K} (consistent : Consistent c) (key : K)
    (absent : key ∉ c.keys) : Consistent (c.push key) where
  fresh := by
    intro e member
    rcases List.mem_cons.mp member with rfl | old
    · exact Nat.lt_succ_self _
    · exact (consistent.fresh e old).trans (Nat.lt_succ_self _)
  ids := by
    refine List.nodup_cons.mpr ⟨?_, consistent.ids⟩
    intro member
    obtain ⟨e, old, same⟩ := List.mem_map.mp member
    have := consistent.fresh e old
    dsimp only at same
    omega
  keys := List.nodup_cons.mpr ⟨absent, consistent.keys⟩
  indexed other id := by
    have old := consistent.indexed other id
    simp only [IndexedLru.push, Function.update_apply, List.mem_cons, Prod.mk.injEq]
    by_cases here : other = key
    · subst here
      have gone : (id, other) ∉ c.elements := by
        intro member
        exact absent (List.mem_map.mpr ⟨_, member, rfl⟩)
      simp [gone, eq_comm]
    · simp [here, old]

theorem Consistent.dropLast {c : IndexedLru K} (consistent : Consistent c) (last : Nat × K)
    (ends : c.elements.getLast? = some last) :
    Consistent
      { c with
        elements := c.elements.dropLast
        index := Function.update c.index last.2 none } := by
  obtain ⟨init, split⟩ := List.getLast?_eq_some_iff.mp ends
  have kept : c.elements.dropLast = init := by simp [split]
  have fresh := consistent.fresh
  have ids := consistent.ids
  have keys := consistent.keys
  have indexed := consistent.indexed
  rw [split] at fresh indexed
  rw [split, List.map_append, List.nodup_append] at ids
  rw [IndexedLru.keys, split, List.map_append, List.nodup_append] at keys
  constructor
  · intro e member
    simp only [kept] at member
    exact fresh e (List.mem_append_left _ member)
  · simp only [kept]
    exact ids.1
  · simp only [IndexedLru.keys, kept]
    exact keys.1
  · intro key id
    simp only [kept, Function.update_apply]
    by_cases here : key = last.2
    · rw [if_pos here]
      have gone : (id, key) ∉ init := by
        intro member
        exact keys.2.2 key (List.mem_map.mpr ⟨_, member, rfl⟩) last.2 (by simp) here
      simp [gone]
    · rw [if_neg here, indexed key id, List.mem_append, List.mem_singleton]
      have other : (id, key) ≠ last := by
        rintro rfl
        exact here rfl
      simp [other]

theorem Consistent.evict {c : IndexedLru K} (consistent : Consistent c) (size : Int) (fuel : Nat) :
    Consistent (IndexedLru.evict size fuel c) := by
  induction fuel generalizing c with
  | zero => exact consistent
  | succ fuel ih =>
      simp only [IndexedLru.evict]
      split
      · cases ends : c.elements.getLast? with
        | none => exact consistent
        | some last => exact ih (consistent.dropLast last ends)
      · exact consistent

/-- With a pass for every element the loop cuts the list to its size. -/
theorem evict_elements (size fuel : Nat) (c : IndexedLru K) (enough : c.elements.length ≤ fuel) :
    (evict size fuel c).elements = c.elements.take size := by
  induction fuel generalizing c with
  | zero =>
      have none : c.elements = [] := List.length_eq_zero_iff.mp (Nat.le_zero.mp enough)
      simp [evict, none]
  | succ fuel ih =>
      simp only [evict]
      by_cases long : (size : Int) < c.elements.length
      · rw [if_pos long]
        cases ends : c.elements.getLast? with
        | none =>
            rw [List.getLast?_eq_none_iff.mp ends] at long
            simp at long
            omega
        | some last =>
            have shorter : c.elements.dropLast.length ≤ fuel := by
              rw [List.length_dropLast]
              omega
            refine (ih _ shorter).trans ?_
            dsimp only
            rw [List.dropLast_eq_take, List.take_take]
            congr 1
            omega
      · rw [if_neg long, List.take_of_length_le]
        omega

/-! ## A use -/

/-- Both views agree and the list is not too long. -/
structure Bounded (size : Nat) (c : IndexedLru K) : Prop extends Consistent c where
  bounded : c.elements.length ≤ size

theorem moveToFront_keys {c : IndexedLru K} (consistent : Consistent c) {id : Nat} {key : K}
    (member : (id, key) ∈ c.elements) :
    (moveToFront id c.elements).map Prod.snd = key :: c.keys.filter (· ≠ key) := by
  have here : c.elements.filter (fun e => e.1 = id) = [(id, key)] := by
    have alone : ∀ e ∈ c.elements, decide (e.1 = id) = true ↔ e = (id, key) := by
      intro e other
      rw [decide_eq_true_eq]
      constructor
      · intro same
        exact List.inj_on_of_nodup_map consistent.ids other member same
      · rintro rfl
        rfl
    have nodup : c.elements.Nodup := consistent.ids.of_map
    rw [List.filter_congr (q := fun e => e == (id, key)) (by
      intro e other
      rw [Bool.eq_iff_iff, alone e other, beq_iff_eq])]
    rw [List.filter_beq, List.count_eq_one_of_mem nodup member]
    rfl
  have others : c.elements.filter (fun e => e.1 ≠ id) = c.elements.filter fun e => e.2 ≠ key := by
    apply List.filter_congr
    intro e other
    simp only [ne_eq, decide_not, consistent.key_of_id member other]
  rw [moveToFront, List.map_append, here, others, IndexedLru.keys, List.filter_map]
  rfl

theorem Bounded.touch {size : Nat} {c : IndexedLru K} (bounded : Bounded size c) (key : K) :
    Bounded size (c.touch size key).1 ∧
      (c.touch size key).1.keys = Recency.touch size key c.keys ∧
      ((c.touch size key).2 = true ↔ key ∈ c.keys) := by
  have hit := bounded.index_isSome key
  unfold IndexedLru.touch
  cases found : c.index key with
  | some id =>
      rw [found] at hit
      have member := (bounded.indexed key id).mp found
      have perm : (moveToFront id c.elements).Perm c.elements := by
        have split := List.filter_append_perm (fun e : Nat × K => decide (e.1 = id)) c.elements
        simpa [moveToFront] using split
      have keys := moveToFront_keys bounded.toConsistent member
      refine ⟨⟨bounded.reorder _ perm, by rw [perm.length_eq]; exact bounded.bounded⟩, ?_,
        by simpa using hit⟩
      have short : (moveToFront id c.elements).length ≤ size := by
        rw [perm.length_eq]
        exact bounded.bounded
      rw [Recency.touch, ← keys, List.take_of_length_le (by rwa [List.length_map])]
      rfl
  | none =>
      rw [found] at hit
      have absent : key ∉ c.keys := fun member => by simpa using hit.mpr member
      have pushed := bounded.toConsistent.push key absent
      have cut := evict_elements size (c.elements.length + 1) (c.push key)
        (by simp [IndexedLru.push])
      have untouched : c.keys.filter (· ≠ key) = c.keys := by
        apply List.filter_eq_self.mpr
        intro other member
        have : other ≠ key := fun same => absent (same ▸ member)
        simpa using this
      refine ⟨⟨pushed.evict size _, ?_⟩, ?_, by simpa using hit⟩
      · rw [cut, List.length_take]
        omega
      · rw [IndexedLru.keys, cut, Recency.touch, untouched, List.map_take]
        rfl

end

end IndexedLru

namespace Recency

section
variable {α : Type} [DecidableEq α]

/-- Whether each use of a history finds its element among the `size` last used
ones; `before` was used earlier. -/
def hits (size : Nat) : (before : List α) → List α → List Bool
  | _, [] => []
  | before, a :: rest => decide (a ∈ recent size before) :: hits size (before ++ [a]) rest

theorem hits_snoc (size : Nat) (before history : List α) (a : α) :
    hits size before (history ++ [a]) =
      hits size before history ++ [decide (a ∈ recent size (before ++ history))] := by
  induction history generalizing before with
  | nil => simp [hits]
  | cons b rest ih => simp [hits, ih]

theorem length_eraseDups (l : List α) : l.eraseDups.length = l.toFinset.card := by
  have same : l.eraseDups.toFinset = l.toFinset := by
    ext a
    simp
  rw [← same, List.toFinset_card_of_nodup (eraseDups_nodup l)]

theorem mem_of_mem_recent (size : Nat) (history : List α) (a : α)
    (member : a ∈ recent size history) : a ∈ history := by
  have within := List.mem_of_mem_take member
  simpa using within

/-- Nothing is forgotten while all the elements fit. -/
theorem mem_recent_of_fits (size : Nat) (history : List α)
    (fits : history.toFinset.card ≤ size) (a : α) : a ∈ recent size history ↔ a ∈ history := by
  refine ⟨mem_of_mem_recent size history a, ?_⟩
  intro member
  have short : history.reverse.eraseDups.length ≤ size := by
    rw [length_eraseDups, List.toFinset_reverse]
    exact fits
  rw [recent, List.take_of_length_le short]
  simpa using member

theorem card_snoc (history : List α) (a : α) :
    (history ++ [a]).toFinset.card = history.toFinset.card + if a ∈ history then 0 else 1 := by
  have insertion : (history ++ [a]).toFinset = insert a history.toFinset := by
    ext b
    simp
  rw [insertion]
  by_cases old : a ∈ history
  · rw [Finset.insert_eq_of_mem (List.mem_toFinset.mpr old), if_pos old, Nat.add_zero]
  · rw [Finset.card_insert_of_notMem (mt List.mem_toFinset.mp old), if_neg old]

/-- Every element is missed at its first use. -/
theorem card_le_misses (size : Nat) (history : List α) :
    history.toFinset.card ≤ (hits size [] history).count false := by
  induction history using List.reverseRecOn with
  | nil => simp
  | append_singleton history a ih =>
      rw [hits_snoc, List.count_append, card_snoc]
      by_cases old : a ∈ history
      · rw [if_pos old]
        omega
      · have missed : a ∉ recent size history := fun member =>
          old (mem_of_mem_recent size history a member)
        simp only [List.nil_append, missed, decide_false, List.count_cons_self, List.count_nil,
          if_neg old]
        omega

/-- And only then if they all fit. -/
theorem misses_of_fits (size : Nat) (history : List α) (fits : history.toFinset.card ≤ size) :
    (hits size [] history).count false = history.toFinset.card := by
  induction history using List.reverseRecOn with
  | nil => simp [hits]
  | append_singleton history a ih =>
      have grows := card_snoc history a
      have before : history.toFinset.card ≤ size := by omega
      rw [hits_snoc, List.count_append, ih before, grows, List.nil_append]
      congr 1
      simp only [mem_recent_of_fits size history before]
      by_cases old : a ∈ history <;> simp [old]

end

end Recency

end RadixGates
