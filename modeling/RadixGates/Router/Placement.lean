import Mathlib.Algebra.BigOperators.Fin
import Mathlib.Data.List.Perm.Lattice
import RadixGates.Router.Steps

/-!
# The placement memory

The map, the list and the counters of the nodes are three views of one thing.
Every write of the placement step is a touch, a move, a push or the removal of
the last element, and each of them keeps the views together.
-/

set_option autoImplicit false

namespace RadixGates.Router

open RadixGates.Breaker (Ticket)

section
variable {n : Nat}

/-- The list is the truth: it holds every key once, the map points from a key
to its element, and `placed` counts the elements of a node. -/
structure Consistent (w : World n) : Prop where
  fresh : ∀ p ∈ w.placeLRU, p.id < w.nextElement
  ids : (w.placeLRU.map fun p => p.id).Nodup
  keys : (w.placeLRU.map fun p => p.key).Nodup
  mapped : ∀ key id, w.placeMap key = some id ↔ ∃ p ∈ w.placeLRU, p.key = key ∧ p.id = id
  placed : ∀ i, (w.nodes i).placed = (w.placeLRU.countP fun p => p.node = i : Nat)

theorem Consistent.same_of_id {w : World n} (consistent : Consistent w) {p q : Placement n}
    (hp : p ∈ w.placeLRU) (hq : q ∈ w.placeLRU) (same : p.id = q.id) : p = q :=
  List.inj_on_of_nodup_map consistent.ids hp hq same

theorem Consistent.same_of_key {w : World n} (consistent : Consistent w) {p q : Placement n}
    (hp : p ∈ w.placeLRU) (hq : q ∈ w.placeLRU) (same : p.key = q.key) : p = q :=
  List.inj_on_of_nodup_map consistent.keys hp hq same

theorem Consistent.find_iff {w : World n} (consistent : Consistent w) (key : UInt64)
    (p : Placement n) : w.findPlacement key = some p ↔ p ∈ w.placeLRU ∧ p.key = key := by
  simp only [World.findPlacement, Option.bind_eq_some_iff]
  constructor
  · rintro ⟨id, mapped, found⟩
    obtain ⟨q, inList, rfl, rfl⟩ := (consistent.mapped key id).mp mapped
    have sameId : p.id = q.id := by simpa using List.find?_some found
    have member := List.mem_of_find?_eq_some found
    rw [consistent.same_of_id member inList sameId]
    exact ⟨inList, rfl⟩
  · rintro ⟨inList, rfl⟩
    refine ⟨p.id, (consistent.mapped _ _).mpr ⟨p, inList, rfl, rfl⟩, ?_⟩
    cases found : w.placeLRU.find? fun q => decide (q.id = p.id) with
    | none =>
        have missing := List.find?_eq_none.mp found p inList
        simp at missing
    | some q =>
        have sameId : q.id = p.id := by simpa using List.find?_some found
        rw [consistent.same_of_id (List.mem_of_find?_eq_some found) inList sameId]

theorem Consistent.find_none {w : World n} (consistent : Consistent w) (key : UInt64)
    (absent : w.findPlacement key = none) : ∀ p ∈ w.placeLRU, p.key ≠ key := by
  intro p inList same
  have found := (consistent.find_iff key p).mpr ⟨inList, same⟩
  rw [absent] at found
  cases found

/-! ## The four writes -/

theorem moveToFront_perm (id : Nat) (l : List (Placement n)) : (moveToFront id l).Perm l := by
  have split := List.filter_append_perm (fun p : Placement n => decide (p.id = id)) l
  simpa [moveToFront] using split

/-- The order of the list does not matter to the invariant. -/
theorem Consistent.reorder {w : World n} (consistent : Consistent w) (l : List (Placement n))
    (perm : l.Perm w.placeLRU) : Consistent { w with placeLRU := l } where
  fresh p inList := consistent.fresh p (perm.subset inList)
  ids := (perm.map _).nodup_iff.mpr consistent.ids
  keys := (perm.map _).nodup_iff.mpr consistent.keys
  mapped key id := by
    rw [consistent.mapped key id]
    simp only [perm.mem_iff]
  placed i := by
    rw [consistent.placed i, perm.countP_eq]

theorem Consistent.touchPlacement {w : World n} (consistent : Consistent w) (p : Placement n) :
    Consistent (w.touchPlacement p) :=
  consistent.reorder _ (moveToFront_perm p.id w.placeLRU)

theorem addPlaced_placed (w : World n) (i j : Fin n) (delta : Int) :
    ((w.addPlaced i delta).nodes j).placed =
      (w.nodes j).placed + if j = i then delta else 0 := by
  simp only [World.addPlaced, setNode_nodes]
  split
  · rename_i same
    rw [same]
  · simp

/-- An element with its node rewritten. -/
def Placement.moved (p : Placement n) (i : Fin n) (q : Placement n) : Placement n :=
  if q.id = p.id then { q with node := i } else q

theorem moved_of_ne (p q : Placement n) (i : Fin n) (other : q.id ≠ p.id) : p.moved i q = q := by
  simp [Placement.moved, other]

theorem moved_id (p q : Placement n) (i : Fin n) : (p.moved i q).id = q.id := by
  unfold Placement.moved
  split <;> rfl

theorem moved_key (p q : Placement n) (i : Fin n) : (p.moved i q).key = q.key := by
  unfold Placement.moved
  split <;> rfl

/-- Rewriting the node of one element moves one unit of the count. -/
theorem countP_moved (l : List (Placement n)) (p : Placement n) (i j : Fin n)
    (ids : (l.map fun q => q.id).Nodup) (inList : p ∈ l) :
    (l.map (p.moved i)).countP (fun q => q.node = j) + (if p.node = j then 1 else 0) =
      l.countP (fun q => q.node = j) + if i = j then 1 else 0 := by
  induction l with
  | nil => cases inList
  | cons q rest ih =>
      obtain ⟨absent, idsRest⟩ := List.nodup_cons.mp ids
      have unequal : ∀ r ∈ rest, r.id ≠ q.id := by
        intro r inRest same
        exact absent (List.mem_map.mpr ⟨r, inRest, same⟩)
      simp only [List.map_cons, List.countP_cons]
      rcases List.mem_cons.mp inList with rfl | inRest
      · -- no other element has this id
        have rest_eq : rest.map (p.moved i) = rest := by
          conv_rhs => rw [← List.map_id rest]
          apply List.map_congr_left
          intro r inRest
          exact moved_of_ne p r i (unequal r inRest)
        have head : (p.moved i p).node = i := by simp [Placement.moved]
        rw [rest_eq, head]
        simp only [decide_eq_true_eq]
        omega
      · rw [moved_of_ne p q i (unequal p inRest).symm]
        have later := ih idsRest inRest
        omega

theorem movePlacement_keys (w : World n) (p : Placement n) (i : Fin n) :
    ((w.movePlacement p i).placeLRU.map fun q => q.key) = w.placeLRU.map fun q => q.key := by
  simp only [World.movePlacement, List.map_map]
  exact List.map_congr_left fun q _ => moved_key p q i

theorem Consistent.movePlacement {w : World n} (consistent : Consistent w) (p : Placement n)
    (i : Fin n) (inList : p ∈ w.placeLRU) : Consistent (w.movePlacement p i) where
  fresh := by
    intro q member
    obtain ⟨r, inOld, rfl⟩ := List.mem_map.mp member
    change (p.moved i r).id < w.nextElement
    rw [moved_id]
    exact consistent.fresh r inOld
  ids := by
    have same : ((w.movePlacement p i).placeLRU.map fun q => q.id) =
        w.placeLRU.map fun q => q.id := by
      simp only [World.movePlacement, List.map_map]
      exact List.map_congr_left fun q _ => moved_id p q i
    rw [same]
    exact consistent.ids
  keys := by
    rw [movePlacement_keys]
    exact consistent.keys
  mapped key id := by
    rw [show (w.movePlacement p i).placeMap = w.placeMap from rfl, consistent.mapped key id]
    change _ ↔ ∃ q ∈ w.placeLRU.map (p.moved i), q.key = key ∧ q.id = id
    simp only [List.mem_map, exists_exists_and_eq_and, moved_id, moved_key]
  placed j := by
    have counted := countP_moved w.placeLRU p i j consistent.ids inList
    have before := consistent.placed j
    change (((w.addPlaced p.node (-1)).addPlaced i 1).nodes j).placed =
      ((w.placeLRU.map (p.moved i)).countP fun q => q.node = j : Nat)
    rw [addPlaced_placed, addPlaced_placed, before]
    simp only [eq_comm (b := j)] at *
    split_ifs at * <;> omega

theorem Consistent.pushPlacement {w : World n} (consistent : Consistent w) (key : UInt64)
    (i : Fin n) (absent : ∀ p ∈ w.placeLRU, p.key ≠ key) :
    Consistent (w.pushPlacement key i) where
  fresh := by
    intro p member
    rcases List.mem_cons.mp member with rfl | inOld
    · exact Nat.lt_succ_self _
    · exact (consistent.fresh p inOld).trans (Nat.lt_succ_self _)
  ids := by
    refine List.nodup_cons.mpr ⟨?_, consistent.ids⟩
    intro member
    obtain ⟨p, inOld, same⟩ := List.mem_map.mp member
    have := consistent.fresh p inOld
    dsimp only at same
    omega
  keys := by
    refine List.nodup_cons.mpr ⟨?_, consistent.keys⟩
    intro member
    obtain ⟨p, inOld, same⟩ := List.mem_map.mp member
    exact absent p inOld same
  mapped other id := by
    have old := consistent.mapped other id
    simp only [World.pushPlacement, Function.update_apply, List.exists_mem_cons_iff]
    by_cases here : other = key
    · subst here
      have none : ¬ ∃ p ∈ w.placeLRU, p.key = other ∧ p.id = id := by
        rintro ⟨p, inOld, same, _⟩
        exact absent p inOld same
      simp [none]
    · simp [here, Ne.symm here, old]
  placed j := by
    have before := consistent.placed j
    change ((w.addPlaced i 1).nodes j).placed = _
    rw [addPlaced_placed, before]
    simp only [World.pushPlacement, List.countP_cons, decide_eq_true_eq]
    by_cases here : j = i
    · simp [here]
    · simp [here, Ne.symm here]

/-- One pass of the eviction loop: the last element goes, from all views. -/
def World.forgetLast (w : World n) (last : Placement n) : World n :=
  { w.addPlaced last.node (-1) with
    placeMap := Function.update w.placeMap last.key none
    placeLRU := w.placeLRU.dropLast }

theorem Consistent.forgetLast {w : World n} (consistent : Consistent w) (last : Placement n)
    (ends : w.placeLRU.getLast? = some last) : Consistent (w.forgetLast last) := by
  obtain ⟨init, split⟩ := List.getLast?_eq_some_iff.mp ends
  have kept : (w.forgetLast last).placeLRU = init := by
    simp [World.forgetLast, split]
  have fresh := consistent.fresh
  have ids := consistent.ids
  have keys := consistent.keys
  have mapped := consistent.mapped
  have placed := consistent.placed
  rw [split] at fresh mapped placed
  rw [split, List.map_append, List.nodup_append] at ids keys
  constructor
  · intro p member
    rw [kept] at member
    exact fresh p (List.mem_append_left _ member)
  · rw [kept]
    exact ids.1
  · rw [kept]
    exact keys.1
  · intro key id
    rw [kept]
    simp only [World.forgetLast, Function.update_apply]
    by_cases here : key = last.key
    · rw [if_pos here]
      have gone : ¬ ∃ p ∈ init, p.key = key ∧ p.id = id := by
        rintro ⟨p, member, same, _⟩
        exact keys.2.2 p.key (List.mem_map_of_mem member) last.key (by simp) (same.trans here)
      simp [gone]
    · rw [if_neg here, mapped key id]
      simp [Ne.symm here, or_and_right, exists_or]
  · intro j
    rw [kept]
    change ((w.addPlaced last.node (-1)).nodes j).placed = _
    rw [addPlaced_placed, placed j, List.countP_append]
    by_cases here : j = last.node
    · simp [here]
    · simp [here, Ne.symm here]

theorem Consistent.evict (size : Int) (fuel : Nat) (w : World n) (consistent : Consistent w) :
    Consistent (World.evict size fuel w) := by
  induction fuel generalizing w with
  | zero => exact consistent
  | succ fuel ih =>
      simp only [World.evict]
      split
      · cases ends : w.placeLRU.getLast? with
        | none => exact consistent
        | some last => exact ih _ (consistent.forgetLast last ends)
      · exact consistent

/-- With a pass for every element the loop cuts the list to its size. -/
theorem evict_placeLRU (size fuel : Nat) (w : World n) (enough : w.placeLRU.length ≤ fuel) :
    (World.evict size fuel w).placeLRU = w.placeLRU.take size := by
  induction fuel generalizing w with
  | zero =>
      have empty : w.placeLRU = [] := List.length_eq_zero_iff.mp (Nat.le_zero.mp enough)
      simp [World.evict, empty]
  | succ fuel ih =>
      simp only [World.evict]
      by_cases long : (size : Int) < w.placeLRU.length
      · rw [if_pos long]
        cases ends : w.placeLRU.getLast? with
        | none =>
            rw [List.getLast?_eq_none_iff.mp ends] at long
            simp at long
            omega
        | some last =>
            have shorter : w.placeLRU.dropLast.length ≤ fuel := by
              rw [List.length_dropLast]
              omega
            refine (ih _ shorter).trans ?_
            change w.placeLRU.dropLast.take size = _
            rw [List.dropLast_eq_take, List.take_take]
            congr 1
            omega
      · rw [if_neg long, List.take_of_length_le]
        omega

/-! ## The placement step -/

/-- The invariant with the bound of the list. -/
structure Memory (size : Int) (w : World n) : Prop extends Consistent w where
  bounded : (w.placeLRU.length : Int) ≤ size

theorem Memory.touchPlacement {size : Int} {w : World n} (memory : Memory size w)
    (p : Placement n) : Memory size (w.touchPlacement p) where
  toConsistent := memory.toConsistent.touchPlacement p
  bounded := by
    change ((moveToFront p.id w.placeLRU).length : Int) ≤ size
    rw [(moveToFront_perm p.id w.placeLRU).length_eq]
    exact memory.bounded

theorem Memory.movePlacement {size : Int} {w : World n} (memory : Memory size w)
    (p : Placement n) (i : Fin n) (inList : p ∈ w.placeLRU) :
    Memory size (w.movePlacement p i) where
  toConsistent := memory.toConsistent.movePlacement p i inList
  bounded := by
    simp only [World.movePlacement, List.length_map]
    exact memory.bounded

theorem Memory.setPlacementLocked {size : Int} {w : World n} (memory : Memory size w)
    (key : UInt64) (i : Fin n) : Memory size (w.setPlacementLocked size key i) := by
  unfold World.setPlacementLocked
  cases found : w.findPlacement key with
  | some p =>
      have inList := ((memory.find_iff key p).mp found).1
      dsimp only
      apply Memory.touchPlacement
      split
      · exact memory.movePlacement p i inList
      · exact memory
  | none =>
      have pushed := memory.toConsistent.pushPlacement key i (memory.find_none key found)
      refine ⟨pushed.evict size _ _, ?_⟩
      obtain ⟨bound, rfl⟩ := Int.eq_ofNat_of_zero_le ((Int.natCast_nonneg _).trans memory.bounded)
      dsimp only
      rw [evict_placeLRU bound _ _ (by simp [World.pushPlacement]), List.length_take]
      omega

/-- The placement memory is the same in the two states. -/
structure SamePlacement (w w' : World n) : Prop where
  placeMap : w'.placeMap = w.placeMap
  placeLRU : w'.placeLRU = w.placeLRU
  nextElement : w'.nextElement = w.nextElement
  placed : ∀ i, (w'.nodes i).placed = (w.nodes i).placed

theorem SamePlacement.trans {w w' w'' : World n} (first : SamePlacement w w')
    (second : SamePlacement w' w'') : SamePlacement w w'' where
  placeMap := second.placeMap.trans first.placeMap
  placeLRU := second.placeLRU.trans first.placeLRU
  nextElement := second.nextElement.trans first.nextElement
  placed i := (second.placed i).trans (first.placed i)

theorem Unlocked.samePlacement {w w' : World n} (unlocked : Unlocked w w') :
    SamePlacement w w' where
  placeMap := unlocked.placeMap
  placeLRU := unlocked.placeLRU
  nextElement := unlocked.nextElement
  placed i := by rw [unlocked.nodes i]

theorem SamePlacement.frame : Frame (SamePlacement (n := n)) where
  trans := SamePlacement.trans
  unlocked := Unlocked.samePlacement
  grant w i t := by
    refine ⟨rfl, rfl, rfl, ?_⟩
    intro j
    simp only [World.grant, setNode_nodes]
    split
    · rename_i same
      rw [same]
    · rfl

theorem Memory.of_same {size : Int} {w w' : World n} (memory : Memory size w)
    (same : SamePlacement w w') : Memory size w' where
  fresh := by
    rw [same.placeLRU, same.nextElement]
    exact memory.fresh
  ids := by
    rw [same.placeLRU]
    exact memory.ids
  keys := by
    rw [same.placeLRU]
    exact memory.keys
  mapped := by
    rw [same.placeLRU, same.placeMap]
    exact memory.mapped
  placed i := by
    rw [same.placeLRU, same.placed]
    exact memory.placed i
  bounded := by
    rw [same.placeLRU]
    exact memory.bounded

/-- The step of the loop of `leastPlaced`. -/
def fewerPlaced (nodes : Fin n → Node) (cands : List (Scored n)) (best i : Nat) : Nat :=
  match cands[i]?, cands[best]? with
  | some c, some d =>
      let a := nodes c.node
      let b := nodes d.node
      if a.placed < b.placed ∨ (a.placed = b.placed ∧ a.inflight < b.inflight) then i else best
  | _, _ => best

theorem leastPlaced_eq (nodes : Fin n → Node) (cands : List (Scored n)) :
    leastPlaced nodes cands =
      (List.range' 1 (cands.length - 1)).foldl (fewerPlaced nodes cands) 0 :=
  rfl

theorem fewerPlaced_le (nodes : Fin n → Node) (cands : List (Scored n)) (best i : Nat)
    (c : Scored n) (atBest : cands[best]? = some c) :
    ∃ b, cands[fewerPlaced nodes cands best i]? = some b ∧
      (nodes b.node).placed ≤ (nodes c.node).placed ∧
      ∀ d, cands[i]? = some d → (nodes b.node).placed ≤ (nodes d.node).placed := by
  cases atI : cands[i]? with
  | none => exact ⟨c, by simp [fewerPlaced, atI, atBest], le_rfl, by simp⟩
  | some d =>
      simp only [fewerPlaced, atI, atBest]
      split
      · rename_i fewer
        refine ⟨d, atI, by omega, ?_⟩
        rintro _ ⟨rfl⟩
        exact le_rfl
      · rename_i more
        refine ⟨c, atBest, le_rfl, ?_⟩
        rintro _ ⟨rfl⟩
        omega

/-- The loop ends at a candidate with no more keys than any it has looked at. -/
theorem foldl_fewerPlaced (nodes : Fin n → Node) (cands : List (Scored n)) (indices : List Nat)
    (start : Nat) (c : Scored n) (atStart : cands[start]? = some c) :
    ∃ b, cands[indices.foldl (fewerPlaced nodes cands) start]? = some b ∧
      (nodes b.node).placed ≤ (nodes c.node).placed ∧
      ∀ i ∈ indices, ∀ d, cands[i]? = some d → (nodes b.node).placed ≤ (nodes d.node).placed := by
  induction indices generalizing start c with
  | nil => exact ⟨c, atStart, le_rfl, by simp⟩
  | cons i rest ih =>
      obtain ⟨first, atFirst, least, below⟩ := fewerPlaced_le nodes cands start i c atStart
      obtain ⟨b, atEnd, fewer, others⟩ := ih _ first atFirst
      refine ⟨b, atEnd, fewer.trans least, ?_⟩
      intro j member d atJ
      rcases List.mem_cons.mp member with rfl | later
      · exact fewer.trans (below d atJ)
      · exact others j later d atJ

/-- `leastPlaced` finds a candidate, and none that holds fewer keys. -/
theorem leastPlaced_least (nodes : Fin n → Node) (cands : List (Scored n)) (nonempty : cands ≠ []) :
    ∃ c, cands[leastPlaced nodes cands]? = some c ∧
      ∀ d ∈ cands, (nodes c.node).placed ≤ (nodes d.node).placed := by
  have positive : 0 < cands.length := List.length_pos_iff.mpr nonempty
  rw [leastPlaced_eq]
  obtain ⟨c, found, first, others⟩ := foldl_fewerPlaced nodes cands
    (List.range' 1 (cands.length - 1)) 0 _ (List.getElem?_eq_getElem positive)
  refine ⟨c, found, ?_⟩
  intro d member
  obtain ⟨i, inside, rfl⟩ := List.mem_iff_getElem.mp member
  by_cases isFirst : i = 0
  · subst isFirst
    exact first
  · apply others i _ _ (List.getElem?_eq_getElem inside)
    rw [List.mem_range'_1]
    omega

/-- What the placement step does when it prefers this candidate: it touches the
placement recorded there, leaves a placement alone whose node is only excluded,
or places the key on the candidate, which holds the fewest keys. -/
inductive Chosen (size : Int) (key : UInt64) (cands : List (Scored n)) (exclude : List String)
    (e : Eval n) (c : Scored n) : World n → Prop where
  | touched (p : Placement n) (found : e.w.findPlacement key = some p) (same : c.node = p.node) :
      Chosen size key cands exclude e c (e.w.touchPlacement p)
  | kept (p : Placement n) (found : e.w.findPlacement key = some p)
      (excluded : (e.w.nodes p.node).name ∈ exclude) (yes : (e.available p.node).2 = true) :
      Chosen size key cands exclude e c (e.available p.node).1.w
  | placed (w : World n) (unlocked : Unlocked e.w w)
      (least : ∀ d ∈ cands, (w.nodes c.node).placed ≤ (w.nodes d.node).placed)
      (lost : ∀ p, e.w.findPlacement key = some p → (∀ d ∈ cands, d.node ≠ p.node) ∧
        ((e.w.nodes p.node).name ∈ exclude → (e.available p.node).2 = false)) :
      Chosen size key cands exclude e c (w.setPlacementLocked size key c.node)

theorem placeOnLeast_chosen (size : Int) (key : UInt64) (cands : List (Scored n))
    (exclude : List String) (e before : Eval n) (nonempty : cands ≠ [])
    (unlocked : Unlocked before.w e.w)
    (lost : ∀ p, before.w.findPlacement key = some p → (∀ d ∈ cands, d.node ≠ p.node) ∧
      ((before.w.nodes p.node).name ∈ exclude → (before.available p.node).2 = false)) :
    ∃ c, cands[(placeOnLeast size key cands e).2]? = some c ∧
      Chosen size key cands exclude before c (placeOnLeast size key cands e).1.w := by
  obtain ⟨c, found, least⟩ := leastPlaced_least e.w.nodes cands nonempty
  refine ⟨c, ?_, ?_⟩
  · simp only [placeOnLeast, found]
  · simp only [placeOnLeast, found]
    exact Chosen.placed e.w unlocked least lost

theorem placeLocked_chosen (size : Int) (key : UInt64) (cands : List (Scored n))
    (exclude : List String) (e : Eval n) (nonempty : cands ≠ []) :
    ∃ c, cands[(placeLocked size key cands exclude e).2]? = some c ∧
      Chosen size key cands exclude e c (placeLocked size key cands exclude e).1.w := by
  simp only [placeLocked]
  cases found : e.w.findPlacement key with
  | none =>
      apply placeOnLeast_chosen size key cands exclude e e nonempty (Unlocked.refl e.w)
      intro p recorded
      rw [found] at recorded
      cases recorded
  | some p =>
      dsimp only
      cases index : cands.findIdx? fun c => decide (c.node = p.node) with
      | some i =>
          obtain ⟨inside, same, _⟩ := List.findIdx?_eq_some_iff_getElem.mp index
          exact ⟨cands[i], List.getElem?_eq_getElem inside,
            Chosen.touched p found (by simpa using same)⟩
      | none =>
          have absent : ∀ d ∈ cands, d.node ≠ p.node := by
            simpa using List.findIdx?_eq_none_iff.mp index
          have only : ∀ q, e.w.findPlacement key = some q → q = p := by
            intro q recorded
            rw [found] at recorded
            exact (Option.some.inj recorded).symm
          dsimp only
          by_cases excluded : (e.w.nodes p.node).name ∈ exclude
          · rw [if_pos excluded]
            cases yes : (e.available p.node).2 with
            | true =>
                obtain ⟨c, least, _⟩ :=
                  leastPlaced_least (e.available p.node).1.w.nodes cands nonempty
                exact ⟨c, least, Chosen.kept p found excluded yes⟩
            | false =>
                rw [if_neg Bool.false_ne_true]
                apply placeOnLeast_chosen size key cands exclude _ e nonempty
                  (Unlocked.available e p.node)
                intro q recorded
                rw [only q recorded]
                exact ⟨absent, fun _ => yes⟩
          · rw [if_neg excluded]
            apply placeOnLeast_chosen size key cands exclude e e nonempty (Unlocked.refl e.w)
            intro q recorded
            rw [only q recorded]
            exact ⟨absent, fun tried => absurd tried excluded⟩

theorem Memory.chosen {size : Int} {key : UInt64} {cands : List (Scored n)}
    {exclude : List String} {e : Eval n} {c : Scored n} {w : World n} (memory : Memory size e.w)
    (chosen : Chosen size key cands exclude e c w) : Memory size w := by
  cases chosen with
  | touched p found same => exact memory.touchPlacement p
  | kept p found excluded yes =>
      exact memory.of_same (Unlocked.available e p.node).samePlacement
  | placed w unlocked least lost =>
      exact (memory.of_same unlocked.samePlacement).setPlacementLocked key c.node

/-! ## Evaluations and runs -/

def placementKey (request : Request) : UInt64 :=
  mix64 (hashString request.prefixHash ^^^ hashString request.targetGroup)

theorem ranked_placement (rt : Runtime n) (opts : Options) (w : World n) (call : Call)
    (schedule : List (List (Interference n))) (sized : 1 ≤ opts.placementSize)
    (some : (w.gathered call schedule).2.1 ≠ []) :
    ∃ (cands : List (Scored n)) (c : Scored n), cands.Perm (w.gathered call schedule).2.1 ∧
      c ∈ cands ∧ Chosen opts.placementSize (placementKey call.request) cands call.request.exclude
        (w.gathered call schedule).1 c (w.ranked rt opts call schedule).1.w := by
  have sorted := rt.sort.perm (fun c => c.s.toNat) (w.gathered call schedule).2.1
  have positive : 0 < opts.placementSize := by omega
  have nonempty : rt.sort.run (fun c => c.s.toNat) (w.gathered call schedule).2.1 ≠ [] := by
    intro empty
    rw [empty] at sorted
    exact some sorted.nil_eq.symm
  obtain ⟨c, found, chosen⟩ := placeLocked_chosen opts.placementSize (placementKey call.request)
    _ call.request.exclude (w.gathered call schedule).1 nonempty
  refine ⟨_, c, sorted, List.mem_of_getElem? found, ?_⟩
  simp only [World.ranked, rankAndPlace, if_pos positive]
  exact chosen

theorem evaluate_samePlacement (rt : Runtime n) (opts : Options) (w : World n) (index : Nat)
    (call : Call) (schedule : List (List (Interference n))) (start : World n)
    (decided : SamePlacement start (w.decision rt opts call schedule).1.w) :
    SamePlacement start (w.evaluate rt opts index call schedule) := by
  obtain ⟨waiting, calls, ended⟩ := (evaluate_passed rt opts w index call schedule).bookkeeping
  rw [ended]
  exact ⟨decided.placeMap, decided.placeLRU, decided.nextElement, decided.placed⟩

/-- Without a candidate the placement memory is left alone. -/
theorem unplaced_samePlacement (rt : Runtime n) (opts : Options) (w : World n) (index : Nat)
    (call : Call) (schedule : List (List (Interference n)))
    (none : (w.gathered call schedule).2.1 = []) :
    SamePlacement (w.gathered call schedule).1.w (w.evaluate rt opts index call schedule) := by
  apply evaluate_samePlacement
  rw [decision_eq, if_pos none]
  exact SamePlacement.frame.refl _

/-- After the placement step it is left alone. -/
theorem ranked_samePlacement (rt : Runtime n) (opts : Options) (w : World n) (index : Nat)
    (call : Call) (schedule : List (List (Interference n)))
    (some : (w.gathered call schedule).2.1 ≠ []) :
    SamePlacement (w.ranked rt opts call schedule).1.w
      (w.evaluate rt opts index call schedule) := by
  apply evaluate_samePlacement
  rw [decision_eq, if_neg some]
  exact SamePlacement.frame.settle _ call.hold _ _

/-- A pass of `Acquire` writes the placement memory in its placement step only,
and reaches that step when it has a candidate. -/
theorem evaluate_placement (rt : Runtime n) (opts : Options) (w : World n) (index : Nat)
    (call : Call) (schedule : List (List (Interference n))) (sized : 1 ≤ opts.placementSize) :
    ((w.gathered call schedule).2.1 = [] ∧
      SamePlacement (w.gathered call schedule).1.w (w.evaluate rt opts index call schedule)) ∨
    ((w.gathered call schedule).2.1 ≠ [] ∧
      ∃ (cands : List (Scored n)) (c : Scored n) (placed : World n),
      cands.Perm (w.gathered call schedule).2.1 ∧ c ∈ cands ∧
      Chosen opts.placementSize (placementKey call.request) cands call.request.exclude
        (w.gathered call schedule).1 c placed ∧
      SamePlacement placed (w.evaluate rt opts index call schedule)) := by
  by_cases none : (w.gathered call schedule).2.1 = []
  · exact Or.inl ⟨none, unplaced_samePlacement rt opts w index call schedule none⟩
  · obtain ⟨cands, c, perm, member, chosen⟩ := ranked_placement rt opts w call schedule sized none
    exact Or.inr ⟨none, cands, c, _, perm, member, chosen,
      ranked_samePlacement rt opts w index call schedule none⟩

theorem Memory.evaluate {w : World n} (rt : Runtime n) (opts : Options)
    (memory : Memory opts.placementSize w) (index : Nat) (call : Call)
    (schedule : List (List (Interference n))) (sized : 1 ≤ opts.placementSize) :
    Memory opts.placementSize (w.evaluate rt opts index call schedule) := by
  have gathered := memory.of_same (gathered_unlocked w call schedule).samePlacement
  rcases evaluate_placement rt opts w index call schedule sized with
    ⟨_, same⟩ | ⟨_, ranked, c, placed, _, _, chosen, same⟩
  · exact gathered.of_same same
  · exact (gathered.chosen chosen).of_same same

/-- Every step but an evaluation leaves the placement memory alone. -/
theorem Stepped.placement {rt : Runtime n} {opts : Options} {w next : World n} {action : Action n}
    (stepped : Stepped rt opts w action next) :
    (∃ index schedule call, action = .evaluate index schedule ∧ w.calls[index]? = some call ∧
      call.pc = .deciding ∧ next = w.evaluate rt opts index call schedule) ∨
    SamePlacement w next := by
  cases stepped with
  | evaluate index schedule call found deciding =>
      exact Or.inl ⟨index, schedule, call, rfl, found, deciding, rfl⟩
  | other interference => exact Or.inr (Unlocked.interference w interference).samePlacement
  | release index lease found reported =>
      refine Or.inr ⟨rfl, rfl, rfl, ?_⟩
      intro i
      simp only [World.release, setNode_nodes]
      split
      · rename_i same
        rw [same]
      · rfl
  | acquire | wake | affinityExpired | queueExpired | ctxDone | leave =>
      exact Or.inr ⟨rfl, rfl, rfl, fun _ => rfl⟩

theorem Memory.step (rt : Runtime n) (opts : Options) (sized : 1 ≤ opts.placementSize)
    (w : World n) (action : Action n) (next : World n) (memory : Memory opts.placementSize w)
    (stepped : w.step rt opts action = some next) : Memory opts.placementSize next := by
  rcases (step_stepped rt opts w next action stepped).placement with
    ⟨index, schedule, call, _, _, _, rfl⟩ | same
  · exact memory.evaluate rt opts index call schedule sized
  · exact memory.of_same same

theorem sum_countP_node (l : List (Placement n)) :
    ∑ i, (l.countP fun p => p.node = i) = l.length := by
  induction l with
  | nil => simp
  | cons p rest ih =>
      simp only [List.countP_cons, decide_eq_true_eq, Finset.sum_add_distrib, ih]
      simp

end

theorem memory_new (instances : List Instance) (defaultMaxConcurrent : Int) (opts : Options)
    (clock : Int) (sized : 1 ≤ opts.placementSize) :
    Memory opts.placementSize (new instances defaultMaxConcurrent opts clock) := by
  refine ⟨⟨?_, ?_, ?_, ?_, ?_⟩, ?_⟩
  all_goals simp [new, World.idle, newNode]
  omega

theorem memory_of_reached {instances : List Instance} {defaultMaxConcurrent : Int}
    {opts : Options} {rt : Runtime instances.length} {clock : Int}
    {actions : List (Action instances.length)} {w : World instances.length}
    (sized : 1 ≤ opts.placementSize)
    (reached : Reached instances defaultMaxConcurrent opts rt clock actions w) :
    Memory opts.placementSize w :=
  Runs.run_preserves (World.step rt opts.clamp) (Memory opts.placementSize)
    (Memory.step rt opts.clamp sized) actions _ w
    (memory_new instances defaultMaxConcurrent opts clock sized) reached

/-- In every reachable state the map holds exactly the keys of the list and
points from each to its own element, no key occurs twice, the list is within
its size, and every `placed` counts the elements of its node. -/
theorem placement_views_agree (instances : List Instance) (defaultMaxConcurrent : Int)
    (opts : Options) (rt : Runtime instances.length) (clock : Int)
    (actions : List (Action instances.length)) (w : World instances.length)
    (sized : 1 ≤ opts.placementSize)
    (reached : Reached instances defaultMaxConcurrent opts rt clock actions w) :
    (∀ key, (w.placeMap key).isSome ↔ key ∈ w.placeLRU.map fun p => p.key) ∧
      (w.placeLRU.map fun p => p.key).Nodup ∧ (w.placeLRU.map fun p => p.id).Nodup ∧
      (∀ p ∈ w.placeLRU, w.placeMap p.key = some p.id) ∧
      (w.placeLRU.length : Int) ≤ opts.placementSize ∧
      (∀ i, (w.nodes i).placed = (w.placeLRU.countP fun p => p.node = i : Nat)) ∧
      (∀ i, 0 ≤ (w.nodes i).placed) ∧ ∑ i, (w.nodes i).placed = w.placeLRU.length := by
  have memory := memory_of_reached sized reached
  refine ⟨?_, memory.keys, memory.ids, ?_, memory.bounded, memory.placed, ?_, ?_⟩
  · intro key
    rw [Option.isSome_iff_exists, List.mem_map]
    simp only [memory.mapped]
    constructor
    · rintro ⟨id, p, member, same, _⟩
      exact ⟨p, member, same⟩
    · rintro ⟨p, member, same⟩
      exact ⟨p.id, p, member, same, rfl⟩
  · intro p member
    exact (memory.mapped p.key p.id).mpr ⟨p, member, rfl, rfl⟩
  · intro i
    rw [memory.placed i]
    exact Int.natCast_nonneg _
  · rw [← sum_countP_node w.placeLRU, Nat.cast_sum]
    exact Finset.sum_congr rfl fun i _ => memory.placed i

def pairOfNodes : List Instance := [⟨"", "a", 1, 4, ""⟩, ⟨"", "b", 1, 4, ""⟩]

/-- Placement memory for a single prefix. -/
def forgetfulOptions : Options := ⟨1, 1, 0, 1, 1, 1, none⟩

/-- The second prefix pushes the first one out. -/
def twoPrefixes : List (Action 2) :=
  [.acquire ⟨"p", "", none, []⟩, .acquire ⟨"q", "", none, []⟩, .evaluate 0 [], .evaluate 1 []]

theorem placement_views_agree_after_twoPrefixes :
    ∃ w : World 2,
      Reached pairOfNodes 0 forgetfulOptions (Runtime.exact 2) 0 twoPrefixes w ∧
      w.placeLRU.map (fun p => p.key) = [placementKey ⟨"q", "", none, []⟩] ∧
      w.placeMap (placementKey ⟨"p", "", none, []⟩) = none ∧ ∑ i, (w.nodes i).placed = 1 := by
  have evaluated : (Runs.run (World.step (Runtime.exact 2) forgetfulOptions.clamp)
      (new pairOfNodes 0 forgetfulOptions 0) twoPrefixes).map
        (fun w => (w.placeLRU.map fun p => p.key, w.placeMap (placementKey ⟨"p", "", none, []⟩))) =
      some ([placementKey ⟨"q", "", none, []⟩], none) := by
    decide +kernel
  obtain ⟨w, reached, facts⟩ := Option.map_eq_some_iff.mp evaluated
  obtain ⟨keys, forgotten⟩ := Prod.mk.inj facts
  refine ⟨w, reached, keys, forgotten, ?_⟩
  have total : ∑ i, (w.nodes i).placed = w.placeLRU.length :=
    (placement_views_agree pairOfNodes 0 forgetfulOptions (Runtime.exact 2) 0 twoPrefixes w
      (by decide) reached).2.2.2.2.2.2.2
  have single : w.placeLRU.length = 1 := by
    simpa using congrArg List.length keys
  rw [total, single]
  rfl

end RadixGates.Router
