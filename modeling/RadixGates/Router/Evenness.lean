import RadixGates.Router.Preferred

/-!
# Even placement

As long as the candidates stay the same and the prefixes fit into the placement
memory, nothing is forgotten or moved, and a new prefix goes to a candidate with
the fewest prefixes.  So the counts of two candidates never differ by more than
one, and a prefix keeps its node.
-/

set_option autoImplicit false

namespace RadixGates.Router

section
variable {n : Nat}

/-- Nothing has been placed yet. -/
structure World.Unplaced (w : World n) : Prop where
  placeMap : ∀ key, w.placeMap key = none
  placeLRU : w.placeLRU = []
  placed : ∀ i, (w.nodes i).placed = 0

/-- The evaluations in question: for one group, with nothing excluded, of these
prefixes, and with always the same candidates. -/
def World.Steady (cands : List (Fin n)) (group : String) (prefixes : List String) (w : World n) :
    Action n → Prop
  | .evaluate index schedule => ∀ call ∈ w.calls[index]?,
      call.request.targetGroup = group ∧ call.request.exclude = [] ∧
      call.request.prefixHash ∈ prefixes ∧ ∀ i, i ∈ w.candidates call schedule ↔ i ∈ cands
  | _ => True

instance (cands : List (Fin n)) (group : String) (prefixes : List String) (w : World n)
    (action : Action n) : Decidable (w.Steady cands group prefixes action) :=
  match action with
  | .evaluate index schedule =>
      inferInstanceAs (Decidable (∀ call ∈ w.calls[index]?,
        call.request.targetGroup = group ∧ call.request.exclude = [] ∧
        call.request.prefixHash ∈ prefixes ∧ ∀ i, i ∈ w.candidates call schedule ↔ i ∈ cands))
  | .acquire _ | .wake _ | .affinityExpired _ | .queueExpired _ | .ctxDone _ _ | .leave _
  | .release _ | .other _ => inferInstanceAs (Decidable True)

def groupKey (group hash : String) : UInt64 := mix64 (hashString hash ^^^ hashString group)

/-! ## The placement of a fresh key -/

theorem evict_of_room (size : Int) (fuel : Nat) (w : World n)
    (room : (w.placeLRU.length : Int) ≤ size) : World.evict size fuel w = w := by
  cases fuel with
  | zero => rfl
  | succ fuel => simp only [World.evict, if_neg (not_lt.mpr room)]

theorem setPlacementLocked_fresh (w : World n) (size : Int) (key : UInt64) (i : Fin n)
    (fresh : w.findPlacement key = none) (room : (w.placeLRU.length : Int) + 1 ≤ size) :
    w.setPlacementLocked size key i = w.pushPlacement key i := by
  simp only [World.setPlacementLocked, fresh]
  apply evict_of_room
  simpa [World.pushPlacement] using room

/-- The keys that are placed fit into the memory with the next one. -/
theorem Memory.room {size : Int} {w : World n} (memory : Memory size w) (known : List UInt64)
    (few : (known.length : Int) ≤ size) (inside : ∀ p ∈ w.placeLRU, p.key ∈ known) (key : UInt64)
    (isKnown : key ∈ known) (fresh : w.findPlacement key = none) :
    (w.placeLRU.length : Int) + 1 ≤ size := by
  have absent := memory.find_none key fresh
  have nodup : (key :: w.keys).Nodup := by
    refine List.nodup_cons.mpr ⟨?_, memory.keys⟩
    intro member
    obtain ⟨p, inList, same⟩ := List.mem_map.mp member
    exact absent p inList same
  have subset : key :: w.keys ⊆ known := by
    intro other member
    rcases List.mem_cons.mp member with rfl | placed
    · exact isKnown
    · obtain ⟨p, inList, rfl⟩ := List.mem_map.mp placed
      exact inside p inList
  have shorter := (List.subperm_of_subset nodup subset).length_le
  simp only [World.keys, List.length_cons, List.length_map] at shorter
  omega

/-! ## The invariant -/

/-- Only known keys are placed, on the candidates and evenly. -/
structure Even (size : Int) (cands : List (Fin n)) (known : List UInt64) (w : World n) : Prop
    extends Memory size w where
  inside : ∀ p ∈ w.placeLRU, p.key ∈ known
  homes : ∀ p ∈ w.placeLRU, p.node ∈ cands
  even : ∀ i ∈ cands, ∀ j ∈ cands, (w.nodes i).placed ≤ (w.nodes j).placed + 1

theorem Even.of_same {size : Int} {cands : List (Fin n)} {known : List UInt64} {w w' : World n}
    (even : Even size cands known w) (same : SamePlacement w w') : Even size cands known w' where
  toMemory := even.toMemory.of_same same
  inside := by
    rw [same.placeLRU]
    exact even.inside
  homes := by
    rw [same.placeLRU]
    exact even.homes
  even i inCands j inCands' := by
    rw [same.placed, same.placed]
    exact even.even i inCands j inCands'

/-- A candidate with the fewest keys takes one more. -/
theorem Even.push {size : Int} {cands : List (Fin n)} {known : List UInt64} {w : World n}
    (even : Even size cands known w) (key : UInt64) (isKnown : key ∈ known) (i : Fin n)
    (member : i ∈ cands) (least : ∀ j ∈ cands, (w.nodes i).placed ≤ (w.nodes j).placed)
    (fresh : w.findPlacement key = none) (room : (w.placeLRU.length : Int) + 1 ≤ size) :
    Even size cands known (w.pushPlacement key i) where
  toConsistent := even.toConsistent.pushPlacement key i (even.find_none key fresh)
  bounded := by simpa [World.pushPlacement] using room
  inside := by
    intro p inList
    rcases List.mem_cons.mp inList with rfl | old
    · exact isKnown
    · exact even.inside p old
  homes := by
    intro p inList
    rcases List.mem_cons.mp inList with rfl | old
    · exact member
    · exact even.homes p old
  even j inCands k inCands' := by
    have before := even.even j inCands k inCands'
    have fewest := least k inCands'
    have counts : ∀ l, ((w.pushPlacement key i).nodes l).placed =
        (w.nodes l).placed + if l = i then 1 else 0 := fun l => addPlaced_placed w i l 1
    rw [counts, counts]
    by_cases here : j = i
    · subst here
      rw [if_pos rfl]
      split <;> omega
    · rw [if_neg here]
      split <;> omega

/-- What an evaluation does to evenly placed keys: it keeps them where they are
and may add its own. -/
structure Settles (size : Int) (cands : List (Fin n)) (known : List UInt64) (w w' : World n) :
    Prop where
  even : Even size cands known w'
  keeps : ∀ key i, w.recorded key = some i → w'.recorded key = some i

theorem Even.touch {size : Int} {cands : List (Fin n)} {known : List UInt64} {w : World n}
    (even : Even size cands known w) (p : Placement n) :
    Settles size cands known w (w.touchPlacement p) := by
  have moved := moveToFront_perm p.id w.placeLRU
  refine ⟨⟨even.toMemory.touchPlacement p, ?_, ?_, even.even⟩, ?_⟩
  · exact fun q inList => even.inside q (moved.subset inList)
  · exact fun q inList => even.homes q (moved.subset inList)
  · intro key i recorded
    rw [even.toConsistent.touchPlacement_recorded]
    exact recorded

/-- The placement step among all of the candidates. -/
theorem Even.chosen {size : Int} {cands : List (Fin n)} {known : List UInt64} {e : Eval n}
    {order : List (Scored n)} {key : UInt64} {c : Scored n} {after : World n}
    (even : Even size cands known e.w) (few : (known.length : Int) ≤ size) (isKnown : key ∈ known)
    (same : ∀ i, i ∈ cands ↔ ∃ d ∈ order, d.node = i) (member : c ∈ order)
    (chosen : Chosen size key order [] e c after) : Settles size cands known e.w after := by
  cases chosen with
  | touched p found onNode => exact even.touch p
  | kept p found excluded yes => cases excluded
  | placed middle between least lost =>
      have quiet := even.of_same between.samePlacement
      have unplaced : e.w.findPlacement key = none := by
        rw [Option.eq_none_iff_forall_ne_some]
        intro p found
        -- a recorded node is a candidate and would have been touched
        have inList := ((even.find_iff _ p).mp found).1
        obtain ⟨d, ordered, here⟩ := (same p.node).mp (even.homes p inList)
        exact (lost p found).1 d ordered here
      have fresh : middle.findPlacement key = none := by
        rwa [World.findPlacement, between.placeMap, between.placeLRU]
      have room := quiet.toMemory.room known few quiet.inside key isKnown fresh
      have fewest : ∀ j ∈ cands, (middle.nodes c.node).placed ≤ (middle.nodes j).placed := by
        intro j inCands
        obtain ⟨d, ordered, rfl⟩ := (same j).mp inCands
        exact least d ordered
      have pushed := quiet.push key isKnown c.node ((same c.node).mpr ⟨c, member, rfl⟩) fewest fresh
        room
      rw [setPlacementLocked_fresh middle _ _ _ fresh room]
      refine ⟨pushed, ?_⟩
      intro other i recorded
      rw [← between.samePlacement.recorded, quiet.recorded_iff] at recorded
      obtain ⟨p, inList, here⟩ := recorded
      exact (pushed.recorded_iff other i).mpr ⟨p, List.mem_cons_of_mem _ inList, here⟩

theorem Even.evaluate {cands : List (Fin n)} {known : List UInt64} {w : World n} (rt : Runtime n)
    (opts : Options) (few : (known.length : Int) ≤ opts.placementSize)
    (even : Even opts.placementSize cands known w) (index : Nat) (call : Call)
    (schedule : List (List (Interference n)))
    (isKnown : placementKey call.request ∈ known) (untried : call.request.exclude = [])
    (same : ∀ i, i ∈ w.candidates call schedule ↔ i ∈ cands) :
    Settles opts.placementSize cands known w (w.evaluate rt opts index call schedule) := by
  have unlocked := (gathered_unlocked w call schedule).samePlacement
  have gathered := even.of_same unlocked
  by_cases empty : (w.gathered call schedule).2.1 = []
  · have kept := unlocked.trans (unplaced_samePlacement rt opts w index call schedule empty)
    refine ⟨even.of_same kept, ?_⟩
    intro key i recorded
    rw [kept.recorded]
    exact recorded
  have sized : 1 ≤ opts.placementSize := by
    have := List.length_pos_of_mem isKnown
    omega
  have later := ranked_samePlacement rt opts w index call schedule empty
  obtain ⟨order, c, perm, member, _, chosen⟩ := ranked_chosen rt opts w call schedule sized empty
  have sameOrder : ∀ i, i ∈ cands ↔ ∃ d ∈ order, d.node = i := by
    intro i
    rw [← same i, World.candidates, List.mem_map]
    simp only [perm.mem_iff]
  rw [untried] at chosen
  have placed := gathered.chosen few isKnown sameOrder member chosen
  refine ⟨placed.even.of_same later, ?_⟩
  intro key i recorded
  rw [later.recorded]
  apply placed.keeps
  rw [unlocked.recorded]
  exact recorded

/-! ## Runs -/

theorem Even.step {cands : List (Fin n)} {group : String} {prefixes : List String}
    {w next : World n} {rt : Runtime n} {opts : Options}
    (few : (prefixes.length : Int) ≤ opts.placementSize) {action : Action n}
    (even : Even opts.placementSize cands (prefixes.map (groupKey group)) w)
    (steady : w.Steady cands group prefixes action)
    (stepped : Stepped rt opts w action next) :
    Settles opts.placementSize cands (prefixes.map (groupKey group)) w next := by
  rcases stepped.placement with ⟨index, schedule, call, rfl, found, _, rfl⟩ | kept
  · obtain ⟨sameGroup, untried, inPrefixes, same⟩ := steady call found
    apply even.evaluate rt opts _ index call schedule _ untried same
    · simpa using few
    · exact List.mem_map.mpr ⟨_, inPrefixes, by rw [← sameGroup]; rfl⟩
  · refine ⟨even.of_same kept, ?_⟩
    intro key i recorded
    rw [kept.recorded]
    exact recorded

theorem World.Unplaced.even {size : Int} {w : World n} (unplaced : w.Unplaced) (sized : 0 ≤ size)
    (cands : List (Fin n)) (known : List UInt64) : Even size cands known w := by
  refine ⟨⟨⟨?_, ?_, ?_, ?_, ?_⟩, ?_⟩, ?_, ?_, ?_⟩
  all_goals simp [unplaced.placeLRU, unplaced.placeMap, unplaced.placed, sized]

theorem Even.run {cands : List (Fin n)} {group : String} {prefixes : List String}
    {rt : Runtime n} {opts : Options}
    (few : (prefixes.length : Int) ≤ opts.placementSize) {start w : World n}
    (even : Even opts.placementSize cands (prefixes.map (groupKey group)) start)
    (actions : List (Action n)) (ran : Runs.run (World.step rt opts) start actions = some w)
    (steady : Runs.Along (World.step rt opts) (World.Steady cands group prefixes) start
      actions) :
    Settles opts.placementSize cands (prefixes.map (groupKey group)) start w := by
  apply Runs.run_preserves_along (World.step rt opts)
    (Settles opts.placementSize cands (prefixes.map (groupKey group)) start)
    (World.Steady cands group prefixes) _ actions start w ⟨even, fun _ _ => id⟩ steady ran
  intro w action next before steady stepped
  have after := before.even.step few steady (step_stepped rt opts w next action stepped)
  exact ⟨after.even, fun key i recorded => after.keeps key i (before.keeps key i recorded)⟩

/-- An evaluation with candidates and nothing excluded uses its key. -/
theorem touches_of_steady (w : World n) (call : Call) (schedule : List (List (Interference n)))
    (cands : List (Fin n)) (nonempty : cands ≠ []) (untried : call.request.exclude = [])
    (same : ∀ i, i ∈ w.candidates call schedule ↔ i ∈ cands) : w.touches call schedule = true := by
  obtain ⟨i, inCands⟩ := List.exists_mem_of_ne_nil cands nonempty
  obtain ⟨c, found, _⟩ := List.mem_map.mp ((same i).mpr inCands)
  have some : (w.gathered call schedule).2.1.isEmpty = false := by
    simpa using List.ne_nil_of_mem found
  have unspared : (w.gathered call schedule).1.excludedButAvailable (placementKey call.request)
      call.request.exclude = false := by
    rw [untried, Eval.excludedButAvailable]
    split <;> simp
  simp [World.touches, some, unspared]

/-- Such an evaluation prefers a node, which is the recorded one afterwards. -/
theorem Even.preferred {cands : List (Fin n)} {group : String} {prefixes : List String}
    {w : World n} (rt : Runtime n) (opts : Options)
    (nonempty : cands ≠ []) (few : (prefixes.length : Int) ≤ opts.placementSize)
    (even : Even opts.placementSize cands (prefixes.map (groupKey group)) w) (index : Nat)
    (call : Call) (found : w.calls[index]? = some call)
    (schedule : List (List (Interference n)))
    (steady : w.Steady cands group prefixes (.evaluate index schedule)) :
    ∃ i, w.preferred rt opts call schedule = some i ∧
      (w.evaluate rt opts index call schedule).recorded (groupKey group call.request.prefixHash) =
        some i ∧
      Settles opts.placementSize cands (prefixes.map (groupKey group)) w
        (w.evaluate rt opts index call schedule) := by
  obtain ⟨rfl, untried, inPrefixes, same⟩ := steady call found
  have sized : 1 ≤ opts.placementSize := by
    have := List.length_pos_of_mem inPrefixes
    omega
  have used := touches_of_steady w call schedule cands nonempty untried same
  have recorded := even.toMemory.preferred_recorded rt opts sized index call schedule used
  have settles := even.evaluate rt opts (by simpa using few) index call schedule
    (List.mem_map.mpr ⟨_, inPrefixes, rfl⟩) untried same
  simp only [World.touches, Bool.and_eq_true, Bool.not_eq_true', List.isEmpty_eq_false_iff] at used
  obtain ⟨c, _, _, isPreferred⟩ := ranked_head rt opts w call schedule used.1
  rw [isPreferred] at recorded
  exact ⟨c.node, isPreferred, recorded, settles⟩

/-- The node a prefix was first preferred on stays its preferred node, and two
candidates never differ by more than one placed prefix. -/
theorem even_placement (rt : Runtime n) (opts : Options) (cands : List (Fin n)) (group : String)
    (prefixes : List String) (nonempty : cands ≠ [])
    (few : (prefixes.length : Int) ≤ opts.placementSize) (start w : World n)
    (unplaced : start.Unplaced) (actions : List (Action n))
    (ran : Runs.run (World.step rt opts) start actions = some w)
    (steady : Runs.Along (World.step rt opts) (World.Steady cands group prefixes) start
      actions) :
    (∀ i ∈ cands, ∀ j ∈ cands, (w.nodes i).placed ≤ (w.nodes j).placed + 1) ∧
      ∀ first index schedule later earlier call index' schedule' call',
        actions = first ++ .evaluate index schedule :: later →
        Runs.run (World.step rt opts) start first = some earlier →
        earlier.calls[index]? = some call → w.calls[index']? = some call' →
        w.Steady cands group prefixes (.evaluate index' schedule') →
        call'.request.prefixHash = call.request.prefixHash →
        w.preferred rt opts call' schedule' = earlier.preferred rt opts call schedule := by
  have sized : 0 ≤ opts.placementSize := (Int.natCast_nonneg _).trans few
  have initial := unplaced.even sized cands (prefixes.map (groupKey group))
  have final := (initial.run few actions ran steady).even
  refine ⟨final.even, ?_⟩
  intro first index schedule later earlier call index' schedule' call' split toEarlier found found'
    steady' sameHash
  subst split
  obtain ⟨steadyFirst, steadyNow, steadyLater⟩ := Runs.along_append _ _ _ _ _ _ toEarlier steady
  have evenEarlier := (initial.run few first toEarlier steadyFirst).even
  rw [Runs.run_append, toEarlier] at ran
  obtain ⟨now, stepped, ranLater⟩ := (Runs.run_cons_some _ _ _ _ _).mp ran
  cases step_stepped rt opts earlier now _ stepped with
  | evaluate _ _ other atIndex deciding =>
      rw [found] at atIndex
      cases Option.some.inj atIndex
      obtain ⟨i, isPreferred, placed, settled⟩ :=
        evenEarlier.preferred rt opts nonempty few index call found schedule steadyNow
      have kept := (settled.even.run few later ranLater (steadyLater _ stepped)).keeps _ i placed
      obtain ⟨j, isPreferred', placed', settled'⟩ :=
        final.preferred rt opts nonempty few index' call' found' schedule' steady'
      rw [sameHash] at placed'
      rw [isPreferred, isPreferred', ← placed', settled'.keeps _ i kept]

end

def memoryForTwo : Options := ⟨1, 1, 0, 2, 1, 1, none⟩

def emptyPair : World 2 := new pairOfNodes 0 memoryForTwo 0

/-- Two prefixes are placed and the first one is asked for again. -/
def placedTwice : List (Action 2) :=
  [.acquire promptP, .evaluate 0 [], .acquire ⟨"q", "", none, []⟩, .evaluate 1 [],
    .acquire promptP]

theorem placedTwice_stays_even :
    ∃ (w earlier : World 2) (call call' : Call),
      Runs.run (World.step (Runtime.exact 2) memoryForTwo.clamp) emptyPair placedTwice = some w ∧
      earlier.calls[0]? = some call ∧ w.calls[2]? = some call' ∧
      (w.nodes 0).placed = 1 ∧ (w.nodes 1).placed = 1 ∧
      w.preferred (Runtime.exact 2) memoryForTwo.clamp call' [] =
        earlier.preferred (Runtime.exact 2) memoryForTwo.clamp call [] := by
  have evaluated : ((Runs.run (World.step (Runtime.exact 2) memoryForTwo.clamp) emptyPair
      placedTwice).bind fun w =>
        (Runs.run (World.step (Runtime.exact 2) memoryForTwo.clamp) emptyPair
          (placedTwice.take 1)).bind fun earlier =>
            earlier.calls[0]?.bind fun call => w.calls[2]?.map fun call' =>
              ((w.nodes 0).placed, (w.nodes 1).placed,
                decide (call'.request.prefixHash = call.request.prefixHash ∧
                  w.Steady [0, 1] "" ["p", "q"] (.evaluate 2 [])))) = some (1, 1, true) := by
    decide +kernel
  obtain ⟨w, ran, rest⟩ := Option.bind_eq_some_iff.mp evaluated
  obtain ⟨earlier, toEarlier, rest⟩ := Option.bind_eq_some_iff.mp rest
  obtain ⟨call, found, rest⟩ := Option.bind_eq_some_iff.mp rest
  obtain ⟨call', found', facts⟩ := Option.map_eq_some_iff.mp rest
  simp only [Prod.mk.injEq, decide_eq_true_eq] at facts
  obtain ⟨first, second, sameHash, again⟩ := facts
  have steady : Runs.Along (World.step (Runtime.exact 2) memoryForTwo.clamp)
      (World.Steady [0, 1] "" ["p", "q"]) emptyPair placedTwice := by
    decide +kernel
  have even := even_placement (Runtime.exact 2) memoryForTwo.clamp [0, 1] "" ["p", "q"] (by simp)
    (by decide) emptyPair w ⟨fun _ => rfl, rfl, fun _ => rfl⟩ placedTwice ran steady
  exact ⟨w, earlier, call, call', ran, found, found', first, second,
    even.2 (placedTwice.take 1) 0 [] (placedTwice.drop 2) earlier call 2 [] call' rfl toEarlier
      found found' again sameHash⟩

end RadixGates.Router
