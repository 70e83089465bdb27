import Mathlib.Data.List.Dedup
import RadixGates.Breaker.Session
import RadixGates.Router.Frame

/-!
# Rendezvous stability

Scores of nodes with distinct name hashes never tie, so the ranking does not
depend on the configuration order or on how the sort treats equal keys, and
losing nodes deletes them from the ranking.  A lightly loaded top-ranked
candidate is granted whatever the other candidates are.
-/

set_option autoImplicit false

namespace RadixGates.Router

open RadixGates.Breaker (Ticket)
open RadixGates.KeyedSort (Descending SortFunc)

def DistinctHashes {n : Nat} (nodes : Fin n → Node) : Prop :=
  ∀ i j, (nodes i).nameHash = (nodes j).nameHash → i = j

def names {n : Nat} (nodes : Fin n → Node) : List String :=
  (List.finRange n).map fun i => (nodes i).name

def nameScore (kh : UInt64) (name : String) : Nat := (score kh (hashString name)).toNat

theorem nameScore_injective (kh : UInt64) (a b : String)
    (same : nameScore kh a = nameScore kh b) : hashString a = hashString b :=
  score_injective kh (UInt64.toNat_inj.mp same)

theorem mem_names {n : Nat} (nodes : Fin n → Node) (name : String) :
    name ∈ names nodes ↔ ∃ i, (nodes i).name = name := by
  simp [names]

theorem names_nodup {n : Nat} (nodes : Fin n → Node) (distinct : DistinctHashes nodes) :
    (names nodes).Nodup := by
  refine List.Nodup.map ?_ (List.nodup_finRange n)
  intro i j same
  apply distinct i j
  simp only [Node.nameHash]
  exact congrArg hashString same

theorem ranking_perm {n : Nat} (rt : Runtime n) (nodes : Fin n → Node) (key : String) :
    (ranking rt nodes key).Perm (names nodes) := by
  have sorted := (rt.sort.perm (fun c => c.s.toNat)
    ((List.finRange n).map fun i =>
      (⟨i, score (hashString key) (nodes i).nameHash⟩ : Scored n))).map
        fun c => (nodes c.node).name
  simpa [ranking, names, Function.comp_def] using sorted

theorem ranking_descending {n : Nat} (rt : Runtime n) (nodes : Fin n → Node) (key : String) :
    Descending (nameScore (hashString key)) (ranking rt nodes key) := by
  unfold ranking
  apply Descending.map
  -- the score stored beside a node is the score of its name
  refine List.Pairwise.imp_of_mem ?_ (rt.sort.descending _ _)
  intro x y inX inY below
  have stored : ∀ c ∈ rt.sort.run (fun c => c.s.toNat)
      ((List.finRange n).map fun i =>
        (⟨i, score (hashString key) (nodes i).nameHash⟩ : Scored n)),
      c.s.toNat = nameScore (hashString key) (nodes c.node).name := by
    intro c member
    obtain ⟨i, _, rfl⟩ := List.mem_map.mp ((rt.sort.perm _ _).subset member)
    rfl
  dsimp only
  rw [← stored x inX, ← stored y inY]
  exact below

theorem ranking_of_subset {n m : Nat} (rt : Runtime n) (rt' : Runtime m)
    (nodes : Fin n → Node) (nodes' : Fin m → Node) (key : String)
    (distinct : DistinctHashes nodes) (distinct' : DistinctHashes nodes')
    (subset : ∀ name ∈ names nodes', name ∈ names nodes) :
    ranking rt' nodes' key =
      (ranking rt nodes key).filter fun name => decide (name ∈ names nodes') := by
  have kept : (names nodes').Perm
      ((names nodes).filter fun name => decide (name ∈ names nodes')) := by
    rw [List.perm_ext_iff_of_nodup (names_nodup nodes' distinct')
      ((names_nodup nodes distinct).filter _)]
    intro name
    simp only [List.mem_filter, decide_eq_true_eq]
    exact ⟨fun member => ⟨subset name member, member⟩, fun both => both.2⟩
  have noTies : ∀ a ∈ names nodes, ∀ b ∈ names nodes,
      nameScore (hashString key) a = nameScore (hashString key) b → a = b := by
    intro a inA b inB tie
    obtain ⟨i, rfl⟩ := (mem_names nodes a).mp inA
    obtain ⟨j, rfl⟩ := (mem_names nodes b).mp inB
    rw [distinct i j (nameScore_injective _ _ _ tie)]
  exact KeyedSort.sorted_sublist_eq_filter (nameScore (hashString key)) (names nodes)
    (names nodes') (ranking rt nodes key) (ranking rt' nodes' key) _ kept noTies
    (ranking_perm rt nodes key) (ranking_descending rt nodes key)
    (ranking_perm rt' nodes' key) (ranking_descending rt' nodes' key)

/-! ## Breakers during one decision -/

/-- The breaker lets a request through now and, left alone, at any later time. -/
def Serving (b : Breaker) : Prop :=
  b.state = .closed ∨ (b.state = .halfOpen ∧ b.halfInFlight < b.cfg.halfOpenMax)

theorem Serving.advanceLocked {b : Breaker} (serving : Serving b) (now : Int) :
    b.advanceLocked now = b := by
  have notOpen : b.state ≠ .opened := by
    rcases serving with closed | ⟨half, _⟩
    · simp [closed]
    · simp [half]
  simp [Breaker.advanceLocked, notOpen]

theorem Serving.available {b : Breaker} (serving : Serving b) (now : Int) :
    (b.available now).1 = b := by
  simp only [Breaker.available, serving.advanceLocked now]
  split <;> rfl

theorem serving_of_available (b : Breaker) (now : Int) (yes : (b.available now).2 = true) :
    Serving (b.available now).1 := by
  simp only [Breaker.available] at yes ⊢
  split at yes
  · rename_i closed
    exact Or.inl closed
  · rename_i half
    exact Or.inr ⟨half, by simpa using yes⟩
  · cases yes

theorem Serving.allow {b : Breaker} (serving : Serving b) (now : Int) :
    ∃ t, (b.allow now).2 = some t := by
  simp only [Breaker.allow, serving.advanceLocked now]
  rcases serving with closed | ⟨half, free⟩
  · simp [closed]
  · simp [half, free]

section
variable {n : Nat}

def World.Serving (w : World n) (i : Fin n) : Prop :=
  ∀ b, (w.nodes i).br = some b → Router.Serving b

/-- Everything but a verdict or a cancellation reaching a breaker. -/
def Interference.quiet : Interference n → Bool
  | .report _ _ => false
  | _ => true

/-- No breaker is reported to during the decision; time may pass, flags may
change and breakers may be read. -/
def Eval.Quiet (e : Eval n) : Prop := ∀ steps ∈ e.schedule, ∀ step ∈ steps, step.quiet = true

theorem World.Serving.setBreaker {w : World n} {i : Fin n} (serving : w.Serving i) (j : Fin n)
    (node : Node)
    (kept : ∀ b, node.br = some b → (w.nodes j).br = some b ∨ (j = i → Router.Serving b)) :
    (w.setNode j node).Serving i := by
  intro b present
  rw [setNode_nodes] at present
  split at present
  · rename_i here
    rcases kept b present with same | good
    · exact serving b (here ▸ same)
    · exact good here.symm
  · exact serving b present

theorem World.Serving.interference {w : World n} {i : Fin n} (serving : w.Serving i)
    (step : Interference n) (quiet : step.quiet = true) : (step.apply w).Serving i := by
  cases step with
  | tick elapsed => exact serving
  | setUp j v => exact serving.setBreaker j _ fun b present => Or.inl present
  | observe j =>
      apply serving.setBreaker j _
      intro b present
      apply Or.inr
      rintro rfl
      obtain ⟨before, found, rfl⟩ := Option.map_eq_some_iff.mp present
      have good := serving before found
      rwa [good.advanceLocked w.clock]
  | report lease verdict => cases quiet

theorem World.Serving.foldl {i : Fin n} (steps : List (Interference n)) (w : World n)
    (serving : w.Serving i) (quiet : ∀ step ∈ steps, step.quiet = true) :
    (steps.foldl Interference.apply w).Serving i := by
  induction steps generalizing w with
  | nil => exact serving
  | cons step rest ih =>
      have first := serving.interference step (quiet step List.mem_cons_self)
      exact ih _ first fun later member => quiet later (List.mem_cons_of_mem step member)

theorem World.Serving.yield {e : Eval n} {i : Fin n} (serving : e.w.Serving i) (quiet : e.Quiet) :
    e.yield.w.Serving i := by
  unfold Eval.yield
  split
  · exact serving
  · rename_i steps rest planned
    refine World.Serving.foldl steps e.w serving (quiet steps ?_)
    rw [planned]
    exact List.mem_cons_self

theorem Eval.Quiet.yield {e : Eval n} (quiet : e.Quiet) : e.yield.Quiet := by
  unfold Eval.yield
  split
  · exact quiet
  · rename_i steps rest planned
    intro later member
    apply quiet later
    rw [planned]
    exact List.mem_cons_of_mem steps member

theorem available_cases (e : Eval n) (i : Fin n) :
    e.available i = (e.yield, false) ∨
    (e.available i = (e.yield.yield, true) ∧ (e.yield.yield.w.nodes i).br = none) ∨
    ∃ b, (e.yield.yield.w.nodes i).br = some b ∧
      e.available i = (e.yield.yield.setBreaker i (b.available e.yield.yield.w.clock).1,
        (b.available e.yield.yield.w.clock).2) := by
  simp only [Eval.available]
  split
  · split
    · rename_i absent
      exact Or.inr (Or.inl ⟨rfl, absent⟩)
    · rename_i b present
      exact Or.inr (Or.inr ⟨b, present, rfl⟩)
  · exact Or.inl rfl

theorem Eval.Quiet.available {e : Eval n} (quiet : e.Quiet) (i : Fin n) :
    (e.available i).1.Quiet := by
  rcases available_cases e i with down | ⟨yes, _⟩ | ⟨b, _, asked⟩
  · rw [down]
    exact quiet.yield
  · rw [yes]
    exact quiet.yield.yield
  · rw [asked]
    exact quiet.yield.yield

theorem World.Serving.available {e : Eval n} {i : Fin n} (serving : e.w.Serving i)
    (quiet : e.Quiet) (j : Fin n) : (e.available j).1.w.Serving i := by
  have first : e.yield.w.Serving i := serving.yield quiet
  have second : e.yield.yield.w.Serving i := first.yield quiet.yield
  rcases available_cases e j with down | ⟨yes, _⟩ | ⟨b, present, asked⟩
  · rw [down]
    exact first
  · rw [yes]
    exact second
  · rw [asked]
    apply second.setBreaker j _
    rintro after ⟨rfl⟩
    apply Or.inr
    rintro rfl
    have good := second b present
    rwa [good.available]

theorem serving_of_asked (e : Eval n) (i : Fin n) (yes : (e.available i).2 = true) :
    (e.available i).1.w.Serving i := by
  rcases available_cases e i with down | ⟨asked, absent⟩ | ⟨b, _, asked⟩
  · rw [down] at yes
    cases yes
  · rw [asked]
    intro b present
    rw [absent] at present
    cases present
  · rw [asked] at yes ⊢
    intro after found
    have stored : (b.available e.yield.yield.w.clock).1 = after := by
      simpa [Eval.setBreaker] using found
    rw [← stored]
    exact serving_of_available b _ yes

theorem allow_of_serving {e : Eval n} (quiet : e.Quiet) (i : Fin n) (serving : e.w.Serving i) :
    ∃ t, (e.allow i).2 = some t := by
  have still := serving.yield quiet
  simp only [Eval.allow]
  split
  · exact ⟨_, rfl⟩
  · rename_i b present
    exact (still b present).allow _

/-! ## The collected candidates -/

structure Collected (kh : UInt64) (e : Eval n) (found : Eval n × List (Scored n) × Int) : Prop where
  quiet : found.1.Quiet
  keeps : ∀ i, e.w.Serving i → found.1.w.Serving i
  serving : ∀ c ∈ found.2.1, found.1.w.Serving c.node
  scored : ∀ c ∈ found.2.1, c.s.toNat = nameScore kh (e.w.nodes c.node).name

theorem collect_collected (kh : UInt64) (group : String) (filter : Node → Bool)
    (exclude : List String) (nodes : List (Fin n)) (e : Eval n) (quiet : e.Quiet) :
    Collected kh e (collect kh group filter exclude nodes e) := by
  induction nodes generalizing e with
  | nil => exact ⟨quiet, fun _ serving => serving, by simp [collect], by simp [collect]⟩
  | cons i rest ih =>
      have later := ih (e.available i).1 (quiet.available i)
      have sameName : ∀ j, ((e.available i).1.w.nodes j).name = (e.w.nodes j).name := by
        intro j
        rw [(Unlocked.available e i).nodes j]
      have keeps := fun j (serving : e.w.Serving j) =>
        later.keeps j (World.Serving.available serving quiet i)
      have scored := later.scored
      simp only [sameName] at scored
      simp only [collect]
      split_ifs with outside filtered excluded yes
      · exact ih e quiet
      · exact ih e quiet
      · exact ih e quiet
      · refine ⟨later.quiet, keeps, ?_, ?_⟩
        · intro c member
          rcases List.mem_cons.mp member with rfl | inRest
          · exact later.keeps i (serving_of_asked e i yes)
          · exact later.serving c inRest
        · intro c member
          rcases List.mem_cons.mp member with rfl | inRest
          · rfl
          · exact scored c inRest
      · exact ⟨later.quiet, keeps, later.serving, scored⟩

/-! ## The decision -/

structure Decision (n : Nat) where
  opts : Options
  group : String
  filter : Node → Bool
  exclude : List String
  hold : Bool
  start : Eval n

def Decision.candidates (d : Decision n) (key : String) : List String :=
  (collect (hashString key) d.group d.filter d.exclude (List.finRange n) d.start).2.1.map
    fun c => (d.start.w.nodes c.node).name

def Decision.granted (d : Decision n) (rt : Runtime n) (key : String) : Option String :=
  let result := tryPickLocked rt d.opts (hashString key) d.group d.filter d.exclude d.hold d.start
  match result.2 with
  | .granted lease =>
      result.1.w.leases[lease]?.map fun l => (d.start.w.nodes l.node).name
  | _ => none

/-- The node has fewer requests in flight than its slots and the floor. -/
def Decision.HasRoom (d : Decision n) (name : String) : Prop :=
  ∀ i, (d.start.w.nodes i).name = name →
    (d.start.w.nodes i).inflight < min (d.start.w.nodes i).maxConcurrent d.opts.affinityFloor

/-- The evaluations the stability property is about: no placement memory, no
breaker change while they run, and no colliding name hashes. -/
structure Decision.Steady (d : Decision n) : Prop where
  noPlacement : d.opts.placementSize ≤ 0
  quiet : d.start.Quiet
  distinct : DistinctHashes d.start.w.nodes

theorem tryLeaseLocked_of_serving {e : Eval n} (quiet : e.Quiet) (i : Fin n)
    (serving : e.w.Serving i) :
    ∃ t, tryLeaseLocked e i =
      ({ (e.allow i).1 with w := (e.allow i).1.w.grant i t },
        some (e.allow i).1.w.leases.length) := by
  obtain ⟨t, allowed⟩ := allow_of_serving quiet i serving
  refine ⟨t, ?_⟩
  simp only [tryLeaseLocked, allowed]

theorem granted_of_head (d : Decision n) (rt : Runtime n) (key : String) (c : Scored n)
    (rest : List (Scored n)) (steady : d.Steady)
    (room : d.HasRoom (d.start.w.nodes c.node).name)
    (ranked : rt.sort.run (fun c => c.s.toNat)
      (collect (hashString key) d.group d.filter d.exclude (List.finRange n) d.start).2.1 =
        c :: rest) :
    d.granted rt key = some (d.start.w.nodes c.node).name := by
  have collected := collect_collected (hashString key) d.group d.filter d.exclude
    (List.finRange n) d.start steady.quiet
  have load := (Unlocked.collect (hashString key) d.group d.filter d.exclude (List.finRange n)
    d.start).sameLoad
  have member := (rt.sort.perm _ _).subset (ranked ▸ List.mem_cons_self : c ∈ rt.sort.run
    (fun c => c.s.toNat)
    (collect (hashString key) d.group d.filter d.exclude (List.finRange n) d.start).2.1)
  unfold Decision.granted tryPickLocked rankAndPlace
  generalize collect (hashString key) d.group d.filter d.exclude (List.finRange n) d.start = found
    at collected load member ranked ⊢
  have nonempty : found.2.1 ≠ [] := List.ne_nil_of_mem member
  have off : ¬ 0 < d.opts.placementSize := not_lt.mpr steady.noPlacement
  obtain ⟨t, leased⟩ := tryLeaseLocked_of_serving collected.quiet c.node
    (collected.serving c member)
  have free := room c.node rfl
  rw [← load.inflight, ← load.limit] at free
  -- the limit is never below the floor
  have below : ∀ load, (found.1.w.nodes c.node).inflight <
      min (found.1.w.nodes c.node).maxConcurrent (max load d.opts.affinityFloor) := by
    intro load
    rw [lt_min_iff] at free ⊢
    exact ⟨free.1, lt_max_of_lt_right free.2⟩
  simp [nonempty, off, ranked, offer, below, leased, World.grant]

theorem granted_of_top (d : Decision n) (rt : Runtime n) (key : String) (t : String)
    (steady : d.Steady) (member : t ∈ d.candidates key)
    (top : ∀ name ∈ d.candidates key,
      nameScore (hashString key) name ≤ nameScore (hashString key) t)
    (room : d.HasRoom t) : d.granted rt key = some t := by
  have collected := collect_collected (hashString key) d.group d.filter d.exclude
    (List.finRange n) d.start steady.quiet
  unfold Decision.candidates at member top
  obtain ⟨chosen, inFound, rfl⟩ := List.mem_map.mp member
  have sorted := rt.sort.descending (fun c => c.s.toNat)
    (collect (hashString key) d.group d.filter d.exclude (List.finRange n) d.start).2.1
  have perm := rt.sort.perm (fun c => c.s.toNat)
    (collect (hashString key) d.group d.filter d.exclude (List.finRange n) d.start).2.1
  cases ranked : rt.sort.run (fun c => c.s.toNat)
      (collect (hashString key) d.group d.filter d.exclude (List.finRange n) d.start).2.1 with
  | nil =>
      rw [ranked] at perm
      rw [perm.nil_eq.symm] at inFound
      cases inFound
  | cons c rest =>
      rw [ranked] at sorted perm
      have headFound := perm.subset List.mem_cons_self
      have above := sorted.head_largest chosen (perm.symm.subset inFound)
      have under := top _ (List.mem_map_of_mem headFound)
      rw [collected.scored c headFound, collected.scored chosen inFound] at above
      -- equal scores mean equal hashes, hence the same node
      have same : c.node = chosen.node :=
        steady.distinct _ _ (nameScore_injective _ _ _ (le_antisymm under above))
      rw [← same] at room ⊢
      exact granted_of_head d rt key c rest steady room ranked

end

theorem top_of_ranking {n : Nat} (rt : Runtime n) (d : Decision n) (key t : String)
    (first : (ranking rt d.start.w.nodes key).find?
      (fun name => decide (name ∈ d.candidates key)) = some t) :
    t ∈ d.candidates key ∧ ∀ name ∈ d.candidates key,
      nameScore (hashString key) name ≤ nameScore (hashString key) t := by
  have member : t ∈ d.candidates key := by
    simpa using List.find?_some first
  refine ⟨member, ?_⟩
  intro name inCandidates
  have ranked : name ∈ ranking rt d.start.w.nodes key := by
    apply (ranking_perm rt d.start.w.nodes key).symm.subset
    obtain ⟨c, _, rfl⟩ := List.mem_map.mp inCandidates
    exact (mem_names _ _).mpr ⟨c.node, rfl⟩
  obtain ⟨_, before, after, split, none⟩ := List.find?_eq_some_iff_append.mp first
  have sorted := ranking_descending rt d.start.w.nodes key
  rw [split] at ranked sorted
  rcases List.mem_append.mp ranked with early | late
  · have skipped := none name early
    simp [inCandidates] at skipped
  · exact Descending.head_largest (List.pairwise_append.mp sorted).2.1 name late

/-- Over fewer nodes, in any order and with any sort, the ranking is the old
one without the missing nodes; and two decisions with candidates `S' ⊆ S` both
grant the top of `S` when it is in `S'` and lightly loaded. -/
theorem rendezvous_stability {n m : Nat} (rt : Runtime n) (rt' : Runtime m) (key : String) :
    (∀ (nodes : Fin n → Node) (nodes' : Fin m → Node),
      DistinctHashes nodes → DistinctHashes nodes' →
      (∀ name ∈ names nodes', name ∈ names nodes) →
      ranking rt' nodes' key =
        (ranking rt nodes key).filter fun name => decide (name ∈ names nodes')) ∧
    (∀ (d : Decision n) (d' : Decision m) (t : String), d.Steady → d'.Steady →
      (∀ name ∈ d'.candidates key, name ∈ d.candidates key) →
      (ranking rt d.start.w.nodes key).find?
        (fun name => decide (name ∈ d.candidates key)) = some t →
      t ∈ d'.candidates key → d.HasRoom t → d'.HasRoom t →
      d.granted rt key = some t ∧ d'.granted rt' key = some t) := by
  refine ⟨?_, ?_⟩
  · intro nodes nodes' distinct distinct' subset
    exact ranking_of_subset rt rt' nodes nodes' key distinct distinct' subset
  · intro d d' t steady steady' subset first member' room room'
    obtain ⟨member, top⟩ := top_of_ranking rt d key t first
    refine ⟨granted_of_top d rt key t steady member top room, ?_⟩
    exact granted_of_top d' rt' key t steady' member'
      (fun name inSmaller => top name (subset name inSmaller)) room'

/-! Three nodes, then two of them in another order. -/

def plainNode (name : String) : Node where
  group := "g"
  role := ""
  name := name
  maxConcurrent := 4
  inflight := 0
  placed := 0
  up := true
  br := some (Breaker.new ⟨2, 1, 3, 10⟩)

def threeNodes : Fin 3 → Node
  | 0 => plainNode "n0"
  | 1 => plainNode "n1"
  | 2 => plainNode "n2"

def twoNodes : Fin 2 → Node
  | 0 => plainNode "n2"
  | 1 => plainNode "n1"

def decisionOver {n : Nat} (nodes : Fin n → Node) : Decision n where
  opts := ⟨5 / 4, 2, 0, 0, 8, 1, none⟩
  group := ""
  filter := entryPoint
  exclude := []
  hold := true
  start := ⟨⟨0, nodes, 0, 0, fun _ => none, [], 0, [], []⟩, [[.tick 7]]⟩

theorem decisionOver_steady {n : Nat} (nodes : Fin n → Node) (distinct : DistinctHashes nodes) :
    (decisionOver nodes).Steady where
  noPlacement := le_rfl
  quiet := by simp [Eval.Quiet, decisionOver, Interference.quiet]
  distinct := distinct

theorem threeNodes_distinct : DistinctHashes threeNodes := by
  unfold DistinctHashes
  decide +kernel

theorem twoNodes_distinct : DistinctHashes twoNodes := by
  unfold DistinctHashes
  decide +kernel

theorem twoNodes_keep_key :
    ranking (Runtime.exact 2) twoNodes "key" =
        (ranking (Runtime.exact 3) threeNodes "key").filter
          (fun name => decide (name ∈ names twoNodes)) ∧
      (decisionOver threeNodes).granted (Runtime.exact 3) "key" = some "n2" ∧
      (decisionOver twoNodes).granted (Runtime.exact 2) "key" = some "n2" := by
  have stability := rendezvous_stability (Runtime.exact 3) (Runtime.exact 2) "key"
  refine ⟨?_, ?_⟩
  · exact stability.1 threeNodes twoNodes threeNodes_distinct twoNodes_distinct (by decide)
  · refine stability.2 (decisionOver threeNodes) (decisionOver twoNodes) "n2"
      (decisionOver_steady _ threeNodes_distinct) (decisionOver_steady _ twoNodes_distinct)
      ?_ ?_ ?_ ?_ ?_
    · decide +kernel
    · decide +kernel
    · decide +kernel
    · unfold Decision.HasRoom
      decide +kernel
    · unfold Decision.HasRoom
      decide +kernel

end RadixGates.Router
