import RadixGates.Breaker.Observation
import RadixGates.Router.Steps

/-!
# Routing decisions under observation

Two states of the router that differ only in breakers whose cool-down is over:
in the second one somebody has looked at them and so promoted them.  Every part
of a routing decision, with everything that other goroutines do meanwhile, takes
such states to such states and gives the same answers in both.
-/

set_option autoImplicit false

namespace RadixGates.Router

open RadixGates.Breaker (Ahead)

section
variable {n : Nat}

def Interference.isObserve : Interference n → Bool
  | .observe _ => true
  | _ => false

def unwatched (steps : List (Interference n)) : List (Interference n) :=
  steps.filter fun step => !step.isObserve

/-! ## The same state but for the breakers -/

def World.withBreakers (w : World n) (f : Fin n → Option Breaker) : World n :=
  { w with nodes := fun i => { w.nodes i with br := f i } }

theorem withBreakers_setNode (w : World n) (f : Fin n → Option Breaker) (i : Fin n) (node : Node)
    (br : Option Breaker) :
    (w.withBreakers f).setNode i { node with br := br } =
      (w.setNode i node).withBreakers (Function.update f i br) := by
  simp only [World.withBreakers, World.setNode]
  congr 1
  funext j
  by_cases here : j = i
  · subst here
    simp
  · simp [here]

/-- A write to the node that leaves its breaker alone. -/
theorem withBreakers_setOther (w : World n) (f : Fin n → Option Breaker) (i : Fin n)
    (node : Node) :
    (w.withBreakers f).setNode i { node with br := f i } = (w.setNode i node).withBreakers f := by
  rw [withBreakers_setNode, Function.update_eq_self]

/-- The second state is the first one, except that breakers of it may have made
promotions that are due in the first. -/
def Watched (w v : World n) : Prop :=
  ∃ f, v = w.withBreakers f ∧ ∀ i, Option.Rel (Ahead w.clock) (w.nodes i).br (f i)

theorem ahead_option_refl (now : Int) (br : Option Breaker) : Option.Rel (Ahead now) br br := by
  cases br with
  | none => exact .none
  | some b => exact .some (Or.inl rfl)

theorem ahead_option_map {now : Int} {br br' : Option Breaker} {g h : Breaker → Breaker}
    (related : Option.Rel (Ahead now) br br') (later : Int)
    (kept : ∀ b c, Ahead now b c → Ahead later (g b) (h c)) :
    Option.Rel (Ahead later) (br.map g) (br'.map h) := by
  cases related with
  | none => exact .none
  | some ahead => exact .some (kept _ _ ahead)

theorem Watched.refl (w : World n) : Watched w w :=
  ⟨fun i => (w.nodes i).br, rfl, fun i => ahead_option_refl w.clock (w.nodes i).br⟩

/-- Both states get a node that differs from the old one in other fields. -/
theorem Watched.setOther {w v : World n} (watched : Watched w v) (i : Fin n)
    (g : Node → Node) (blind : ∀ node br, g { node with br := br } = { g node with br := br }) :
    Watched (w.setNode i (g (w.nodes i))) (v.setNode i (g (v.nodes i))) := by
  obtain ⟨f, rfl, ahead⟩ := watched
  refine ⟨f, ?_, ?_⟩
  · rw [← withBreakers_setOther]
    exact congrArg _ (blind (w.nodes i) (f i))
  · intro j
    rw [setNode_nodes]
    by_cases here : j = i
    · subst here
      have kept : (g (w.nodes j)).br = (w.nodes j).br := by
        have := blind (w.nodes j) (w.nodes j).br
        rw [this]
      rw [if_pos rfl, kept]
      exact ahead j
    · rw [if_neg here]
      exact ahead j

/-- Both states get a new breaker on the node. -/
theorem Watched.setBreaker {w v : World n} (watched : Watched w v) (i : Fin n)
    {br br' : Option Breaker} (related : Option.Rel (Ahead w.clock) br br') :
    Watched (w.setNode i { w.nodes i with br := br }) (v.setNode i { v.nodes i with br := br' }) := by
  obtain ⟨f, rfl, ahead⟩ := watched
  refine ⟨Function.update f i br', ?_, ?_⟩
  · rw [← withBreakers_setNode]
    rfl
  · intro j
    rw [setNode_nodes]
    by_cases here : j = i
    · subst here
      rw [if_pos rfl, Function.update_self]
      exact related
    · rw [if_neg here, Function.update_of_ne here]
      exact ahead j

/-- Fields other than the nodes change alike. -/
theorem Watched.setFields {w v : World n} (watched : Watched w v) (g : World n → World n)
    (clock : (g w).clock = w.clock) (nodes : (g w).nodes = w.nodes)
    (blind : ∀ f, g (w.withBreakers f) = (g w).withBreakers f) : Watched (g w) (g v) := by
  obtain ⟨f, rfl, ahead⟩ := watched
  refine ⟨f, blind f, ?_⟩
  intro i
  rw [clock, nodes]
  exact ahead i

theorem Watched.breaker {w v : World n} (watched : Watched w v) (i : Fin n) :
    Option.Rel (Ahead w.clock) (w.nodes i).br (v.nodes i).br := by
  obtain ⟨f, rfl, ahead⟩ := watched
  exact ahead i

theorem Watched.breaker_cases {w v : World n} (watched : Watched w v) (i : Fin n) :
    ((w.nodes i).br = none ∧ (v.nodes i).br = none) ∨
      ∃ b c, (w.nodes i).br = some b ∧ (v.nodes i).br = some c ∧ Ahead w.clock b c := by
  have related := watched.breaker i
  generalize (w.nodes i).br = br at related
  generalize (v.nodes i).br = br' at related
  cases related with
  | none => exact Or.inl ⟨rfl, rfl⟩
  | some ahead => exact Or.inr ⟨_, _, rfl, rfl, ahead⟩

theorem Watched.node {w v : World n} (watched : Watched w v) (i : Fin n) :
    v.nodes i = { w.nodes i with br := (v.nodes i).br } := by
  obtain ⟨f, rfl, _⟩ := watched
  rfl

theorem Watched.fields {w v : World n} (watched : Watched w v) :
    v = { w with nodes := v.nodes } := by
  obtain ⟨f, rfl, _⟩ := watched
  rfl

/-! ## Steps without the router lock -/

theorem Watched.observe {w v : World n} (watched : Watched w v) (i : Fin n) :
    Watched w (Interference.apply v (.observe i)) := by
  have clock : v.clock = w.clock := by rw [watched.fields]
  have related : Option.Rel (Ahead w.clock) (w.nodes i).br
      ((v.nodes i).br.map fun b => b.advanceLocked v.clock) := by
    have promoted := ahead_option_map (g := id) (h := fun b => b.advanceLocked v.clock)
      (watched.breaker i) w.clock fun b c ahead => by
        rw [clock, ahead.advanceLocked]
        exact Breaker.ahead_advanceLocked b w.clock
    simpa using promoted
  have written := watched.setBreaker i related
  have same : w.setNode i { w.nodes i with br := (w.nodes i).br } = w := by
    simp [World.setNode]
  rwa [same] at written

theorem Watched.report {w v : World n} (watched : Watched w v) (index : Nat)
    (verdict : Option Bool) : Watched (w.report index verdict) (v.report index verdict) := by
  have clock : v.clock = w.clock := by rw [watched.fields]
  have leases : v.leases = w.leases := by rw [watched.fields]
  have sameLease : v.leases[index]? = w.leases[index]? := by rw [leases]
  unfold World.report
  rw [sameLease]
  cases w.leases[index]? with
  | none => exact watched
  | some lease =>
      dsimp only
      by_cases out : lease.phase = .granted
      · rw [if_pos out, if_pos out]
        have related : Option.Rel (Ahead w.clock)
            ((w.nodes lease.node).br.map fun b => reportTo b w.clock lease.ticket verdict)
            ((v.nodes lease.node).br.map fun b => reportTo b v.clock lease.ticket verdict) := by
          rw [clock]
          refine ahead_option_map (watched.breaker lease.node) w.clock ?_
          intro b c ahead
          cases verdict with
          | none => exact (ahead.perform (.cancel lease.ticket)).1
          | some success => exact (ahead.perform (.done lease.ticket success)).1
        exact (watched.setBreaker lease.node related).setFields
          (fun w => { w with leases := w.leases.set index { lease with phase := .reported } })
          rfl rfl (fun _ => rfl)
      · rw [if_neg out, if_neg out]
        exact watched

theorem Watched.interference {w v : World n} (watched : Watched w v) (step : Interference n)
    (seen : step.isObserve = false) : Watched (step.apply w) (step.apply v) := by
  cases step with
  | tick elapsed =>
      obtain ⟨f, rfl, ahead⟩ := watched
      refine ⟨f, rfl, fun i => ?_⟩
      have forward : w.clock ≤ w.clock + elapsed := by omega
      have later := ahead_option_map (g := id) (h := id) (ahead i) (w.clock + elapsed)
        fun b c ahead => ahead.later forward
      simpa [Interference.apply] using later
  | setUp i up => exact watched.setOther i (fun node => { node with up := up }) fun _ _ => rfl
  | observe i => cases seen
  | report lease verdict => exact watched.report lease verdict

theorem Watched.foldl {w v : World n} (watched : Watched w v) (steps : List (Interference n)) :
    Watched ((unwatched steps).foldl Interference.apply w) (steps.foldl Interference.apply v) := by
  induction steps generalizing w v with
  | nil => exact watched
  | cons step rest ih =>
      cases seen : step.isObserve with
      | true =>
          have skipped : unwatched (step :: rest) = unwatched rest := by simp [unwatched, seen]
          rw [skipped]
          apply ih
          cases step with
          | observe i => exact watched.observe i
          | tick | setUp | report => cases seen
      | false =>
          have kept : unwatched (step :: rest) = step :: unwatched rest := by
            simp [unwatched, seen]
          rw [kept]
          exact ih (watched.interference step seen)

/-! ## A decision -/

/-- The same decision in progress, in the second case with observers around. -/
structure Eval.Watched (e d : Eval n) : Prop where
  world : Router.Watched e.w d.w
  schedule : e.schedule = d.schedule.map unwatched

theorem Eval.Watched.yield {e d : Eval n} (watched : e.Watched d) : e.yield.Watched d.yield := by
  have schedule := watched.schedule
  unfold Eval.yield
  cases scheduled : d.schedule with
  | nil =>
      rw [scheduled] at schedule
      simp only [List.map_nil] at schedule
      rw [schedule]
      exact watched
  | cons steps rest =>
      rw [scheduled] at schedule
      simp only [List.map_cons] at schedule
      rw [schedule]
      exact ⟨watched.world.foldl steps, rfl⟩

theorem Eval.Watched.setBreaker {e d : Eval n} (watched : e.Watched d) (i : Fin n)
    {b c : Breaker} (ahead : Ahead e.w.clock b c) :
    (e.setBreaker i b).Watched (d.setBreaker i c) :=
  ⟨watched.world.setBreaker i (.some ahead), watched.schedule⟩

theorem Eval.Watched.clock {e d : Eval n} (watched : e.Watched d) : d.w.clock = e.w.clock := by
  rw [watched.world.fields]

theorem Eval.Watched.up {e d : Eval n} (watched : e.Watched d) (i : Fin n) :
    (d.w.nodes i).up = (e.w.nodes i).up := by
  rw [watched.world.node i]

theorem Eval.Watched.available {e d : Eval n} (watched : e.Watched d) (i : Fin n) :
    (e.available i).1.Watched (d.available i).1 ∧ (d.available i).2 = (e.available i).2 := by
  have first := watched.yield
  have second := first.yield
  unfold Eval.available
  dsimp only
  rw [first.up i]
  split
  · rw [second.clock]
    rcases second.world.breaker_cases i with ⟨left, right⟩ | ⟨b, c, left, right, ahead⟩
    · rw [left, right]
      exact ⟨second, rfl⟩
    · rw [left, right]
      obtain ⟨after, answer⟩ := ahead.perform .available
      simp only [Breaker.perform, Breaker.Answer.available.injEq] at after answer
      exact ⟨second.setBreaker i after, answer⟩
  · exact ⟨first, rfl⟩

theorem Eval.Watched.allow {e d : Eval n} (watched : e.Watched d) (i : Fin n) :
    (e.allow i).1.Watched (d.allow i).1 ∧ (d.allow i).2 = (e.allow i).2 := by
  have waited := watched.yield
  unfold Eval.allow
  dsimp only
  rw [waited.clock]
  rcases waited.world.breaker_cases i with ⟨left, right⟩ | ⟨b, c, left, right, ahead⟩
  · rw [left, right]
    exact ⟨waited, rfl⟩
  · rw [left, right]
    obtain ⟨after, answer⟩ := ahead.perform .allow
    simp only [Breaker.perform, Breaker.Answer.ticket.injEq] at after answer
    exact ⟨waited.setBreaker i after, answer⟩

/-- A filter that does not look at the breaker. -/
def BreakerBlind (filter : Node → Bool) : Prop :=
  ∀ node br, filter { node with br := br } = filter node

theorem entryPoint_breakerBlind : BreakerBlind entryPoint := fun _ _ => rfl

theorem Eval.Watched.collect (kh : UInt64) (group : String) (filter : Node → Bool)
    (blind : BreakerBlind filter) (exclude : List String) (nodes : List (Fin n)) {e d : Eval n}
    (watched : e.Watched d) :
    (Router.collect kh group filter exclude nodes e).1.Watched
        (Router.collect kh group filter exclude nodes d).1 ∧
      (Router.collect kh group filter exclude nodes d).2 =
        (Router.collect kh group filter exclude nodes e).2 := by
  induction nodes generalizing e d with
  | nil => exact ⟨watched, rfl⟩
  | cons i rest ih =>
      obtain ⟨asked, answer⟩ := watched.available i
      have sameNode := watched.world.node i
      have sameFilter : filter (d.w.nodes i) = filter (e.w.nodes i) := by
        rw [sameNode]
        exact blind _ _
      have sameLoad : ((d.available i).1.w.nodes i).inflight =
          ((e.available i).1.w.nodes i).inflight := by
        rw [asked.world.node i]
      have sameGroup : (d.w.nodes i).group = (e.w.nodes i).group := by rw [sameNode]
      have sameName : (d.w.nodes i).name = (e.w.nodes i).name := by rw [sameNode]
      have sameHash : (d.w.nodes i).nameHash = (e.w.nodes i).nameHash := by rw [sameNode]; rfl
      simp only [Router.collect, sameFilter, sameGroup, sameName, sameHash, answer, sameLoad]
      split_ifs
      · exact ih watched
      · exact ih watched
      · exact ih watched
      · obtain ⟨later, found⟩ := ih asked
        exact ⟨later, by rw [found]⟩
      · exact ih asked

/-! ### Placement -/

theorem Watched.addPlaced {w v : World n} (watched : Watched w v) (i : Fin n) (delta : Int) :
    Watched (w.addPlaced i delta) (v.addPlaced i delta) :=
  watched.setOther i (fun node => { node with placed := node.placed + delta }) fun _ _ => rfl

theorem Watched.evict {w v : World n} (watched : Watched w v) (size : Int) (fuel : Nat) :
    Watched (World.evict size fuel w) (World.evict size fuel v) := by
  induction fuel generalizing w v with
  | zero => exact watched
  | succ fuel ih =>
      have lru : v.placeLRU = w.placeLRU := by rw [watched.fields]
      have map : v.placeMap = w.placeMap := by rw [watched.fields]
      simp only [World.evict, lru, map]
      split
      · cases w.placeLRU.getLast? with
        | none => exact watched
        | some last =>
            apply ih
            exact (watched.addPlaced last.node (-1)).setFields
              (fun u => { u with
                placeMap := Function.update w.placeMap last.key none
                placeLRU := w.placeLRU.dropLast }) rfl rfl fun _ => rfl
      · exact watched

theorem Watched.movePlacement {w v : World n} (watched : Watched w v) (p : Placement n)
    (i : Fin n) : Watched (w.movePlacement p i) (v.movePlacement p i) := by
  have lru : v.placeLRU = w.placeLRU := by rw [watched.fields]
  simp only [World.movePlacement, lru]
  exact ((watched.addPlaced p.node (-1)).addPlaced i 1).setFields
    (fun u => { u with
      placeLRU := w.placeLRU.map fun q => if q.id = p.id then { q with node := i } else q })
    rfl rfl fun _ => rfl

theorem Watched.touchPlacement {w v : World n} (watched : Watched w v) (p : Placement n) :
    Watched (w.touchPlacement p) (v.touchPlacement p) :=
  watched.setFields (fun u => u.touchPlacement p) rfl rfl fun _ => rfl

theorem Watched.pushPlacement {w v : World n} (watched : Watched w v) (key : UInt64)
    (i : Fin n) : Watched (w.pushPlacement key i) (v.pushPlacement key i) := by
  have next : v.nextElement = w.nextElement := by rw [watched.fields]
  have lru : v.placeLRU = w.placeLRU := by rw [watched.fields]
  have map : v.placeMap = w.placeMap := by rw [watched.fields]
  simp only [World.pushPlacement, next, lru, map]
  exact (watched.addPlaced i 1).setFields
    (fun u => { u with
      placeMap := Function.update w.placeMap key (some w.nextElement)
      placeLRU := ⟨w.nextElement, key, i⟩ :: w.placeLRU
      nextElement := w.nextElement + 1 }) rfl rfl fun _ => rfl

theorem Watched.findPlacement {w v : World n} (watched : Watched w v) (key : UInt64) :
    v.findPlacement key = w.findPlacement key := by
  rw [watched.fields]
  rfl

theorem Watched.setPlacementLocked {w v : World n} (watched : Watched w v) (size : Int)
    (key : UInt64) (i : Fin n) :
    Watched (w.setPlacementLocked size key i) (v.setPlacementLocked size key i) := by
  have lru : v.placeLRU = w.placeLRU := by rw [watched.fields]
  unfold World.setPlacementLocked
  rw [watched.findPlacement key, lru]
  cases w.findPlacement key with
  | none => exact (watched.pushPlacement key i).evict size _
  | some p =>
      dsimp only
      split
      · exact (watched.movePlacement p i).touchPlacement p
      · exact watched.touchPlacement p

/-- The choice among the candidates reads counters only. -/
theorem Watched.leastPlaced {w v : World n} (watched : Watched w v) (cands : List (Scored n)) :
    leastPlaced v.nodes cands = leastPlaced w.nodes cands := by
  obtain ⟨f, rfl, _⟩ := watched
  rfl

theorem Eval.Watched.placeOnLeast {e d : Eval n} (watched : e.Watched d) (size : Int)
    (key : UInt64) (cands : List (Scored n)) :
    (Router.placeOnLeast size key cands e).1.Watched (Router.placeOnLeast size key cands d).1 ∧
      (Router.placeOnLeast size key cands d).2 = (Router.placeOnLeast size key cands e).2 := by
  simp only [Router.placeOnLeast, watched.world.leastPlaced cands]
  cases cands[Router.leastPlaced e.w.nodes cands]? with
  | none => exact ⟨watched, rfl⟩
  | some c => exact ⟨⟨watched.world.setPlacementLocked size key c.node, watched.schedule⟩, rfl⟩

theorem Eval.Watched.placeLocked {e d : Eval n} (watched : e.Watched d) (size : Int)
    (key : UInt64) (cands : List (Scored n)) (exclude : List String) :
    (Router.placeLocked size key cands exclude e).1.Watched
        (Router.placeLocked size key cands exclude d).1 ∧
      (Router.placeLocked size key cands exclude d).2 =
        (Router.placeLocked size key cands exclude e).2 := by
  unfold Router.placeLocked
  rw [watched.world.findPlacement key]
  cases e.w.findPlacement key with
  | none => exact watched.placeOnLeast size key cands
  | some p =>
      dsimp only
      cases cands.findIdx? fun c => c.node = p.node with
      | some i => exact ⟨⟨watched.world.touchPlacement p, watched.schedule⟩, rfl⟩
      | none =>
          have sameName : (d.w.nodes p.node).name = (e.w.nodes p.node).name := by
            rw [watched.world.node p.node]
          obtain ⟨asked, answer⟩ := watched.available p.node
          dsimp only
          rw [sameName, answer, asked.world.leastPlaced cands]
          split_ifs
          · exact ⟨asked, rfl⟩
          · exact asked.placeOnLeast size key cands
          · exact watched.placeOnLeast size key cands

theorem Eval.Watched.rankAndPlace {e d : Eval n} (watched : e.Watched d) (rt : Runtime n)
    (opts : Options) (kh : UInt64) (group : String) (exclude : List String)
    (found : List (Scored n) × Int) :
    (Router.rankAndPlace rt opts kh group exclude (e, found)).1.Watched
        (Router.rankAndPlace rt opts kh group exclude (d, found)).1 ∧
      (Router.rankAndPlace rt opts kh group exclude (d, found)).2 =
        (Router.rankAndPlace rt opts kh group exclude (e, found)).2 := by
  simp only [Router.rankAndPlace]
  split
  · obtain ⟨placed, chosen⟩ := watched.placeLocked opts.placementSize
      (mix64 (kh ^^^ hashString group)) (rt.sort.run (fun c => c.s.toNat) found.1) exclude
    exact ⟨placed, by rw [chosen]⟩
  · exact ⟨watched, rfl⟩

/-! ### Leases -/

theorem Eval.Watched.tryLeaseLocked {e d : Eval n} (watched : e.Watched d) (i : Fin n) :
    (Router.tryLeaseLocked e i).1.Watched (Router.tryLeaseLocked d i).1 ∧
      (Router.tryLeaseLocked d i).2 = (Router.tryLeaseLocked e i).2 := by
  obtain ⟨asked, answer⟩ := watched.allow i
  have leases : (d.allow i).1.w.leases = (e.allow i).1.w.leases := by rw [asked.world.fields]
  simp only [Router.tryLeaseLocked, answer, leases]
  cases (e.allow i).2 with
  | none => exact ⟨asked, rfl⟩
  | some t =>
      refine ⟨⟨?_, asked.schedule⟩, rfl⟩
      have taken := (asked.world.setOther i (fun node => { node with inflight := node.inflight + 1 })
        fun _ _ => rfl).setFields (fun u => { u with leases := u.leases ++ [⟨i, t, .granted⟩] })
        rfl rfl fun _ => rfl
      exact taken

theorem Eval.Watched.offer (limit : Int) (hold : Bool) (cands : List (Scored n))
    (first denied : Bool) {e d : Eval n} (watched : e.Watched d) :
    (Router.offer limit hold first denied cands e).1.Watched
        (Router.offer limit hold first denied cands d).1 ∧
      (Router.offer limit hold first denied cands d).2 =
        (Router.offer limit hold first denied cands e).2 := by
  induction cands generalizing first denied e d with
  | nil => exact ⟨watched, rfl⟩
  | cons c rest ih =>
      have sameLoad : (d.w.nodes c.node).inflight = (e.w.nodes c.node).inflight := by
        rw [watched.world.node c.node]
      have sameLimit : (d.w.nodes c.node).maxConcurrent = (e.w.nodes c.node).maxConcurrent := by
        rw [watched.world.node c.node]
      obtain ⟨tried, answer⟩ := watched.tryLeaseLocked c.node
      simp only [Router.offer, sameLoad, sameLimit, answer]
      split_ifs
      · cases (Router.tryLeaseLocked e c.node).2 with
        | some lease => exact ⟨tried, rfl⟩
        | none => exact ih false true tried
      · exact ⟨watched, rfl⟩
      · exact ih false denied watched

theorem Watched.leastLoaded {w v : World n} (watched : Watched w v) (cands : List (Scored n)) :
    leastLoaded v.nodes cands = leastLoaded w.nodes cands := by
  obtain ⟨f, rfl, _⟩ := watched
  rfl

theorem Eval.Watched.spill {e d : Eval n} (watched : e.Watched d) (cands : List (Scored n))
    (denied : Bool) :
    (Router.spill cands denied e).1.Watched (Router.spill cands denied d).1 ∧
      (Router.spill cands denied d).2 = (Router.spill cands denied e).2 := by
  simp only [Router.spill, watched.world.leastLoaded cands]
  cases Router.leastLoaded e.w.nodes cands with
  | none => exact ⟨watched, rfl⟩
  | some best =>
      obtain ⟨tried, answer⟩ := watched.tryLeaseLocked best
      dsimp only
      rw [answer]
      cases (Router.tryLeaseLocked e best).2 <;> exact ⟨tried, rfl⟩

theorem Eval.Watched.settle {e d : Eval n} (watched : e.Watched d) (limit : Int) (hold : Bool)
    (cands : List (Scored n)) :
    (Router.settle limit hold cands e).1.Watched (Router.settle limit hold cands d).1 ∧
      (Router.settle limit hold cands d).2 = (Router.settle limit hold cands e).2 := by
  obtain ⟨offered, answer⟩ := Eval.Watched.offer limit hold cands true false watched
  simp only [Router.settle, answer]
  cases (Router.offer limit hold true false cands e).2 with
  | inl pick => exact ⟨offered, rfl⟩
  | inr denied => exact offered.spill cands denied

theorem Eval.Watched.tryPickLocked {e d : Eval n} (watched : e.Watched d) (rt : Runtime n)
    (opts : Options) (kh : UInt64) (group : String) (filter : Node → Bool)
    (blind : BreakerBlind filter) (exclude : List String) (hold : Bool) :
    (Router.tryPickLocked rt opts kh group filter exclude hold e).1.Watched
        (Router.tryPickLocked rt opts kh group filter exclude hold d).1 ∧
      (Router.tryPickLocked rt opts kh group filter exclude hold d).2 =
        (Router.tryPickLocked rt opts kh group filter exclude hold e).2 := by
  obtain ⟨gathered, found⟩ :=
    Eval.Watched.collect kh group filter blind exclude (List.finRange n) watched
  rw [tryPickLocked_eq, tryPickLocked_eq]
  generalize Router.collect kh group filter exclude (List.finRange n) e = left at gathered found
  generalize Router.collect kh group filter exclude (List.finRange n) d = right at gathered found
  obtain ⟨e', scored⟩ := left
  obtain ⟨d', other⟩ := right
  cases found
  dsimp only at gathered ⊢
  split
  · exact ⟨gathered, rfl⟩
  · obtain ⟨placed, ranked⟩ := gathered.rankAndPlace rt opts kh group exclude scored
    rw [ranked]
    exact placed.settle _ hold _

/-! ## A pass of `Acquire` -/

theorem Watched.setCall {w v : World n} (watched : Watched w v) (index : Nat) (call : Call) :
    Watched (w.setCall index call) (v.setCall index call) :=
  watched.setFields (fun u => u.setCall index call) rfl rfl fun _ => rfl

theorem Watched.dequeue {w v : World n} (watched : Watched w v) (call : Call) :
    Watched (w.dequeue call) (v.dequeue call) := by
  unfold World.dequeue
  split
  · exact watched.setFields (fun u => { u with waiting := u.waiting - 1 }) rfl rfl fun _ => rfl
  · exact watched

theorem Watched.evaluate {w v : World n} (watched : Watched w v) (rt : Runtime n)
    (opts : Options) (index : Nat) (call : Call)
    (blind : BreakerBlind (call.request.filter.getD entryPoint))
    (schedule : List (List (Interference n))) :
    Watched (w.evaluate rt opts index call (schedule.map unwatched))
      (v.evaluate rt opts index call schedule) := by
  have started : (⟨w, schedule.map unwatched⟩ : Eval n).Watched ⟨v, schedule⟩ := ⟨watched, rfl⟩
  obtain ⟨decided, picked⟩ := started.tryPickLocked rt opts (hashString call.request.prefixHash)
    call.request.targetGroup _ blind call.request.exclude call.hold
  simp only [World.evaluate]
  rw [picked]
  generalize Router.tryPickLocked rt opts _ _ _ _ _ ⟨w, schedule.map unwatched⟩ = left at *
  generalize Router.tryPickLocked rt opts _ _ _ _ _ ⟨v, schedule⟩ = right at *
  have waits : ∀ busy : Bool,
      Watched
        (if call.queued = false ∧ opts.maxQueue ≤ left.1.w.waiting then
          left.1.w.setCall index { call with pc := .returned (.error .queueFull) }
        else
          (left.1.w.enqueue call).setCall index
            { call with
              queued := true
              affinity := call.affinity || busy
              pc := .blocked (left.1.w.enqueue call).notify })
        (if call.queued = false ∧ opts.maxQueue ≤ right.1.w.waiting then
          right.1.w.setCall index { call with pc := .returned (.error .queueFull) }
        else
          (right.1.w.enqueue call).setCall index
            { call with
              queued := true
              affinity := call.affinity || busy
              pc := .blocked (right.1.w.enqueue call).notify }) := by
    intro busy
    have joined : Watched (left.1.w.enqueue call) (right.1.w.enqueue call) := by
      unfold World.enqueue
      split
      · exact decided.world
      · exact decided.world.setFields (fun u => { u with waiting := u.waiting + 1 }) rfl rfl
          fun _ => rfl
    have channel : (right.1.w.enqueue call).notify = (left.1.w.enqueue call).notify := by
      rw [joined.fields]
    have waiting : right.1.w.waiting = left.1.w.waiting := by rw [decided.world.fields]
    rw [channel]
    by_cases full : call.queued = false ∧ opts.maxQueue ≤ left.1.w.waiting
    · rw [if_pos full, if_pos (waiting ▸ full)]
      exact decided.world.setCall index _
    · rw [if_neg full, if_neg (waiting ▸ full)]
      exact joined.setCall index _
  cases left.2 with
  | granted lease => exact (decided.world.dequeue call).setCall index _
  | noNode => exact (decided.world.dequeue call).setCall index _
  | atCapacity => exact waits false
  | preferredBusy => exact waits true

end

end RadixGates.Router
