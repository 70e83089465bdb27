import Mathlib.Data.List.Infix
import RadixGates.Router.Steps

/-!
# Active health checks

Model of `gateway-go/router/health.go`.  `ProbeAll` starts one goroutine a
node and waits for all of them.  A goroutine probes its node, counts the
result under the mutex, gives the mutex up and only then writes the node's
flag, so a round is a sequence of such steps in any order.  The map of
counters is shared by the rounds.
-/

set_option autoImplicit false

namespace RadixGates.Router

structure HealthOptions where
  unhealthyThreshold : Int
  healthyThreshold : Int
  deriving DecidableEq, Repr

structure ProbeState where
  fails : Int
  oks : Int
  deriving DecidableEq, Repr

/-- What the HTTP client brings back from a probe. -/
inductive Exchange where
  | failed
  | answered (statusCode : Int)
  deriving DecidableEq, Repr

def probe : Exchange → Bool
  | .failed => false
  | .answered statusCode => decide (200 ≤ statusCode ∧ statusCode < 300)

def ProbeState.count (ps : ProbeState) (ok : Bool) : ProbeState :=
  if ok then { oks := ps.oks + 1, fails := 0 } else { fails := ps.fails + 1, oks := 0 }

/-- The flag the goroutine is going to write, if any. -/
def ProbeState.verdict (h : HealthOptions) (ps : ProbeState) (ok : Bool) : Option Bool :=
  if ok ∧ h.healthyThreshold ≤ ps.oks then some true
  else if !ok ∧ h.unhealthyThreshold ≤ ps.fails then some false
  else none

/-- Where the goroutine of a node is; without a round all are done. -/
inductive ProbePhase where
  | probing
  | marking (verdict : Option Bool)
  | done
  deriving DecidableEq, Repr

structure Monitor (n : Nat) where
  w : World n
  state : String → Option ProbeState
  probes : Fin n → ProbePhase

inductive ProbeAction (n : Nat) where
  /-- `ProbeAll` is called; the call before it has returned from `wg.Wait`. -/
  | round
  /-- The context ended while the node was probed. -/
  | aborted (i : Fin n)
  /-- The critical section after the probe. -/
  | counted (i : Fin n) (exchange : Exchange)
  /-- The `switch` that marks the node. -/
  | marked (i : Fin n)
  deriving DecidableEq, Repr

section
variable {n : Nat}

/-- Before the first round, with the map `NewProbeState` returns. -/
def Monitor.new (w : World n) : Monitor n where
  w := w
  state := fun _ => none
  probes := fun _ => .done

def World.mark (w : World n) (i : Fin n) : Option Bool → World n
  | some v => (Interference.setUp i v).apply w
  | none => w

def Monitor.count (h : HealthOptions) (m : Monitor n) (i : Fin n) (ok : Bool) : Monitor n :=
  let name := (m.w.nodes i).name
  let ps := ((m.state name).getD ⟨0, 0⟩).count ok
  { m with
    state := Function.update m.state name (some ps)
    probes := Function.update m.probes i (.marking (ps.verdict h ok)) }

def Monitor.step (h : HealthOptions) (m : Monitor n) : ProbeAction n → Option (Monitor n)
  | .round =>
      if ∀ i, m.probes i = .done then some { m with probes := fun _ => .probing } else none
  | .aborted i =>
      if m.probes i = .probing then some { m with probes := Function.update m.probes i .done }
      else none
  | .counted i exchange =>
      if m.probes i = .probing then some (m.count h i (probe exchange)) else none
  | .marked i =>
      match m.probes i with
      | .marking verdict =>
          some { m with
            w := m.w.mark i verdict
            probes := Function.update m.probes i .done }
      | _ => none

/-! ## The flag as a function of the results -/

def ProbeAction.result (i : Fin n) : ProbeAction n → Option Bool
  | .counted j exchange => if j = i then some (probe exchange) else none
  | _ => none

/-- The results of a node that were not aborted, the latest one first. -/
def results (i : Fin n) (actions : List (ProbeAction n)) : List Bool :=
  (actions.filterMap (ProbeAction.result i)).reverse

/-- The flag after these results, the latest one first: down once the last
`unhealthy` of them are failures, up once the last `healthy` are successes. -/
def upAfter (unhealthy healthy : Nat) : List Bool → Bool
  | [] => true
  | latest :: older =>
      if List.replicate unhealthy false <+: latest :: older then false
      else if List.replicate healthy true <+: latest :: older then true
      else upAfter unhealthy healthy older

/-- How many of the latest results in a row are this one. -/
def streak (v : Bool) (history : List Bool) : Nat := (history.takeWhile fun r => r == v).length

/-- The counters of a node with these results; a node without one has none. -/
def tally : List Bool → Option ProbeState
  | [] => none
  | latest :: older =>
      some ⟨(streak false (latest :: older) : Nat), (streak true (latest :: older) : Nat)⟩

theorem replicate_isPrefix_iff (v : Bool) (k : Nat) (history : List Bool) :
    List.replicate k v <+: history ↔ k ≤ streak v history := by
  induction history generalizing k with
  | nil => simp [streak]
  | cons latest older ih =>
      cases k with
      | zero => simp
      | succ k =>
          rw [List.replicate_succ, List.cons_prefix_cons, ih]
          by_cases same : latest = v
          · simp [streak, same]
          · simp [streak, same, Ne.symm same]

theorem streak_cons_self (v : Bool) (older : List Bool) :
    streak v (v :: older) = streak v older + 1 := by
  simp [streak]

theorem streak_cons_not (v : Bool) (older : List Bool) : streak v ((!v) :: older) = 0 := by
  simp [streak]

theorem count_tally (older : List Bool) (ok : Bool) :
    tally (ok :: older) = some (((tally older).getD ⟨0, 0⟩).count ok) := by
  cases ok with
  | true =>
      have reset := streak_cons_not false older
      have grown := streak_cons_self true older
      cases older with
      | nil => simp [tally, ProbeState.count, streak]
      | cons => simp_all [tally, ProbeState.count]
  | false =>
      have reset := streak_cons_not true older
      have grown := streak_cons_self false older
      cases older with
      | nil => simp [tally, ProbeState.count, streak]
      | cons => simp_all [tally, ProbeState.count]

/-- What the counters say is what the results say. -/
theorem verdict_tally (h : HealthOptions) (unhealthy : 1 ≤ h.unhealthyThreshold)
    (healthy : 1 ≤ h.healthyThreshold) (ok : Bool) (older : List Bool) :
    ((((tally older).getD ⟨0, 0⟩).count ok).verdict h ok).getD
        (upAfter h.unhealthyThreshold.toNat h.healthyThreshold.toNat older) =
      upAfter h.unhealthyThreshold.toNat h.healthyThreshold.toNat (ok :: older) := by
  have counted : (⟨(streak false (ok :: older) : Nat), (streak true (ok :: older) : Nat)⟩ :
      ProbeState) = ((tally older).getD ⟨0, 0⟩).count ok := Option.some.inj (count_tally older ok)
  rw [← counted]
  simp only [upAfter, replicate_isPrefix_iff, ProbeState.verdict]
  cases ok with
  | true =>
      have none : streak false (true :: older) = 0 := streak_cons_not false older
      have few : ¬ h.unhealthyThreshold.toNat ≤ 0 := by omega
      simp only [none, few, Int.toNat_le, Bool.not_true, Bool.false_eq_true, if_false, true_and,
        false_and]
      split <;> rfl
  | false =>
      have none : streak true (false :: older) = 0 := streak_cons_not true older
      have few : ¬ h.healthyThreshold.toNat ≤ 0 := by omega
      simp only [none, few, Int.toNat_le, Bool.not_false, Bool.false_eq_true, if_false, true_and,
        false_and]
      split <;> rfl

/-! ## One step -/

/-- The flag the node will have once its goroutine has run to its end. -/
def Monitor.settled (m : Monitor n) (i : Fin n) : Bool :=
  match m.probes i with
  | .marking verdict => verdict.getD (m.w.nodes i).up
  | _ => (m.w.nodes i).up

/-- The counters and flags of all nodes are those of their results so far. -/
structure Monitor.Follows (h : HealthOptions) (history : Fin n → List Bool) (m : Monitor n) :
    Prop where
  distinct : Function.Injective fun i => (m.w.nodes i).name
  counters : ∀ i, m.state (m.w.nodes i).name = tally (history i)
  flags : ∀ i, m.settled i =
    upAfter h.unhealthyThreshold.toNat h.healthyThreshold.toNat (history i)

theorem mark_name (w : World n) (i j : Fin n) (verdict : Option Bool) :
    ((w.mark i verdict).nodes j).name = (w.nodes j).name := by
  cases verdict with
  | none => rfl
  | some v => exact (Unlocked.interference w (.setUp i v)).ungranted.sameIdentity.name j

theorem mark_up_self (w : World n) (i : Fin n) (verdict : Option Bool) :
    ((w.mark i verdict).nodes i).up = verdict.getD (w.nodes i).up := by
  cases verdict with
  | none => rfl
  | some v => simp [World.mark, Interference.apply]

theorem mark_up_other (w : World n) (i j : Fin n) (verdict : Option Bool) (other : j ≠ i) :
    ((w.mark i verdict).nodes j).up = (w.nodes j).up := by
  cases verdict with
  | none => rfl
  | some v => simp [World.mark, Interference.apply, setNode_nodes, other]

theorem Monitor.Follows.count {h : HealthOptions} {history : Fin n → List Bool} {m : Monitor n}
    (unhealthy : 1 ≤ h.unhealthyThreshold) (healthy : 1 ≤ h.healthyThreshold)
    (follows : m.Follows h history) (i : Fin n) (ok : Bool) (probing : m.probes i = .probing) :
    (m.count h i ok).Follows h (Function.update history i (ok :: history i)) where
  distinct := follows.distinct
  counters j := by
    simp only [Monitor.count]
    by_cases here : j = i
    · subst here
      rw [Function.update_self, Function.update_self, follows.counters j, count_tally]
    · have apart : (m.w.nodes j).name ≠ (m.w.nodes i).name := fun same =>
        here (follows.distinct same)
      rw [Function.update_of_ne apart, Function.update_of_ne here]
      exact follows.counters j
  flags j := by
    have before := follows.flags j
    simp only [Monitor.settled, Monitor.count] at before ⊢
    by_cases here : j = i
    · subst here
      rw [probing] at before
      rw [Function.update_self, Function.update_self, follows.counters j, ← verdict_tally h
        unhealthy healthy ok (history j), ← before]
    · rw [Function.update_of_ne here, Function.update_of_ne here]
      exact before

theorem Monitor.Follows.mark {h : HealthOptions} {history : Fin n → List Bool} {m : Monitor n}
    (follows : m.Follows h history) (i : Fin n) (verdict : Option Bool)
    (marking : m.probes i = .marking verdict) :
    Monitor.Follows h history
      { m with
        w := m.w.mark i verdict
        probes := Function.update m.probes i .done } where
  distinct := by
    intro j k same
    simp only [mark_name] at same
    exact follows.distinct same
  counters j := by
    rw [mark_name]
    exact follows.counters j
  flags j := by
    have before := follows.flags j
    simp only [Monitor.settled] at before ⊢
    by_cases here : j = i
    · subst here
      rw [marking] at before
      rw [Function.update_self, mark_up_self]
      exact before
    · rw [Function.update_of_ne here, mark_up_other _ _ _ _ here]
      exact before

/-- A goroutine that has no flag to write may be started or stopped. -/
theorem Monitor.Follows.rephase {h : HealthOptions} {history : Fin n → List Bool} {m : Monitor n}
    (follows : m.Follows h history) (probes : Fin n → ProbePhase)
    (idle : ∀ i, probes i = m.probes i ∨
      (∀ verdict, probes i ≠ .marking verdict) ∧ ∀ verdict, m.probes i ≠ .marking verdict) :
    Monitor.Follows h history { m with probes := probes } where
  distinct := follows.distinct
  counters := follows.counters
  flags i := by
    have before := follows.flags i
    simp only [Monitor.settled] at before ⊢
    rcases idle i with same | ⟨after, earlier⟩
    · rw [same]
      exact before
    · cases now : probes i with
      | marking verdict => exact absurd now (after verdict)
      | probing | done =>
          cases was : m.probes i with
          | marking verdict => exact absurd was (earlier verdict)
          | probing | done =>
              rw [was] at before
              exact before

theorem Monitor.Follows.step {h : HealthOptions} {history : Fin n → List Bool} {m next : Monitor n}
    (unhealthy : 1 ≤ h.unhealthyThreshold) (healthy : 1 ≤ h.healthyThreshold)
    (follows : m.Follows h history) (action : ProbeAction n)
    (stepped : m.step h action = some next) :
    next.Follows h fun i => (action.result i).toList ++ history i := by
  cases action with
  | round =>
      simp only [Monitor.step] at stepped
      split at stepped
      · rename_i finished
        cases Option.some.inj stepped
        apply follows.rephase
        intro i
        rw [finished i]
        simp
      · cases stepped
  | aborted i =>
      simp only [Monitor.step] at stepped
      split at stepped
      · rename_i probing
        cases Option.some.inj stepped
        apply follows.rephase
        intro j
        by_cases here : j = i
        · subst here
          simp [probing]
        · simp [here]
      · cases stepped
  | counted i exchange =>
      simp only [Monitor.step] at stepped
      split at stepped
      · rename_i probing
        cases Option.some.inj stepped
        have grown : (fun j => ((ProbeAction.counted i exchange).result j).toList ++ history j) =
            Function.update history i (probe exchange :: history i) := by
          funext j
          by_cases here : j = i
          · subst here
            simp [ProbeAction.result]
          · simp [ProbeAction.result, here, Ne.symm here]
        rw [grown]
        exact follows.count unhealthy healthy i (probe exchange) probing
      · cases stepped
  | marked i =>
      simp only [Monitor.step] at stepped
      split at stepped
      · rename_i verdict marking
        cases Option.some.inj stepped
        exact follows.mark i verdict marking
      · cases stepped

/-! ## Whole sequences of rounds -/

theorem results_append (i : Fin n) (actions : List (ProbeAction n)) (action : ProbeAction n) :
    results i (actions ++ [action]) = (action.result i).toList ++ results i actions := by
  simp only [results, List.filterMap_append, List.reverse_append]
  cases result : action.result i <;> simp [result]

theorem Monitor.follows_of_run (h : HealthOptions) (w : World n)
    (unhealthy : 1 ≤ h.unhealthyThreshold) (healthy : 1 ≤ h.healthyThreshold)
    (distinct : Function.Injective fun i => (w.nodes i).name) (up : ∀ i, (w.nodes i).up = true)
    (actions : List (ProbeAction n)) (m : Monitor n)
    (ran : Runs.run (Monitor.step h) (Monitor.new w) actions = some m) :
    m.Follows h fun i => results i actions := by
  apply Runs.run_history (Monitor.step h) (fun actions m => m.Follows h fun i => results i actions)
    (Monitor.new w) _ _ actions m ran
  · exact ⟨distinct, fun _ => rfl, up⟩
  · intro actions m action next _ follows stepped
    simp only [results_append]
    exact follows.step unhealthy healthy action stepped

end

/-- Health checks are steps of the router: they lead from reachable states to
reachable states only. -/
theorem Monitor.reached_of_run {instances : List Instance} {defaultMaxConcurrent : Int}
    {opts : Options} {rt : Runtime instances.length} {clock : Int}
    {actions : List (Action instances.length)} {w : World instances.length}
    (reached : Reached instances defaultMaxConcurrent opts rt clock actions w)
    (h : HealthOptions) (probes : List (ProbeAction instances.length))
    (m : Monitor instances.length)
    (ran : Runs.run (Monitor.step h) (Monitor.new w) probes = some m) :
    ∃ more, Reached instances defaultMaxConcurrent opts rt clock more m.w := by
  apply Runs.run_preserves (Monitor.step h)
    (fun m => ∃ more, Reached instances defaultMaxConcurrent opts rt clock more m.w) _ probes
    (Monitor.new w) m ⟨actions, reached⟩ ran
  intro m action next ⟨before, reached⟩ stepped
  cases action with
  | round | aborted | counted =>
      simp only [Monitor.step] at stepped
      split at stepped
      · cases Option.some.inj stepped
        exact ⟨before, reached⟩
      · cases stepped
  | marked i =>
      simp only [Monitor.step] at stepped
      split at stepped
      · rename_i verdict marking
        cases Option.some.inj stepped
        cases verdict with
        | none => exact ⟨before, reached⟩
        | some v =>
            exact ⟨before ++ [.other (.setUp i v)],
              Runs.run_snoc _ before _ _ m.w _ reached rfl⟩
      · cases stepped

/-- After any sequence of rounds, finished in any order and with any probes
aborted, a node's flag and counters are those of its own results. -/
theorem health_hysteresis (instances : List Instance) (defaultMaxConcurrent : Int)
    (opts : Options) (clock : Int) (h : HealthOptions) (unhealthy : 1 ≤ h.unhealthyThreshold)
    (healthy : 1 ≤ h.healthyThreshold)
    (distinct : Function.Injective fun i =>
      ((new instances defaultMaxConcurrent opts clock).nodes i).name)
    (actions : List (ProbeAction instances.length)) (m : Monitor instances.length)
    (ran : Runs.run (Monitor.step h)
      (Monitor.new (new instances defaultMaxConcurrent opts clock)) actions = some m) :
    (∀ i, m.probes i = .done → (m.w.nodes i).up =
      upAfter h.unhealthyThreshold.toNat h.healthyThreshold.toNat (results i actions)) ∧
      (∀ i, m.state (m.w.nodes i).name = tally (results i actions)) ∧
      ∀ i next, m.step h (.aborted i) = some next → next.state = m.state ∧ next.w = m.w := by
  have follows := Monitor.follows_of_run h _ unhealthy healthy distinct (fun _ => rfl) actions m ran
  refine ⟨?_, follows.counters, ?_⟩
  · intro i done
    have flag := follows.flags i
    simp only [Monitor.settled, done] at flag
    exact flag
  · intro i next stepped
    simp only [Monitor.step] at stepped
    split at stepped
    · cases Option.some.inj stepped
      exact ⟨rfl, rfl⟩
    · cases stepped

def twoServers : List Instance := [⟨"", "a", 1, 4, ""⟩, ⟨"", "b", 1, 4, ""⟩]

/-- Two failures of the first server around an aborted probe; the second one
fails once and recovers. -/
def flappingRounds (a b : Fin 2) : List (ProbeAction 2) :=
  [.round, .counted a .failed, .counted b (.answered 500), .marked b, .marked a,
    .round, .aborted a, .counted b (.answered 200), .marked b,
    .round, .counted a (.answered 503), .marked a, .counted b .failed, .marked b]

theorem flappingRounds_mark_first_down :
    ∃ m : Monitor 2,
      Runs.run (Monitor.step ⟨2, 1⟩) (Monitor.new (new twoServers 0 ⟨1, 1, 0, 0, 1, 1, none⟩ 0))
        (flappingRounds 0 1) = some m ∧
      (m.w.nodes 0).up = false ∧ (m.w.nodes 1).up = true ∧
      m.state (m.w.nodes 1).name = some ⟨1, 0⟩ := by
  have evaluated : (Runs.run (Monitor.step ⟨2, 1⟩)
      (Monitor.new (new twoServers 0 ⟨1, 1, 0, 0, 1, 1, none⟩ 0)) (flappingRounds 0 1)).map
        (fun m : Monitor 2 => (m.probes 0, m.probes 1)) = some (.done, .done) := by
    decide +kernel
  obtain ⟨m, ran, phases⟩ := Option.map_eq_some_iff.mp evaluated
  simp only [Prod.mk.injEq] at phases
  have names : ∀ i j : Fin 2,
      ((new twoServers 0 ⟨1, 1, 0, 0, 1, 1, none⟩ 0).nodes i).name =
        ((new twoServers 0 ⟨1, 1, 0, 0, 1, 1, none⟩ 0).nodes j).name → i = j := by
    decide +kernel
  have known := health_hysteresis twoServers 0 ⟨1, 1, 0, 0, 1, 1, none⟩ 0 ⟨2, 1⟩ (by decide)
    (by decide) (fun i j => names i j) (flappingRounds 0 1) m ran
  refine ⟨m, ran, ?_, ?_, ?_⟩
  · rw [known.1 (0 : Fin 2) phases.1]
    decide
  · rw [known.1 (1 : Fin 2) phases.2]
    decide
  · rw [known.2.1 (1 : Fin 2)]
    decide

end RadixGates.Router
