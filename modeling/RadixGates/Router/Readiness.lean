import RadixGates.Breaker.Observation
import RadixGates.Router.Choice

/-!
# Readiness and routing

`AnyAvailable`, behind `/readyz`, scans the pool on its own.  As long as the
clock passes the end of no cool-down and nothing else touches the breakers, a
node gives every question the same answer, whoever asks and however often.  So
the scan and a routing decision for any entry point agree.
-/

set_option autoImplicit false

namespace RadixGates.Router

section
variable {n : Nat}

/-- `Router.AnyAvailable`; it takes no lock. -/
def anyAvailable : List (Fin n) → Eval n → Eval n × Bool
  | [], e => (e, false)
  | i :: rest, e =>
      if entryPoint (e.w.nodes i) then
        let asked := e.available i
        if asked.2 then (asked.1, true) else anyAvailable rest asked.1
      else anyAvailable rest e

def Interference.isTick : Interference n → Bool
  | .tick _ => true
  | _ => false

/-- Nothing but time passes. -/
def Eval.Ticking (e : Eval n) : Prop := ∀ steps ∈ e.schedule, ∀ step ∈ steps, step.isTick = true

/-- What `available` says about the node at this time. -/
def World.readyAt (w : World n) (now : Int) (i : Fin n) : Bool :=
  (w.nodes i).up &&
    match (w.nodes i).br with
    | none => true
    | some b => (b.available now).2

/-- Up to the horizon every node answers the same. -/
def Fixed (horizon : Int) (ready : Fin n → Bool) (w : World n) : Prop :=
  ∀ now i, w.clock ≤ now → now ≤ horizon → w.readyAt now i = ready i

/-- No cool-down ends after this state and before the horizon. -/
def World.Calm (w : World n) (horizon : Int) : Prop :=
  ∀ i, ∀ b ∈ (w.nodes i).br, b.state = .opened → b.openUntil ≤ w.clock ∨ horizon < b.openUntil

instance (w : World n) (horizon : Int) : Decidable (w.Calm horizon) :=
  inferInstanceAs (Decidable (∀ i, ∀ b ∈ (w.nodes i).br, b.state = .opened →
    b.openUntil ≤ w.clock ∨ horizon < b.openUntil))

/-! ## One question -/

theorem available_advanceLocked (b : Breaker) (now later : Int) (forward : now ≤ later) :
    ((b.advanceLocked now).available later).2 = (b.available later).2 := by
  have same := ((Breaker.ahead_advanceLocked b now).later forward).advanceLocked
  simp only [Breaker.available, same]

theorem available_fst (b : Breaker) (now : Int) : (b.available now).1 = b.advanceLocked now := by
  simp only [Breaker.available]
  split <;> rfl

theorem World.Calm.fixed {w : World n} {horizon : Int} (calm : w.Calm horizon) :
    Fixed horizon (w.readyAt w.clock) w := by
  intro now i after before
  unfold World.readyAt
  cases present : (w.nodes i).br with
  | none => rfl
  | some b =>
      have same : b.advanceLocked now = b.advanceLocked w.clock := by
        rw [Breaker.advanceLocked_eq, Breaker.advanceLocked_eq]
        by_cases opened : b.state = .opened
        · rcases calm i b present opened with expired | pending
          · rw [if_pos ⟨opened, expired.trans after⟩, if_pos ⟨opened, expired⟩]
          · rw [if_neg (by omega), if_neg (by omega)]
        · simp [opened]
      simp only [Breaker.available, same]

theorem Fixed.foldl {horizon : Int} {ready : Fin n → Bool} (steps : List (Interference n))
    (w : World n) (fixed : Fixed horizon ready w) (ticks : ∀ step ∈ steps, step.isTick = true) :
    Fixed horizon ready (steps.foldl Interference.apply w) := by
  induction steps generalizing w with
  | nil => exact fixed
  | cons step rest ih =>
      cases step with
      | tick elapsed =>
          apply ih _ _ fun later member => ticks later (List.mem_cons_of_mem _ member)
          intro now i after before
          apply fixed now i _ before
          simp only [Interference.apply] at after
          omega
      | setUp | observe | report => cases ticks _ List.mem_cons_self

theorem Eval.Ticking.yield {e : Eval n} (ticking : e.Ticking) : e.yield.Ticking := by
  unfold Eval.yield
  split
  · exact ticking
  · rename_i steps rest planned
    intro later member
    apply ticking later
    rw [planned]
    exact List.mem_cons_of_mem steps member

theorem Fixed.yield {horizon : Int} {ready : Fin n → Bool} {e : Eval n}
    (fixed : Fixed horizon ready e.w) (ticking : e.Ticking) : Fixed horizon ready e.yield.w := by
  unfold Eval.yield
  split
  · exact fixed
  · rename_i steps rest planned
    apply fixed.foldl steps e.w
    apply ticking
    rw [planned]
    exact List.mem_cons_self

theorem ticks_nodes (steps : List (Interference n)) (w : World n)
    (ticks : ∀ step ∈ steps, step.isTick = true) :
    (steps.foldl Interference.apply w).nodes = w.nodes := by
  induction steps generalizing w with
  | nil => rfl
  | cons step rest ih =>
      have later := ih (step.apply w) fun later member =>
        ticks later (List.mem_cons_of_mem _ member)
      cases step with
      | tick elapsed => exact later
      | setUp | observe | report => cases ticks _ List.mem_cons_self

theorem Eval.Ticking.nodes {e : Eval n} (ticking : e.Ticking) : e.yield.w.nodes = e.w.nodes := by
  unfold Eval.yield
  split
  · rfl
  · rename_i steps rest planned
    apply ticks_nodes steps e.w
    apply ticking
    rw [planned]
    exact List.mem_cons_self

/-- A breaker that is asked answers the same from then on. -/
theorem Fixed.setBreaker {horizon : Int} {ready : Fin n → Bool} {e : Eval n} {i : Fin n}
    {b : Breaker} (fixed : Fixed horizon ready e.w) (present : (e.w.nodes i).br = some b) :
    Fixed horizon ready (e.setBreaker i (b.available e.w.clock).1).w := by
  intro now j after before
  rw [← fixed now j after before, available_fst]
  simp only [World.readyAt, Eval.setBreaker, setNode_nodes]
  split
  · rename_i here
    subst here
    simp only [present]
    rw [available_advanceLocked b e.w.clock now after]
  · rfl

/-- The scheduled ticks and the queries of a decision change no answer. -/
structure Asking (horizon : Int) (ready : Fin n → Bool) (e : Eval n) : Prop where
  ticking : e.Ticking
  fixed : Fixed horizon ready e.w

theorem Asking.available {horizon : Int} {ready : Fin n → Bool} {e : Eval n}
    (asking : Asking horizon ready e) (i : Fin n) :
    Asking horizon ready (e.available i).1 ∧
      ((e.available i).1.w.clock ≤ horizon → (e.available i).2 = ready i) := by
  have once : Asking horizon ready e.yield :=
    ⟨asking.ticking.yield, asking.fixed.yield asking.ticking⟩
  have twice : Asking horizon ready e.yield.yield :=
    ⟨once.ticking.yield, once.fixed.yield once.ticking⟩
  simp only [Eval.available]
  cases up : (e.yield.w.nodes i).up with
  | false =>
      refine ⟨once, ?_⟩
      intro before
      rw [← once.fixed _ i le_rfl before]
      simp [World.readyAt, up]
  | true =>
      rw [← once.ticking.nodes] at up
      cases present : (e.yield.yield.w.nodes i).br with
      | none =>
          refine ⟨twice, ?_⟩
          intro before
          rw [← twice.fixed _ i le_rfl before]
          simp [World.readyAt, up, present]
      | some b =>
          refine ⟨⟨twice.ticking, twice.fixed.setBreaker present⟩, ?_⟩
          intro before
          rw [← twice.fixed _ i le_rfl before]
          simp [World.readyAt, up, present]

/-! ## The two scans -/

theorem Unlocked.entryPoint {w w' : World n} (unlocked : Unlocked w w') (i : Fin n) :
    entryPoint (w'.nodes i) = Router.entryPoint (w.nodes i) := by
  simp only [Router.entryPoint, unlocked.ungranted.sameIdentity.role]

theorem anyAvailable_iff {horizon : Int} {ready : Fin n → Bool} (nodes : List (Fin n)) (e : Eval n)
    (asking : Asking horizon ready e) :
    Asking horizon ready (anyAvailable nodes e).1 ∧ Unlocked e.w (anyAvailable nodes e).1.w ∧
      ((anyAvailable nodes e).1.w.clock ≤ horizon → ((anyAvailable nodes e).2 = true ↔
        ∃ i ∈ nodes, entryPoint (e.w.nodes i) = true ∧ ready i = true)) := by
  induction nodes generalizing e with
  | nil => exact ⟨asking, Unlocked.refl e.w, by simp [anyAvailable]⟩
  | cons i rest ih =>
      obtain ⟨still, answer⟩ := asking.available i
      have unlocked := Unlocked.available e i
      have roles := unlocked.entryPoint
      simp only [anyAvailable]
      cases entry : entryPoint (e.w.nodes i) with
      | false => simpa [entry] using ih e asking
      | true =>
          cases yes : (e.available i).2 with
          | true =>
              refine ⟨still, unlocked, ?_⟩
              intro before
              have isReady := answer before
              rw [yes] at isReady
              simp [entry, ← isReady]
          | false =>
              obtain ⟨later, onward, iff⟩ := ih _ still
              refine ⟨later, unlocked.trans onward, ?_⟩
              intro before
              have notReady := answer (onward.clock.trans before)
              rw [yes] at notReady
              simp only [roles] at iff
              simpa [entry, ← notReady] using iff before

/-- The collecting loop finds the entry points that are ready. -/
theorem mem_collect_iff {horizon : Int} {ready : Fin n → Bool} (kh : UInt64) (nodes : List (Fin n))
    (e : Eval n) (asking : Asking horizon ready e)
    (before : (collect kh "" entryPoint [] nodes e).1.w.clock ≤ horizon) (j : Fin n) :
    (∃ c ∈ (collect kh "" entryPoint [] nodes e).2.1, c.node = j) ↔
      j ∈ nodes ∧ entryPoint (e.w.nodes j) = true ∧ ready j = true := by
  induction nodes generalizing e with
  | nil => simp [collect]
  | cons i rest ih =>
      obtain ⟨still, answer⟩ := asking.available i
      have roles := (Unlocked.available e i).entryPoint
      have matching : eligible "" entryPoint [] (e.w.nodes i) = entryPoint (e.w.nodes i) := by
        simp [eligible]
      rw [collect_cons, matching] at before ⊢
      cases entry : entryPoint (e.w.nodes i) with
      | false =>
          simp only [entry, Bool.false_eq_true, if_false] at before ⊢
          rw [ih e asking before, List.mem_cons]
          by_cases here : j = i
          · simp [here, entry]
          · simp [here]
      | true =>
          have onward := Unlocked.collect kh "" entryPoint [] rest (e.available i).1
          simp only [entry, if_true] at before ⊢
          cases yes : (e.available i).2 with
          | true =>
              simp only [yes, if_true] at before ⊢
              have isReady := answer (onward.clock.trans before)
              have later := ih _ still before
              simp only [roles] at later
              simp only [List.mem_cons, exists_eq_or_imp, later]
              by_cases here : j = i
              · simp [here, entry, ← isReady, yes]
              · simp [here, Ne.symm here]
          | false =>
              simp only [yes, Bool.false_eq_true, if_false] at before ⊢
              have notReady := answer (onward.clock.trans before)
              have later := ih _ still before
              simp only [roles] at later
              rw [later, List.mem_cons]
              by_cases here : j = i
              · simp [here, ← notReady, yes]
              · simp [here]

/-! ## The decision -/

theorem Eval.Ticking.quiet {e : Eval n} (ticking : e.Ticking) : e.Quiet := by
  intro steps inSchedule step member
  have isTick := ticking steps inSchedule step member
  cases step with
  | tick elapsed => rfl
  | setUp | observe | report => cases isTick

/-- Without a report a decision fails only for want of a candidate. -/
theorem decision_noNode_iff (rt : Runtime n) (opts : Options) (w : World n) (call : Call)
    (schedule : List (List (Interference n))) (quiet : Eval.Quiet ⟨w, schedule⟩) :
    (w.decision rt opts call schedule).2 = .noNode ↔ (w.gathered call schedule).2.1 = [] := by
  rw [decision_eq]
  split
  · rename_i none
    simp [none]
  · rename_i some
    simp only [some, iff_false]
    intro failed
    cases (ranked_ready rt opts w call schedule quiet).settle
        (w.limitOf rt opts call schedule) call.hold with
    | held held pick => exact absurd (failed.symm.trans pick) (by simp)
    | within lease c member isBelow pick on => exact absurd (failed.symm.trans pick) (by simp)
    | spilled lease best nobody least pick on => exact absurd (failed.symm.trans pick) (by simp)
    | full none pick => exact absurd (failed.symm.trans pick) (by simp)

theorem quiet_unrefused (rt : Runtime n) (opts : Options) (w : World n) (call : Call)
    (schedule : List (List (Interference n))) (quiet : Eval.Quiet ⟨w, schedule⟩) :
    w.refusals rt opts call schedule = [] := by
  rw [World.refusals]
  split
  · rfl
  · exact (ranked_ready rt opts w call schedule quiet).unrefused _ call.hold

/-- A request with no target group, the default filter and nothing excluded. -/
def Request.plain (request : Request) : Bool :=
  request.targetGroup == "" && request.filter.isNone && request.exclude.isEmpty

theorem mem_candidates_iff {horizon : Int} {ready : Fin n → Bool} (w : World n) (call : Call)
    (schedule : List (List (Interference n))) (plain : call.request.plain = true)
    (asking : Asking horizon ready ⟨w, schedule⟩)
    (before : (w.gathered call schedule).1.w.clock ≤ horizon) (i : Fin n) :
    i ∈ w.candidates call schedule ↔ entryPoint (w.nodes i) = true ∧ ready i = true := by
  simp only [Request.plain, Bool.and_eq_true, beq_iff_eq, Option.isNone_iff_eq_none,
    List.isEmpty_iff] at plain
  obtain ⟨⟨group, filter⟩, exclude⟩ := plain
  simp only [World.candidates, World.gathered, group, filter, exclude, Option.getD_none]
    at before ⊢
  rw [List.mem_map, mem_collect_iff _ _ _ asking before]
  simp

theorem decision_iff_ready {horizon : Int} {ready : Fin n → Bool} (rt : Runtime n) (opts : Options)
    (w : World n) (call : Call) (schedule : List (List (Interference n)))
    (plain : call.request.plain = true) (asking : Asking horizon ready ⟨w, schedule⟩)
    (before : (w.gathered call schedule).1.w.clock ≤ horizon) :
    (w.decision rt opts call schedule).2 ≠ .noNode ↔
      ∃ i, entryPoint (w.nodes i) = true ∧ ready i = true := by
  rw [ne_eq, decision_noNode_iff rt opts w call schedule asking.ticking.quiet]
  simp only [← mem_candidates_iff w call schedule plain asking before]
  rw [← List.isEmpty_iff, Bool.not_eq_true, List.isEmpty_eq_false_iff_exists_mem]
  simp [World.candidates]

/-- `AnyAvailable` says yes exactly if a plain request finds a node, asked in the
same state or after the scan, as long as no cool-down ends meanwhile; and no
candidate of the request is refused by its breaker. -/
theorem readiness_agrees (rt : Runtime n) (opts : Options) (w : World n) (call : Call)
    (plain : call.request.plain = true) (scan schedule : List (List (Interference n))) (gap : Nat)
    (scanTicks : Eval.Ticking ⟨w, scan⟩) (ticks : Eval.Ticking ⟨w, schedule⟩) (horizon : Int)
    (calm : w.Calm horizon) :
    let asked := anyAvailable (List.finRange n) ⟨w, scan⟩
    let later := (Interference.tick gap).apply asked.1.w
    (asked.1.w.clock ≤ horizon → (w.gathered call schedule).1.w.clock ≤ horizon →
      (asked.2 = true ↔ (w.decision rt opts call schedule).2 ≠ .noNode)) ∧
      ((later.gathered call schedule).1.w.clock ≤ horizon →
        (asked.2 = true ↔ (later.decision rt opts call schedule).2 ≠ .noNode)) ∧
      w.refusals rt opts call schedule = [] ∧ later.refusals rt opts call schedule = [] := by
  intro asked later
  have now : Asking horizon (w.readyAt w.clock) ⟨w, schedule⟩ := ⟨ticks, calm.fixed⟩
  obtain ⟨scanned, unlocked, found⟩ :=
    anyAvailable_iff (List.finRange n) ⟨w, scan⟩ ⟨scanTicks, calm.fixed⟩
  have onward : asked.1.w.clock ≤ later.clock := by
    simp only [later, Interference.apply]
    omega
  have after : Asking horizon (w.readyAt w.clock) ⟨later, schedule⟩ := by
    refine ⟨ticks, ?_⟩
    intro time i start finish
    exact scanned.fixed time i (onward.trans start) finish
  have roles : ∀ i, entryPoint (later.nodes i) = entryPoint (w.nodes i) := unlocked.entryPoint
  simp only [List.mem_finRange, true_and] at found
  refine ⟨?_, ?_, ?_, ?_⟩
  · intro scanEnd before
    rw [found scanEnd]
    exact (decision_iff_ready rt opts w call schedule plain now before).symm
  · intro before
    have scanEnd := onward.trans ((gathered_unlocked later call schedule).clock.trans before)
    rw [found scanEnd, decision_iff_ready rt opts later call schedule plain after before]
    simp only [roles]
  · exact quiet_unrefused rt opts w call schedule now.ticking.quiet
  · exact quiet_unrefused rt opts later call schedule after.ticking.quiet

end

/-- The one node fails a request and the cool-down of its breaker passes. -/
def cooledDown : List (Action 1) :=
  [.acquire promptA, .evaluate 0 [], .other (.report 0 (some false)), .release 0,
    .other (.tick 1000000000), .acquire promptA]

theorem cooledDown_is_ready :
    ∃ (w : World 1) (call : Call),
      Reached oneSlot 0 breakerOptions (Runtime.exact 1) 0 cooledDown w ∧
      w.calls[1]? = some call ∧ (anyAvailable (List.finRange 1) ⟨w, [[.tick 5]]⟩).2 = true ∧
      (w.decision (Runtime.exact 1) breakerOptions.clamp call [[], [.tick 7]]).2 ≠ .noNode := by
  have evaluated : ((Runs.run (World.step (Runtime.exact 1) breakerOptions.clamp)
      (new oneSlot 0 breakerOptions 0) cooledDown).bind fun w : World 1 =>
        w.calls[1]?.map fun call =>
          (call.request.plain, (anyAvailable (List.finRange 1) ⟨w, [[.tick 5]]⟩).2,
          decide (w.Calm (2 * second)),
          decide ((anyAvailable (List.finRange 1) ⟨w, [[.tick 5]]⟩).1.w.clock ≤ 2 * second ∧
            (w.gathered call [[], [.tick 7]]).1.w.clock ≤ 2 * second))) =
      some (true, true, true, true) := by
    decide +kernel
  obtain ⟨w, reached, rest⟩ := Option.bind_eq_some_iff.mp evaluated
  obtain ⟨call, found, facts⟩ := Option.map_eq_some_iff.mp rest
  simp only [Prod.mk.injEq, decide_eq_true_eq] at facts
  obtain ⟨plain, ready, calm, scanEnd, before⟩ := facts
  have agrees := readiness_agrees (Runtime.exact 1) breakerOptions.clamp w call plain
    [[.tick 5]] [[], [.tick 7]] 0 (by simp [Eval.Ticking, Interference.isTick])
    (by simp [Eval.Ticking, Interference.isTick]) (2 * second) calm
  exact ⟨w, call, reached, found, ready, (agrees.1 scanEnd before).mp ready⟩

end RadixGates.Router
