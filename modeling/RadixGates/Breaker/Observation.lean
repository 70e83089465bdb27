import RadixGates.Breaker.Session

/-!
# Observing a breaker

`State` and `Available` promote the breaker, `Cancel` does not.  A run with
observers and the run without them pass through different breakers; the one
with observers may be ahead by a promotion that is due anyway.  `Ahead` is that
relation, and it is a simulation: no caller can tell the two runs apart, nor
either of them from a breaker that is promoted at the very end of its
cool-down.
-/

set_option autoImplicit false

namespace RadixGates.Breaker

/-- The calls that only look. -/
def Call.isObserver : Call → Bool
  | .available => true
  | .state => true
  | _ => false

/-- What a caller can find out about a call: its answer, the state that `State`
reports right after it, and whether it did more than the due promotion. -/
structure Report where
  call : Call
  answer : Answer
  seen : State
  effective : Bool
  deriving DecidableEq, Repr

def reportOf (b : Breaker) (now : Int) (call : Call) : Report where
  call := call
  answer := (b.perform now call).2
  seen := ((b.perform now call).1.readState now).2
  effective := decide ((b.perform now call).1.advanceLocked now ≠ b.advanceLocked now)

def reports : Breaker → List (Int × Call) → List Report
  | _, [] => []
  | b, (now, call) :: rest => reportOf b now call :: reports (b.perform now call).1 rest

/-- The breaker once the clock has come to `now`, if it switches at the end of
its cool-down. -/
def elapse (b : Breaker) (now : Int) : Breaker :=
  if b.state = .opened ∧ b.openUntil ≤ now then b.promoted else b

/-- The reports of a breaker that switches by itself. -/
def eagerReports : Breaker → List (Int × Call) → List Report
  | _, [] => []
  | b, (now, call) :: rest =>
      reportOf (b.elapse now) now call :: eagerReports ((b.elapse now).perform now call).1 rest

/-! ## The simulation -/

/-- The second breaker is the first one, or has already made the promotion that
the first one is due. -/
def Ahead (now : Int) (b c : Breaker) : Prop :=
  c = b ∨ (b.state = .opened ∧ b.openUntil ≤ now ∧ c = b.promoted)

theorem Ahead.later {now later : Int} {b c : Breaker} (ahead : Ahead now b c)
    (forward : now ≤ later) : Ahead later b c := by
  rcases ahead with same | ⟨opened, due, rfl⟩
  · exact Or.inl same
  · exact Or.inr ⟨opened, due.trans forward, rfl⟩

theorem ahead_advanceLocked (b : Breaker) (now : Int) : Ahead now b (b.advanceLocked now) := by
  rw [advanceLocked_eq]
  by_cases due : b.state = .opened ∧ b.openUntil ≤ now
  · rw [if_pos due]
    exact Or.inr ⟨due.1, due.2, rfl⟩
  · rw [if_neg due]
    exact Or.inl rfl

theorem promoted_advanceLocked (b : Breaker) (now : Int) :
    b.promoted.advanceLocked now = b.promoted := by
  rw [advanceLocked_eq, if_neg]
  simp [promoted]

theorem Ahead.advanceLocked {now : Int} {b c : Breaker} (ahead : Ahead now b c) :
    c.advanceLocked now = b.advanceLocked now := by
  rcases ahead with rfl | ⟨opened, due, rfl⟩
  · rfl
  · rw [promoted_advanceLocked, advanceLocked_eq b, if_pos ⟨opened, due⟩]

theorem advanceLocked_twice (b : Breaker) (now : Int) :
    (b.advanceLocked now).advanceLocked now = b.advanceLocked now :=
  (ahead_advanceLocked b now).advanceLocked

/-- Every call but `Cancel` begins with the promotion. -/
theorem perform_advanceLocked (b : Breaker) (now : Int) (call : Call)
    (promotes : ∀ t, call ≠ .cancel t) :
    b.perform now call = (b.advanceLocked now).perform now call := by
  cases call with
  | cancel t => exact absurd rfl (promotes t)
  | allow => simp only [perform, Breaker.allow, advanceLocked_twice]
  | done t success => simp only [perform, Breaker.done, advanceLocked_twice]
  | available => simp only [perform, Breaker.available, advanceLocked_twice]
  | state => simp only [perform, readState, advanceLocked_twice]

theorem cancel_of_opened (b : Breaker) (t : Ticket) (opened : b.state = .opened) :
    b.cancel t = b := by
  simp [Breaker.cancel, opened]

-- the half-open period has just begun, so no slot is taken
theorem cancel_of_promoted (b : Breaker) (t : Ticket) : b.promoted.cancel t = b.promoted := by
  simp [Breaker.cancel, promoted]

/-- The same call keeps the relation and gets the same answer. -/
theorem Ahead.perform {now : Int} {b c : Breaker} (ahead : Ahead now b c) (call : Call) :
    Ahead now (b.perform now call).1 (c.perform now call).1 ∧
      (c.perform now call).2 = (b.perform now call).2 := by
  by_cases promotes : ∀ t, call ≠ .cancel t
  · have same : c.perform now call = b.perform now call := by
      rw [perform_advanceLocked c now call promotes, ahead.advanceLocked,
        ← perform_advanceLocked b now call promotes]
    rw [same]
    exact ⟨Or.inl rfl, rfl⟩
  · simp only [not_forall, not_not] at promotes
    obtain ⟨t, rfl⟩ := promotes
    refine ⟨?_, rfl⟩
    rcases ahead with rfl | ⟨opened, due, rfl⟩
    · exact Or.inl rfl
    · simp only [Breaker.perform, cancel_of_opened b t opened, cancel_of_promoted b t]
      exact Or.inr ⟨opened, due, rfl⟩

/-- An observer of the second breaker keeps the relation. -/
theorem Ahead.observe {now : Int} {b c : Breaker} (ahead : Ahead now b c) (call : Call)
    (observer : call.isObserver = true) : Ahead now b (c.perform now call).1 := by
  have promotes : (c.perform now call).1 = c.advanceLocked now := by
    cases call with
    | available =>
        simp only [Breaker.perform, Breaker.available]
        split <;> rfl
    | state => rfl
    | allow => cases observer
    | done t success => cases observer
    | cancel t => cases observer
  rw [promotes, ahead.advanceLocked]
  exact ahead_advanceLocked b now

theorem Ahead.reportOf {now : Int} {b c : Breaker} (ahead : Ahead now b c) (call : Call) :
    reportOf c now call = reportOf b now call := by
  obtain ⟨after, answer⟩ := ahead.perform call
  simp only [Breaker.reportOf, readState, answer, after.advanceLocked, ahead.advanceLocked]

/-! ## Runs -/

/-- The clock readings do not decrease. -/
def Ordered (events : List (Int × Call)) : Prop := events.Pairwise fun e f => e.1 ≤ f.1

theorem ahead_reports (events : List (Int × Call)) (start : Int) (b c : Breaker)
    (ahead : Ahead start b c) (from' : ∀ e ∈ events, start ≤ e.1) (ordered : Ordered events) :
    (reports c events).filter (fun r => !r.call.isObserver) =
      reports b (events.filter fun e => !e.2.isObserver) := by
  induction events generalizing start b c with
  | nil => rfl
  | cons event rest ih =>
      obtain ⟨now, call⟩ := event
      obtain ⟨later, orderedRest⟩ := List.pairwise_cons.mp ordered
      have here : Ahead now b c := ahead.later (from' _ List.mem_cons_self)
      have sameCall : (Breaker.reportOf c now call).call = call := rfl
      simp only [reports, List.filter_cons, sameCall]
      cases observer : call.isObserver with
      | true =>
          simp only [Bool.not_true, Bool.false_eq_true, if_false]
          exact ih now b _ (here.observe call observer) later orderedRest
      | false =>
          simp only [Bool.not_false, if_true, reports]
          rw [here.reportOf call, ih now _ _ (here.perform call).1 later orderedRest]

theorem ahead_eagerReports (events : List (Int × Call)) (start : Int) (b c : Breaker)
    (ahead : Ahead start b c) (from' : ∀ e ∈ events, start ≤ e.1) (ordered : Ordered events) :
    eagerReports c events = reports b events := by
  induction events generalizing start b c with
  | nil => rfl
  | cons event rest ih =>
      obtain ⟨now, call⟩ := event
      obtain ⟨later, orderedRest⟩ := List.pairwise_cons.mp ordered
      have here : Ahead now b c := ahead.later (from' _ List.mem_cons_self)
      have switched : Ahead now b (c.elapse now) := by
        rw [elapse, ← advanceLocked_eq, here.advanceLocked]
        exact ahead_advanceLocked b now
      simp only [eagerReports, reports]
      rw [switched.reportOf call, ih now _ _ (switched.perform call).1 later orderedRest]

/-- Deleting the observers from a sequence of calls changes no report of the
other calls, and the breaker is indistinguishable from one that switches to
HalfOpen when its cool-down ends. -/
theorem observation_is_free (b : Breaker) (events : List (Int × Call)) (ordered : Ordered events) :
    (reports b events).filter (fun r => !r.call.isObserver) =
        reports b (events.filter fun e => !e.2.isObserver) ∧
      reports b events = eagerReports b events := by
  cases events with
  | nil => exact ⟨rfl, rfl⟩
  | cons event rest =>
      have from' : ∀ e ∈ event :: rest, event.1 ≤ e.1 := by
        intro e member
        rcases List.mem_cons.mp member with rfl | member
        · exact le_rfl
        · exact (List.pairwise_cons.mp ordered).1 e member
      refine ⟨?_, ?_⟩
      · exact ahead_reports _ event.1 b b (Or.inl rfl) from' ordered
      · exact (ahead_eagerReports _ event.1 b b (Or.inl rfl) from' ordered).symm

/-- One failure opens the breaker for a second; it is read after the cool-down
and before the next request. -/
def watchedTrip : List (Int × Call) :=
  [(0, .allow), (0, .done ⟨false, 0⟩ false), (second, .state), (second, .cancel ⟨true, 2⟩),
    (second + 1, .available), (second + 2, .allow), (second + 3, .done ⟨true, 2⟩ true)]

theorem observation_is_free_of_watchedTrip :
    (reports (new ⟨1, second, 0, 1⟩) watchedTrip).filter (fun r => !r.call.isObserver) =
        reports (new ⟨1, second, 0, 1⟩) (watchedTrip.filter fun e => !e.2.isObserver) ∧
      (reports (new ⟨1, second, 0, 1⟩) watchedTrip).map (fun r => (r.seen, r.effective)) =
        [(.closed, false), (.opened, true), (.halfOpen, false), (.halfOpen, false),
          (.halfOpen, false), (.halfOpen, true), (.closed, true)] := by
  have ordered : Ordered watchedTrip := by
    unfold Ordered
    decide
  exact ⟨(observation_is_free (new ⟨1, second, 0, 1⟩) watchedTrip ordered).1, by decide⟩

end RadixGates.Breaker
