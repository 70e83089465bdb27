import Mathlib.Data.List.Perm.Basic
import RadixGates.Lib.Runs
import RadixGates.Breaker.State

/-!
# A breaker and its callers

A session is a breaker together with what its callers have seen of it: the
tickets that were issued and not handed back, the last clock reading, and the
whole call history.  A call is enabled when its clock reading is not before
the last one and the ticket it hands back is outstanding.  Tickets are plain
values in the source, so equal ones are interchangeable and "handed back at
most once" is the multiset discipline below.

`Effect` lists once what a call can do to the breaker after the lazy
promotion; every invariant of the later files is a case analysis over it.
-/

set_option autoImplicit false

namespace RadixGates.Breaker

inductive Call where
  | allow
  | done (t : Ticket) (success : Bool)
  | cancel (t : Ticket)
  | available
  | state
  deriving DecidableEq, Repr

inductive Answer where
  | ticket (t : Option Ticket)
  | available (yes : Bool)
  | state (st : State)
  | nothing
  deriving DecidableEq, Repr

def perform (b : Breaker) (now : Int) : Call → Breaker × Answer
  | .allow => ((b.allow now).1, .ticket (b.allow now).2)
  | .done t success => (b.done now t success, .nothing)
  | .cancel t => (b.cancel t, .nothing)
  | .available => ((b.available now).1, .available (b.available now).2)
  | .state => ((b.readState now).1, .state (b.readState now).2)

def Call.handsBack : Call → Option Ticket
  | .done t _ => some t
  | .cancel t => some t
  | _ => none

def Answer.issued : Answer → Option Ticket
  | .ticket t => t
  | _ => none

structure Entry where
  now : Int
  call : Call
  answer : Answer
  before : Breaker
  after : Breaker
  deriving DecidableEq, Repr

/-- The `onChange` callbacks that ran during the call, newest first. -/
def Entry.fired (e : Entry) : List (State × State) :=
  e.after.changes.take (e.after.changes.length - e.before.changes.length)

structure Session where
  b : Breaker
  clock : Int
  outstanding : List Ticket
  history : List Entry
  deriving DecidableEq, Repr

def Session.start (cfg : Config) (clock : Int) : Session := ⟨new cfg, clock, [], []⟩

def settle (outstanding : List Ticket) (call : Call) (answer : Answer) : List Ticket :=
  answer.issued.toList ++
    match call.handsBack with
    | some t => outstanding.erase t
    | none => outstanding

def Session.step (s : Session) (event : Int × Call) : Option Session :=
  if s.clock ≤ event.1 ∧ ∀ t ∈ event.2.handsBack, t ∈ s.outstanding then
    let result := s.b.perform event.1 event.2
    some
      { b := result.1
        clock := event.1
        outstanding := settle s.outstanding event.2 result.2
        history := ⟨event.1, event.2, result.2, s.b, result.1⟩ :: s.history }
  else none

/-- The session reached by the calls from a new breaker. -/
def Session.Reached (cfg : Config) (clock : Int) (events : List (Int × Call))
    (s : Session) : Prop :=
  Runs.run Session.step (Session.start cfg clock) events = some s

/-! ## What a call can do -/

/-- The breaker a call works on: every method but `Cancel` promotes first. -/
def ready (b : Breaker) (now : Int) : Call → Breaker
  | .cancel _ => b
  | _ => b.advanceLocked now

/-- The breaker `advanceLocked` leaves when the cool-down has passed. -/
def promoted (b : Breaker) : Breaker :=
  { b with
    state := .halfOpen, gen := b.gen + 1, halfInFlight := 0,
    changes := (.opened, .halfOpen) :: b.changes }

def tripped (b : Breaker) (now : Int) : Breaker :=
  { b with
    state := .opened, gen := b.gen + 1, consecFail := 0, openUntil := now + b.curOpen,
    changes := (b.state, .opened) :: b.changes }

def recovered (b : Breaker) : Breaker :=
  { b with
    state := .closed, gen := b.gen + 1, consecFail := 0, curOpen := b.cfg.openDuration,
    changes := (.halfOpen, .closed) :: b.changes }

def backedOff (b : Breaker) : Breaker :=
  { b with curOpen := min (wrap64 (b.curOpen * 2)) b.cfg.maxOpenDuration }

/-- Everything a call can do to the breaker it works on.  The first case is
every call that only observes, is refused, or hands back a ticket without
effect: then a `Done` had a ticket of another generation or of another kind,
and a `Cancel` did not hold a probe slot. -/
inductive Effect (b : Breaker) (now : Int) : Call → Breaker → Answer → Prop where
  | quiet (call : Call) (answer : Answer) (noTicket : answer.issued = none)
      (stale : ∀ t success, call = .done t success →
        t.gen ≠ b.gen ∨ b.state = .opened ∨ (b.state = .halfOpen ∧ t.probe = false))
      (slotless : ∀ t, call = .cancel t →
        ¬ (t.probe = true ∧ b.state = .halfOpen ∧ t.gen = b.gen ∧ 0 < b.halfInFlight)) :
      Effect b now call b answer
  | pass (closed : b.state = .closed) :
      Effect b now .allow b (.ticket (some ⟨false, b.gen⟩))
  | probe (half : b.state = .halfOpen) (room : b.halfInFlight < b.cfg.halfOpenMax) :
      Effect b now .allow { b with halfInFlight := b.halfInFlight + 1 }
        (.ticket (some ⟨true, b.gen⟩))
  | succeed (t : Ticket) (current : t.gen = b.gen) (closed : b.state = .closed) :
      Effect b now (.done t true) { b with consecFail := 0 } .nothing
  | count (t : Ticket) (current : t.gen = b.gen) (closed : b.state = .closed)
      (below : b.consecFail + 1 < b.cfg.failureThreshold) :
      Effect b now (.done t false) { b with consecFail := b.consecFail + 1 } .nothing
  | trip (t : Ticket) (current : t.gen = b.gen) (closed : b.state = .closed)
      (enough : b.cfg.failureThreshold ≤ b.consecFail + 1) :
      Effect b now (.done t false) (b.tripped now) .nothing
  | recover (t : Ticket) (current : t.gen = b.gen) (half : b.state = .halfOpen)
      (isProbe : t.probe = true) :
      Effect b now (.done t true) b.recovered .nothing
  | reopen (t : Ticket) (current : t.gen = b.gen) (half : b.state = .halfOpen)
      (isProbe : t.probe = true) :
      Effect b now (.done t false) (b.backedOff.tripped now) .nothing
  | giveBack (t : Ticket) (current : t.gen = b.gen) (half : b.state = .halfOpen)
      (isProbe : t.probe = true) (held : 0 < b.halfInFlight) :
      Effect b now (.cancel t) { b with halfInFlight := b.halfInFlight - 1 } .nothing

theorem advanceLocked_eq (b : Breaker) (now : Int) :
    b.advanceLocked now =
      if b.state = .opened ∧ b.openUntil ≤ now then b.promoted else b := by
  unfold advanceLocked
  simp only [not_lt]
  split
  · rename_i passed
    simp [setLocked, promoted, passed.1]
  · rfl

theorem allow_effect (b : Breaker) (now : Int) :
    Effect (b.advanceLocked now) now .allow (b.allow now).1 (.ticket (b.allow now).2) := by
  simp only [allow]
  generalize b.advanceLocked now = a
  obtain ⟨cfg, clamped, state, gen, consecFail, openUntil, curOpen, halfInFlight, changes⟩ := a
  cases state with
  | closed => exact .pass rfl
  | opened => exact .quiet _ _ rfl (by simp) (by simp)
  | halfOpen =>
      dsimp only
      split
      · rename_i room
        exact .probe rfl room
      · exact .quiet _ _ rfl (by simp) (by simp)

theorem done_effect (b : Breaker) (now : Int) (t : Ticket) (success : Bool) :
    Effect (b.advanceLocked now) now (.done t success) (b.done now t success) .nothing := by
  simp only [done]
  generalize b.advanceLocked now = a
  obtain ⟨cfg, clamped, state, gen, consecFail, openUntil, curOpen, halfInFlight, changes⟩ := a
  split
  · rename_i other
    exact .quiet _ _ rfl (by rintro _ _ ⟨⟩; exact Or.inl other) (by simp)
  · rename_i same
    have current : t.gen = gen := not_not.mp same
    cases state with
    | opened => exact .quiet _ _ rfl (by rintro _ _ ⟨⟩; exact Or.inr (Or.inl rfl)) (by simp)
    | closed =>
        cases success with
        | true => exact .succeed t current rfl
        | false =>
            simp only [Bool.false_eq_true, if_false]
            split
            · rename_i enough
              exact .trip t current rfl enough
            · rename_i below
              exact .count t current rfl (not_le.mp below)
    | halfOpen =>
        cases isProbe : t.probe with
        | false =>
            exact .quiet _ _ rfl
              (by rintro _ _ ⟨⟩; exact Or.inr (Or.inr ⟨rfl, isProbe⟩)) (by simp)
        | true =>
            cases success with
            | true => exact .recover t current rfl isProbe
            | false => exact .reopen t current rfl isProbe

theorem cancel_effect (b : Breaker) (now : Int) (t : Ticket) :
    Effect b now (.cancel t) (b.cancel t) .nothing := by
  unfold cancel
  split
  · rename_i held
    exact .giveBack t held.2.2.1 held.2.1 held.1 held.2.2.2
  · rename_i slotless
    exact .quiet _ _ rfl (by simp) (by rintro _ ⟨⟩; exact slotless)

theorem perform_effect (b : Breaker) (now : Int) (call : Call) :
    Effect (b.ready now call) now call (b.perform now call).1 (b.perform now call).2 := by
  cases call with
  | allow => exact allow_effect b now
  | done t success => exact done_effect b now t success
  | cancel t => exact cancel_effect b now t
  | available =>
      have same : (b.available now).1 = b.advanceLocked now := by
        simp only [available]
        split <;> rfl
      simp only [perform, same]
      exact .quiet _ _ rfl (by simp) (by simp)
  | state => exact .quiet _ _ rfl (by simp) (by simp)

/-! ## Steps and runs of a session -/

theorem Session.step_some (s next : Session) (event : Int × Call)
    (stepped : s.step event = some next) :
    s.clock ≤ event.1 ∧ (∀ t ∈ event.2.handsBack, t ∈ s.outstanding) ∧
      next =
        { b := (s.b.perform event.1 event.2).1
          clock := event.1
          outstanding := settle s.outstanding event.2 (s.b.perform event.1 event.2).2
          history :=
            ⟨event.1, event.2, (s.b.perform event.1 event.2).2, s.b,
              (s.b.perform event.1 event.2).1⟩ :: s.history } := by
  unfold Session.step at stepped
  split at stepped
  · rename_i enabled
    exact ⟨enabled.1, enabled.2, (Option.some.inj stepped).symm⟩
  · contradiction

/-- Invariants of a session: kept by the promotion alone, and by every effect
of a call on the breaker it works on. -/
theorem Session.step_preserves (Inv : Session → Prop)
    (promote : ∀ s now, Inv s → s.clock ≤ now → s.b.state = .opened → s.b.openUntil ≤ now →
      Inv { s with b := s.b.promoted })
    (act : ∀ s now call after answer before, Inv { s with b := before } → Inv s →
      s.clock ≤ now → (∀ t ∈ call.handsBack, t ∈ s.outstanding) →
      s.b = before.ready now call → Effect s.b now call after answer →
      Inv
        { b := after
          clock := now
          outstanding := settle s.outstanding call answer
          history := ⟨now, call, answer, before, after⟩ :: s.history })
    (s : Session) (event : Int × Call) (next : Session) (holds : Inv s)
    (stepped : s.step event = some next) : Inv next := by
  obtain ⟨forward, handed, rfl⟩ := Session.step_some s next event stepped
  obtain ⟨now, call⟩ := event
  have readyInv : Inv { s with b := s.b.ready now call } := by
    have advanced : Inv { s with b := s.b.advanceLocked now } := by
      rw [advanceLocked_eq]
      split
      · rename_i passed
        exact promote s now holds forward passed.1 passed.2
      · exact holds
    cases call <;> first | exact advanced | exact holds
  exact act { s with b := s.b.ready now call } now call _ _ s.b holds readyInv forward handed
    rfl (perform_effect s.b now call)

theorem Session.reached_invariant (Inv : Session → Prop) (cfg : Config) (clock : Int)
    (initial : Inv (Session.start cfg clock))
    (keeps : ∀ s event next, Inv s → s.step event = some next → Inv next)
    (events : List (Int × Call)) (s : Session) (reached : Session.Reached cfg clock events s) :
    Inv s :=
  Runs.run_preserves Session.step Inv keeps events _ s initial reached

theorem Session.cfg_of_reached {cfg : Config} {clock : Int} {events : List (Int × Call)}
    {s : Session} (reached : Session.Reached cfg clock events s) : s.b.cfg = cfg.clamp := by
  refine Session.reached_invariant (fun s => s.b.cfg = cfg.clamp) cfg clock rfl ?_ events s reached
  refine Session.step_preserves _ ?_ ?_
  · intro s now same _ _ _
    exact same
  · intro s now call after answer before _ same _ _ _ effect
    cases effect <;> exact same

/-! ## Transitions of one call -/

theorem ready_cases (b : Breaker) (now : Int) (call : Call) :
    b.ready now call = b ∨
      (b.state = .opened ∧ b.openUntil ≤ now ∧ b.ready now call = b.promoted) := by
  have advanced : b.advanceLocked now = b ∨
      (b.state = .opened ∧ b.openUntil ≤ now ∧ b.advanceLocked now = b.promoted) := by
    rw [advanceLocked_eq]
    split
    · rename_i passed
      exact Or.inr ⟨passed.1, passed.2, rfl⟩
    · exact Or.inl rfl
  cases call <;> first | exact advanced | exact Or.inl rfl

theorem Effect.moves {b after : Breaker} {now : Int} {call : Call} {answer : Answer}
    (effect : Effect b now call after answer) :
    (after.state = b.state ∧ after.gen = b.gen ∧ after.changes = b.changes) ∨
      (after.state ≠ b.state ∧ after.gen = b.gen + 1 ∧
        after.changes = (b.state, after.state) :: b.changes) := by
  cases effect with
  | quiet | pass | probe | succeed | count | giveBack => exact Or.inl ⟨rfl, rfl, rfl⟩
  | trip t current closed enough => exact Or.inr ⟨by simp [tripped, closed], rfl, rfl⟩
  | recover t current half isProbe =>
      exact Or.inr ⟨by simp [recovered, half], rfl, by simp [recovered, half]⟩
  | reopen t current half isProbe =>
      exact Or.inr ⟨by simp [tripped, backedOff, half], rfl, rfl⟩

theorem Entry.fired_eq (e : Entry) (new : List (State × State))
    (grown : e.after.changes = new ++ e.before.changes) : e.fired = new := by
  unfold Entry.fired
  rw [grown]
  simp

end RadixGates.Breaker
