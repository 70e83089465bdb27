import RadixGates.Breaker.Provenance

/-!
# The trip rule and the legal transitions

The lazily kept counter `consecFail` is a function of the call history: the
length of the trailing run of failures among the `Done` calls whose ticket
carries the current generation.  The callbacks form a walk over the four legal
transitions, one for each generation.
-/

set_option autoImplicit false

namespace RadixGates.Breaker

/-- The verdict a call reports for the generation, if it is a `Done` with a
ticket of that generation. -/
def Entry.verdictFor (gen : Nat) (e : Entry) : Option Bool :=
  match e.call with
  | .done t success => if t.gen = gen then some success else none
  | _ => none

/-- Failures reported for the generation since its last success; the history
is newest first. -/
def trailingFailures (gen : Nat) (history : List Entry) : Nat :=
  ((history.filterMap (Entry.verdictFor gen)).takeWhile (fun success => !success)).length

def legal : State → State → Bool
  | .closed, .opened => true
  | .opened, .halfOpen => true
  | .halfOpen, .closed => true
  | .halfOpen, .opened => true
  | _, _ => false

def Walk : List (State × State) → State → Prop
  | [], st => st = .closed
  | (source, target) :: rest, st =>
      target = st ∧ legal source target = true ∧ Walk rest source

theorem trailingFailures_skip (gen : Nat) (e : Entry) (history : List Entry)
    (other : e.verdictFor gen = none) :
    trailingFailures gen (e :: history) = trailingFailures gen history := by
  simp [trailingFailures, other]

theorem trailingFailures_success (gen : Nat) (e : Entry) (history : List Entry)
    (success : e.verdictFor gen = some true) : trailingFailures gen (e :: history) = 0 := by
  simp [trailingFailures, success]

theorem trailingFailures_failure (gen : Nat) (e : Entry) (history : List Entry)
    (failure : e.verdictFor gen = some false) :
    trailingFailures gen (e :: history) = trailingFailures gen history + 1 := by
  simp [trailingFailures, failure]

theorem trailingFailures_none (gen : Nat) (history : List Entry)
    (other : ∀ e ∈ history, e.verdictFor gen = none) : trailingFailures gen history = 0 := by
  have empty : history.filterMap (Entry.verdictFor gen) = [] := by
    rw [List.filterMap_eq_nil_iff]
    exact other
  simp [trailingFailures, empty]

theorem verdictFor_done {now : Int} {answer : Answer} {before after : Breaker} {t : Ticket}
    {success : Bool} {gen : Nat} (current : t.gen = gen) :
    Entry.verdictFor gen ⟨now, .done t success, answer, before, after⟩ = some success := by
  simp [Entry.verdictFor, current]

/-! ## The counter is the trailing run -/

structure Session.Counted (s : Session) : Prop where
  sound : s.Sound
  past : ∀ e ∈ s.history, ∀ gen, s.b.gen < gen → e.verdictFor gen = none
  failures : s.b.state = .closed → s.b.consecFail = (trailingFailures s.b.gen s.history : Int) ∧
    s.b.consecFail < s.b.cfg.failureThreshold

theorem verdictFor_later {b before after : Breaker} {outstanding : List Ticket} {now : Int}
    {call : Call} {answer : Answer} (sound : SoundAt b outstanding)
    (handed : ∀ t ∈ call.handsBack, t ∈ outstanding) (gen : Nat) (later : b.gen < gen) :
    Entry.verdictFor gen ⟨now, call, answer, before, after⟩ = none := by
  cases call with
  | done t success =>
      have := sound.issued_before t (handed t rfl)
      simp only [Entry.verdictFor, if_neg (show t.gen ≠ gen by omega)]
  | allow | cancel | available | state => rfl

theorem Session.counted_step (s : Session) (event : Int × Call) (next : Session)
    (counted : s.Counted) (stepped : s.step event = some next) : next.Counted := by
  refine Session.step_preserves Session.Counted ?_ ?_ s event next counted stepped
  · intro s now counted _ _ _
    refine ⟨counted.sound.of_move rfl (fun _ member => member) (fun _ => rfl), ?_, ?_⟩
    · intro e member gen later
      exact counted.past e member gen (by simp only [promoted] at later; omega)
    · intro closed
      cases closed
  · intro s now call after answer before _ counted _ handed _ effect
    have threshold_pos := s.b.clamped.failureThreshold_pos
    refine ⟨soundAt_act counted.sound handed effect, ?_, ?_⟩
    · intro e member gen later
      have before_lt : s.b.gen < gen := by
        rcases effect.moves with ⟨_, sameGen, _⟩ | ⟨_, nextGen, _⟩ <;> dsimp only at later <;> omega
      rcases List.mem_cons.mp member with rfl | old
      · exact verdictFor_later counted.sound handed gen before_lt
      · exact counted.past e old gen before_lt
    · intro closed
      cases effect with
      | quiet _ _ noTicket stale slotless =>
          have silent : Entry.verdictFor s.b.gen ⟨now, call, answer, before, s.b⟩ = none := by
            cases call with
            | done t success =>
                rcases stale t success rfl with other | opened | ⟨half, _⟩
                · simp [Entry.verdictFor, other]
                · rw [closed] at opened
                  cases opened
                · rw [closed] at half
                  cases half
            | allow | cancel | available | state => rfl
          dsimp only
          rw [trailingFailures_skip _ _ _ silent]
          exact counted.failures closed
      | pass _ =>
          dsimp only
          rw [trailingFailures_skip _ _ _ rfl]
          exact counted.failures closed
      | succeed t current _ =>
          dsimp only
          rw [trailingFailures_success _ _ _ (verdictFor_done current)]
          exact ⟨rfl, by omega⟩
      | count t current _ below =>
          dsimp only
          rw [trailingFailures_failure _ _ _ (verdictFor_done current)]
          have := (counted.failures closed).1
          exact ⟨by push_cast; omega, below⟩
      | recover t current half isProbe =>
          have silent : ∀ e ∈ (⟨now, .done t true, .nothing, before, s.b.recovered⟩ : Entry) ::
              s.history, e.verdictFor (s.b.gen + 1) = none := by
            intro e member
            rcases List.mem_cons.mp member with rfl | old
            · exact verdictFor_later counted.sound handed _ (Nat.lt_succ_self _)
            · exact counted.past e old _ (Nat.lt_succ_self _)
          rw [show s.b.recovered.gen = s.b.gen + 1 from rfl, trailingFailures_none _ _ silent]
          exact ⟨rfl, by simp only [recovered]; omega⟩
      | trip | reopen => cases closed
      | probe half => exact absurd (half.symm.trans closed) (by simp)
      | giveBack t current half => exact absurd (half.symm.trans closed) (by simp)

theorem Session.counted_of_reached {cfg : Config} {clock : Int} {events : List (Int × Call)}
    {s : Session} (reached : Session.Reached cfg clock events s) : s.Counted := by
  refine Session.reached_invariant Session.Counted cfg clock ?_ Session.counted_step events s reached
  have threshold_pos := (new cfg).clamped.failureThreshold_pos
  refine ⟨Session.sound_start cfg clock, by simp [Session.start], ?_⟩
  intro _
  exact ⟨rfl, by simp only [Session.start, new] at *; omega⟩

theorem done_failure_of_closed (b : Breaker) (now : Int) (t : Ticket) (closed : b.state = .closed)
    (current : t.gen = b.gen) :
    b.done now t false =
      if b.cfg.failureThreshold ≤ b.consecFail + 1 then
        tripLocked { b with consecFail := b.consecFail + 1 } now
      else { b with consecFail := b.consecFail + 1 } := by
  have ready : b.advanceLocked now = b := by
    simp [advanceLocked, closed]
  simp only [done, ready, current, closed, ne_eq, not_true_eq_false, if_false,
    Bool.false_eq_true]

/-- As many failures as are missing at the threshold, reported with tickets of
the closed generation, open the breaker. -/
theorem opened_by_failures (b : Breaker) (closed : b.state = .closed)
    (below : b.consecFail < b.cfg.failureThreshold) (reports : List (Int × Ticket))
    (current : ∀ r ∈ reports, r.2.gen = b.gen)
    (enough : b.cfg.failureThreshold ≤ b.consecFail + reports.length) :
    ∃ k ≤ reports.length,
      ((reports.take k).foldl (fun b r => b.done r.1 r.2 false) b).state = .opened := by
  induction reports generalizing b with
  | nil =>
      simp only [List.length_nil] at enough
      omega
  | cons report rest ih =>
      have counted := done_failure_of_closed b report.1 report.2 closed
        (current report List.mem_cons_self)
      rw [List.length_cons] at enough
      by_cases reaches : b.cfg.failureThreshold ≤ b.consecFail + 1
      · refine ⟨1, by simp, ?_⟩
        rw [if_pos reaches] at counted
        simp [counted, tripLocked, setLocked, closed]
      · rw [if_neg reaches] at counted
        obtain ⟨k, few, opened⟩ := ih { b with consecFail := b.consecFail + 1 } closed
          (by dsimp only; omega) (fun r member => current r (List.mem_cons_of_mem _ member))
          (by dsimp only; push_cast at enough; omega)
        refine ⟨k + 1, by simpa using few, ?_⟩
        rw [List.take_succ_cons, List.foldl_cons, counted]
        exact opened

/-! ## The callbacks are a legal walk -/

def WalkedAt (b : Breaker) : Prop := Walk b.changes b.state ∧ b.gen = b.changes.length

theorem legal_of_effect {b after : Breaker} {now : Int} {call : Call} {answer : Answer}
    (effect : Effect b now call after answer) (moved : after.state ≠ b.state) :
    legal b.state after.state = true := by
  cases effect with
  | quiet | pass | probe | succeed | count | giveBack => exact absurd rfl moved
  | trip t current closed enough => rw [closed]; rfl
  | recover t current half isProbe => rw [half]; rfl
  | reopen t current half isProbe => rw [half]; rfl

theorem walkedAt_promoted {b : Breaker} (walked : WalkedAt b) (opened : b.state = .opened) :
    WalkedAt b.promoted := by
  refine ⟨⟨rfl, rfl, opened ▸ walked.1⟩, ?_⟩
  simp only [promoted, List.length_cons]
  rw [walked.2]

theorem walkedAt_of_effect {b after : Breaker} {now : Int} {call : Call} {answer : Answer}
    (walked : WalkedAt b) (effect : Effect b now call after answer) : WalkedAt after := by
  rcases effect.moves with ⟨sameState, sameGen, sameChanges⟩ | ⟨moved, nextGen, grown⟩
  · unfold WalkedAt
    rw [sameState, sameGen, sameChanges]
    exact walked
  · refine ⟨?_, ?_⟩
    · rw [grown]
      exact ⟨rfl, legal_of_effect effect moved, walked.1⟩
    · rw [nextGen, grown, List.length_cons, walked.2]

theorem Session.walked_of_reached {cfg : Config} {clock : Int} {events : List (Int × Call)}
    {s : Session} (reached : Session.Reached cfg clock events s) : WalkedAt s.b := by
  refine Session.reached_invariant (fun s => WalkedAt s.b) cfg clock ⟨rfl, rfl⟩ ?_ events s reached
  refine Session.step_preserves _ ?_ ?_
  · intro s now walked _ opened _
    exact walkedAt_promoted walked opened
  · intro s now call after answer before _ walked _ _ _ effect
    exact walkedAt_of_effect walked effect

theorem Session.changes_of_reached {cfg : Config} {clock : Int} {events : List (Int × Call)}
    {s : Session} (reached : Session.Reached cfg clock events s) :
    s.b.changes = s.history.flatMap Entry.fired := by
  refine Session.reached_invariant (fun s => s.b.changes = s.history.flatMap Entry.fired) cfg
    clock rfl ?_ events s reached
  intro s event next same stepped
  obtain ⟨_, _, rfl⟩ := Session.step_some s next event stepped
  have effect := perform_effect s.b event.1 event.2
  simp only [List.flatMap_cons]
  rw [fired_of_effect rfl effect, changes_of_effect rfl effect, same]

/-- The breaker trips exactly at the `Done` that completes the threshold of
consecutive failures of the current generation; the counter is that run; the
callbacks are a walk over the legal transitions, one for each generation. -/
theorem trips_exactly_at_threshold (cfg : Config) (clock : Int) (events : List (Int × Call))
    (s : Session) (reached : Session.Reached cfg clock events s) :
    (∀ now call next, s.step (now, call) = some next →
      ((s.b.state = .closed ∧ next.b.state = .opened) ↔
        s.b.state = .closed ∧ ∃ t, call = .done t false ∧ t.gen = s.b.gen ∧
          (trailingFailures s.b.gen next.history : Int) = cfg.clamp.failureThreshold)) ∧
      (s.b.state = .closed →
        s.b.consecFail = (trailingFailures s.b.gen s.history : Int) ∧
        s.b.consecFail < cfg.clamp.failureThreshold) ∧
      Walk s.b.changes s.b.state ∧
      s.b.changes = s.history.flatMap Entry.fired ∧
      s.b.gen = s.b.changes.length := by
  have counted := Session.counted_of_reached reached
  have walked := Session.walked_of_reached reached
  have sameCfg := Session.cfg_of_reached reached
  refine ⟨?_, ?_, walked.1, Session.changes_of_reached reached, walked.2⟩
  · intro now call next stepped
    obtain ⟨_, _, rfl⟩ := Session.step_some s next _ stepped
    dsimp only
    -- from Closed there is nothing to promote
    have effect := perform_effect s.b now call
    constructor
    · rintro ⟨closed, opened⟩
      have same : s.b.ready now call = s.b := by
        rcases ready_cases s.b now call with same | ⟨wasOpen, _, _⟩
        · exact same
        · exact absurd (closed.symm.trans wasOpen) (by simp)
      rw [same] at effect
      refine ⟨closed, ?_⟩
      have failures := counted.failures closed
      generalize s.b.perform now call = result at effect opened ⊢
      obtain ⟨after, answer⟩ := result
      cases effect with
      | trip t current _ enough =>
          refine ⟨t, rfl, current, ?_⟩
          rw [trailingFailures_failure _ _ _ (verdictFor_done current), ← sameCfg]
          push_cast
          omega
      | quiet | pass | probe | succeed | count | giveBack =>
          exact absurd (closed.symm.trans opened) (by simp)
      | recover t current half => exact absurd (closed.symm.trans half) (by simp)
      | reopen t current half => exact absurd (closed.symm.trans half) (by simp)
    · rintro ⟨closed, t, rfl, current, complete⟩
      refine ⟨closed, ?_⟩
      have failures := counted.failures closed
      rw [trailingFailures_failure _ _ _ (verdictFor_done current), ← sameCfg] at complete
      push_cast at complete
      have same : s.b.advanceLocked now = s.b := by
        rw [advanceLocked_eq, if_neg (by simp [closed])]
      have enough : s.b.cfg.failureThreshold ≤ s.b.consecFail + 1 := by omega
      simp [perform, done, same, current, closed, enough, tripLocked, setLocked]
  · intro closed
    rw [← sameCfg]
    exact counted.failures closed

/-- Threshold two: a failure, a success, then two failures in a row. -/
def secondStreakTrips : List (Int × Call) :=
  [(0, .allow), (0, .allow), (0, .allow), (0, .allow), (0, .done ⟨false, 0⟩ false),
    (0, .done ⟨false, 0⟩ true), (0, .done ⟨false, 0⟩ false)]

theorem secondStreakTrips_at_fourth :
    ∃ s next, Session.Reached ⟨2, second, 0, 1⟩ 0 secondStreakTrips s ∧
      s.step (0, .done ⟨false, 0⟩ false) = some next ∧
      s.b.state = .closed ∧ next.b.state = .opened := by
  refine ⟨_, _, rfl, rfl, ?_⟩
  exact ((trips_exactly_at_threshold ⟨2, second, 0, 1⟩ 0 secondStreakTrips _ rfl).1 0
    (.done ⟨false, 0⟩ false) _ rfl).mpr ⟨rfl, ⟨false, 0⟩, rfl, rfl, by decide⟩

end RadixGates.Breaker
