import RadixGates.Breaker.Tickets

/-!
# Where a verdict comes from

A result counts only if its ticket was issued in the current period.  The
history keeps, for every outstanding ticket of the current generation, the
`Allow` that issued it, with no transition after it; so the probe whose
success closes the breaker was admitted by the half-open period it ends.
-/

set_option autoImplicit false

namespace RadixGates.Breaker

/-- The history contains the `Allow` that issued the ticket in the given
state, and no transition happened since. -/
def IssuedSince (history : List Entry) (st : State) (t : Ticket) : Prop :=
  ∃ between issue earlier, history = between ++ issue :: earlier ∧
    issue.call = .allow ∧ issue.answer = .ticket (some t) ∧ issue.after.state = st ∧
    ∀ e ∈ between, e.fired = []

/-- Every HalfOpen to Closed transition of the history is a successful `Done`
of a probe that was issued in the same half-open period. -/
def ClosedByProbes (history : List Entry) : Prop :=
  ∀ newer e older, history = newer ++ e :: older → (State.halfOpen, State.closed) ∈ e.fired →
    ∃ t, e.call = .done t true ∧ t.probe = true ∧
      e.fired = [(.halfOpen, .closed)] ∧ IssuedSince older .halfOpen t

structure Session.Traced (s : Session) : Prop where
  sound : s.Sound
  issued : ∀ t ∈ s.outstanding, t.gen = s.b.gen → IssuedSince s.history s.b.state t
  closed : ClosedByProbes s.history

theorem ClosedByProbes.cons {history : List Entry} (earlier : ClosedByProbes history)
    (e : Entry)
    (head : (State.halfOpen, State.closed) ∈ e.fired →
      ∃ t, e.call = .done t true ∧ t.probe = true ∧
        e.fired = [(.halfOpen, .closed)] ∧ IssuedSince history .halfOpen t) :
    ClosedByProbes (e :: history) := by
  intro newer split older cut fired
  cases newer with
  | nil =>
      obtain ⟨rfl, rfl⟩ := List.cons.inj cut
      exact head fired
  | cons first rest =>
      exact earlier rest split older (List.cons.inj cut).2 fired

theorem IssuedSince.cons {history : List Entry} {st : State} {t : Ticket}
    (earlier : IssuedSince history st t) (e : Entry) (still : e.fired = []) :
    IssuedSince (e :: history) st t := by
  obtain ⟨between, issue, older, cut, call, answer, state, quiet⟩ := earlier
  refine ⟨e :: between, issue, older, by rw [cut]; rfl, call, answer, state, ?_⟩
  intro x member
  rcases List.mem_cons.mp member with rfl | old
  · exact still
  · exact quiet x old

theorem no_promotion_of_current {before : Breaker} {outstanding : List Ticket} {now : Int}
    {call : Call} (sound : SoundAt before outstanding) (t : Ticket) (member : t ∈ outstanding)
    (current : t.gen = (before.ready now call).gen) : before.ready now call = before := by
  rcases ready_cases before now call with same | ⟨_, _, lifted⟩
  · exact same
  · have := sound.issued_before t member
    rw [lifted] at current
    simp only [promoted] at current
    omega

/-- So a ticket issued before a `Done` that promotes is stale for it, and the
second clock reading of the source is never taken. -/
theorem Session.done_after_promotion_is_stale (s : Session) (sound : s.Sound) (now : Int)
    (t : Ticket) (success : Bool) (member : t ∈ s.outstanding)
    (lifted : s.b.advanceLocked now ≠ s.b) :
    s.b.done now t success = s.b.advanceLocked now := by
  have stale : t.gen ≠ (s.b.advanceLocked now).gen := by
    intro current
    have same : s.b.ready now .allow = s.b := no_promotion_of_current sound t member current
    exact lifted same
  simp only [done, if_pos stale]

theorem changes_of_effect {b before after : Breaker} {now : Int} {call : Call} {answer : Answer}
    (isReady : b = before.ready now call) (effect : Effect b now call after answer) :
    after.changes =
      ((if after.state = b.state then [] else [(b.state, after.state)]) ++
        (if b = before then [] else [(.opened, .halfOpen)])) ++ before.changes := by
  have own : after.changes =
      (if after.state = b.state then [] else [(b.state, after.state)]) ++ b.changes := by
    rcases effect.moves with ⟨sameState, _, sameChanges⟩ | ⟨otherState, _, moved⟩
    · rw [if_pos sameState, sameChanges]
      rfl
    · rw [if_neg otherState, moved]
      rfl
  have lead : b.changes = (if b = before then [] else [(.opened, .halfOpen)]) ++
      before.changes := by
    rcases ready_cases before now call with same | ⟨_, _, lifted⟩
    · rw [if_pos (isReady.trans same), isReady, same]
      rfl
    · have other : b ≠ before := by
        intro same
        have := congrArg Breaker.gen (isReady.symm.trans same)
        rw [lifted] at this
        simp [promoted] at this
      rw [if_neg other, isReady, lifted]
      rfl
  rw [own, lead, List.append_assoc]

theorem fired_of_effect {b before after : Breaker} {now : Int} {call : Call} {answer : Answer}
    (isReady : b = before.ready now call) (effect : Effect b now call after answer) :
    Entry.fired ⟨now, call, answer, before, after⟩ =
      (if after.state = b.state then [] else [(b.state, after.state)]) ++
        (if b = before then [] else [(.opened, .halfOpen)]) :=
  Entry.fired_eq _ _ (changes_of_effect isReady effect)

theorem Effect.issued_current {b after : Breaker} {now : Int} {call : Call} {answer : Answer}
    (effect : Effect b now call after answer) (t : Ticket) (issued : answer.issued = some t) :
    call = .allow ∧ answer = .ticket (some t) ∧ after.state = b.state := by
  cases effect with
  | quiet _ _ noTicket => rw [noTicket] at issued; cases issued
  | pass closed => cases issued; exact ⟨rfl, rfl, rfl⟩
  | probe half room => cases issued; exact ⟨rfl, rfl, rfl⟩
  | succeed | count | trip | recover | reopen | giveBack => cases issued

theorem mem_settle (outstanding : List Ticket) (call : Call) (answer : Answer) (t : Ticket)
    (member : t ∈ settle outstanding call answer) :
    answer.issued = some t ∨ t ∈ outstanding := by
  cases issued : answer.issued with
  | none => exact Or.inr (mem_settle_old outstanding call answer issued t member)
  | some new =>
      simp only [settle, issued, Option.toList_some, List.singleton_append,
        List.mem_cons] at member
      rcases member with rfl | old
      · exact Or.inl rfl
      · cases back : call.handsBack with
        | none => exact Or.inr (by simpa [back] using old)
        | some handed => exact Or.inr (List.mem_of_mem_erase (by simpa [back] using old))

theorem Session.traced_step (s : Session) (event : Int × Call) (next : Session)
    (traced : s.Traced) (stepped : s.step event = some next) : next.Traced := by
  refine Session.step_preserves Session.Traced ?_ ?_ s event next traced stepped
  · intro s now traced _ _ _
    refine ⟨traced.sound.of_move rfl (fun _ member => member) (fun _ => rfl), ?_, traced.closed⟩
    intro t member current
    have := traced.sound.issued_before t member
    simp only [promoted] at current
    omega
  · intro s now call after answer before unpromoted traced _ handed isReady effect
    have sound := soundAt_act traced.sound handed effect
    refine ⟨sound, ?_, ?_⟩
    · intro t member current
      rcases effect.moves with ⟨sameState, sameGen, sameChanges⟩ | ⟨_, nextGen, _⟩
      · rcases mem_settle s.outstanding call answer t member with issued | old
        · obtain ⟨isAllow, isTicket, _⟩ := effect.issued_current t issued
          exact ⟨[], _, s.history, rfl, isAllow, isTicket, rfl, by simp⟩
        · have currentBefore : t.gen = s.b.gen := current.trans sameGen
          have same : s.b = before :=
            isReady.trans (no_promotion_of_current unpromoted.sound t old (isReady ▸ currentBefore))
          have issued := traced.issued t old currentBefore
          rw [← sameState] at issued
          apply issued.cons _
          rw [fired_of_effect isReady effect, if_pos sameState, if_pos same]
          rfl
      · -- a transition leaves every ticket behind
        have old : t ∈ s.outstanding := by
          rcases mem_settle s.outstanding call answer t member with issued | old
          · obtain ⟨_, _, sameState⟩ := effect.issued_current t issued
            rcases effect.moves with ⟨_, sameGen, _⟩ | ⟨otherState, _, _⟩
            · omega
            · exact absurd sameState otherState
          · exact old
        have := traced.sound.issued_before t old
        simp only at current
        omega
    · apply traced.closed.cons _
      intro closing
      have fired := fired_of_effect isReady effect
      rw [fired] at closing
      have closes : s.b.state = .halfOpen ∧ after.state = .closed := by
        rcases List.mem_append.mp closing with own | lead
        · split at own
          · cases own
          · simp only [List.mem_singleton, Prod.mk.injEq] at own
            exact ⟨own.1.symm, own.2.symm⟩
        · split at lead
          · cases lead
          · simp at lead
      cases effect with
      | recover t current half isProbe =>
          have member : t ∈ s.outstanding := handed t rfl
          have same : s.b = before :=
            isReady.trans (no_promotion_of_current unpromoted.sound t member (isReady ▸ current))
          refine ⟨t, rfl, isProbe, ?_, half ▸ traced.issued t member current⟩
          rw [fired, if_pos same, half]
          rfl
      | quiet | pass | probe | succeed | count | giveBack =>
          have := closes.1.symm.trans closes.2
          cases this
      | trip | reopen => cases closes.2

theorem Session.traced_of_reached {cfg : Config} {clock : Int} {events : List (Int × Call)}
    {s : Session} (reached : Session.Reached cfg clock events s) : s.Traced := by
  refine Session.reached_invariant Session.Traced cfg clock ?_ Session.traced_step events s reached
  refine ⟨Session.sound_start cfg clock, by simp [Session.start], ?_⟩
  intro newer e older cut
  simp [Session.start] at cut

/-- Results with a ticket of an earlier generation are ignored, and only a
probe of the current half-open period closes the breaker. -/
theorem only_current_probe_closes (cfg : Config) (clock : Int) (events : List (Int × Call))
    (s : Session) (reached : Session.Reached cfg clock events s) :
    (∀ now t success next, s.step (now, .done t success) = some next → t.gen < s.b.gen →
        next.b = s.b.advanceLocked now) ∧
      (∀ now t next, s.step (now, .cancel t) = some next → t.gen < s.b.gen → next.b = s.b) ∧
      ∀ newer e older, s.history = newer ++ e :: older →
        (State.halfOpen, State.closed) ∈ e.fired →
        ∃ t, e.call = .done t true ∧ t.probe = true ∧ e.fired = [(.halfOpen, .closed)] ∧
          ∃ between issue earlier, older = between ++ issue :: earlier ∧
            issue.call = .allow ∧ issue.answer = .ticket (some t) ∧
            issue.after.state = .halfOpen ∧ ∀ x ∈ between, x.fired = [] := by
  have traced := Session.traced_of_reached reached
  refine ⟨?_, ?_, traced.closed⟩
  · intro now t success next stepped older
    obtain ⟨_, _, rfl⟩ := Session.step_some s next _ stepped
    have stale : t.gen ≠ (s.b.advanceLocked now).gen := by
      rw [advanceLocked_eq]
      split
      · simp only [promoted]
        omega
      · omega
    simp only [perform, done, if_pos stale]
  · intro now t next stepped older
    obtain ⟨_, _, rfl⟩ := Session.step_some s next _ stepped
    have slotless : ¬ (t.probe = true ∧ s.b.state = .halfOpen ∧ t.gen = s.b.gen ∧
        0 < s.b.halfInFlight) := by
      rintro ⟨_, _, current, _⟩
      omega
    simp only [perform, cancel, if_neg slotless]

/-- A request admitted while Closed that comes back, successful, in the
half-open period, before the probe does. -/
def staleThenProbe : List (Int × Call) :=
  [(0, .allow), (0, .allow), (0, .done ⟨false, 0⟩ false), (second, .allow),
    (second, .done ⟨false, 0⟩ true), (second, .done ⟨true, 2⟩ true)]

theorem staleThenProbe_closes_by_probe :
    (∃ s next, Session.Reached ⟨1, second, 0, 1⟩ 0 (staleThenProbe.take 4) s ∧
      s.step (second, .done ⟨false, 0⟩ true) = some next ∧
      next.b = s.b.advanceLocked second) ∧
    ∃ s e older, Session.Reached ⟨1, second, 0, 1⟩ 0 staleThenProbe s ∧
      s.history = e :: older ∧ e.fired = [(.halfOpen, .closed)] ∧
      ∃ t, e.call = .done t true ∧ t.probe = true := by
  refine ⟨⟨_, _, rfl, rfl, ?_⟩, _, _, _, rfl, rfl, rfl, ?_⟩
  · exact (only_current_probe_closes ⟨1, second, 0, 1⟩ 0 (staleThenProbe.take 4) _ rfl).1
      second ⟨false, 0⟩ true _ rfl (by decide)
  · obtain ⟨t, isDone, isProbe, _⟩ :=
      (only_current_probe_closes ⟨1, second, 0, 1⟩ 0 staleThenProbe _ rfl).2.2 [] _ _ rfl
        (by decide)
    exact ⟨t, isDone, isProbe⟩

end RadixGates.Breaker
