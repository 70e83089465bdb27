import Mathlib.Tactic.Linarith
import Mathlib.Tactic.Ring
import RadixGates.Breaker.Verdicts

/-!
# The cool-down law

The cool-down of an Open period is a function of the callbacks: the open
duration, doubled once for each failed probe since the breaker was last
Closed, capped at the maximum.  During the cool-down nothing is admitted; the
first call that looks afterwards finds a half-open period with every slot
free, whichever late result promoted the breaker before it.
-/

set_option autoImplicit false

namespace RadixGates.Breaker

/-- Failed-probe reopenings since the breaker was last Closed; the callbacks
are newest first. -/
def reopenings : List (State × State) → Nat
  | [] => 0
  | (.halfOpen, .opened) :: rest => reopenings rest + 1
  | (_, .halfOpen) :: rest => reopenings rest
  | _ :: _ => 0

def Config.coolDown (cfg : Config) (k : Nat) : Int :=
  min (cfg.openDuration * 2 ^ k) cfg.maxOpenDuration

def Config.Fits (cfg : Config) : Prop := 2 * cfg.maxOpenDuration < 2 ^ 63

instance (cfg : Config) : Decidable cfg.Fits :=
  inferInstanceAs (Decidable (2 * cfg.maxOpenDuration < 2 ^ 63))

theorem Config.coolDown_pos (cfg : Config) (clamped : cfg.Clamped) (k : Nat) :
    0 < cfg.coolDown k := by
  have openPos := clamped.openDuration_pos
  have maxPos : 0 < cfg.maxOpenDuration := openPos.trans_le clamped.open_le_max
  exact lt_min (mul_pos openPos (by positivity)) maxPos

theorem Config.coolDown_succ (cfg : Config) (clamped : cfg.Clamped) (fits : cfg.Fits) (k : Nat) :
    min (wrap64 (cfg.coolDown k * 2)) cfg.maxOpenDuration = cfg.coolDown (k + 1) := by
  have positive := cfg.coolDown_pos clamped k
  have capped : cfg.coolDown k ≤ cfg.maxOpenDuration := min_le_right _ _
  have noWrap : wrap64 (cfg.coolDown k * 2) = cfg.coolDown k * 2 := by
    unfold Config.Fits at fits
    exact wrap64_of_fits _ (by omega) (by omega)
  have maxPos : 0 < cfg.maxOpenDuration := clamped.openDuration_pos.trans_le clamped.open_le_max
  have doubled : cfg.openDuration * 2 ^ (k + 1) = cfg.openDuration * 2 ^ k * 2 := by ring
  rw [noWrap]
  unfold Config.coolDown
  rw [doubled]
  omega

theorem reopenings_of_closed (changes : List (State × State)) (walk : Walk changes .closed) :
    reopenings changes = 0 := by
  cases changes with
  | nil => rfl
  | cons head rest =>
      obtain ⟨source, target⟩ := head
      obtain ⟨rfl, allowed, _⟩ := walk
      cases source with
      | halfOpen => rfl
      | closed | opened => cases allowed

/-! ## The current cool-down along a run -/

structure CooledAt (cfg : Config) (b : Breaker) : Prop where
  sameCfg : b.cfg = cfg
  walked : WalkedAt b
  current : b.curOpen = cfg.coolDown (reopenings b.changes)

theorem cooledAt_of_effect {cfg : Config} {b after : Breaker} {now : Int} {call : Call}
    {answer : Answer} (fits : cfg.Fits) (cooled : CooledAt cfg b)
    (effect : Effect b now call after answer) : CooledAt cfg after := by
  obtain ⟨rfl, walked, current⟩ := cooled
  refine ⟨by cases effect <;> rfl, walkedAt_of_effect walked effect, ?_⟩
  cases effect with
  | quiet | pass | probe | succeed | count | giveBack => exact current
  | trip t _ closed enough =>
      have none : reopenings b.changes = 0 := reopenings_of_closed _ (closed ▸ walked.1)
      have same : reopenings (b.tripped now).changes = 0 := by
        simp [tripped, closed, reopenings]
      rw [same]
      rw [none] at current
      exact current
  | recover t _ half isProbe =>
      have base : b.cfg.coolDown 0 = b.cfg.openDuration := by
        simp [Config.coolDown, b.clamped.open_le_max]
      exact base.symm
  | reopen t _ half isProbe =>
      have more : reopenings (b.backedOff.tripped now).changes = reopenings b.changes + 1 := by
        simp [tripped, backedOff, half, reopenings]
      rw [more, ← b.cfg.coolDown_succ b.clamped fits, ← current]
      rfl

theorem Session.cooled_of_reached {cfg : Config} {clock : Int} {events : List (Int × Call)}
    {s : Session} (fits : cfg.clamp.Fits) (reached : Session.Reached cfg clock events s) :
    CooledAt cfg.clamp s.b := by
  refine Session.reached_invariant (fun s => CooledAt cfg.clamp s.b) cfg clock ?_ ?_ events s
    reached
  · have base : cfg.clamp.coolDown 0 = cfg.clamp.openDuration := by
      simp [Config.coolDown, cfg.clamp_clamped.open_le_max]
    exact ⟨rfl, ⟨rfl, rfl⟩, base.symm⟩
  · refine Session.step_preserves _ ?_ ?_
    · intro s now cooled _ opened _
      exact ⟨cooled.sameCfg, walkedAt_promoted cooled.walked opened, cooled.current⟩
    · intro s now call after answer before _ cooled _ _ _ effect
      exact cooledAt_of_effect fits cooled effect

/-! ## One Open period -/

def Call.observes : Call → Bool
  | .allow => true
  | .available => true
  | .state => true
  | _ => false

/-- An Open period that ends at `finish`, or its half-open successor before any
probe was admitted. -/
structure Session.Cooling (finish : Int) (s : Session) : Prop where
  sound : s.Sound
  phase : (s.b.state = .opened ∧ s.b.openUntil = finish) ∨
    (s.b.state = .halfOpen ∧ s.b.halfInFlight = 0 ∧ finish ≤ s.clock ∧
      ∀ t ∈ s.outstanding, t.gen ≠ s.b.gen)

theorem Effect.of_opened {b after : Breaker} {now : Int} {call : Call} {answer : Answer}
    (effect : Effect b now call after answer)
    (opened : b.state = .opened) : after = b ∧ answer.issued = none := by
  cases effect with
  | quiet _ _ noTicket => exact ⟨rfl, noTicket⟩
  | pass closed => exact absurd (opened.symm.trans closed) (by simp)
  | probe half => exact absurd (opened.symm.trans half) (by simp)
  | succeed t current closed => exact absurd (opened.symm.trans closed) (by simp)
  | count t current closed => exact absurd (opened.symm.trans closed) (by simp)
  | trip t current closed => exact absurd (opened.symm.trans closed) (by simp)
  | recover t current half => exact absurd (opened.symm.trans half) (by simp)
  | reopen t current half => exact absurd (opened.symm.trans half) (by simp)
  | giveBack t current half => exact absurd (opened.symm.trans half) (by simp)

theorem Effect.of_fresh {b after : Breaker} {outstanding : List Ticket} {now : Int}
    {call : Call} {answer : Answer} (effect : Effect b now call after answer)
    (half : b.state = .halfOpen) (handed : ∀ t ∈ call.handsBack, t ∈ outstanding)
    (older : ∀ t ∈ outstanding, t.gen ≠ b.gen) (handsBack : call.observes = false) :
    after = b ∧ answer.issued = none := by
  cases effect with
  | quiet _ _ noTicket => exact ⟨rfl, noTicket⟩
  | pass closed => exact absurd (half.symm.trans closed) (by simp)
  | probe half room => cases handsBack
  | succeed t current closed => exact absurd current (older t (handed t rfl))
  | count t current closed => exact absurd current (older t (handed t rfl))
  | trip t current closed => exact absurd current (older t (handed t rfl))
  | recover t current half => exact absurd current (older t (handed t rfl))
  | reopen t current half => exact absurd current (older t (handed t rfl))
  | giveBack t current half => exact absurd current (older t (handed t rfl))

theorem Session.cooling_step (finish : Int) (s : Session) (event : Int × Call) (next : Session)
    (cooling : s.Cooling finish) (early : event.2.observes = true → event.1 < finish)
    (stepped : s.step event = some next) : next.Cooling finish := by
  have sound := Session.sound_step s event next cooling.sound stepped
  obtain ⟨forward, handed, rfl⟩ := Session.step_some s next event stepped
  obtain ⟨now, call⟩ := event
  refine ⟨sound, ?_⟩
  have effect := perform_effect s.b now call
  generalize s.b.perform now call = result at effect ⊢
  obtain ⟨after, answer⟩ := result
  dsimp only at forward handed early effect ⊢
  rcases cooling.phase with ⟨opened, sameUntil⟩ | ⟨half, free, passed, older⟩
  · rcases ready_cases s.b now call with same | ⟨_, late, lifted⟩
    · rw [same] at effect
      obtain ⟨rfl, _⟩ := effect.of_opened opened
      exact Or.inl ⟨opened, sameUntil⟩
    · -- the promotion came from a late result, which is stale for the new period
      have newer : ∀ t ∈ s.outstanding, t.gen ≠ s.b.promoted.gen := by
        intro t member
        have := cooling.sound.issued_before t member
        simp only [promoted]
        omega
      have handsBack : call.observes = false := by
        cases looks : call.observes with
        | false => rfl
        | true => exact absurd (early looks) (by omega)
      rw [lifted] at effect
      obtain ⟨rfl, noTicket⟩ := effect.of_fresh rfl handed newer handsBack
      refine Or.inr ⟨rfl, rfl, by omega, ?_⟩
      intro t member
      exact newer t (mem_settle_old _ _ _ noTicket t member)
  · have same : s.b.ready now call = s.b := by
      rcases ready_cases s.b now call with same | ⟨opened, _, _⟩
      · exact same
      · exact absurd (half.symm.trans opened) (by simp)
    have handsBack : call.observes = false := by
      cases looks : call.observes with
      | false => rfl
      | true => exact absurd (early looks) (by omega)
    rw [same] at effect
    obtain ⟨rfl, noTicket⟩ := effect.of_fresh half handed older handsBack
    refine Or.inr ⟨half, free, by omega, ?_⟩
    intro t member
    exact older t (mem_settle_old _ _ _ noTicket t member)

theorem Session.clock_of_run (events : List (Int × Call)) (s final : Session)
    (reached : Runs.run Session.step s events = some final) :
    s.clock ≤ final.clock ∧ ∀ event ∈ events, event.1 ≤ final.clock := by
  induction events generalizing s with
  | nil =>
      cases Option.some.inj reached
      exact ⟨le_rfl, by simp⟩
  | cons event rest ih =>
      obtain ⟨next, stepped, rested⟩ := (Runs.run_cons_some _ s final event rest).mp reached
      obtain ⟨forward, _, rfl⟩ := Session.step_some s next event stepped
      obtain ⟨later, every⟩ := ih _ rested
      refine ⟨forward.trans later, ?_⟩
      intro other member
      rcases List.mem_cons.mp member with rfl | old
      · exact later
      · exact every other old

theorem Session.cooling_run (finish : Int) (later : List (Int × Call)) (s final : Session)
    (cooling : s.Cooling finish)
    (early : ∀ event ∈ later, event.2.observes = true → event.1 < finish)
    (reached : Runs.run Session.step s later = some final) : final.Cooling finish :=
  Runs.run_preserves_of_forall Session.step (Session.Cooling finish)
    (fun event => event.2.observes = true → event.1 < finish)
    (fun s event next cooling early stepped =>
      Session.cooling_step finish s event next cooling early stepped)
    later s final cooling early reached

theorem Session.opens_until {cfg : Config} {clock : Int} {events : List (Int × Call)}
    {s next : Session} (fits : cfg.clamp.Fits) (reached : Session.Reached cfg clock events s)
    (now : Int) (call : Call) (stepped : s.step (now, call) = some next) (e : Entry)
    (isLast : next.history = e :: s.history) (source : State)
    (enters : (source, State.opened) ∈ e.fired) :
    next.b.state = .opened ∧
      next.b.openUntil = now + cfg.clamp.coolDown (reopenings next.b.changes) := by
  have nextReached : Session.Reached cfg clock (events ++ [(now, call)]) next :=
    Runs.run_snoc Session.step events (now, call) _ s next reached stepped
  have cooled := Session.cooled_of_reached fits nextReached
  obtain ⟨_, _, rfl⟩ := Session.step_some s next _ stepped
  dsimp only at isLast cooled ⊢
  obtain ⟨rfl, _⟩ := List.cons.inj isLast
  have effect := perform_effect s.b now call
  rw [fired_of_effect rfl effect] at enters
  have opens : (s.b.perform now call).1.state ≠ (s.b.ready now call).state ∧
      (s.b.perform now call).1.state = .opened := by
    rcases List.mem_append.mp enters with own | lead
    · split at own
      · cases own
      · rename_i moved
        simp only [List.mem_singleton, Prod.mk.injEq] at own
        exact ⟨moved, own.2.symm⟩
    · split at lead
      · cases lead
      · simp at lead
  rw [← cooled.current]
  generalize s.b.perform now call = result at effect opens ⊢
  obtain ⟨after, answer⟩ := result
  cases effect with
  | quiet | pass | probe | succeed | count | giveBack => exact absurd rfl opens.1
  | trip => exact ⟨rfl, rfl⟩
  | reopen => exact ⟨rfl, rfl⟩
  | recover => cases opens.2

theorem cool_down_law (cfg : Config) (clock : Int) (events : List (Int × Call)) (s next : Session)
    (fits : cfg.clamp.Fits) (reached : Session.Reached cfg clock events s)
    (T : Int) (call : Call) (stepped : s.step (T, call) = some next) (e : Entry)
    (isLast : next.history = e :: s.history) (source : State)
    (enters : (source, State.opened) ∈ e.fired) :
    next.b.openUntil = T + cfg.clamp.coolDown (reopenings next.b.changes) ∧
      ∀ later final, Runs.run Session.step next later = some final →
        (∀ now, final.clock ≤ now →
          now < T + cfg.clamp.coolDown (reopenings next.b.changes) →
          (final.b.perform now .available).2 = .available false ∧
          (final.b.perform now .allow).2 = .ticket none) ∧
        ((∀ event ∈ later, event.2.observes = true →
            event.1 < T + cfg.clamp.coolDown (reopenings next.b.changes)) →
          ∀ now, final.clock ≤ now →
            T + cfg.clamp.coolDown (reopenings next.b.changes) ≤ now →
            (final.b.advanceLocked now).state = .halfOpen ∧
            (final.b.advanceLocked now).halfInFlight = 0 ∧
            (final.b.perform now .state).2 = .state .halfOpen ∧
            (final.b.perform now .available).2 = .available true ∧
            (final.b.perform now .allow).2 =
              .ticket (some ⟨true, (final.b.advanceLocked now).gen⟩)) := by
  obtain ⟨opened, ends⟩ := Session.opens_until fits reached T call stepped e isLast source enters
  have sound := Session.sound_step s (T, call) next (Session.sound_of_reached reached) stepped
  have entered : next.Cooling (T + cfg.clamp.coolDown (reopenings next.b.changes)) :=
    ⟨sound, Or.inl ⟨opened, ends⟩⟩
  refine ⟨ends, ?_⟩
  generalize T + cfg.clamp.coolDown (reopenings next.b.changes) = finish at entered ⊢
  intro later final run
  refine ⟨?_, ?_⟩
  · intro now forward before
    have early : ∀ event ∈ later, event.2.observes = true → event.1 < finish := by
      intro event member _
      have := (Session.clock_of_run later next final run).2 event member
      omega
    rcases (Session.cooling_run finish later next final entered early run).phase with
      ⟨stillOpen, sameUntil⟩ | ⟨_, _, passed, _⟩
    · have stays : final.b.advanceLocked now = final.b := by
        rw [advanceLocked_eq, if_neg (by omega)]
      simp [perform, available, allow, stays, stillOpen]
    · omega
  · intro early now forward after
    have halfOpenMax_pos := final.b.clamped.halfOpenMax_pos
    have fresh : (final.b.advanceLocked now).state = .halfOpen ∧
        (final.b.advanceLocked now).halfInFlight = 0 ∧
        (final.b.advanceLocked now).cfg = final.b.cfg := by
      rcases (Session.cooling_run finish later next final entered early run).phase with
        ⟨stillOpen, sameUntil⟩ | ⟨half, free, _, _⟩
      · rw [advanceLocked_eq, if_pos ⟨stillOpen, by omega⟩]
        exact ⟨rfl, rfl, rfl⟩
      · rw [advanceLocked_eq, if_neg (by simp [half])]
        exact ⟨half, free, rfl⟩
    obtain ⟨half, free, sameCfg⟩ := fresh
    have room : (final.b.advanceLocked now).halfInFlight <
        (final.b.advanceLocked now).cfg.halfOpenMax := by
      rw [free, sameCfg]
      omega
    refine ⟨half, free, ?_, ?_, ?_⟩
    · simp [perform, readState, half]
    · simp [perform, available, half, room]
    · simp [perform, allow, half, room]

/-- A failed probe of a breaker with threshold one, one second and a cap of
three: the second Open period lasts two seconds. -/
def failedProbe : List (Int × Call) :=
  [(0, .allow), (0, .done ⟨false, 0⟩ false), (second, .allow)]

theorem failedProbe_doubles :
    ∃ s next, Session.Reached ⟨1, second, 3000000000, 1⟩ 0 failedProbe s ∧
      s.step (second, .done ⟨true, 2⟩ false) = some next ∧
      next.b.openUntil = second + 2 * second := by
  refine ⟨_, _, rfl, rfl, ?_⟩
  exact (cool_down_law ⟨1, second, 3000000000, 1⟩ 0 failedProbe _ _
    (by decide) rfl second (.done ⟨true, 2⟩ false) rfl
    _ rfl .halfOpen (by decide)).1

end RadixGates.Breaker
