import RadixGates.Breaker.Session

/-!
# Tickets, generations and probe slots

`Sound` ties the outstanding tickets to the breaker: their generations never
exceed the breaker's, none carries the generation of an Open period, and in
HalfOpen those of the current generation are exactly the taken probe slots.
`Traced` adds where a current ticket came from: an `Allow` of the same period,
with no transition since.
-/

set_option autoImplicit false

namespace RadixGates.Breaker

def Ticket.isProbeOf (gen : Nat) (t : Ticket) : Bool := t.probe && decide (t.gen = gen)

theorem Ticket.isProbeOf_iff (gen : Nat) (t : Ticket) :
    t.isProbeOf gen = true ↔ t.probe = true ∧ t.gen = gen := by
  simp [Ticket.isProbeOf]

def Session.probesOut (s : Session) : Nat := s.outstanding.countP (Ticket.isProbeOf s.b.gen)

/-- What holds between a breaker and the tickets its callers still have. -/
structure SoundAt (b : Breaker) (outstanding : List Ticket) : Prop where
  issued_before : ∀ t ∈ outstanding, t.gen ≤ b.gen
  none_while_open : b.state = .opened → ∀ t ∈ outstanding, t.gen ≠ b.gen
  slots : b.state = .halfOpen →
    b.halfInFlight = (outstanding.countP (Ticket.isProbeOf b.gen) : Nat)
  slots_le : b.state = .halfOpen → b.halfInFlight ≤ b.cfg.halfOpenMax

abbrev Session.Sound (s : Session) : Prop := SoundAt s.b s.outstanding

theorem mem_settle_old (outstanding : List Ticket) (call : Call) (answer : Answer)
    (noTicket : answer.issued = none) (t : Ticket)
    (member : t ∈ settle outstanding call answer) : t ∈ outstanding := by
  unfold settle at member
  rw [noTicket] at member
  simp only [Option.toList_none, List.nil_append] at member
  cases handed : call.handsBack with
  | none => simpa [handed] using member
  | some back =>
      simp only [handed] at member
      exact List.mem_of_mem_erase member

theorem countP_none_of_older (outstanding : List Ticket) (gen : Nat)
    (older : ∀ t ∈ outstanding, t.gen < gen) :
    outstanding.countP (Ticket.isProbeOf gen) = 0 := by
  rw [List.countP_eq_zero]
  intro t member isProbe
  have := older t member
  have := ((Ticket.isProbeOf_iff gen t).mp isProbe).2
  omega

theorem countP_erase (outstanding : List Ticket) (gen : Nat) (t : Ticket)
    (member : t ∈ outstanding) :
    outstanding.countP (Ticket.isProbeOf gen) =
      (outstanding.erase t).countP (Ticket.isProbeOf gen) +
        if t.isProbeOf gen = true then 1 else 0 := by
  rw [(List.perm_cons_erase member).countP_eq, List.countP_cons]

theorem SoundAt.of_move {b after : Breaker} {outstanding kept : List Ticket}
    (sound : SoundAt b outstanding) (next : after.gen = b.gen + 1)
    (fewer : ∀ t ∈ kept, t ∈ outstanding)
    (free : after.state = .halfOpen → after.halfInFlight = 0) : SoundAt after kept := by
  have older : ∀ t ∈ kept, t.gen < after.gen := by
    intro t member
    have := sound.issued_before t (fewer t member)
    omega
  have halfOpenMax_pos := after.clamped.halfOpenMax_pos
  refine ⟨fun t member => (older t member).le, fun _ t member => (older t member).ne, ?_, ?_⟩
  · intro half
    rw [free half, countP_none_of_older kept after.gen older]
    rfl
  · intro half
    rw [free half]
    omega

theorem SoundAt.of_quiet {b after : Breaker} {outstanding kept : List Ticket}
    (sound : SoundAt b outstanding) (sameState : after.state = b.state)
    (sameGen : after.gen = b.gen) (sameCfg : after.cfg = b.cfg)
    (fewer : ∀ t ∈ kept, t ∈ outstanding)
    (slots : b.state = .halfOpen → after.halfInFlight ≤ b.halfInFlight ∧
      after.halfInFlight = (kept.countP (Ticket.isProbeOf b.gen) : Nat)) :
    SoundAt after kept := by
  refine ⟨?_, ?_, ?_, ?_⟩
  · intro t member
    rw [sameGen]
    exact sound.issued_before t (fewer t member)
  · intro opened t member
    rw [sameGen]
    exact sound.none_while_open (sameState ▸ opened) t (fewer t member)
  · intro half
    rw [sameGen]
    exact (slots (sameState ▸ half)).2
  · intro half
    rw [sameCfg]
    exact (slots (sameState ▸ half)).1.trans (sound.slots_le (sameState ▸ half))

/-- A breaker that hands out a ticket of its own generation is not open. -/
theorem SoundAt.of_issue {b after : Breaker} {outstanding : List Ticket} {t : Ticket}
    (sound : SoundAt b outstanding) (sameGen : after.gen = b.gen) (current : t.gen = b.gen)
    (serving : after.state ≠ .opened)
    (slots : after.state = .halfOpen →
      after.halfInFlight = ((t :: outstanding).countP (Ticket.isProbeOf b.gen) : Nat) ∧
        after.halfInFlight ≤ after.cfg.halfOpenMax) : SoundAt after (t :: outstanding) := by
  refine ⟨?_, fun opened => absurd opened serving, ?_, fun half => (slots half).2⟩
  · intro other member
    rw [sameGen]
    rcases List.mem_cons.mp member with rfl | old
    · exact current.le
    · exact sound.issued_before other old
  · intro half
    rw [sameGen]
    exact (slots half).1

/-- A call that leaves the breaker alone does not hand back a probe of the
current half-open period. -/
theorem SoundAt.not_probe_of_quiet {b : Breaker} {outstanding : List Ticket} {call : Call}
    (sound : SoundAt b outstanding) (handed : ∀ t ∈ call.handsBack, t ∈ outstanding)
    (stale : ∀ t success, call = .done t success →
      t.gen ≠ b.gen ∨ b.state = .opened ∨ (b.state = .halfOpen ∧ t.probe = false))
    (slotless : ∀ t, call = .cancel t →
      ¬ (t.probe = true ∧ b.state = .halfOpen ∧ t.gen = b.gen ∧ 0 < b.halfInFlight))
    (half : b.state = .halfOpen) (t : Ticket) (back : t ∈ call.handsBack) :
    t.isProbeOf b.gen = false := by
  rw [Bool.eq_false_iff, Ne, Ticket.isProbeOf_iff]
  rintro ⟨isProbe, current⟩
  have counted := sound.slots half
  have erased := countP_erase outstanding b.gen t (handed t back)
  rw [if_pos ((Ticket.isProbeOf_iff b.gen t).mpr ⟨isProbe, current⟩)] at erased
  cases call with
  | done t' success =>
      cases Option.some.inj back
      rcases stale t success rfl with other | opened | ⟨_, plain⟩
      · exact other current
      · rw [half] at opened
        cases opened
      · rw [isProbe] at plain
        cases plain
  | cancel t' =>
      cases Option.some.inj back
      exact slotless t rfl ⟨isProbe, half, current, by omega⟩
  | allow | available | state => cases back

/-- Handing back anything else changes no count. -/
theorem countP_settle (outstanding : List Ticket) (gen : Nat) (call : Call) (answer : Answer)
    (noTicket : answer.issued = none) (handed : ∀ t ∈ call.handsBack, t ∈ outstanding)
    (other : ∀ t ∈ call.handsBack, t.isProbeOf gen = false) :
    (settle outstanding call answer).countP (Ticket.isProbeOf gen) =
      outstanding.countP (Ticket.isProbeOf gen) := by
  unfold settle
  rw [noTicket]
  cases back : call.handsBack with
  | none => rfl
  | some t =>
      have erased := countP_erase outstanding gen t (handed t back)
      rw [other t back] at erased
      simp only [Option.toList_none, List.nil_append]
      simp only [Bool.false_eq_true, if_false, add_zero] at erased
      exact erased.symm

theorem soundAt_act {b after : Breaker} {outstanding : List Ticket} {now : Int} {call : Call}
    {answer : Answer} (sound : SoundAt b outstanding)
    (handed : ∀ t ∈ call.handsBack, t ∈ outstanding)
    (effect : Effect b now call after answer) :
    SoundAt after (settle outstanding call answer) := by
  cases effect with
  | quiet _ _ noTicket stale slotless =>
      refine sound.of_quiet rfl rfl rfl (mem_settle_old outstanding call answer noTicket) ?_
      intro half
      refine ⟨le_rfl, ?_⟩
      rw [countP_settle outstanding b.gen call answer noTicket handed
        (sound.not_probe_of_quiet handed stale slotless half)]
      exact sound.slots half
  | pass closed =>
      refine sound.of_issue rfl rfl (by simp [closed]) ?_
      intro half
      rw [closed] at half
      cases half
  | probe half room =>
      refine sound.of_issue rfl rfl (by simp [half]) ?_
      intro _
      have counted := sound.slots half
      have isProbe : Ticket.isProbeOf b.gen ⟨true, b.gen⟩ = true := by simp [Ticket.isProbeOf]
      rw [List.countP_cons, if_pos isProbe]
      dsimp only
      omega
  | succeed t current closed =>
      refine sound.of_quiet rfl rfl rfl (mem_settle_old outstanding _ _ rfl) ?_
      intro half
      rw [closed] at half
      cases half
  | count t current closed below =>
      refine sound.of_quiet rfl rfl rfl (mem_settle_old outstanding _ _ rfl) ?_
      intro half
      rw [closed] at half
      cases half
  | trip t current closed enough =>
      exact sound.of_move rfl (mem_settle_old outstanding _ _ rfl) (by simp [tripped])
  | recover t current half isProbe =>
      exact sound.of_move rfl (mem_settle_old outstanding _ _ rfl) (by simp [recovered])
  | reopen t current half isProbe =>
      exact sound.of_move rfl (mem_settle_old outstanding _ _ rfl) (by simp [tripped])
  | giveBack t current half isProbe held =>
      refine sound.of_quiet rfl rfl rfl (mem_settle_old outstanding _ _ rfl) ?_
      intro _
      have counted := sound.slots half
      have erased := countP_erase outstanding b.gen t (handed t rfl)
      rw [if_pos ((Ticket.isProbeOf_iff b.gen t).mpr ⟨isProbe, current⟩)] at erased
      refine ⟨by dsimp only; omega, ?_⟩
      simp only [settle, Answer.issued, Call.handsBack, Option.toList_none, List.nil_append]
      omega

theorem Session.sound_step (s : Session) (event : Int × Call) (next : Session)
    (sound : s.Sound) (stepped : s.step event = some next) : next.Sound := by
  refine Session.step_preserves Session.Sound ?_ ?_ s event next sound stepped
  · intro s now sound _ _ _
    exact sound.of_move rfl (fun _ member => member) (fun _ => rfl)
  · intro s now call after answer before _ sound _ handed _ effect
    exact soundAt_act sound handed effect

theorem Session.sound_start (cfg : Config) (clock : Int) : (Session.start cfg clock).Sound := by
  refine ⟨?_, ?_, ?_, ?_⟩ <;> simp [Session.start, new]

theorem Session.sound_of_reached {cfg : Config} {clock : Int} {events : List (Int × Call)}
    {s : Session} (reached : Session.Reached cfg clock events s) : s.Sound :=
  Session.reached_invariant Session.Sound cfg clock (Session.sound_start cfg clock)
    Session.sound_step events s reached

/-! ## Probe slots -/

/-- In HalfOpen the taken slots are the current probe tickets still out, so a
half-open period without a running probe always admits one. -/
theorem halfOpen_slots_are_probes_out (cfg : Config) (clock : Int) (events : List (Int × Call))
    (s : Session) (reached : Session.Reached cfg clock events s)
    (half : s.b.state = .halfOpen) :
    s.b.halfInFlight = (s.probesOut : Int) ∧ 0 ≤ s.b.halfInFlight ∧
      s.b.halfInFlight ≤ cfg.clamp.halfOpenMax ∧
      (s.probesOut = 0 → ∀ now, s.clock ≤ now →
        (s.b.perform now .available).2 = .available true ∧
        (s.b.perform now .allow).2 = .ticket (some ⟨true, s.b.gen⟩)) := by
  have sound := Session.sound_of_reached reached
  have counted : s.b.halfInFlight = (s.probesOut : Int) := sound.slots half
  have bounded := sound.slots_le half
  have halfOpenMax_pos := s.b.clamped.halfOpenMax_pos
  rw [Session.cfg_of_reached reached] at bounded
  refine ⟨counted, by omega, bounded, ?_⟩
  intro free now _
  have room : s.b.halfInFlight < s.b.cfg.halfOpenMax := by omega
  have stays : s.b.advanceLocked now = s.b := by
    rw [advanceLocked_eq, if_neg (by simp [half])]
  simp [perform, available, allow, stays, half, room]

/-- A breaker that trips on one failure, at its first half-open probe, which
the caller cancels. -/
def cancelledProbe : List (Int × Call) :=
  [(0, .allow), (0, .done ⟨false, 0⟩ false), (second, .allow), (second, .cancel ⟨true, 2⟩)]

theorem halfOpen_slots_after_cancelledProbe :
    ∃ s, Session.Reached ⟨1, second, 0, 1⟩ 0 cancelledProbe s ∧ s.b.state = .halfOpen ∧
      (s.b.perform second .allow).2 = .ticket (some ⟨true, s.b.gen⟩) := by
  refine ⟨_, rfl, rfl, ?_⟩
  exact ((halfOpen_slots_are_probes_out ⟨1, second, 0, 1⟩ 0 cancelledProbe _ rfl rfl).2.2.2
    rfl second (by decide)).2

end RadixGates.Breaker
