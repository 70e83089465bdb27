import RadixGates.Router.Sessions

/-!
# What a broken node is sent

While the cool-down of a node's breaker runs, no interleaving grants a lease on
the node, and late verdicts of leases that are still out do not move the
breaker.  After it, the node gets probes only, no more than `HalfOpenMax` at a
time, until one of them succeeds.
-/

set_option autoImplicit false

namespace RadixGates.Breaker

/-! ## The tickets of a half-open period -/

/-- Tickets that were handed out in the half-open period are probes. -/
def ProbesOnly (b : Breaker) (outstanding : List Ticket) : Prop :=
  b.state = .halfOpen → ∀ t ∈ outstanding, t.gen = b.gen → t.probe = true

theorem probesOnly_act {b after : Breaker} {outstanding : List Ticket} {now : Int} {call : Call}
    {answer : Answer} (probes : ProbesOnly b outstanding)
    (effect : Effect b now call after answer) :
    ProbesOnly after (settle outstanding call answer) := by
  have fewer : ∀ after : Breaker, after.state = b.state → after.gen = b.gen →
      answer.issued = none → ProbesOnly after (settle outstanding call answer) := by
    intro after sameState sameGen noTicket half t member current
    have old := mem_settle_old outstanding call answer noTicket t member
    exact probes (sameState ▸ half) t old (current.trans sameGen)
  cases effect with
  | quiet _ _ noTicket stale slotless => exact fewer b rfl rfl noTicket
  | pass closed =>
      intro half
      rw [closed] at half
      cases half
  | probe half room =>
      intro _ t member current
      rcases List.mem_cons.mp member with rfl | old
      · rfl
      · exact probes half t old current
  | succeed t current closed => exact fewer _ rfl rfl rfl
  | count t current closed below => exact fewer _ rfl rfl rfl
  | giveBack t current half isProbe held => exact fewer _ rfl rfl rfl
  | trip t current closed enough => exact fun half => by cases half
  | recover t current half isProbe => exact fun half => by cases half
  | reopen t current half isProbe => exact fun half => by cases half

theorem Session.probesOnly_of_reached {cfg : Config} {clock : Int} {events : List (Int × Call)}
    {s : Session} (reached : Session.Reached cfg clock events s) :
    ProbesOnly s.b s.outstanding := by
  have both : s.Sound ∧ ProbesOnly s.b s.outstanding := by
    refine Session.reached_invariant (fun s => s.Sound ∧ ProbesOnly s.b s.outstanding) cfg clock
      ⟨Session.sound_start cfg clock, fun half => by cases half⟩ ?_ events s reached
    refine fun s event next inv stepped => ⟨Session.sound_step s event next inv.1 stepped, ?_⟩
    refine (Session.step_preserves (fun s => s.Sound ∧ ProbesOnly s.b s.outstanding) ?_ ?_ s event
      next inv stepped).2
    · intro s now inv _ _ _
      refine ⟨inv.1.of_move rfl (fun _ member => member) (fun _ => rfl), ?_⟩
      -- the tickets that are out were all issued under an earlier generation
      intro _ t member current
      have before := inv.1.issued_before t member
      simp only [promoted] at current
      omega
    · intro s now call after answer before _ inv _ handed _ effect
      exact ⟨soundAt_act inv.1 handed effect, probesOnly_act inv.2 effect⟩
  exact both.2

theorem allow_of_halfOpen (b : Breaker) (now : Int) (half : b.state = .halfOpen)
    (room : b.halfInFlight < b.cfg.halfOpenMax) : (b.allow now).2 = some ⟨true, b.gen⟩ := by
  have stays : b.advanceLocked now = b := by
    rw [advanceLocked_eq, if_neg (by simp [half])]
  simp [Breaker.allow, stays, half, room]

/-! ## The cool-down -/

/-- A breaker whose cool-down still runs. -/
structure Cooling (b : Breaker) (now : Int) : Prop where
  opened : b.state = .opened
  before : now < b.openUntil

theorem Cooling.advanceLocked {b : Breaker} {now : Int} (cooling : Cooling b now) :
    b.advanceLocked now = b := by
  rw [advanceLocked_eq, if_neg]
  exact fun due => absurd due.2 (not_le.mpr cooling.before)

theorem Cooling.allow {b : Breaker} {now : Int} (cooling : Cooling b now) :
    (b.allow now).2 = none := by
  simp [Breaker.allow, cooling.advanceLocked, cooling.opened]

theorem Cooling.done {b : Breaker} {now : Int} (cooling : Cooling b now) (t : Ticket)
    (success : Bool) : b.done now t success = b := by
  simp [Breaker.done, cooling.advanceLocked, cooling.opened]

theorem Cooling.cancel {b : Breaker} {now : Int} (cooling : Cooling b now) (t : Ticket) :
    b.cancel t = b := by
  simp [Breaker.cancel, cooling.opened]

end RadixGates.Breaker

namespace RadixGates.Router

open RadixGates.Breaker (Session Ticket)

section
variable {n : Nat}

/-! ## Half-open nodes -/

/-- The lease was granted on the node under this generation of its breaker and
has not been reported. -/
def Lease.outUnder (i : Fin n) (gen : Nat) (lease : Lease n) : Bool :=
  decide (lease.node = i ∧ lease.phase = .granted ∧ lease.ticket.gen = gen)

theorem countP_outUnder (w : World n) (i : Fin n) (gen : Nat) :
    w.leases.countP (Lease.outUnder i gen) =
      (w.ticketsOut i).countP fun t => decide (t.gen = gen) := by
  unfold World.ticketsOut
  rw [List.countP_filterMap]
  apply List.countP_congr
  intro lease _
  by_cases mine : lease.node = i ∧ lease.phase = .granted
  · simp [Lease.outUnder, Lease.ticketOut, mine.1, mine.2]
  · have outside : Lease.ticketOut i lease = none := if_neg mine
    have idle : Lease.outUnder i gen lease = false := by
      simp only [Lease.outUnder, decide_eq_false_iff_not]
      exact fun out => mine ⟨out.1, out.2.1⟩
    simp [outside, idle]

end

/-- The requests that a half-open node was given in its half-open period and
that have not reported are its probes: they take its probe slots, there are at
most `HalfOpenMax` of them, and without any the next request gets in. -/
theorem half_open_node_runs_probes (instances : List Instance) (defaultMaxConcurrent : Int)
    (opts : Options) (rt : Runtime instances.length) (clock : Int)
    (actions : List (Action instances.length)) (w : World instances.length)
    (reached : Reached instances defaultMaxConcurrent opts rt clock actions w)
    (cfg : Breaker.Config) (enabled : opts.breaker = some cfg) (i : Fin instances.length)
    (b : Breaker) (present : (w.nodes i).br = some b) (half : b.state = .halfOpen) :
    (∀ lease ∈ w.leases, lease.outUnder i b.gen = true → lease.ticket.probe = true) ∧
      b.halfInFlight = (w.leases.countP (Lease.outUnder i b.gen) : Int) ∧
      w.leases.countP (Lease.outUnder i b.gen) ≤ cfg.clamp.halfOpenMax ∧
      (w.leases.countP (Lease.outUnder i b.gen) = 0 → (w.leased i).isSome = true) := by
  obtain ⟨events, s, session, tracks⟩ := session_of_reached reached cfg enabled i
  have same : s.b = b := Option.some.inj (tracks.breaker.symm.trans present)
  subst same
  have probes := Session.probesOnly_of_reached session half
  have sound := Session.sound_of_reached session
  have slots := sound.slots half
  have bounded := sound.slots_le half
  have counted : s.outstanding.countP (Ticket.isProbeOf s.b.gen) =
      w.leases.countP (Lease.outUnder i s.b.gen) := by
    rw [countP_outUnder, ← tracks.tickets.countP_eq]
    apply List.countP_congr
    intro t member
    rw [Ticket.isProbeOf_iff, decide_eq_true_eq]
    exact ⟨fun probe => probe.2, fun current => ⟨probes t member current, current⟩⟩
  rw [counted] at slots
  refine ⟨?_, slots, ?_, ?_⟩
  · intro lease member out
    simp only [Lease.outUnder, decide_eq_true_eq] at out
    have listed : lease.ticket ∈ w.ticketsOut i :=
      List.mem_filterMap.mpr ⟨lease, member, if_pos ⟨out.1, out.2.1⟩⟩
    exact probes lease.ticket (tracks.tickets.mem_iff.mpr listed) out.2.2
  · rw [← slots, ← Session.cfg_of_reached session]
    exact bounded
  · intro free
    have room : s.b.halfInFlight < s.b.cfg.halfOpenMax := by
      have := s.b.clamped.halfOpenMax_pos
      omega
    simp [World.leased, tracks.breaker, Breaker.allow_of_halfOpen s.b w.clock half room]

theorem half_open_node_of_probeRunning :
    ∃ (w : World 1) (b : Breaker),
      Reached oneSlot 0 breakerOptions (Runtime.exact 1) 0 probeRunning w ∧
      (w.nodes 0).br = some b ∧ b.state = .halfOpen ∧ b.halfInFlight = 1 ∧
      w.leases.countP (Lease.outUnder 0 b.gen) = 1 := by
  have evaluated : ((Runs.run (World.step (Runtime.exact 1) breakerOptions.clamp)
      (new oneSlot 0 breakerOptions 0) probeRunning).bind fun w : World 1 =>
        (w.nodes 0).br.map fun b => (b.state, b.halfInFlight)) = some (.halfOpen, 1) := by
    decide +kernel
  obtain ⟨w, reached, rest⟩ := Option.bind_eq_some_iff.mp evaluated
  obtain ⟨b, present, facts⟩ := Option.map_eq_some_iff.mp rest
  obtain ⟨half, one⟩ := Prod.mk.inj facts
  have counted : b.halfInFlight = (w.leases.countP (Lease.outUnder 0 b.gen) : Int) :=
    (half_open_node_runs_probes oneSlot 0 breakerOptions (Runtime.exact 1) 0 probeRunning w
      reached ⟨1, second, 0, 1⟩ rfl (0 : Fin 1) b present half).2.1
  exact ⟨w, b, reached, present, half, one, by omega⟩

/-! ## Open nodes -/

section
variable {n : Nat}

def World.granted (w : World n) (i : Fin n) : Nat :=
  w.leases.countP fun lease => decide (lease.node = i)

/-- Either the cool-down is over, or the node has had no lease since it began
and its breaker is as it was. -/
def Isolated (i : Fin n) (b : Breaker) (leases : Nat) (w : World n) : Prop :=
  w.clock < b.openUntil → (w.nodes i).br = some b ∧ w.granted i = leases

theorem granted_set (w : World n) (i : Fin n) (index : Nat) (lease lease' : Lease n)
    (found : w.leases[index]? = some lease) (same : lease'.node = lease.node) :
    (w.leases.set index lease').countP (fun lease => decide (lease.node = i)) = w.granted i := by
  have balance := countP_set_balance (fun lease : Lease n => decide (lease.node = i)) w.leases
    index lease lease' found
  rw [same] at balance
  unfold World.granted
  omega

theorem Isolated.report {i : Fin n} {b : Breaker} {leases : Nat} {w : World n}
    (isolated : Isolated i b leases w) (opened : b.state = .opened) (index : Nat)
    (verdict : Option Bool) : Isolated i b leases (w.report index verdict) := by
  unfold World.report
  split
  · exact isolated
  · rename_i lease found
    split
    · intro before
      obtain ⟨present, counted⟩ := isolated before
      have cooling : b.Cooling w.clock := ⟨opened, before⟩
      refine ⟨?_, ?_⟩
      · have kept : reportTo b w.clock lease.ticket verdict = b := by
          cases verdict with
          | none => exact cooling.cancel lease.ticket
          | some success => exact cooling.done lease.ticket success
        dsimp only
        rw [setNode_nodes]
        split
        · rename_i here
          simp [← here, present, kept]
        · exact present
      · rw [← counted]
        exact granted_set w i index lease { lease with phase := .reported } found rfl
    · exact isolated

theorem Isolated.interference {i : Fin n} {b : Breaker} {leases : Nat} {w : World n}
    (isolated : Isolated i b leases w) (opened : b.state = .opened) (step : Interference n) :
    Isolated i b leases (step.apply w) := by
  cases step with
  | tick elapsed =>
      intro before
      apply isolated
      simp only [Interference.apply] at before
      omega
  | setUp j v =>
      intro before
      obtain ⟨present, counted⟩ := isolated before
      refine ⟨?_, counted⟩
      rw [← present]
      exact setNode_br_other w i j _ fun same => by rw [same]
  | observe j =>
      intro before
      obtain ⟨present, counted⟩ := isolated before
      have cooling : b.Cooling w.clock := ⟨opened, before⟩
      refine ⟨?_, counted⟩
      rw [← present]
      refine setNode_br_other w i j _ fun same => ?_
      simp [same, present, cooling.advanceLocked]
  | report lease verdict => exact isolated.report opened lease verdict

theorem Isolated.lease {i : Fin n} {b : Breaker} {leases : Nat} {w next : World n}
    (isolated : Isolated i b leases w) (opened : b.state = .opened) (j : Fin n)
    (admitted : w.leased j = some next) : Isolated i b leases next := by
  unfold World.leased at admitted
  -- the clock of the granting step is that of the state before it
  have sameClock : next.clock = w.clock := by
    cases present : (w.nodes j).br with
    | none =>
        rw [present] at admitted
        cases Option.some.inj admitted
        rfl
    | some c =>
        rw [present] at admitted
        obtain ⟨t, _, rfl⟩ := Option.map_eq_some_iff.mp admitted
        rfl
  intro before
  rw [sameClock] at before
  obtain ⟨present, counted⟩ := isolated before
  have refused : (b.allow w.clock).2 = none := Breaker.Cooling.allow ⟨opened, before⟩
  by_cases here : j = i
  · subst here
    simp [present, refused] at admitted
  · have elsewhere : i ≠ j := fun same => here same.symm
    cases other : (w.nodes j).br with
    | none =>
        rw [other] at admitted
        cases Option.some.inj admitted
        refine ⟨?_, ?_⟩
        · simp [World.grant, setNode_nodes, elsewhere, present]
        · simp [World.granted, World.grant, here, ← counted]
    | some c =>
        rw [other] at admitted
        obtain ⟨t, _, rfl⟩ := Option.map_eq_some_iff.mp admitted
        refine ⟨?_, ?_⟩
        · simp [World.grant, setNode_nodes, elsewhere, present]
        · simp [World.granted, World.grant, here, ← counted, World.setNode]

theorem Isolated.atom {i : Fin n} {b : Breaker} {leases : Nat} {w next : World n}
    (isolated : Isolated i b leases w) (opened : b.state = .opened) (atom : Atom w next) :
    Isolated i b leases next := by
  cases atom with
  | still next step =>
      cases step with
      | other step => exact isolated.interference opened step
      | record next recorded =>
          intro before
          obtain ⟨present, counted⟩ := isolated (recorded.clock ▸ before)
          refine ⟨?_, ?_⟩
          · rw [recorded.nodes i]
            exact present
          · simpa only [World.granted, recorded.leases] using counted
  | lease j next admitted => exact isolated.lease opened j admitted
  | release index lease found reported =>
      intro before
      obtain ⟨present, counted⟩ := isolated before
      refine ⟨?_, ?_⟩
      · rw [← present]
        exact setNode_br_other w i lease.node _ fun same => by rw [same]
      · rw [← counted]
        exact granted_set w i index lease { lease with phase := .closed } found rfl

/-- A run that ends before the cool-down does grants no lease on the node, and
leaves its breaker as it is, whatever is reported. -/
theorem opened_node_gets_no_lease (rt : Runtime n) (opts : Options) (actions : List (Action n))
    (w final : World n) (reached : Runs.run (World.step rt opts) w actions = some final)
    (i : Fin n) (b : Breaker) (present : (w.nodes i).br = some b) (opened : b.state = .opened)
    (cooling : final.clock < b.openUntil) :
    (final.nodes i).br = some b ∧ final.granted i = w.granted i := by
  have isolated : Isolated i b (w.granted i) final :=
    (Path.run rt opts actions w final reached).preserves (Isolated i b (w.granted i))
      (fun _ _ inv atom => inv.atom opened atom) fun _ => ⟨present, rfl⟩
  exact isolated cooling

end

/-- The one node fails a request. -/
def nodeTripped : List (Action 1) :=
  [.acquire promptA, .evaluate 0 [], .other (.report 0 (some false)), .release 0]

/-- Half a second later another request comes for it. -/
def askedTooEarly : List (Action 1) :=
  [.other (.tick 500000000), .acquire promptA, .evaluate 1 []]

theorem opened_node_asked_too_early :
    ∃ w final : World 1,
      Reached oneSlot 0 breakerOptions (Runtime.exact 1) 0 nodeTripped w ∧
      Runs.run (World.step (Runtime.exact 1) breakerOptions.clamp) w askedTooEarly = some final ∧
      w.granted 0 = 1 ∧ final.granted 0 = 1 := by
  have evaluated : ((Runs.run (World.step (Runtime.exact 1) breakerOptions.clamp)
      (new oneSlot 0 breakerOptions 0) nodeTripped).bind fun w : World 1 =>
        (w.nodes 0).br.bind fun b =>
          (Runs.run (World.step (Runtime.exact 1) breakerOptions.clamp) w askedTooEarly).map
            fun final => (b.state, w.granted 0, decide (final.clock < b.openUntil))) =
      some (.opened, 1, true) := by
    decide +kernel
  obtain ⟨w, reached, rest⟩ := Option.bind_eq_some_iff.mp evaluated
  obtain ⟨b, present, rest⟩ := Option.bind_eq_some_iff.mp rest
  obtain ⟨final, ran, facts⟩ := Option.map_eq_some_iff.mp rest
  simp only [Prod.mk.injEq, decide_eq_true_eq] at facts
  obtain ⟨opened, one, cooling⟩ := facts
  have kept := (opened_node_gets_no_lease (Runtime.exact 1) breakerOptions.clamp askedTooEarly w
    final ran 0 b present opened cooling).2
  exact ⟨w, final, reached, ran, one, kept.trans one⟩

end RadixGates.Router
