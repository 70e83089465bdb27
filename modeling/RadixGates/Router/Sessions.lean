import RadixGates.Breaker.Tickets
import RadixGates.Router.Atoms

/-!
# Every breaker of the pool runs a session

The breaker files prove facts about sessions: calls at nondecreasing clock
readings that hand every ticket back at most once.  Here the router is shown to
drive the breaker of each node that way, whatever the goroutines do: the
tickets out are those of the node's leases whose `sync.Once` has not run.  So
every fact about sessions holds of every node in every reachable state.
-/

set_option autoImplicit false

namespace RadixGates.Router

open RadixGates.Breaker (Session Ticket)

/-! ## Lists of leases -/

theorem filterMap_set_same {α β : Type} (f : α → Option β) (l : List α) (index : Nat) (a b : α)
    (found : l[index]? = some a) (same : f b = f a) :
    (l.set index b).filterMap f = l.filterMap f := by
  induction l generalizing index with
  | nil => rfl
  | cons c rest ih =>
      cases index with
      | zero =>
          cases Option.some.inj found
          simp only [List.set_cons_zero, List.filterMap_cons, same]
      | succ index =>
          have later := ih index (by simpa using found)
          simp only [List.set_cons_succ, List.filterMap_cons, later]

theorem filterMap_set_perm {α β : Type} (f : α → Option β) (l : List α) (index : Nat) (a b : α)
    (t : β) (found : l[index]? = some a) (before : f a = some t) (after : f b = none) :
    (t :: (l.set index b).filterMap f).Perm (l.filterMap f) := by
  induction l generalizing index with
  | nil => cases found
  | cons c rest ih =>
      cases index with
      | zero =>
          cases Option.some.inj found
          simp only [List.set_cons_zero, List.filterMap_cons, before, after]
          exact List.Perm.refl _
      | succ index =>
          have later := ih index (by simpa using found)
          simp only [List.set_cons_succ, List.filterMap_cons]
          cases f c with
          | none => exact later
          | some u => exact (List.Perm.swap u t _).trans (later.cons u)

section
variable {n : Nat}

def Lease.ticketOut (i : Fin n) (lease : Lease n) : Option Ticket :=
  if lease.node = i ∧ lease.phase = .granted then some lease.ticket else none

/-- The tickets of the node's leases that were not handed back. -/
def World.ticketsOut (w : World n) (i : Fin n) : List Ticket :=
  w.leases.filterMap (Lease.ticketOut i)

/-! ## One atom -/

/-- A session of the node's breaker that is up to date with the router. -/
structure Tracks (i : Fin n) (w : World n) (s : Session) : Prop where
  breaker : (w.nodes i).br = some s.b
  clock : s.clock ≤ w.clock
  tickets : s.outstanding.Perm (w.ticketsOut i)

/-- The session can make any call at the router's clock reading if it has the
ticket to hand back. -/
theorem Tracks.call {i : Fin n} {w : World n} {s : Session} (tracks : Tracks i w s)
    (call : Breaker.Call) (handed : ∀ t ∈ call.handsBack, t ∈ w.ticketsOut i) :
    ∃ s', s.step (w.clock, call) = some s' ∧ s'.b = (s.b.perform w.clock call).1 ∧
      s'.clock = w.clock ∧
      s'.outstanding = Breaker.settle s.outstanding call (s.b.perform w.clock call).2 := by
  have enabled : s.clock ≤ w.clock ∧ ∀ t ∈ call.handsBack, t ∈ s.outstanding := by
    refine ⟨tracks.clock, ?_⟩
    intro t member
    exact tracks.tickets.mem_iff.mpr (handed t member)
  exact ⟨_, if_pos enabled, rfl, rfl, rfl⟩

/-- Worlds that agree on the node's breaker and on the leases. -/
theorem Tracks.same {i : Fin n} {w next : World n} {s : Session} (tracks : Tracks i w s)
    (breaker : (next.nodes i).br = (w.nodes i).br) (clock : w.clock ≤ next.clock)
    (tickets : next.ticketsOut i = w.ticketsOut i) : Tracks i next s where
  breaker := breaker.trans tracks.breaker
  clock := tracks.clock.trans clock
  tickets := tickets ▸ tracks.tickets

theorem setNode_br_other (w : World n) (i j : Fin n) (node : Node)
    (kept : j = i → node.br = (w.nodes i).br) :
    ((w.setNode j node).nodes i).br = (w.nodes i).br := by
  rw [setNode_nodes]
  by_cases here : i = j
  · rw [if_pos here]
    exact kept here.symm
  · rw [if_neg here]

theorem Tracks.observe {i : Fin n} {w : World n} {s : Session} (tracks : Tracks i w s)
    (j : Fin n) :
    ∃ events s', Runs.run Session.step s events = some s' ∧
      Tracks i (Interference.apply w (.observe j)) s' := by
  by_cases here : j = i
  · subst here
    obtain ⟨s', stepped, breaker, clock, outstanding⟩ :=
      tracks.call .state (by simp [Breaker.Call.handsBack])
    refine ⟨[(w.clock, .state)], s', by simp [Runs.run, stepped], ?_, clock.le, ?_⟩
    · simp [Interference.apply, tracks.breaker, breaker, Breaker.perform, Breaker.readState]
    · rw [outstanding]
      exact tracks.tickets
  · refine ⟨[], s, rfl, tracks.same ?_ le_rfl rfl⟩
    exact setNode_br_other w i j _ fun same => absurd same here

theorem Tracks.report {i : Fin n} {w : World n} {s : Session} (tracks : Tracks i w s)
    (index : Nat) (verdict : Option Bool) :
    ∃ events s', Runs.run Session.step s events = some s' ∧
      Tracks i (w.report index verdict) s' := by
  unfold World.report
  cases found : w.leases[index]? with
  | none => exact ⟨[], s, rfl, tracks⟩
  | some lease =>
      dsimp only
      by_cases out : lease.phase = .granted
      swap
      · rw [if_neg out]
        exact ⟨[], s, rfl, tracks⟩
      rw [if_pos out]
      by_cases here : lease.node = i
      · subst here
        have mine : lease.ticketOut lease.node = some lease.ticket := by simp [Lease.ticketOut, out]
        have gone : Lease.ticketOut lease.node { lease with phase := .reported } = none := by
          simp [Lease.ticketOut]
        have left := filterMap_set_perm (Lease.ticketOut lease.node) w.leases index lease
          { lease with phase := .reported } lease.ticket found mine gone
        have member : lease.ticket ∈ w.ticketsOut lease.node := left.subset List.mem_cons_self
        have erased : (s.outstanding.erase lease.ticket).Perm
            ((w.leases.set index { lease with phase := .reported }).filterMap
              (Lease.ticketOut lease.node)) := by
          have swapped := (tracks.tickets.trans left.symm).erase lease.ticket
          simpa using swapped
        cases verdict with
        | some success =>
            obtain ⟨s', stepped, breaker, clock, outstanding⟩ :=
              tracks.call (.done lease.ticket success)
                (by simpa [Breaker.Call.handsBack] using member)
            refine ⟨[(w.clock, .done lease.ticket success)], s', by simp [Runs.run, stepped], ?_,
              clock.le, ?_⟩
            · simp [tracks.breaker, breaker, reportTo, Breaker.perform]
            · rw [outstanding]
              exact erased
        | none =>
            obtain ⟨s', stepped, breaker, clock, outstanding⟩ :=
              tracks.call (.cancel lease.ticket) (by simpa [Breaker.Call.handsBack] using member)
            refine ⟨[(w.clock, .cancel lease.ticket)], s', by simp [Runs.run, stepped], ?_,
              clock.le, ?_⟩
            · simp [tracks.breaker, breaker, reportTo, Breaker.perform]
            · rw [outstanding]
              exact erased
      · have others : Lease.ticketOut i { lease with phase := .reported } = lease.ticketOut i := by
          simp [Lease.ticketOut, here]
        refine ⟨[], s, rfl, tracks.same ?_ le_rfl ?_⟩
        · exact setNode_br_other w i lease.node _ fun same => absurd same here
        · exact filterMap_set_same _ _ _ lease _ found others

theorem Tracks.interference {i : Fin n} {w : World n} {s : Session} (tracks : Tracks i w s)
    (step : Interference n) :
    ∃ events s', Runs.run Session.step s events = some s' ∧ Tracks i (step.apply w) s' := by
  cases step with
  | tick elapsed =>
      refine ⟨[], s, rfl, tracks.same rfl ?_ rfl⟩
      simp only [Interference.apply]
      omega
  | setUp j v =>
      refine ⟨[], s, rfl, tracks.same ?_ le_rfl rfl⟩
      exact setNode_br_other w i j _ fun same => by rw [same]
  | observe j => exact tracks.observe j
  | report lease verdict => exact tracks.report lease verdict

theorem Tracks.lease {i : Fin n} {w next : World n} {s : Session} (tracks : Tracks i w s)
    (j : Fin n) (admitted : w.leased j = some next) :
    ∃ events s', Runs.run Session.step s events = some s' ∧ Tracks i next s' := by
  unfold World.leased at admitted
  by_cases here : j = i
  · subst here
    rw [tracks.breaker] at admitted
    obtain ⟨t, allowed, rfl⟩ := Option.map_eq_some_iff.mp admitted
    obtain ⟨s', stepped, breaker, clock, outstanding⟩ :=
      tracks.call .allow (by simp [Breaker.Call.handsBack])
    refine ⟨[(w.clock, .allow)], s', by simp [Runs.run, stepped], ?_, clock.le, ?_⟩
    · simp [World.grant, breaker, Breaker.perform]
    · have issued : s'.outstanding = t :: s.outstanding := by
        rw [outstanding]
        simp [Breaker.settle, Breaker.perform, allowed, Breaker.Answer.issued,
          Breaker.Call.handsBack]
      have grown : ((w.setNode j { w.nodes j with br := some (s.b.allow w.clock).1 }).grant j
          t).ticketsOut j = w.ticketsOut j ++ [t] := by
        simp [World.ticketsOut, World.grant, World.setNode, Lease.ticketOut]
      rw [issued, grown]
      exact (tracks.tickets.cons t).trans (List.perm_append_singleton t _).symm
  · have elsewhere : ∀ (w' : World n) (t : Ticket), w'.leases = w.leases →
        (w'.grant j t).ticketsOut i = w.ticketsOut i := by
      intro w' t same
      simp [World.ticketsOut, World.grant, Lease.ticketOut, here, same]
    refine ⟨[], s, rfl, ?_⟩
    cases present : (w.nodes j).br with
    | none =>
        rw [present] at admitted
        cases Option.some.inj admitted
        refine tracks.same ?_ le_rfl (elsewhere w _ rfl)
        exact setNode_br_other w i j _ fun same => absurd same here
    | some b =>
        rw [present] at admitted
        obtain ⟨t, _, rfl⟩ := Option.map_eq_some_iff.mp admitted
        refine tracks.same ?_ le_rfl (elsewhere _ t rfl)
        have granted := setNode_br_other (w.setNode j
          { w.nodes j with br := some (b.allow w.clock).1 }) i j
          { (w.setNode j { w.nodes j with br := some (b.allow w.clock).1 }).nodes j with
            inflight := ((w.setNode j
              { w.nodes j with br := some (b.allow w.clock).1 }).nodes j).inflight + 1 }
          fun same => absurd same here
        exact granted.trans (setNode_br_other w i j _ fun same => absurd same here)

theorem Tracks.atom {i : Fin n} {w next : World n} {s : Session} (tracks : Tracks i w s)
    (atom : Atom w next) :
    ∃ events s', Runs.run Session.step s events = some s' ∧ Tracks i next s' := by
  cases atom with
  | still next step =>
      cases step with
      | other step => exact tracks.interference step
      | record next recorded =>
          refine ⟨[], s, rfl, tracks.same ?_ recorded.clock.ge ?_⟩
          · rw [recorded.nodes i]
          · simp only [World.ticketsOut, recorded.leases]
  | lease j next admitted => exact tracks.lease j admitted
  | release index lease found reported =>
      refine ⟨[], s, rfl, tracks.same ?_ le_rfl ?_⟩
      · exact setNode_br_other w i lease.node _ fun same => by rw [same]
      · apply filterMap_set_same _ _ _ lease _ found
        simp [Lease.ticketOut, reported]

/-! ## Every run -/

theorem Tracks.path {i : Fin n} {w next : World n} {s : Session} (tracks : Tracks i w s)
    (path : Path w next) :
    ∃ events s', Runs.run Session.step s events = some s' ∧ Tracks i next s' := by
  induction path with
  | refl => exact ⟨[], s, rfl, tracks⟩
  | tail _ atom ih =>
      obtain ⟨before, middle, ran, tracksMiddle⟩ := ih
      obtain ⟨after, s', ranAfter, tracksNext⟩ := tracksMiddle.atom atom
      refine ⟨before ++ after, s', ?_, tracksNext⟩
      rw [Runs.run_append, ran]
      exact ranAfter

theorem session_of_reached {instances : List Instance} {defaultMaxConcurrent : Int}
    {opts : Options} {rt : Runtime instances.length} {clock : Int}
    {actions : List (Action instances.length)} {w : World instances.length}
    (reached : Reached instances defaultMaxConcurrent opts rt clock actions w)
    (cfg : Breaker.Config) (enabled : opts.breaker = some cfg) (i : Fin instances.length) :
    ∃ events s, Session.Reached cfg clock events s ∧ Tracks i w s := by
  have fresh : Tracks i (new instances defaultMaxConcurrent opts clock)
      (Session.start cfg clock) := by
    refine ⟨?_, le_rfl, List.Perm.refl _⟩
    simp [new, World.idle, newNode, Options.clamp, enabled, Session.start]
  exact fresh.path (Path.run rt opts.clamp actions _ w reached)

theorem sessions_of_breakers (instances : List Instance) (defaultMaxConcurrent : Int)
    (opts : Options) (rt : Runtime instances.length) (clock : Int)
    (actions : List (Action instances.length)) (w : World instances.length)
    (reached : Reached instances defaultMaxConcurrent opts rt clock actions w)
    (cfg : Breaker.Config) (enabled : opts.breaker = some cfg) (i : Fin instances.length) :
    ∃ events s, Session.Reached cfg clock events s ∧ (w.nodes i).br = some s.b ∧
      s.clock ≤ w.clock ∧ s.outstanding.Perm (w.ticketsOut i) := by
  obtain ⟨events, s, session, tracks⟩ := session_of_reached reached cfg enabled i
  exact ⟨events, s, session, tracks.breaker, tracks.clock, tracks.tickets⟩

end

/-- The one node fails a request, cools down, and has its probe running. -/
def probeRunning : List (Action 1) :=
  [.acquire promptA, .evaluate 0 [], .other (.report 0 (some false)), .release 0,
    .other (.tick 1000000000), .acquire promptA, .evaluate 1 []]

theorem sessions_of_probeRunning :
    ∃ w : World 1, Reached oneSlot 0 breakerOptions (Runtime.exact 1) 0 probeRunning w ∧
      ∃ events s, Session.Reached ⟨1, second, 0, 1⟩ 0 events s ∧
        s.outstanding = [⟨true, 2⟩] := by
  have evaluated : (Runs.run (World.step (Runtime.exact 1) breakerOptions.clamp)
      (new oneSlot 0 breakerOptions 0) probeRunning).map (fun w : World 1 => w.ticketsOut 0) =
      some [⟨true, 2⟩] := by
    decide +kernel
  obtain ⟨w, reached, out⟩ := Option.map_eq_some_iff.mp evaluated
  obtain ⟨events, s, session, _, _, tickets⟩ := sessions_of_breakers oneSlot 0 breakerOptions
    (Runtime.exact 1) 0 probeRunning w reached ⟨1, second, 0, 1⟩ rfl (0 : Fin 1)
  have probe : s.outstanding.Perm [⟨true, 2⟩] := out ▸ tickets
  exact ⟨w, reached, events, s, session, List.perm_singleton.mp probe⟩

end RadixGates.Router
