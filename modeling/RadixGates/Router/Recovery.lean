import RadixGates.Router.Wakeup

/-!
# What a waiting call has seen

With no affinity wait a call waits only when all its candidates are full.  As
long as its channel is open no slot has been freed, so they still are: a node
with a free slot was no candidate when the call decided.  A node that comes up,
or whose breaker ends its cool-down, later than that does not wake the call.
-/

set_option autoImplicit false

namespace RadixGates.Router

section
variable {n : Nat}

/-! ## The decision to wait -/

theorem foldl_lessLoaded_none (nodes : Fin n → Node) (cands : List (Scored n))
    (start : Option (Fin n)) (none : cands.foldl (lessLoaded nodes) start = none) :
    start = .none ∧
      ∀ c ∈ cands, (nodes c.node).maxConcurrent ≤ (nodes c.node).inflight := by
  induction cands generalizing start with
  | nil => exact ⟨none, by simp⟩
  | cons c rest ih =>
      obtain ⟨kept, full⟩ := ih _ none
      unfold lessLoaded at kept
      split at kept
      · cases start with
        | none => cases kept
        | some b =>
            dsimp only at kept
            split at kept <;> cases kept
      · rename_i taken
        refine ⟨kept, ?_⟩
        intro d member
        rcases List.mem_cons.mp member with rfl | later
        · exact not_lt.mp taken
        · exact full d later

theorem offer_unheld (limit : Int) (cands : List (Scored n)) (first denied : Bool) (e : Eval n)
    (pick : Pick) (ended : (offer limit false first denied cands e).2 = .inl pick) :
    pick.waits = false := by
  induction cands generalizing first denied e with
  | nil => cases ended
  | cons c rest ih =>
      simp only [offer, Bool.false_eq_true, false_and, and_false, if_false] at ended
      split at ended
      · cases tried : (tryLeaseLocked e c.node).2 with
        | some lease =>
            simp only [tried, Sum.inl.injEq] at ended
            rw [← ended]
            rfl
        | none =>
            simp only [tried] at ended
            exact ih _ _ _ ended
      · exact ih _ _ _ ended

/-- Without a hold the candidates of a call that waits are full. -/
theorem settle_full (limit : Int) (cands : List (Scored n)) (e : Eval n)
    (waits : (settle limit false cands e).2.waits = true) :
    ∀ c ∈ cands, ((settle limit false cands e).1.w.nodes c.node).maxConcurrent ≤
      ((settle limit false cands e).1.w.nodes c.node).inflight := by
  have unheld := offer_unheld limit cands true false e
  simp only [settle] at waits ⊢
  cases offered : (offer limit false true false cands e).2 with
  | inl pick =>
      simp only [offered] at waits
      rw [unheld pick offered] at waits
      cases waits
  | inr denied =>
      simp only [offered, spill] at waits ⊢
      cases least : leastLoaded (offer limit false true false cands e).1.w.nodes cands with
      | none =>
          exact (foldl_lessLoaded_none _ cands none least).2
      | some best =>
          simp only [least] at waits
          cases tried : (tryLeaseLocked (offer limit false true false cands e).1 best).2 <;>
            simp [tried, Pick.waits] at waits

theorem promote_perm (i : Nat) (cands : List (Scored n)) : (promote i cands).Perm cands := by
  unfold promote
  cases found : cands[i]? with
  | none => exact List.Perm.refl _
  | some moved =>
      obtain ⟨inside, here⟩ := List.getElem?_eq_some_iff.mp found
      have split := List.getElem_cons_eraseIdx_perm inside
      rwa [here] at split

theorem ranked_perm (rt : Runtime n) (opts : Options) (w : World n) (call : Call)
    (schedule : List (List (Interference n))) :
    (w.ranked rt opts call schedule).2.Perm (w.gathered call schedule).2.1 := by
  have sorted := rt.sort.perm (fun c => c.s.toNat) (w.gathered call schedule).2.1
  simp only [World.ranked, rankAndPlace]
  split
  · exact (promote_perm _ _).trans sorted
  · exact sorted

/-- A call without a hold that decides to wait finds every candidate full. -/
theorem decision_full (rt : Runtime n) (opts : Options) (w : World n) (call : Call)
    (schedule : List (List (Interference n))) (unheld : call.hold = false)
    (waits : (w.decision rt opts call schedule).2.waits = true) (i : Fin n)
    (candidate : (i, Verdict.candidate) ∈ w.surveyed call schedule) :
    ((w.decision rt opts call schedule).1.w.nodes i).maxConcurrent ≤
      ((w.decision rt opts call schedule).1.w.nodes i).inflight := by
  obtain ⟨c, member, rfl⟩ := (mem_collect _ _ _ _ _ _ i).mpr candidate
  have inRanked := (ranked_perm rt opts w call schedule).symm.subset member
  rw [decision_eq] at waits ⊢
  split at waits
  · cases waits
  · rename_i some
    rw [if_neg some]
    rw [unheld] at waits ⊢
    exact settle_full _ _ _ waits c inRanked

/-! ## Until the next release -/

/-- No slot was freed between the two states. -/
def Fuller (w w' : World n) : Prop := ∀ i, (w.nodes i).inflight ≤ (w'.nodes i).inflight

theorem Ungranted.fuller {w w' : World n} (ungranted : Ungranted w w') : Fuller w w' :=
  fun i => (ungranted.sameLoad.inflight i).ge

theorem Fuller.frame : Frame (Fuller (n := n)) where
  trans first second i := (first i).trans (second i)
  unlocked unlocked := unlocked.ungranted.fuller
  grant w i t := by
    intro j
    rw [grant_nodes]
    split
    · rename_i same
      rw [same]
      dsimp only
      omega
    · exact le_rfl

/-- Only a release frees a slot. -/
theorem Stepped.fuller {rt : Runtime n} {opts : Options} {w next : World n} {action : Action n}
    (stepped : Stepped rt opts w action next) (keeps : action.isRelease = false) :
    Fuller w next := by
  cases stepped with
  | evaluate index schedule call found deciding =>
      have decided : Fuller w (w.decision rt opts call schedule).1.w := by
        apply Fuller.frame.decision
        intro kh group exclude found
        exact (Ungranted.rankAndPlace rt opts kh group exclude found).fuller
      obtain ⟨waiting, calls, ended⟩ := (evaluate_passed rt opts w index call schedule).bookkeeping
      rw [ended]
      exact decided
  | other interference => exact (Unlocked.interference w interference).ungranted.fuller
  | release => cases keeps
  | acquire | wake | affinityExpired | queueExpired | ctxDone | leave => exact Fuller.frame.refl w

/-- Full nodes stay full along a run without a release. -/
theorem run_full (rt : Runtime n) (opts : Options) (actions : List (Action n)) (w final : World n)
    (keeps : ∀ action ∈ actions, action.isRelease = false)
    (reached : Runs.run (World.step rt opts) w actions = some final) (i : Fin n)
    (full : (w.nodes i).maxConcurrent ≤ (w.nodes i).inflight) :
    (final.nodes i).maxConcurrent ≤ (final.nodes i).inflight := by
  apply Runs.run_preserves_of_forall (World.step rt opts)
    (fun w => (w.nodes i).maxConcurrent ≤ (w.nodes i).inflight)
    (fun action => action.isRelease = false) _ actions w final full keeps reached
  intro w action next full keeps stepped
  have kind := step_stepped rt opts w next action stepped
  rw [kind.sameIdentity.maxConcurrent]
  exact full.trans (kind.fuller keeps i)

theorem evaluate_full (rt : Runtime n) (opts : Options) (w : World n) (index : Nat) (call : Call)
    (schedule : List (List (Interference n))) (unheld : call.hold = false)
    (waits : (w.decision rt opts call schedule).2.waits = true) (i : Fin n)
    (candidate : (i, Verdict.candidate) ∈ w.surveyed call schedule) :
    ((w.evaluate rt opts index call schedule).nodes i).maxConcurrent ≤
      ((w.evaluate rt opts index call schedule).nodes i).inflight := by
  obtain ⟨waiting, calls, ended⟩ := (evaluate_passed rt opts w index call schedule).bookkeeping
  rw [ended]
  exact decision_full rt opts w call schedule unheld waits i candidate

end

theorem unheld_of_reached {instances : List Instance} {defaultMaxConcurrent : Int}
    {opts : Options} {rt : Runtime instances.length} {clock : Int}
    {actions : List (Action instances.length)} {w : World instances.length}
    (spills : opts.affinityWait ≤ 0)
    (reached : Reached instances defaultMaxConcurrent opts rt clock actions w) :
    ∀ call ∈ w.calls, call.hold = false := by
  apply Runs.run_preserves (World.step rt opts.clamp) (fun w => ∀ call ∈ w.calls, call.hold = false)
    _ actions _ w _ reached
  · intro w action next unheld stepped
    have kind := step_stepped rt opts.clamp w next action stepped
    apply kind.requests (fun _ hold => hold = false) unheld (fun _ _ _ => rfl)
    intro request _
    have never : ¬ 0 < opts.clamp.affinityWait := not_lt.mpr spills
    simp [never]
  · simp [new, World.idle]

section
variable {n : Nat}

/-- Steps without the router lock leave a blocked call on its open channel. -/
theorem run_others_blocked (rt : Runtime n) (opts : Options) (others : List (Interference n))
    (w final : World n) (index channel : Nat) (blocked : w.blockedOn index channel)
    (stillOpen : w.notify ≤ channel)
    (ran : Runs.run (World.step rt opts) w (others.map .other) = some final) :
    final.blockedOn index channel ∧ final.notify ≤ channel := by
  apply Runs.run_preserves_of_forall (World.step rt opts)
    (fun w => w.blockedOn index channel ∧ w.notify ≤ channel)
    (fun action => ∃ x, action = .other x) _ _ w final ⟨blocked, stillOpen⟩ (by simp) ran
  rintro w action next ⟨blocked, stillOpen⟩ ⟨x, rfl⟩ stepped
  cases step_stepped rt opts w next _ stepped with
  | other =>
      have unlocked := Unlocked.interference w x
      unfold World.blockedOn
      rw [unlocked.calls, unlocked.notify]
      exact ⟨blocked, stillOpen⟩

/-- The release closes the channel, and the call may go on to decide. -/
theorem release_wakes (rt : Runtime n) (opts : Options) (w next : World n) (lease : Nat)
    (index : Nat) (blocked : w.blockedOn index w.notify)
    (released : w.step rt opts (.release lease) = some next) :
    ∃ woken, next.step rt opts (.wake index) = some woken := by
  obtain ⟨call, found, place⟩ := blocked
  cases step_stepped rt opts w next _ released with
  | release _ slot atLease reported =>
      have after : (w.release lease slot).blockedOn index w.notify := ⟨call, found, place⟩
      have awake : (w.release lease slot).awake index := by
        refine ⟨call, found, ?_⟩
        rw [place]
        exact decide_eq_true (Nat.lt_succ_self w.notify)
      exact wake_enabled rt opts _ index _ awake after

end

/-- With no affinity wait, a node that has a free slot while a call waits on an
open channel was no candidate of that call's last decision: it was outside its
group or filter, excluded, or unavailable.  What happens without the router lock
wakes nobody, so a node that comes back is seen at the next release. -/
theorem free_node_was_no_candidate (instances : List Instance) (defaultMaxConcurrent : Int)
    (opts : Options) (rt : Runtime instances.length) (clock : Int)
    (actions : List (Action instances.length)) (w : World instances.length)
    (spills : opts.affinityWait ≤ 0)
    (reached : Reached instances defaultMaxConcurrent opts rt clock actions w)
    (index channel : Nat) (blocked : w.blockedOn index channel) (stillOpen : w.notify ≤ channel) :
    (∃ before schedule since asked call,
      actions = before ++ .evaluate index schedule :: since ∧
      (∀ action ∈ since, action.evaluates index = false) ∧
      Reached instances defaultMaxConcurrent opts rt clock before asked ∧
      asked.calls[index]? = some call ∧
      ∀ i, (w.nodes i).inflight < (w.nodes i).maxConcurrent →
        (i, Verdict.skipped) ∈ asked.surveyed call schedule ∨
          (i, Verdict.unavailable) ∈ asked.surveyed call schedule) ∧
      ∀ (others : List (Interference instances.length)) (final : World instances.length),
        Runs.run (World.step rt opts.clamp) w (others.map .other) = some final →
        final.blockedOn index channel ∧ final.notify ≤ channel ∧
        ∀ lease next, final.step rt opts.clamp (.release lease) = some next →
          ∃ woken, next.step rt opts.clamp (.wake index) = some woken := by
  obtain ⟨before, schedule, since, asked, call, split, none, ran, found, here, waits, later⟩ :=
    blocked_since rt opts.clamp _ (nobody_blocked clock _) actions w reached index channel blocked
  have passed := run_notify rt opts.clamp since _ w later
  rw [evaluate_notify, here] at passed
  refine ⟨⟨before, schedule, since, asked, call, split, none, ran, found, ?_⟩, ?_⟩
  · have unheld := unheld_of_reached spills ran call (List.mem_of_getElem? found)
    have unreleased : ∀ action ∈ since, action.isRelease = false := by
      have nothing : since.countP Action.isRelease = 0 := by omega
      simpa [List.countP_eq_zero] using nothing
    intro i free
    obtain ⟨v, logged⟩ := exists_verdict call.request.targetGroup
      (call.request.filter.getD entryPoint) call.request.exclude ⟨asked, schedule⟩ i
    cases v with
    | skipped => exact Or.inl logged
    | unavailable => exact Or.inr logged
    | candidate =>
        have full := evaluate_full rt opts.clamp asked index call schedule unheld waits i logged
        have stays := run_full rt opts.clamp since _ w unreleased later i full
        omega
  · intro others final parked
    obtain ⟨waiting, unclosed⟩ :=
      run_others_blocked rt opts.clamp others w final index channel blocked stillOpen parked
    refine ⟨waiting, unclosed, ?_⟩
    intro lease next released
    -- no channel is numbered beyond the current one
    have current : channel = final.notify := by
      have forward := run_notify rt opts.clamp (others.map .other) w final parked
      omega
    rw [current] at waiting
    exact release_wakes rt opts.clamp final next lease index waiting released

/-! ## A node that comes back -/

/-- The call waits on an open channel although the node would take it. -/
def World.stuckBeside {n : Nat} (w : World n) (index : Nat) (i : Fin n) : Prop :=
  ∃ call channel, w.calls[index]? = some call ∧ call.pc = .blocked channel ∧
    w.notify ≤ channel ∧
    eligible call.request.targetGroup (call.request.filter.getD entryPoint) call.request.exclude
      (w.nodes i) = true ∧
    (w.nodes i).up = true ∧ (∀ b, (w.nodes i).br = some b → (b.available w.clock).2 = true) ∧
    (w.nodes i).inflight < (w.nodes i).maxConcurrent

def promptA : Request := ⟨"", "", none, []⟩

def pairOfSlots : List Instance := [⟨"", "a", 1, 1, ""⟩, ⟨"", "b", 1, 1, ""⟩]

/-- The second request is queued while the second node is down. -/
def nodeReturns : List (Action 2) :=
  [.other (.setUp (Fin.last 1) false), .acquire promptA, .acquire promptA, .evaluate 0 [],
    .evaluate 1 [], .other (.setUp (Fin.last 1) true)]

theorem nodeReturns_reaches :
    ∃ (w : World 2) (call : Call),
      Reached pairOfSlots 0 oneSlotOptions (Runtime.exact 2) 0 nodeReturns w ∧
      w.calls[1]? = some call ∧ call.pc = .blocked 0 ∧ w.notify = 0 ∧
      eligible call.request.targetGroup (call.request.filter.getD entryPoint) call.request.exclude
        (w.nodes 1) = true ∧
      (w.nodes 1).up = true ∧ (w.nodes 1).br = none ∧
      (w.nodes 1).inflight < (w.nodes 1).maxConcurrent := by
  have evaluated : ((Runs.run (World.step (Runtime.exact 2) oneSlotOptions.clamp)
      (new pairOfSlots 0 oneSlotOptions 0) nodeReturns).bind fun w => w.calls[1]?.map fun call =>
        (call.pc.channel, w.notify,
          eligible call.request.targetGroup (call.request.filter.getD entryPoint)
            call.request.exclude (w.nodes 1),
          (w.nodes 1).up, (w.nodes 1).br.isNone,
          decide ((w.nodes 1).inflight < (w.nodes 1).maxConcurrent))) =
      some (some 0, 0, true, true, true, true) := by
    decide +kernel
  obtain ⟨w, reached, rest⟩ := Option.bind_eq_some_iff.mp evaluated
  obtain ⟨call, found, facts⟩ := Option.map_eq_some_iff.mp rest
  simp only [Prod.mk.injEq, decide_eq_true_eq, Option.isNone_iff_eq_none] at facts
  obtain ⟨place, channel, matching, up, noBreaker, free⟩ := facts
  exact ⟨w, call, reached, found, Pc.blocked_of_channel place, channel, matching, up, noBreaker,
    free⟩

theorem returned_node_wakes_nobody :
    ∃ w : World 2, oneSlotOptions.affinityWait = 0 ∧
      Reached pairOfSlots 0 oneSlotOptions (Runtime.exact 2) 0 nodeReturns w ∧
      w.stuckBeside 1 1 := by
  obtain ⟨w, call, reached, found, place, channel, matching, up, noBreaker, free⟩ :=
    nodeReturns_reaches
  refine ⟨w, rfl, reached, call, 0, found, place, channel.le, matching, up, ?_, free⟩
  intro b present
  rw [noBreaker] at present
  cases present

theorem returned_node_was_no_candidate :
    ∃ (w asked : World 2) (call : Call) (schedule : List (List (Interference 2))),
      Reached pairOfSlots 0 oneSlotOptions (Runtime.exact 2) 0 nodeReturns w ∧
      (w.nodes 1).inflight < (w.nodes 1).maxConcurrent ∧ asked.calls[1]? = some call ∧
      ((1, Verdict.skipped) ∈ asked.surveyed call schedule ∨
        (1, Verdict.unavailable) ∈ asked.surveyed call schedule) := by
  obtain ⟨w, call, reached, found, place, channel, _, _, _, free⟩ := nodeReturns_reaches
  obtain ⟨⟨_, schedule, _, asked, call, _, _, _, was, absent⟩, _⟩ :=
    free_node_was_no_candidate pairOfSlots 0 oneSlotOptions (Runtime.exact 2) 0 nodeReturns w
      (by decide) reached 1 0 ⟨call, found, place⟩ channel.le
  exact ⟨w, asked, call, schedule, reached, free, was, absent (1 : Fin 2) free⟩

end RadixGates.Router
