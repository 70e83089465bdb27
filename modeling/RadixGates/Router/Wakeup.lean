import RadixGates.Router.Capacity

/-!
# Wake-ups

A release closes the current notify channel and makes the next one.  A call
that has to wait captures the channel in the critical section of its decision,
so no release can fall between the two: the channel is closed by the first
release after that decision, and by nothing else.  In particular nothing but a
release wakes a waiting call.
-/

set_option autoImplicit false

namespace RadixGates.Router

section
variable {n : Nat}

def Action.isRelease : Action n → Bool
  | .release _ => true
  | _ => false

/-- The call sits in the `select` on this channel. -/
def World.blockedOn (w : World n) (index channel : Nat) : Prop :=
  ∃ call, w.calls[index]? = some call ∧ call.pc = .blocked channel

theorem Passed.notify {opts : Options} {index : Nat} {call : Call} {after next : World n}
    {pick : Pick} (passed : Passed opts index call after pick next) :
    next.notify = after.notify := by
  obtain ⟨waiting, calls, rfl⟩ := passed.bookkeeping
  rfl

theorem Stepped.notify {rt : Runtime n} {opts : Options} {w next : World n} {action : Action n}
    (stepped : Stepped rt opts w action next) :
    next.notify = w.notify + if action.isRelease then 1 else 0 := by
  cases stepped with
  | evaluate index schedule call found deciding =>
      rw [(evaluate_passed rt opts w index call schedule).notify,
        (decision_sameQueue rt opts w call schedule).notify]
      rfl
  | other interference => exact (Unlocked.interference w interference).notify
  | acquire | wake | affinityExpired | queueExpired | ctxDone | leave | release => rfl

theorem blockedOn_set {w next : World n} {index : Nat} {call call' : Call} {other channel : Nat}
    (found : w.calls[index]? = some call) (calls : next.calls = w.calls.set index call')
    (blocked : next.blockedOn other channel) :
    (other ≠ index ∧ w.blockedOn other channel) ∨
      (other = index ∧ call'.pc = .blocked channel) := by
  obtain ⟨c, atIndex, place⟩ := blocked
  rw [calls] at atIndex
  rcases call_of_set found atIndex with ⟨elsewhere, old⟩ | ⟨here, rfl⟩
  · exact Or.inl ⟨elsewhere, c, old, place⟩
  · exact Or.inr ⟨here, place⟩

/-- A pass that leaves its call blocked blocks it on the current channel. -/
theorem Passed.blockedOn {opts : Options} {index : Nat} {call : Call} {after next : World n}
    {pick : Pick} (passed : Passed opts index call after pick next)
    (found : after.calls[index]? = some call) {other channel : Nat}
    (blocked : next.blockedOn other channel) :
    (other ≠ index ∧ after.blockedOn other channel) ∨
      (other = index ∧ channel = after.notify ∧ pick.waits = true) := by
  cases passed with
  | granted lease =>
      rcases blockedOn_set found (by simp only [World.setCall, dequeue_calls]; rfl) blocked with
        old | ⟨_, place⟩
      · exact Or.inl old
      · cases place
  | noNode =>
      rcases blockedOn_set found (by simp only [World.setCall, dequeue_calls]; rfl) blocked with
        old | ⟨_, place⟩
      · exact Or.inl old
      · cases place
  | queueFull waits fresh full =>
      rcases blockedOn_set found rfl blocked with old | ⟨_, place⟩
      · exact Or.inl old
      · cases place
  | blocked waits affinity room =>
      rcases blockedOn_set found (by simp only [World.setCall, enqueue_calls]; rfl) blocked with
        old | ⟨here, place⟩
      · exact Or.inl old
      · cases place
        exact Or.inr ⟨here, rfl, waits⟩

/-- A blocked call was blocked before, or has just decided to wait. -/
theorem Stepped.blockedOn {rt : Runtime n} {opts : Options} {w next : World n} {action : Action n}
    (stepped : Stepped rt opts w action next) {other channel : Nat}
    (blocked : next.blockedOn other channel) :
    (action.evaluates other = false ∧ w.blockedOn other channel) ∨
      ∃ schedule call, action = .evaluate other schedule ∧ w.calls[other]? = some call ∧
        channel = w.notify ∧ (w.decision rt opts call schedule).2.waits = true ∧
        next = w.evaluate rt opts other call schedule := by
  cases stepped with
  | evaluate index schedule call found deciding =>
      have same := decision_sameQueue rt opts w call schedule
      have passed := evaluate_passed rt opts w index call schedule
      rcases passed.blockedOn (by rw [same.calls, found]) blocked with
        ⟨elsewhere, old⟩ | ⟨rfl, here, waits⟩
      · unfold World.blockedOn at old
        rw [same.calls] at old
        exact Or.inl ⟨by simpa [Action.evaluates] using Ne.symm elsewhere, old⟩
      · rw [same.notify] at here
        exact Or.inr ⟨schedule, call, rfl, found, here, waits, rfl⟩
  | acquire request =>
      obtain ⟨c, atIndex, place⟩ := blocked
      rcases call_of_append atIndex with old | ⟨_, rfl⟩
      · exact Or.inl ⟨rfl, c, old, place⟩
      · cases place
  | wake index call _ found | affinityExpired index call _ found | queueExpired index call _ found
  | ctxDone index cause call _ found | leave index call err found =>
      -- the call that is rewritten leaves the `select`
      rcases blockedOn_set found rfl blocked with old | ⟨_, place⟩
      · exact Or.inl ⟨rfl, old.2⟩
      · cases place
  | release index lease found reported => exact Or.inl ⟨rfl, blocked⟩
  | other interference =>
      unfold World.blockedOn at blocked
      rw [(Unlocked.interference w interference).calls] at blocked
      exact Or.inl ⟨rfl, blocked⟩

/-! ## Since the decision to wait -/

/-- A blocked call has decided to wait at some point of the run, on the channel
of that moment, and has not decided again since. -/
theorem blocked_since (rt : Runtime n) (opts : Options) (start : World n)
    (nobody : ∀ index channel, ¬ start.blockedOn index channel) (actions : List (Action n))
    (w : World n) (reached : Runs.run (World.step rt opts) start actions = some w)
    (index channel : Nat) (blocked : w.blockedOn index channel) :
    ∃ before schedule since asked call,
      actions = before ++ .evaluate index schedule :: since ∧
      (∀ action ∈ since, action.evaluates index = false) ∧
      Runs.run (World.step rt opts) start before = some asked ∧
      asked.calls[index]? = some call ∧ asked.notify = channel ∧
      (asked.decision rt opts call schedule).2.waits = true ∧
      Runs.run (World.step rt opts) (asked.evaluate rt opts index call schedule) since =
        some w := by
  revert index channel
  apply Runs.run_history (World.step rt opts)
    (fun actions w => ∀ index channel, w.blockedOn index channel →
      ∃ before schedule since asked call,
        actions = before ++ .evaluate index schedule :: since ∧
        (∀ action ∈ since, action.evaluates index = false) ∧
        Runs.run (World.step rt opts) start before = some asked ∧
        asked.calls[index]? = some call ∧ asked.notify = channel ∧
        (asked.decision rt opts call schedule).2.waits = true ∧
        Runs.run (World.step rt opts) (asked.evaluate rt opts index call schedule) since =
          some w) start _ _ actions w reached
  · intro index channel blocked
    exact absurd blocked (nobody index channel)
  · intro actions w action next first ih stepped index channel blocked
    rcases (step_stepped rt opts w next action stepped).blockedOn blocked with
      ⟨notMine, old⟩ | ⟨schedule, call, rfl, found, rfl, waits, rfl⟩
    · obtain ⟨before, schedule, since, asked, call, rfl, none, ran, found, here, waits, later⟩ :=
        ih index channel old
      refine ⟨before, schedule, since ++ [action], asked, call, by simp, ?_, ran, found, here,
        waits, Runs.run_snoc _ since action _ w next later stepped⟩
      intro other member
      rcases List.mem_append.mp member with earlier | last
      · exact none other earlier
      · rw [List.mem_singleton.mp last]
        exact notMine
    · exact ⟨actions, schedule, [], w, call, rfl, by simp, first, found, rfl, waits, rfl⟩

theorem run_notify (rt : Runtime n) (opts : Options) (actions : List (Action n))
    (w final : World n) (reached : Runs.run (World.step rt opts) w actions = some final) :
    final.notify = w.notify + actions.countP Action.isRelease := by
  induction actions generalizing w with
  | nil =>
      cases Option.some.inj reached
      rfl
  | cons action rest ih =>
      obtain ⟨next, stepped, rested⟩ := (Runs.run_cons_some _ w final action rest).mp reached
      rw [ih next rested, (step_stepped rt opts w next action stepped).notify, List.countP_cons]
      omega

theorem evaluate_notify (rt : Runtime n) (opts : Options) (w : World n) (index : Nat) (call : Call)
    (schedule : List (List (Interference n))) :
    (w.evaluate rt opts index call schedule).notify = w.notify := by
  rw [(evaluate_passed rt opts w index call schedule).notify,
    (decision_sameQueue rt opts w call schedule).notify]

/-! ## After a release -/

/-- The errors a call comes back with by itself, whatever the pool looks like. -/
def AcquireError.givesUp : AcquireError → Bool
  | .queueTimeout => true
  | .ctx _ => true
  | _ => false

/-- The call is about to decide, or free to move on to that, or gives up by
itself. -/
def Pc.awake (notify : Nat) : Pc → Bool
  | .deciding => true
  | .blocked channel => decide (channel < notify)
  | .leaving err => err.givesUp
  | .returned (.error err) => err.givesUp
  | .returned (.ok _) => false

def World.awake (w : World n) (index : Nat) : Prop :=
  ∃ call, w.calls[index]? = some call ∧ call.pc.awake w.notify = true

theorem Pc.awake_mono {notify later : Nat} (place : Pc) (forward : notify ≤ later)
    (awake : place.awake notify = true) : place.awake later = true := by
  cases place with
  | blocked channel =>
      simp only [Pc.awake, decide_eq_true_eq] at awake ⊢
      omega
  | deciding | leaving err => exact awake
  | returned result => cases result <;> exact awake

theorem awake_set {w : World n} {index other : Nat} {call : Call} (call' : Call)
    (found : w.calls[index]? = some call)
    (kept : call.pc.awake w.notify = true → call'.pc.awake w.notify = true)
    (awake : w.awake other) : (w.setCall index call').awake other := by
  have inside := (List.getElem?_eq_some_iff.mp found).1
  obtain ⟨c, atOther, ready⟩ := awake
  by_cases here : index = other
  · subst here
    rw [found] at atOther
    cases atOther
    exact ⟨call', by simp [World.setCall, inside], kept ready⟩
  · exact ⟨c, by simp [World.setCall, here, atOther], ready⟩

/-- An awake call stays awake until it decides. -/
theorem Stepped.awake {rt : Runtime n} {opts : Options} {w next : World n} {action : Action n}
    (stepped : Stepped rt opts w action next) {other : Nat}
    (notYet : action.evaluates other = false) (awake : w.awake other) : next.awake other := by
  cases stepped with
  | acquire request =>
      obtain ⟨c, atOther, ready⟩ := awake
      have inside := (List.getElem?_eq_some_iff.mp atOther).1
      exact ⟨c, by rw [List.getElem?_append_left inside, atOther], ready⟩
  | evaluate index schedule call found deciding =>
      obtain ⟨c, atOther, ready⟩ := awake
      obtain ⟨call', _, _, calls⟩ := (evaluate_passed rt opts w index call schedule).calls
      have elsewhere : index ≠ other := by simpa [Action.evaluates] using notYet
      refine ⟨c, ?_, ?_⟩
      · rw [calls, (decision_sameQueue rt opts w call schedule).calls,
          List.getElem?_set_ne elsewhere, atOther]
      · rw [evaluate_notify]
        exact ready
  | wake index call channel found blocked closed => exact awake_set _ found (fun _ => rfl) awake
  | affinityExpired index call channel found blocked armed =>
      exact awake_set _ found (fun _ => rfl) awake
  | queueExpired index call channel found blocked => exact awake_set _ found (fun _ => rfl) awake
  | ctxDone index cause call channel found blocked =>
      exact awake_set _ found (fun _ => rfl) awake
  | leave index call err found leaving =>
      refine awake_set { call with pc := .returned (.error err) } found ?_ awake
      rw [leaving]
      exact id
  | release index lease found reported =>
      obtain ⟨c, atOther, ready⟩ := awake
      exact ⟨c, atOther, c.pc.awake_mono (Nat.le_succ _) ready⟩
  | other interference =>
      have unlocked := Unlocked.interference w interference
      unfold World.awake
      rw [unlocked.calls, unlocked.notify]
      exact awake

theorem run_awake (rt : Runtime n) (opts : Options) (index : Nat) (actions : List (Action n))
    (w final : World n) (awake : w.awake index)
    (notYet : ∀ action ∈ actions, action.evaluates index = false)
    (reached : Runs.run (World.step rt opts) w actions = some final) : final.awake index := by
  apply Runs.run_preserves_of_forall (World.step rt opts) (fun w => w.awake index)
    (fun action => action.evaluates index = false) _ actions w final awake notYet reached
  intro w action next awake notMine stepped
  exact (step_stepped rt opts w next action stepped).awake notMine awake

/-- A blocked call that is awake can take its next step at once. -/
theorem wake_enabled (rt : Runtime n) (opts : Options) (w : World n) (index channel : Nat)
    (awake : w.awake index) (blocked : w.blockedOn index channel) :
    ∃ next, w.step rt opts (.wake index) = some next := by
  obtain ⟨c, atIndex, ready⟩ := awake
  obtain ⟨c', same, place⟩ := blocked
  rw [atIndex] at same
  cases same
  have closed : channel < w.notify := by simpa [Pc.awake, place] using ready
  exact ⟨w.setCall index { c with pc := .deciding }, by
    simp only [World.step, atIndex, Option.bind_some, place, if_pos closed]⟩

/-! ## Closed channels -/

/-- The channels closed along a run. -/
def closedChannels (rt : Runtime n) (opts : Options) : World n → List (Action n) → List Nat
  | _, [] => []
  | w, action :: rest =>
      match w.step rt opts action with
      | some next =>
          (if action.isRelease then [w.notify] else []) ++ closedChannels rt opts next rest
      | none => []

theorem closedChannels_sorted (rt : Runtime n) (opts : Options) (actions : List (Action n))
    (w : World n) :
    (closedChannels rt opts w actions).Pairwise (· < ·) ∧
      ∀ channel ∈ closedChannels rt opts w actions, w.notify ≤ channel := by
  induction actions generalizing w with
  | nil => simp [closedChannels]
  | cons action rest ih =>
      simp only [closedChannels]
      cases stepped : w.step rt opts action with
      | none => simp
      | some next =>
          have moved := (step_stepped rt opts w next action stepped).notify
          obtain ⟨sorted, above⟩ := ih next
          by_cases releases : action.isRelease = true
          · rw [if_pos releases] at moved
            simp only [releases, if_true, List.singleton_append, List.pairwise_cons,
              List.mem_cons, forall_eq_or_imp]
            refine ⟨⟨?_, sorted⟩, le_rfl, ?_⟩
            · intro channel member
              have := above channel member
              omega
            · intro channel member
              have := above channel member
              omega
          · rw [if_neg releases, Nat.add_zero] at moved
            simp only [releases, Bool.false_eq_true, if_false, List.nil_append]
            exact ⟨sorted, moved ▸ above⟩

end

theorem nobody_blocked {n : Nat} (clock : Int) (nodes : Fin n → Node) (index channel : Nat) :
    ¬ (World.idle clock nodes).blockedOn index channel := by
  rintro ⟨call, found, _⟩
  simp [World.idle] at found

/-- The channel of a blocked call is open exactly when no release has taken
place since the decision that made it wait; a release wakes every call that is
blocked then, which stays awake until it decides again or gives up by itself;
and no channel is closed twice. -/
theorem no_lost_wakeup (instances : List Instance) (defaultMaxConcurrent : Int) (opts : Options)
    (rt : Runtime instances.length) (clock : Int) (actions : List (Action instances.length))
    (w : World instances.length)
    (reached : Reached instances defaultMaxConcurrent opts rt clock actions w) :
    (∀ index channel, w.blockedOn index channel →
      ∃ before schedule since, actions = before ++ .evaluate index schedule :: since ∧
        (∀ action ∈ since, action.evaluates index = false) ∧
        (w.notify ≤ channel ↔ ∀ action ∈ since, action.isRelease = false)) ∧
      (∀ lease next, w.step rt opts.clamp (.release lease) = some next →
        ∀ index channel, w.blockedOn index channel →
        ∀ later final, Runs.run (World.step rt opts.clamp) next later = some final →
        (∀ action ∈ later, action.evaluates index = false) →
        final.awake index ∧ ∀ channel, final.blockedOn index channel →
          ∃ woken, final.step rt opts.clamp (.wake index) = some woken) ∧
      (closedChannels rt opts.clamp (new instances defaultMaxConcurrent opts clock)
        actions).Nodup := by
  have since : ∀ index channel, w.blockedOn index channel →
      ∃ before schedule since, actions = before ++ .evaluate index schedule :: since ∧
        (∀ action ∈ since, action.evaluates index = false) ∧
        w.notify = channel + since.countP Action.isRelease := by
    intro index channel blocked
    obtain ⟨before, schedule, since, asked, call, split, none, _, _, here, _, later⟩ :=
      blocked_since rt opts.clamp _ (nobody_blocked clock _) actions w reached index channel blocked
    have passed := run_notify rt opts.clamp since _ w later
    rw [evaluate_notify, here] at passed
    exact ⟨before, schedule, since, split, none, passed⟩
  refine ⟨?_, ?_, ?_⟩
  · intro index channel blocked
    obtain ⟨before, schedule, since, split, none, passed⟩ := since index channel blocked
    refine ⟨before, schedule, since, split, none, ?_⟩
    have unreleased : since.countP Action.isRelease = 0 ↔
        ∀ action ∈ since, action.isRelease = false := by
      simp [List.countP_eq_zero]
    rw [← unreleased]
    omega
  · intro lease next released index channel blocked later final ran notYet
    have awake : next.awake index := by
      obtain ⟨_, _, _, _, _, passed⟩ := since index channel blocked
      obtain ⟨call, found, place⟩ := blocked
      cases step_stepped rt opts.clamp w next _ released with
      | release _ slot atLease reported =>
          have closed : channel < w.notify + 1 := by omega
          refine ⟨call, found, ?_⟩
          rw [place]
          exact decide_eq_true closed
    have stays := run_awake rt opts.clamp index later next final awake notYet ran
    exact ⟨stays, fun channel parked => wake_enabled rt opts.clamp final index channel stays parked⟩
  · have sorted := (closedChannels_sorted rt opts.clamp actions
      (new instances defaultMaxConcurrent opts clock)).1
    exact sorted.imp fun less => Nat.ne_of_lt less

def Pc.channel : Pc → Option Nat
  | .blocked channel => some channel
  | _ => none

theorem Pc.blocked_of_channel {pc : Pc} {channel : Nat} (on : pc.channel = some channel) :
    pc = .blocked channel := by
  cases pc <;> simp_all [Pc.channel]

theorem waiting_call_wakes :
    ∃ w next : World 1, Reached oneSlot 0 oneSlotOptions (Runtime.exact 1) 0
        (twoRequests ++ [.other (.report 0 none)]) w ∧
      w.blockedOn 1 0 ∧ w.step (Runtime.exact 1) oneSlotOptions.clamp (.release 0) = some next ∧
      ∃ woken, next.step (Runtime.exact 1) oneSlotOptions.clamp (.wake 1) = some woken := by
  have evaluated : ((Runs.run (World.step (Runtime.exact 1) oneSlotOptions.clamp)
      (new oneSlot 0 oneSlotOptions 0) (twoRequests ++ [.other (.report 0 none)])).bind fun w =>
        (w.step (Runtime.exact 1) oneSlotOptions.clamp (.release 0)).map fun _ =>
          w.calls[1]?.map fun c => c.pc.channel) =
      some (some (some 0)) := by
    decide +kernel
  obtain ⟨w, reached, rest⟩ := Option.bind_eq_some_iff.mp evaluated
  obtain ⟨next, released, facts⟩ := Option.map_eq_some_iff.mp rest
  have blocked : w.blockedOn 1 0 := by
    obtain ⟨call, found, place⟩ := Option.map_eq_some_iff.mp facts
    exact ⟨call, found, Pc.blocked_of_channel place⟩
  have wakeup := no_lost_wakeup oneSlot 0 oneSlotOptions (Runtime.exact 1) 0 _ w reached
  have after := wakeup.2.1 0 next released 1 0 blocked [] next rfl (by simp)
  have parked : next.blockedOn 1 0 := by
    cases step_stepped _ _ w next _ released with
    | release _ slot atLease reported => exact blocked
  exact ⟨w, next, reached, blocked, released, after.2 0 parked⟩

end RadixGates.Router
