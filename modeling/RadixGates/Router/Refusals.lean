import RadixGates.Router.Recovery

/-!
# What `ErrNoNode` says

A candidate may be refused by its breaker after the collecting loop has seen it
available.  The preference loop asks the candidates below their bound and the
fallback asks one more.  When all of these refuse, the decision is `ErrNoNode`
and the candidates at or above their bound were never asked.
-/

set_option autoImplicit false

namespace RadixGates

namespace Breaker

/-- `Allow` says no: the breaker is cooling down, or its probe slots are taken. -/
def Refuses (b : Breaker) (now : Int) : Prop :=
  (b.state = .opened ∧ now < b.openUntil) ∨
    (b.state = .halfOpen ∧ b.cfg.halfOpenMax ≤ b.halfInFlight)

/-- Only a breaker past its cool-down is promoted, and it has a probe slot. -/
theorem allow_refuses_iff (b : Breaker) (now : Int) :
    (b.allow now).2 = none ↔ b.Refuses now := by
  have slots := b.clamped.halfOpenMax_pos
  by_cases past : b.state = .opened ∧ ¬ now < b.openUntil
  · have free : 0 < b.cfg.halfOpenMax := by omega
    simp [allow, advanceLocked, setLocked, past.1, past.2, Refuses, free]
  · cases place : b.state with
    | closed => simp [allow, advanceLocked, place, Refuses]
    | halfOpen =>
        by_cases free : b.halfInFlight < b.cfg.halfOpenMax
        · simp [allow, advanceLocked, place, Refuses, free]
        · simp [allow, advanceLocked, place, Refuses, free, not_lt.mp free]
    | opened =>
        have cooling : now < b.openUntil := by
          by_contra elapsed
          exact past ⟨place, elapsed⟩
        simp [allow, advanceLocked, place, Refuses, cooling]

theorem allow_of_refuses (b : Breaker) (now : Int) (refuses : b.Refuses now) :
    (b.allow now).1 = b := by
  rcases refuses with ⟨opened, cooling⟩ | ⟨halfOpen, full⟩
  · simp [allow, advanceLocked, opened, cooling]
  · simp [allow, advanceLocked, halfOpen, not_lt.mpr full]

end Breaker

namespace Router

section
variable {n : Nat}

/-! ## Logs of the refusals -/

/-- The nodes that refuse in the preference loop. -/
def offerRefusals (limit : Int) (hold : Bool) :
    Bool → List (Scored n) → Eval n → List (Fin n)
  | _, [], _ => []
  | first, c :: rest, e =>
      let node := e.w.nodes c.node
      if node.inflight < min node.maxConcurrent limit then
        let tried := tryLeaseLocked e c.node
        match tried.2 with
        | some _ => []
        | none => c.node :: offerRefusals limit hold false rest tried.1
      else if first ∧ hold ∧ node.maxConcurrent ≤ node.inflight ∧ node.inflight < limit then []
      else offerRefusals limit hold false rest e

/-- The node that refuses in the fallback, if it asks one. -/
def spillRefusals (cands : List (Scored n)) (e : Eval n) : List (Fin n) :=
  match leastLoaded e.w.nodes cands with
  | some best =>
      match (tryLeaseLocked e best).2 with
      | some _ => []
      | none => [best]
  | none => []

def settleRefusals (limit : Int) (hold : Bool) (cands : List (Scored n)) (e : Eval n) :
    List (Fin n) :=
  offerRefusals limit hold true cands e ++
    match (offer limit hold true false cands e).2 with
    | .inl _ => []
    | .inr _ => spillRefusals cands (offer limit hold true false cands e).1

def World.limitOf (rt : Runtime n) (opts : Options) (w : World n) (call : Call)
    (schedule : List (List (Interference n))) : Int :=
  loadLimit rt opts (w.gathered call schedule).2.2 (w.ranked rt opts call schedule).2.length

/-- The nodes whose `Allow` said no during the evaluation. -/
def World.refusals (rt : Runtime n) (opts : Options) (w : World n) (call : Call)
    (schedule : List (List (Interference n))) : List (Fin n) :=
  if (w.gathered call schedule).2.1 = [] then []
  else
    settleRefusals (w.limitOf rt opts call schedule) call.hold
      (w.ranked rt opts call schedule).2 (w.ranked rt opts call schedule).1

/-! ## Which candidates are asked -/

/-- The candidate is under its slots and the load limit. -/
def below (nodes : Fin n → Node) (limit : Int) (c : Scored n) : Bool :=
  decide ((nodes c.node).inflight < min (nodes c.node).maxConcurrent limit)

theorem below_eq_false (nodes : Fin n → Node) (limit : Int) (c : Scored n) :
    below nodes limit c = false ↔
      min (nodes c.node).maxConcurrent limit ≤ (nodes c.node).inflight := by
  rw [below, decide_eq_false_iff_not, not_lt]

def belowNodes (nodes : Fin n → Node) (limit : Int) (cands : List (Scored n)) : List (Fin n) :=
  (cands.filter (below nodes limit)).map fun c => c.node

/-- The preferred candidate is full but not over the load limit, and the call
holds out for it. -/
def heldBack (nodes : Fin n → Node) (limit : Int) (hold : Bool) : List (Scored n) → Bool
  | [] => false
  | c :: _ =>
      hold && decide ((nodes c.node).maxConcurrent ≤ (nodes c.node).inflight) &&
        decide ((nodes c.node).inflight < limit)

/-- Asks the breakers one after another; the state in the end if all refuse. -/
def refuseAll : List (Fin n) → Eval n → Option (Eval n)
  | [], e => some e
  | i :: rest, e =>
      match (e.allow i).2 with
      | some _ => none
      | none => refuseAll rest (e.allow i).1

theorem refuseAll_snoc (asked : List (Fin n)) (i : Fin n) (e : Eval n) :
    refuseAll (asked ++ [i]) e = (refuseAll asked e).bind fun e' => refuseAll [i] e' := by
  induction asked generalizing e with
  | nil => rfl
  | cons j rest ih =>
      simp only [List.cons_append, refuseAll]
      cases (e.allow j).2 with
      | some t => rfl
      | none => exact ih _

/-- The node has a breaker and it says no. -/
def World.Refuses (w : World n) (i : Fin n) : Prop :=
  ∃ b, (w.nodes i).br = some b ∧ b.Refuses w.clock

/-- The pool when the breakers are asked for the `k`-th time: others have run
before each question, and a refusal leaves no trace. -/
def Eval.askedAt (e : Eval n) (k : Nat) : World n :=
  (e.schedule.take (k + 1)).flatten.foldl Interference.apply e.w

theorem yield_askedAt (e : Eval n) : e.yield.w = e.askedAt 0 := by
  obtain ⟨w, schedule⟩ := e
  cases schedule with
  | nil => rfl
  | cons steps rest => simp [Eval.yield, Eval.askedAt]

theorem askedAt_yield (e : Eval n) (k : Nat) : e.yield.askedAt k = e.askedAt (k + 1) := by
  obtain ⟨w, schedule⟩ := e
  cases schedule with
  | nil => rfl
  | cons steps rest => simp [Eval.yield, Eval.askedAt]

theorem allow_none_iff (e : Eval n) (i : Fin n) :
    (e.allow i).2 = none ↔ (e.askedAt 0).Refuses i := by
  rw [← yield_askedAt]
  cases found : (e.yield.w.nodes i).br with
  | none => simp [Eval.allow, World.Refuses, found]
  | some b => simp [Eval.allow, World.Refuses, found, b.allow_refuses_iff]

theorem allow_of_none (e : Eval n) (i : Fin n) (refused : (e.allow i).2 = none) :
    (e.allow i).1 = e.yield := by
  cases found : (e.yield.w.nodes i).br with
  | none => simp [Eval.allow, found] at refused
  | some b =>
      simp only [Eval.allow, found] at refused
      have kept := b.allow_of_refuses _ ((b.allow_refuses_iff _).mp refused)
      have same : { e.yield.w.nodes i with br := some b } = e.yield.w.nodes i := by
        rw [← found]
      simp only [Eval.allow, found, kept, Eval.setBreaker, World.setNode, same,
        Function.update_eq_self]

/-- All refuse, each in the pool it is asked in. -/
theorem refuseAll_iff (asked : List (Fin n)) (e : Eval n) :
    (refuseAll asked e).isSome = true ↔ ∀ k i, asked[k]? = some i → (e.askedAt k).Refuses i := by
  induction asked generalizing e with
  | nil => simp [refuseAll]
  | cons j rest ih =>
      have first := allow_none_iff e j
      cases answer : (e.allow j).2 with
      | some t =>
          rw [answer] at first
          constructor
          · intro all
            simp [refuseAll, answer] at all
          · intro refuses
            exact absurd (first.mpr (refuses 0 j rfl)) (by simp)
      | none =>
          simp only [refuseAll, answer, allow_of_none e j answer, ih, askedAt_yield]
          constructor
          · intro later k i asks
            cases k with
            | zero =>
                cases Option.some.inj asks
                exact first.mp answer
            | succ k => exact later k i asks
          · intro refuses k i asks
            exact refuses (k + 1) i asks

theorem refuseAll_load (asked : List (Fin n)) (e e' : Eval n) (all : refuseAll asked e = some e') :
    SameLoad e.w e'.w := by
  induction asked generalizing e with
  | nil =>
      cases Option.some.inj all
      exact SameLoad.refl _
  | cons i rest ih =>
      simp only [refuseAll] at all
      cases answer : (e.allow i).2 with
      | some t => simp [answer] at all
      | none =>
          rw [answer] at all
          exact (Unlocked.allow e i).sameLoad.trans (ih _ all)

theorem SameLoad.below {w w' : World n} (same : SameLoad w w') (limit : Int) :
    below w'.nodes limit = Router.below w.nodes limit := by
  funext c
  simp only [Router.below, same.inflight, same.limit]

theorem SameLoad.belowNodes {w w' : World n} (same : SameLoad w w') (limit : Int)
    (cands : List (Scored n)) : belowNodes w'.nodes limit cands =
      Router.belowNodes w.nodes limit cands := by
  simp only [Router.belowNodes, same.below]

theorem SameLoad.leastLoaded {w w' : World n} (same : SameLoad w w') (cands : List (Scored n)) :
    leastLoaded w'.nodes cands = Router.leastLoaded w.nodes cands := by
  have step : lessLoaded w'.nodes = lessLoaded w.nodes := by
    funext best c
    simp only [lessLoaded, same.inflight, same.limit]
  simp only [Router.leastLoaded, step]

theorem tryLeaseLocked_none (e : Eval n) (i : Fin n) (refused : (e.allow i).2 = none) :
    tryLeaseLocked e i = ((e.allow i).1, none) := by
  simp only [tryLeaseLocked, refused]

theorem tryLeaseLocked_some (e : Eval n) (i : Fin n) (t : Breaker.Ticket)
    (allowed : (e.allow i).2 = some t) :
    ∃ lease, (tryLeaseLocked e i).2 = some lease ∧
      (tryLeaseLocked e i).1.w.leases[lease]?.map (fun l => l.node) = some i := by
  refine ⟨(e.allow i).1.w.leases.length, ?_, ?_⟩
  · simp only [tryLeaseLocked, allowed]
  · simp [tryLeaseLocked, allowed, World.grant]

/-! ## The preference loop -/

theorem offer_heldBack (limit : Int) (hold denied : Bool) (cands : List (Scored n)) (e : Eval n)
    (held : heldBack e.w.nodes limit hold cands = true) :
    offer limit hold true denied cands e = (e, .inl .preferredBusy) := by
  cases cands with
  | nil => cases held
  | cons c rest =>
      simp only [heldBack, Bool.and_eq_true, decide_eq_true_eq] at held
      obtain ⟨⟨holding, full⟩, under⟩ := held
      have taken : ¬ (e.w.nodes c.node).inflight <
          min (e.w.nodes c.node).maxConcurrent limit := by
        rw [lt_min_iff]
        omega
      simp [offer, taken, holding, full, under]

theorem belowNodes_cons (nodes : Fin n → Node) (limit : Int) (c : Scored n)
    (rest : List (Scored n)) :
    belowNodes nodes limit (c :: rest) =
      if (nodes c.node).inflight < min (nodes c.node).maxConcurrent limit then
        c.node :: belowNodes nodes limit rest
      else belowNodes nodes limit rest := by
  split <;> rename_i under <;> simp [belowNodes, below, under]

theorem not_held {nodes : Fin n → Node} {limit : Int} {hold first : Bool} {c : Scored n}
    {rest : List (Scored n)} (unheld : first = true → heldBack nodes limit hold (c :: rest) = false) :
    ¬ (first = true ∧ hold = true ∧ (nodes c.node).maxConcurrent ≤ (nodes c.node).inflight ∧
      (nodes c.node).inflight < limit) := by
  rintro ⟨isFirst, holding, full, room⟩
  have := unheld isFirst
  simp [heldBack, holding, full, room] at this

/-- With all candidates below their bound refusing, the loop asks them and
nobody else. -/
theorem offer_refused (limit : Int) (hold : Bool) (cands : List (Scored n)) (first denied : Bool)
    (e e' : Eval n) (unheld : first = true → heldBack e.w.nodes limit hold cands = false)
    (all : refuseAll (belowNodes e.w.nodes limit cands) e = some e') :
    offer limit hold first denied cands e =
        (e', .inr (denied || !(belowNodes e.w.nodes limit cands).isEmpty)) ∧
      offerRefusals limit hold first cands e = belowNodes e.w.nodes limit cands := by
  induction cands generalizing first denied e with
  | nil =>
      cases Option.some.inj all
      simp [offer, offerRefusals, belowNodes]
  | cons c rest ih =>
      by_cases under : (e.w.nodes c.node).inflight < min (e.w.nodes c.node).maxConcurrent limit
      · have split := belowNodes_cons e.w.nodes limit c rest
        rw [if_pos under] at split
        rw [split, refuseAll] at all
        cases answer : (e.allow c.node).2 with
        | some t => simp [answer] at all
        | none =>
            rw [answer] at all
            have same := (Unlocked.allow e c.node).sameLoad
            rw [← same.belowNodes] at all
            obtain ⟨offered, logged⟩ := ih false true (e.allow c.node).1 (by simp) all
            simp only [offer, offerRefusals, if_pos under, tryLeaseLocked_none e c.node answer]
            rw [offered, logged, split, same.belowNodes]
            simp
      · have split := belowNodes_cons e.w.nodes limit c rest
        rw [if_neg under] at split
        have passes := not_held unheld
        rw [split] at all
        simp only [offer, offerRefusals, if_neg under, if_neg passes, split]
        exact ih false denied e (by simp) all

theorem offer_granted (limit : Int) (hold : Bool) (cands : List (Scored n)) (first denied : Bool)
    (e : Eval n) (unheld : first = true → heldBack e.w.nodes limit hold cands = false)
    (someone : refuseAll (belowNodes e.w.nodes limit cands) e = none) :
    ∃ lease c, c ∈ cands ∧ below e.w.nodes limit c = true ∧
      (offer limit hold first denied cands e).2 = .inl (.granted lease) ∧
      (offer limit hold first denied cands e).1.w.leases[lease]?.map (fun l => l.node) =
        some c.node := by
  induction cands generalizing first denied e with
  | nil => cases someone
  | cons c rest ih =>
      by_cases under : (e.w.nodes c.node).inflight < min (e.w.nodes c.node).maxConcurrent limit
      · have split := belowNodes_cons e.w.nodes limit c rest
        rw [if_pos under] at split
        simp only [offer, if_pos under]
        cases answer : (e.allow c.node).2 with
        | some t =>
            obtain ⟨lease, granted, onNode⟩ := tryLeaseLocked_some e c.node t answer
            refine ⟨lease, c, List.mem_cons_self, by simp [below, under], ?_⟩
            simp [granted, onNode]
        | none =>
            rw [split, refuseAll, answer] at someone
            have same := (Unlocked.allow e c.node).sameLoad
            rw [← same.belowNodes] at someone
            obtain ⟨lease, d, member, isBelow, granted, onNode⟩ :=
              ih false true (e.allow c.node).1 (by simp) someone
            rw [same.below] at isBelow
            rw [tryLeaseLocked_none e c.node answer]
            exact ⟨lease, d, List.mem_cons_of_mem c member, isBelow, granted, onNode⟩
      · have split := belowNodes_cons e.w.nodes limit c rest
        rw [if_neg under] at split
        have passes := not_held unheld
        rw [split] at someone
        simp only [offer, if_neg under, if_neg passes]
        obtain ⟨lease, d, member, isBelow, granted, onNode⟩ := ih false denied e (by simp) someone
        exact ⟨lease, d, List.mem_cons_of_mem c member, isBelow, granted, onNode⟩

/-! ## The whole decision -/

/-- How the decision among candidates ends, by whom it asks. -/
inductive Settled (limit : Int) (hold : Bool) (cands : List (Scored n)) (e : Eval n) : Prop where
  | held (held : heldBack e.w.nodes limit hold cands = true)
      (busy : (settle limit hold cands e).2 = .preferredBusy)
  | granted (lease : Nat) (c : Scored n) (member : c ∈ cands)
      (free : (e.w.nodes c.node).inflight < (e.w.nodes c.node).maxConcurrent)
      (pick : (settle limit hold cands e).2 = .granted lease)
      (onNode : (settle limit hold cands e).1.w.leases[lease]?.map (fun l => l.node) = some c.node)
      (allowed : ∀ best, leastLoaded e.w.nodes cands = some best →
        refuseAll (belowNodes e.w.nodes limit cands ++ [best]) e = none)
  | full (none : leastLoaded e.w.nodes cands = none)
      (pick : (settle limit hold cands e).2 = .atCapacity)
  | refused (unheld : heldBack e.w.nodes limit hold cands = false) (best : Fin n)
      (least : leastLoaded e.w.nodes cands = some best)
      (all : (refuseAll (belowNodes e.w.nodes limit cands ++ [best]) e).isSome = true)
      (pick : (settle limit hold cands e).2 = .noNode)
      (logged : settleRefusals limit hold cands e = belowNodes e.w.nodes limit cands ++ [best])

theorem settle_settled (limit : Int) (hold : Bool) (cands : List (Scored n)) (e : Eval n) :
    Settled limit hold cands e := by
  cases held : heldBack e.w.nodes limit hold cands with
  | true =>
      apply Settled.held held
      simp only [settle, offer_heldBack limit hold false cands e held]
  | false =>
      cases asked : refuseAll (belowNodes e.w.nodes limit cands) e with
      | none =>
          obtain ⟨lease, c, member, isBelow, granted, onNode⟩ :=
            offer_granted limit hold cands true false e (fun _ => held) asked
          have free := lt_of_lt_of_le (of_decide_eq_true isBelow) (min_le_left _ _)
          apply Settled.granted lease c member free
          · simp only [settle, granted]
          · simp only [settle, granted, onNode]
          · intro best _
            rw [refuseAll_snoc, asked]
            rfl
      | some e' =>
          obtain ⟨offered, logged⟩ :=
            offer_refused limit hold cands true false e e' (fun _ => held) asked
          have least := (refuseAll_load _ e e' asked).leastLoaded cands
          cases chosen : leastLoaded e.w.nodes cands with
          | none =>
              -- a candidate below its bound would have a free slot
              have nobody : belowNodes e.w.nodes limit cands = [] := by
                have full := (foldl_lessLoaded_none e.w.nodes cands none chosen).2
                simp only [belowNodes, List.map_eq_nil_iff, List.filter_eq_nil_iff, below,
                  decide_eq_true_eq, lt_min_iff]
                intro c member under
                have := full c member
                omega
              apply Settled.full chosen
              rw [chosen] at least
              simp [settle, offered, spill, least, nobody]
          | some best =>
              rw [chosen] at least
              have last : refuseAll (belowNodes e.w.nodes limit cands ++ [best]) e =
                  refuseAll [best] e' := by
                rw [refuseAll_snoc, asked]
                rfl
              cases answer : (e'.allow best).2 with
              | none =>
                  apply Settled.refused held best chosen
                  · simp [last, refuseAll, answer]
                  · simp only [settle, offered, spill, least, tryLeaseLocked_none e' best answer]
                  · simp only [settleRefusals, logged, offered, spillRefusals, least,
                      tryLeaseLocked_none e' best answer]
              | some t =>
                  obtain ⟨lease, granted, onNode⟩ := tryLeaseLocked_some e' best t answer
                  obtain ⟨c, member, rfl, free⟩ := leastLoaded_chosen e.w.nodes cands best chosen
                  apply Settled.granted lease c member free
                  · simp only [settle, offered, spill, least, granted]
                  · simp only [settle, offered, spill, least, granted, onNode]
                  · intro other same
                    rw [chosen] at same
                    cases same
                    simp [last, refuseAll, answer]

/-- The decision blames `ErrNoNode` on every node of the pool, and serves a
request that has a candidate nobody refused. -/
structure World.Explained (rt : Runtime n) (opts : Options) (w : World n) (call : Call)
    (schedule : List (List (Interference n))) : Prop where
  noNode : (w.decision rt opts call schedule).2 = .noNode → ∀ i,
    (i, Verdict.skipped) ∈ w.surveyed call schedule ∨
      (i, Verdict.unavailable) ∈ w.surveyed call schedule ∨
      i ∈ w.refusals rt opts call schedule
  served : (∃ i, (i, Verdict.candidate) ∈ w.surveyed call schedule ∧
      i ∉ w.refusals rt opts call schedule) →
    (w.decision rt opts call schedule).2.waits = true ∨
      ∃ lease i, (w.decision rt opts call schedule).2 = .granted lease ∧
        (i, Verdict.candidate) ∈ w.surveyed call schedule ∧
        (w.nodes i).inflight < (w.nodes i).maxConcurrent ∧
        (w.decision rt opts call schedule).1.w.leases[lease]?.map (fun l => l.node) = some i

/-- All that the decision asks refuse, while another candidate is at or above
its bound.  The loads and the limit are those before the evaluation; the
candidates under both and then the least loaded one are asked in turn. -/
def World.Overlooks (rt : Runtime n) (opts : Options) (w : World n) (call : Call)
    (schedule : List (List (Interference n))) : Prop :=
  let cands := (w.ranked rt opts call schedule).2
  let limit := w.limitOf rt opts call schedule
  heldBack w.nodes limit call.hold cands = false ∧
    ∃ best, leastLoaded w.nodes cands = some best ∧
      (∀ k i, (belowNodes w.nodes limit cands ++ [best])[k]? = some i →
        ((w.ranked rt opts call schedule).1.askedAt k).Refuses i) ∧
      ∃ c ∈ cands, c.node ≠ best ∧
        min (w.nodes c.node).maxConcurrent limit ≤ (w.nodes c.node).inflight

theorem ranked_load (rt : Runtime n) (opts : Options) (w : World n) (call : Call)
    (schedule : List (List (Interference n))) :
    SameLoad w (w.ranked rt opts call schedule).1.w :=
  (gathered_unlocked w call schedule).sameLoad.trans
    (Ungranted.rankAndPlace rt opts _ _ _ _).sameLoad

theorem SameLoad.heldBack {w w' : World n} (same : SameLoad w w') (limit : Int) (hold : Bool)
    (cands : List (Scored n)) :
    heldBack w'.nodes limit hold cands = Router.heldBack w.nodes limit hold cands := by
  cases cands with
  | nil => rfl
  | cons c rest => simp only [Router.heldBack, same.inflight, same.limit]

/-- The log of the collecting loop has one entry for a node. -/
theorem surveyed_unique (w : World n) (call : Call) (schedule : List (List (Interference n)))
    (i : Fin n) (u v : Verdict) (first : (i, u) ∈ w.surveyed call schedule)
    (second : (i, v) ∈ w.surveyed call schedule) : u = v := by
  have nodup : ((w.surveyed call schedule).map fun v => v.1).Nodup := by
    rw [World.surveyed, survey_nodes]
    exact List.nodup_finRange n
  have same := List.inj_on_of_nodup_map nodup first second rfl
  exact congrArg Prod.snd same

/-- The two parts of the property say the same once the candidates are known. -/
theorem explained_of_refused {rt : Runtime n} {opts : Options} {w : World n} {call : Call}
    {schedule : List (List (Interference n))}
    (all : (w.decision rt opts call schedule).2 = .noNode → ∀ i,
      (i, Verdict.candidate) ∈ w.surveyed call schedule → i ∈ w.refusals rt opts call schedule)
    (served : (w.decision rt opts call schedule).2 ≠ .noNode →
      (w.decision rt opts call schedule).2.waits = true ∨
      ∃ lease i, (w.decision rt opts call schedule).2 = .granted lease ∧
        (i, Verdict.candidate) ∈ w.surveyed call schedule ∧
        (w.nodes i).inflight < (w.nodes i).maxConcurrent ∧
        (w.decision rt opts call schedule).1.w.leases[lease]?.map (fun l => l.node) = some i) :
    w.Explained rt opts call schedule where
  noNode := by
    intro none i
    obtain ⟨v, logged⟩ := exists_verdict call.request.targetGroup
      (call.request.filter.getD entryPoint) call.request.exclude ⟨w, schedule⟩ i
    cases v with
    | skipped => exact Or.inl logged
    | unavailable => exact Or.inr (Or.inl logged)
    | candidate => exact Or.inr (Or.inr (all none i logged))
  served := by
    rintro ⟨i, candidate, unrefused⟩
    apply served
    intro none
    exact unrefused (all none i candidate)

theorem ranked_candidate (rt : Runtime n) (opts : Options) (w : World n) (call : Call)
    (schedule : List (List (Interference n))) (i : Fin n) :
    (∃ c ∈ (w.ranked rt opts call schedule).2, c.node = i) ↔
      (i, Verdict.candidate) ∈ w.surveyed call schedule := by
  have gathered := mem_collect (hashString call.request.prefixHash) call.request.targetGroup
    (call.request.filter.getD entryPoint) call.request.exclude (List.finRange n) ⟨w, schedule⟩ i
  rw [World.surveyed, ← gathered]
  simp only [(ranked_perm rt opts w call schedule).mem_iff]
  rfl

theorem mem_belowNodes (nodes : Fin n → Node) (limit : Int) (cands : List (Scored n))
    (c : Scored n) (member : c ∈ cands) :
    c.node ∈ belowNodes nodes limit cands ↔ below nodes limit c = true := by
  simp only [belowNodes, List.mem_map, List.mem_filter]
  constructor
  · rintro ⟨d, ⟨_, isBelow⟩, same⟩
    rw [below, ← same]
    exact isBelow
  · exact fun isBelow => ⟨c, ⟨member, isBelow⟩, rfl⟩

/-- Without candidates nobody is overlooked and nobody is left out. -/
theorem explained_of_empty (rt : Runtime n) (opts : Options) (w : World n) (call : Call)
    (schedule : List (List (Interference n))) (empty : (w.gathered call schedule).2.1 = []) :
    w.Explained rt opts call schedule ∧ ¬ w.Overlooks rt opts call schedule := by
  have unranked : (w.ranked rt opts call schedule).2 = [] := by
    have perm := ranked_perm rt opts w call schedule
    rw [empty] at perm
    exact perm.eq_nil
  refine ⟨explained_of_refused ?_ ?_, ?_⟩
  · intro _ i candidate
    obtain ⟨c, member, _⟩ := (ranked_candidate rt opts w call schedule i).mpr candidate
    rw [unranked] at member
    cases member
  · intro other
    rw [decision_eq, if_pos empty] at other
    exact absurd rfl other
  · rintro ⟨_, best, least, _⟩
    rw [unranked] at least
    cases least

/-- A lease is granted on a node that the request has not tried. -/
theorem granted_untried (rt : Runtime n) (opts : Options) (w : World n) (call : Call)
    (schedule : List (List (Interference n))) (lease : Nat)
    (granted : (w.decision rt opts call schedule).2 = .granted lease) :
    ∃ i, (w.decision rt opts call schedule).1.w.leases[lease]?.map (fun l => l.node) = some i ∧
      (w.nodes i).name ∉ call.request.exclude := by
  rw [decision_eq] at granted ⊢
  by_cases empty : (w.gathered call schedule).2.1 = []
  · rw [if_pos empty] at granted
    cases granted
  · rw [if_neg empty] at granted ⊢
    cases settle_settled (loadLimit rt opts (w.gathered call schedule).2.2
        (w.ranked rt opts call schedule).2.length) call.hold
        (w.ranked rt opts call schedule).2 (w.ranked rt opts call schedule).1 with
    | granted other c member free pick onNode allowed =>
        rw [granted] at pick
        cases pick
        refine ⟨c.node, onNode, ?_⟩
        have untried := candidate_untried w call schedule c
          ((ranked_perm rt opts w call schedule).subset member)
        rwa [(gathered_unlocked w call schedule).ungranted.sameIdentity.name] at untried
    | held held pick =>
        rw [granted] at pick
        cases pick
    | full none pick =>
        rw [granted] at pick
        cases pick
    | refused unheld best least all pick logged =>
        rw [granted] at pick
        cases pick

/-- `ErrNoNode` means that no node is left, exactly when no candidate at or
above its bound is overlooked while the others refuse. -/
theorem noNode_explained_iff (rt : Runtime n) (opts : Options) (w : World n) (call : Call)
    (schedule : List (List (Interference n))) :
    w.Explained rt opts call schedule ↔ ¬ w.Overlooks rt opts call schedule := by
  by_cases empty : (w.gathered call schedule).2.1 = []
  · obtain ⟨explained, seen⟩ := explained_of_empty rt opts w call schedule empty
    exact iff_of_true explained seen
  have load := ranked_load rt opts w call schedule
  have candidate := ranked_candidate rt opts w call schedule
  have decided : w.decision rt opts call schedule =
      settle (w.limitOf rt opts call schedule) call.hold (w.ranked rt opts call schedule).2
        (w.ranked rt opts call schedule).1 := by
    rw [decision_eq, if_neg empty]
    rfl
  have refusals : w.refusals rt opts call schedule =
      settleRefusals (w.limitOf rt opts call schedule) call.hold
        (w.ranked rt opts call schedule).2 (w.ranked rt opts call schedule).1 := by
    rw [World.refusals, if_neg empty]
  simp only [World.Overlooks, ← refuseAll_iff, ← below_eq_false]
  rw [← load.heldBack, ← load.leastLoaded, ← load.belowNodes, ← load.below]
  cases settle_settled (w.limitOf rt opts call schedule) call.hold
      (w.ranked rt opts call schedule).2 (w.ranked rt opts call schedule).1 with
  | held held busy =>
      rw [← decided] at busy
      refine iff_of_true (explained_of_refused ?_ ?_) ?_
      · intro none
        rw [busy] at none
        cases none
      · exact fun _ => Or.inl (by rw [busy]; rfl)
      · rintro ⟨unheld, _⟩
        rw [held] at unheld
        cases unheld
  | granted lease c member free pick onNode allowed =>
      rw [← decided] at pick onNode
      refine iff_of_true (explained_of_refused ?_ ?_) ?_
      · intro none
        rw [pick] at none
        cases none
      · intro _
        rw [load.inflight, load.limit] at free
        exact Or.inr ⟨lease, c.node, pick, (candidate c.node).mp ⟨c, member, rfl⟩, free, onNode⟩
      · rintro ⟨_, best, least, all, _⟩
        rw [allowed best least] at all
        cases all
  | full none pick =>
      rw [← decided] at pick
      refine iff_of_true (explained_of_refused ?_ ?_) ?_
      · intro noNode
        rw [pick] at noNode
        cases noNode
      · exact fun _ => Or.inl (by rw [pick]; rfl)
      · rintro ⟨_, best, least, _⟩
        rw [none] at least
        cases least
  | refused unheld best least all pick logged =>
      rw [← decided] at pick
      rw [← refusals] at logged
      constructor
      · rintro explained ⟨_, other, same, _, c, member, notBest, above⟩
        rw [least] at same
        cases same
        have isCandidate := (candidate c.node).mp ⟨c, member, rfl⟩
        rcases explained.noNode pick c.node with skipped | unavailable | refused
        · cases surveyed_unique w call schedule c.node _ _ isCandidate skipped
        · cases surveyed_unique w call schedule c.node _ _ isCandidate unavailable
        · rw [logged, List.mem_append, mem_belowNodes _ _ _ c member, above] at refused
          simp [notBest] at refused
      · intro seen
        apply explained_of_refused
        · intro _ i isCandidate
          obtain ⟨c, member, rfl⟩ := (candidate i).mpr isCandidate
          rw [logged, List.mem_append, mem_belowNodes _ _ _ c member]
          by_cases isBest : c.node = best
          · exact Or.inr (by simp [isBest])
          · cases isBelow : below (w.ranked rt opts call schedule).1.w.nodes
                (w.limitOf rt opts call schedule) c with
            | true => exact Or.inl rfl
            | false =>
                exact absurd ⟨unheld, best, least, all, c, member, isBest, isBelow⟩ seen
        · exact fun other => absurd pick other

end

/-! ## A full node is overlooked -/

def unevenPair : List Instance := [⟨"", "a", 1, 2, ""⟩, ⟨"", "b", 1, 1, ""⟩]

def breakerOptions : Options := ⟨1, 1, 0, 0, 8, 1, some ⟨1, second, 0, 1⟩⟩

/-- One request is on each node; the second node is full. -/
def bothBusy : List (Action 2) :=
  [.acquire ⟨"", "", none, ["b:1"]⟩, .acquire ⟨"", "", none, ["a:1"]⟩, .acquire ⟨"", "", none, []⟩,
    .evaluate 0 [], .evaluate 1 []]

/-- The request on the first node fails after the third one has found both
nodes available and before it asks for a slot. -/
def failsMeanwhile : List (List (Interference 2)) := [[], [], [], [], [.report 0 (some false)]]

def Pc.isDeciding : Pc → Bool
  | .deciding => true
  | _ => false

theorem bothBusy_decision :
    ∃ (w : World 2) (call : Call),
      Reached unevenPair 0 breakerOptions (Runtime.exact 2) 0 bothBusy w ∧
      w.calls[2]? = some call ∧ call.pc = .deciding ∧
      (w.decision (Runtime.exact 2) breakerOptions.clamp call failsMeanwhile).2 = .noNode ∧
      w.surveyed call failsMeanwhile = [(0, .candidate), (1, .candidate)] ∧
      w.refusals (Runtime.exact 2) breakerOptions.clamp call failsMeanwhile = [0, 0] := by
  have evaluated : ((Runs.run (World.step (Runtime.exact 2) breakerOptions.clamp)
      (new unevenPair 0 breakerOptions 0) bothBusy).bind fun w => w.calls[2]?.map fun call =>
        (call.pc.isDeciding,
          (w.decision (Runtime.exact 2) breakerOptions.clamp call failsMeanwhile).2,
          w.surveyed call failsMeanwhile,
          w.refusals (Runtime.exact 2) breakerOptions.clamp call failsMeanwhile)) =
      some (true, .noNode, [(0, .candidate), (1, .candidate)], [0, 0]) := by
    decide +kernel
  obtain ⟨w, reached, rest⟩ := Option.bind_eq_some_iff.mp evaluated
  obtain ⟨call, found, facts⟩ := Option.map_eq_some_iff.mp rest
  simp only [Prod.mk.injEq] at facts
  obtain ⟨place, none, surveyed, refusals⟩ := facts
  refine ⟨w, call, reached, found, ?_, none, surveyed, refusals⟩
  cases pc : call.pc <;> simp_all [Pc.isDeciding]

/-- The second node was a candidate and nobody asked it. -/
theorem unexplained_of_unasked {w : World 2} {call : Call} {rt : Runtime 2} {opts : Options}
    {schedule : List (List (Interference 2))}
    (none : (w.decision rt opts call schedule).2 = .noNode)
    (surveyed : w.surveyed call schedule = [(0, .candidate), (1, .candidate)])
    (refusals : w.refusals rt opts call schedule = [0, 0]) :
    ¬ w.Explained rt opts call schedule := by
  intro explained
  have blamed := explained.noNode none 1
  rw [surveyed, refusals] at blamed
  revert blamed
  decide

theorem full_node_overlooked :
    ∃ (w : World 2) (call : Call),
      Reached unevenPair 0 breakerOptions (Runtime.exact 2) 0 bothBusy w ∧
      w.calls[2]? = some call ∧ call.pc = .deciding ∧
      ¬ w.Explained (Runtime.exact 2) breakerOptions.clamp call failsMeanwhile := by
  obtain ⟨w, call, reached, found, deciding, none, surveyed, refusals⟩ := bothBusy_decision
  exact ⟨w, call, reached, found, deciding, unexplained_of_unasked none surveyed refusals⟩

theorem overlooks_while_bothBusy :
    ∃ (w : World 2) (call : Call),
      Reached unevenPair 0 breakerOptions (Runtime.exact 2) 0 bothBusy w ∧
      w.calls[2]? = some call ∧ call.pc = .deciding ∧
      w.Overlooks (Runtime.exact 2) breakerOptions.clamp call failsMeanwhile := by
  obtain ⟨w, call, reached, found, deciding, none, surveyed, refusals⟩ := bothBusy_decision
  refine ⟨w, call, reached, found, deciding, ?_⟩
  by_contra seen
  exact unexplained_of_unasked none surveyed refusals
    ((noNode_explained_iff (Runtime.exact 2) breakerOptions.clamp w call failsMeanwhile).mpr seen)

end Router

end RadixGates
