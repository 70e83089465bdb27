import RadixGates.Handler.Metrics

/-!
# The times that are observed

The clock of a request only goes forward, through every attempt, backoff and wait,
so no histogram is ever handed a negative value.
-/

set_option autoImplicit false

namespace RadixGates.Handler

open RadixGates.Settings (Reliability)

/-! ## The calls of a handler -/

/-- A call between the first one of the handler and the deferred ones. -/
def Item.Inside : Item → Prop
  | .active _ | .requestDuration _ => False
  | .queueWait elapsed | .timeToFirstByte elapsed => 0 ≤ elapsed
  | .event _ | .upstreamAttempts _ _ | .retries _ | .midstreamFailures _ => True

def Inside (log : List Item) : Prop := ∀ item ∈ log, item.Inside

theorem Inside.append {xs ys : List Item} (first : Inside xs) (second : Inside ys) :
    Inside (xs ++ ys) := by
  intro item member
  rcases List.mem_append.mp member with inFirst | inSecond
  · exact first item inFirst
  · exact second item inSecond

theorem inside_nil : Inside [] := fun _ member => by cases member

theorem Inside.cons {item : Item} {log : List Item} (first : item.Inside) (rest : Inside log) :
    Inside (item :: log) := by
  intro other member
  rcases List.mem_cons.mp member with rfl | later
  · exact first
  · exact rest other later

theorem inside_plain (events : List Event) : Inside (plain events) := by
  intro item member
  obtain ⟨e, _, rfl⟩ := List.mem_map.mp member
  trivial

theorem inside_onNode (node : String) (events : List Event) : Inside (onNode node events) := by
  intro item member
  obtain ⟨e, _, rfl⟩ := List.mem_map.mp member
  cases e <;> trivial

theorem concludeLog_inside (ctx : Ctx) (node : String) (now : Int) (resp : Response) :
    Inside (concludeLog ctx node now resp) := by
  unfold concludeLog
  cases resp.body.stop with
  | eof => exact inside_onNode _ _
  | failed =>
      dsimp only
      split_ifs with done sse
      · exact inside_onNode _ _
      · exact (inside_onNode _ _).append (Inside.cons trivial (Inside.cons trivial (inside_onNode _ _)))
      · exact (inside_onNode _ _).append (Inside.cons trivial (Inside.cons trivial inside_nil))

theorem commitLog_inside (ctx : Ctx) (arrived : Int) (node : String) (now : Int) (number : Nat)
    (resp : Response) (later : arrived ≤ now) :
    Inside (commitLog ctx arrived node now number resp) := by
  by_cases invalid : resp.status < 100 ∨ 999 < resp.status
  · simp only [commitLog, if_pos invalid]
    exact inside_onNode _ _
  rw [commitLog_eq ctx arrived node now number resp invalid]
  dsimp only
  split_ifs with refused
  · exact inside_onNode _ _
  · refine (inside_onNode _ _).append (Inside.cons trivial (Inside.cons ?_ ?_))
    · simp only [Item.Inside]
      omega
    · exact (inside_onNode _ _).append (inside_onNode _ _)
  · refine (inside_onNode _ _).append (Inside.cons trivial (Inside.cons ?_ ?_))
    · simp only [Item.Inside]
      omega
    · exact (inside_onNode _ _).append (concludeLog_inside ctx node _ resp)

theorem attemptLog_inside (rel : Reliability) (ctx : Ctx) (stream : Bool) (arrived now : Int)
    (number : Nat) (node : String) (requestFails : Bool) (upstream : Upstream)
    (later : arrived ≤ now) :
    Inside (attemptLog ctx arrived node rel stream now number requestFails upstream) := by
  unfold attemptLog
  dsimp only
  split_ifs with fails
  · exact inside_onNode _ _
  · cases upstream.response with
    | none => exact inside_onNode _ _
    | some resp =>
        dsimp only
        split_ifs
        · exact inside_onNode _ _
        · exact inside_onNode _ _
        · exact inside_onNode _ _
        · exact commitLog_inside ctx arrived node _ number resp (by omega)

section
variable (rel : Reliability) (ctx : Ctx) (stream : Bool) (script : Nat → Turn) (arrived : Int)

theorem retry_now (s : Loop) (made : Record) (reason : Reason) (next : Loop)
    (retried : s.retry rel ctx script made reason = .inl next) : made.result.now ≤ next.now := by
  unfold Loop.retry at retried
  dsimp only at retried
  split_ifs at retried with more
  · cases drawn : backoff rel s.attempt (script s.attempt).jitter with
    | none =>
        rw [drawn] at retried
        cases retried
    | some d =>
        rw [drawn] at retried
        dsimp only at retried
        split_ifs at retried
        cases retried
        exact sleepCtx_now ctx made.result.now d (script s.attempt).sleep
  · cases retried
    exact le_rfl

/-- The times of one iteration. -/
structure Timed (turn : List Item × Int) (after : Loop ⊕ Served) : Prop where
  inside : Inside turn.1
  ends : arrived ≤ turn.2
  next : ∀ loop, after = .inl loop → arrived ≤ loop.now

theorem iterateLog_timed (s : Loop) (later : arrived ≤ s.now) :
    Timed arrived (s.iterateLog rel ctx stream script arrived)
      (s.iterate rel ctx stream script) := by
  have acquired := acquire_now ctx s.now ((script s.attempt).acquire s.exclude)
  unfold Loop.iterate Loop.iterateLog
  generalize Handler.acquire ctx s.now ((script s.attempt).acquire s.exclude) = got at acquired ⊢
  obtain ⟨started, answer⟩ := got
  dsimp only at acquired
  have waits : Inside [.queueWait (started - s.now)] := by
    refine Inside.cons ?_ inside_nil
    simp only [Item.Inside]
    omega
  cases answer with
  | error err =>
      refine ⟨waits.append (inside_plain _), ?_, fun _ ended => by cases ended⟩
      dsimp only
      omega
  | ok node =>
      have lasts : started ≤ (s.attemptOn rel ctx stream script started node).result.now :=
        attempt_now rel ctx stream started s.attempt node _ _
      have logged : Inside (s.attemptLog rel ctx stream script arrived started node) :=
        attemptLog_inside rel ctx stream arrived started s.attempt node _ _ (by omega)
      have counts : Inside s.retriesLog := by
        unfold Loop.retriesLog
        split_ifs
        · exact Inside.cons trivial inside_nil
        · exact inside_nil
      dsimp only
      generalize s.attemptOn rel ctx stream script started node = made at lasts ⊢
      have before := (waits.append counts).append logged
      generalize s.attemptLog rel ctx stream script arrived started node = log at before ⊢
      cases exit : made.result.exit with
      | panicked panic => exact ⟨before, by dsimp only; omega, fun _ ended => by cases ended⟩
      | returned outcome reason =>
          cases outcome with
          | outDone => exact ⟨before, by dsimp only; omega, fun _ ended => by cases ended⟩
          | outAbort =>
              exact ⟨before.append (inside_plain _), by dsimp only; omega,
                fun _ ended => by cases ended⟩
          | outRetry =>
              dsimp only
              cases after : s.retry rel ctx script made reason with
              | inl next =>
                  refine ⟨before, by dsimp only; omega, ?_⟩
                  intro loop same
                  cases same
                  have := retry_now rel ctx script s made reason next after
                  omega
              | inr run =>
                  refine ⟨before.append (inside_plain _), ?_, fun _ ended => by cases ended⟩
                  cases backoff rel s.attempt (script s.attempt).jitter with
                  | none => dsimp only; omega
                  | some d =>
                      have := sleepCtx_now ctx made.result.now d (script s.attempt).sleep
                      dsimp only
                      omega

theorem runLog_timed (left : Nat) (s : Loop) (later : arrived ≤ s.now) :
    Inside (Loop.runLog rel ctx stream script arrived left s).1 ∧
      arrived ≤ (Loop.runLog rel ctx stream script arrived left s).2 := by
  induction left generalizing s with
  | zero => exact ⟨inside_plain _, later⟩
  | succ left ih =>
      have timed := iterateLog_timed rel ctx stream script arrived s later
      simp only [Loop.runLog]
      cases after : s.iterate rel ctx stream script with
      | inr run => exact ⟨timed.inside, timed.ends⟩
      | inl next =>
          obtain ⟨inside, ends⟩ := ih next (timed.next next after)
          exact ⟨timed.inside.append inside, ends⟩

end

/-- The log of a handler that gets to work: up, its calls, down, and the
duration. -/
def Enclosed (log : List Item) : Prop :=
  ∃ calls elapsed, log = .active 1 :: calls ++ [.active (-1), .requestDuration elapsed] ∧
    Inside calls ∧ 0 ≤ elapsed

theorem serveLog_enclosed (h : DirectChatHandler) (req : Incoming) (post : req.method = "POST")
    (arrived start : Int) (clientGone : Option Int) (script : Nat → Turn)
    (later : arrived ≤ start) : Enclosed (serveLog h req arrived start clientGone script) := by
  unfold serveLog
  rw [if_neg (by simp [post])]
  refine ⟨_, _, rfl, ?_⟩
  cases req.parsed with
  | unreadable | badMessages | unforwardable => exact ⟨inside_plain _, by dsimp only; omega⟩
  | accepted stream =>
      obtain ⟨inside, ends⟩ := runLog_timed h.init (h.ctx start clientGone) stream script
        arrived h.init.maxAttempts.toNat (Loop.start start) later
      exact ⟨inside, Int.sub_nonneg_of_le ends⟩

/-- The value handed to a histogram. -/
def Item.observed? : Item → Option Int
  | .requestDuration elapsed | .queueWait elapsed | .timeToFirstByte elapsed => some elapsed
  | _ => none

theorem Inside.observed {log : List Item} (inside : Inside log) :
    ∀ v ∈ log.filterMap Item.observed?, 0 ≤ v := by
  intro v member
  obtain ⟨item, within, seen⟩ := List.mem_filterMap.mp member
  have isInside := inside item within
  cases item <;> simp_all [Item.observed?, Item.Inside]

theorem serveLog_observed (h : DirectChatHandler) (req : Incoming) (arrived start : Int)
    (clientGone : Option Int) (script : Nat → Turn) (later : arrived ≤ start) :
    ∀ v ∈ (serveLog h req arrived start clientGone script).filterMap Item.observed?, 0 ≤ v := by
  by_cases post : req.method = "POST"
  · obtain ⟨calls, elapsed, shape, inside, positive⟩ :=
      serveLog_enclosed h req post arrived start clientGone script later
    intro v member
    rw [shape, List.filterMap_append] at member
    rcases List.mem_append.mp member with early | last
    · exact inside.observed v early
    · simp only [List.filterMap_cons, Item.observed?, List.filterMap_nil, List.mem_singleton]
        at last
      omega
  · unfold serveLog
    rw [if_pos post]
    exact (inside_plain _).observed

/-- The metrics of any request: every attempt under its node and result, except
one that could not be sent or whose status was refused; every attempt but the last
as a retry, by the reason it failed for; the broken streams by node; the first byte
once if a response was flushed; and no negative time. -/
theorem metrics_account_for_requests (h : DirectChatHandler) (req : Incoming)
    (arrived start : Int) (clientGone : Option Int) (script : Nat → Turn) :
    Metered (serveLog h req arrived start clientGone script)
        (serveHTTP h req start clientGone script) ∧
      (serveHTTP h req start clientGone script).records.countP Record.flushed ≤ 1 ∧
      (arrived ≤ start →
        ∀ v ∈ (serveLog h req arrived start clientGone script).filterMap Item.observed?, 0 ≤ v) :=
  ⟨serveLog_metered h req arrived start clientGone script,
    flushed_at_most_once h req start clientGone script,
    serveLog_observed h req arrived start clientGone script⟩

theorem metrics_of_failover :
    (serveLog defaultHandler chatRequest 0 5 none failoverScript).filterMap Item.upstream? =
        [("n0", .connError), ("n1", .midstreamError)] ∧
      (serveLog defaultHandler chatRequest 0 5 none failoverScript).filterMap Item.retries? =
        [some .connError] ∧
      ((serveLog defaultHandler chatRequest 0 5 none failoverScript).filterMap
        Item.firstByte?).length = 1 ∧
      (serveLog defaultHandler chatRequest 0 5 none failoverScript).filterMap Item.midstream? =
        ["n1"] ∧
      ∀ v ∈ (serveLog defaultHandler chatRequest 0 5 none failoverScript).filterMap
        Item.observed?, 0 ≤ v := by
  obtain ⟨metered, _, positive⟩ := metrics_account_for_requests defaultHandler chatRequest 0 5 none
    failoverScript
  refine ⟨?_, ?_, ?_, ?_, positive (by decide)⟩
  · rw [metered.upstream]
    decide +kernel
  · rw [metered.retries]
    decide +kernel
  · rw [metered.firstByte]
    decide +kernel
  · rw [metered.midstream]
    decide +kernel

end RadixGates.Handler
