import RadixGates.Handler.Answered
import RadixGates.Router.Placement
import RadixGates.Router.Refusals

/-!
# Leases and counters of a request

Every exit of `attempt` closes the lease once, and either counts the request or
leaves that to its caller.  The one exception is a response whose code is no
status: `WriteHeader` panics at the commit point, and neither has happened.
-/

set_option autoImplicit false

namespace RadixGates.Handler

open RadixGates.Router (AcquireError)
open RadixGates.Settings (Reliability)

/-! ## Counting -/

def Event.closes : Event → Bool
  | .leaseDone _ | .leaseRelease => true
  | _ => false

def Event.finishes : Event → Bool
  | .finish _ => true
  | _ => false

def closings (events : List Event) : Nat := events.countP Event.closes

def finishes (events : List Event) : Nat := events.countP Event.finishes

@[simp] theorem closings_append (xs ys : List Event) :
    closings (xs ++ ys) = closings xs + closings ys :=
  List.countP_append

@[simp] theorem finishes_append (xs ys : List Event) :
    finishes (xs ++ ys) = finishes xs + finishes ys :=
  List.countP_append

theorem ClientOnly.closings {events : List Event} (only : ClientOnly events) :
    Handler.closings events = 0 := by
  apply List.countP_eq_zero.mpr
  intro e member
  have onClient := only e member
  cases e <;> simp_all [Event.onClient, Event.closes]

theorem ClientOnly.finishes {events : List Event} (only : ClientOnly events) :
    Handler.finishes events = 0 := by
  apply List.countP_eq_zero.mpr
  intro e member
  have onClient := only e member
  cases e <;> simp_all [Event.onClient, Event.finishes]

theorem conclude_counts (ctx : Ctx) (now : Int) (resp : Response) :
    closings (conclude ctx now resp).1 = 1 ∧ finishes (conclude ctx now resp).1 = 1 := by
  unfold conclude
  cases resp.body.stop with
  | eof => exact ⟨rfl, rfl⟩
  | failed =>
      dsimp only
      split_ifs <;> exact ⟨rfl, rfl⟩

theorem conclude_panic (ctx : Ctx) (now : Int) (resp : Response) :
    (conclude ctx now resp).2 ≠ .panicked .invalidCode := by
  unfold conclude
  cases resp.body.stop with
  | eof => simp
  | failed =>
      dsimp only
      split_ifs <;> simp

/-! ## One attempt -/

/-- The attempt gets to the commit point with this response. -/
structure Commits (requestFails : Bool) (upstream : Upstream) (resp : Response) : Prop where
  built : requestFails = false
  answered : upstream.response = some resp
  notBusy : resp.status ≠ 429
  notBroken : ¬ (500 ≤ resp.status ∧ resp.status ≠ 501)
  forwarded : ¬ (resp.body.first.data = [] ∧ resp.body.rest = [] ∧ resp.body.stop = .failed)

theorem Commits.attempt {requestFails : Bool} {upstream : Upstream} {resp : Response}
    (commits : Commits requestFails upstream resp) (rel : Reliability) (ctx : Ctx) (stream : Bool)
    (now : Int) (number : Nat) (node : String) :
    attempt rel ctx stream now number node requestFails upstream =
      commit ctx (now + upstream.elapsed + resp.body.first.elapsed) number node resp := by
  simp only [Handler.attempt, commits.built, commits.answered, Bool.false_eq_true, if_false,
    if_neg commits.notBusy, if_neg commits.notBroken, if_neg commits.forwarded]

/-- What an attempt has done with its lease and the outcome counter when it
ends. -/
inductive Booked (requestFails : Bool) (upstream : Upstream) (result : Attempted) : Prop where
  | retried (reason : Reason) (exit : result.exit = .returned .outRetry reason)
      (closed : closings result.events = 1) (uncounted : finishes result.events = 0)
  | aborted (exit : result.exit = .returned .outAbort .canceled)
      (silent : Silent result.events)
      (closed : closings result.events = 1) (uncounted : finishes result.events = 0)
  | committed (sent : result.events.any Event.sends = true)
      (exit : ∀ reason, result.exit ≠ .returned .outRetry reason)
      (status : result.exit ≠ .panicked .invalidCode)
      (closed : closings result.events = 1) (counted : finishes result.events = 1)
  | refused (resp : Response) (commits : Commits requestFails upstream resp)
      (status : resp.status < 100) (exit : result.exit = .panicked .invalidCode)
      (unclosed : closings result.events = 0) (uncounted : finishes result.events = 0)

theorem commit_refused (ctx : Ctx) (now : Int) (number : Nat) (node : String) (resp : Response)
    (status : resp.status < 100) :
    commit ctx now number node resp =
      ⟨now, resp.headers node number, .panicked .invalidCode, [resp.body.first.data]⟩ := by
  simp only [commit, status, true_or, if_true]

/-- A committed response: calls on the client's writer, then one closing and one
count. -/
theorem commit_counts (ctx : Ctx) (now : Int) (number : Nat) (node : String) (resp : Response)
    (valid : ¬ (resp.status < 100 ∨ 999 < resp.status)) :
    (commit ctx now number node resp).events.any Event.sends = true ∧
      (commit ctx now number node resp).exit ≠ .panicked .invalidCode ∧
      closings (commit ctx now number node resp).events = 1 ∧
      finishes (commit ctx now number node resp).events = 1 := by
  have opened := opening_clientOnly resp node number
  have sends := opening_sends resp node number
  have copied := copied_clientOnly (now + resp.body.first.handing) resp.body.rest
  have cancels : closings cancelled = 1 ∧ finishes cancelled = 1 := ⟨rfl, rfl⟩
  rw [commit_eq ctx now number node resp valid]
  dsimp only
  split_ifs with refused stopped
  · refine ⟨by simp [sends], by simp, ?_, ?_⟩
    · rw [closings_append, opened.closings, cancels.1]
    · rw [finishes_append, opened.finishes, cancels.2]
  · refine ⟨by simp [sends], by simp, ?_, ?_⟩
    · rw [closings_append, (opened.append copied).closings, cancels.1]
    · rw [finishes_append, (opened.append copied).finishes, cancels.2]
  · have ending := conclude_counts ctx
      (copyLoop (now + resp.body.first.handing) resp.body.rest).now resp
    refine ⟨by simp [sends], conclude_panic _ _ _, ?_, ?_⟩
    · rw [closings_append, (opened.append copied).closings, ending.1]
    · rw [finishes_append, (opened.append copied).finishes, ending.2]

theorem giveUp_booked (requestFails : Bool) (upstream : Upstream) (ctx : Ctx) (now firesAt : Int)
    (reason : Reason) (reads : List (List UInt8)) :
    Booked requestFails upstream (giveUp ctx now firesAt reason reads) := by
  unfold giveUp
  split_ifs
  · exact Booked.aborted rfl (abort_silent now reads) rfl rfl
  · exact Booked.retried _ rfl rfl rfl
  · exact Booked.retried _ rfl rfl rfl

theorem attempt_booked (rel : Reliability) (ctx : Ctx) (stream : Bool) (now : Int) (number : Nat)
    (node : String) (requestFails : Bool) (upstream : Upstream) :
    Booked requestFails upstream
      (attempt rel ctx stream now number node requestFails upstream) := by
  cases built : requestFails with
  | true => exact Booked.retried .internalError rfl rfl rfl
  | false =>
      cases answered : upstream.response with
      | none =>
          simp only [attempt, answered, Bool.false_eq_true, if_false]
          exact giveUp_booked _ _ _ _ _ _ _
      | some resp =>
          by_cases busy : resp.status = 429
          · simp only [attempt, answered, Bool.false_eq_true, if_false, busy, if_true]
            exact Booked.retried .busy rfl rfl rfl
          by_cases broken : 500 ≤ resp.status ∧ resp.status ≠ 501
          · simp only [attempt, answered, Bool.false_eq_true, if_false, if_neg busy, if_pos broken]
            exact Booked.retried .http5xx rfl rfl rfl
          by_cases empty : resp.body.first.data = [] ∧ resp.body.rest = [] ∧
              resp.body.stop = .failed
          · simp only [attempt, answered, Bool.false_eq_true, if_false, if_neg busy, if_neg broken,
              if_pos empty]
            exact giveUp_booked _ _ _ _ _ _ _
          have commits : Commits false upstream resp := ⟨rfl, answered, busy, broken, empty⟩
          rw [commits.attempt]
          by_cases low : resp.status < 100
          · rw [commit_refused _ _ _ _ _ low]
            have only := headers_clientOnly resp node number
            exact Booked.refused resp commits low rfl only.closings only.finishes
          · -- a code of four digits or more counts as a server error
            have valid : ¬ (resp.status < 100 ∨ 999 < resp.status) := by omega
            obtain ⟨sent, status, closed, counted⟩ := commit_counts ctx
              (now + upstream.elapsed + resp.body.first.elapsed) number node resp valid
            refine Booked.committed sent ?_ status closed counted
            rcases commit_cases ctx (now + upstream.elapsed + resp.body.first.elapsed) number node
              resp with panics | committed
            · rw [panics] at status
              exact absurd rfl status
            · exact committed.exit

/-! ## Replies -/

theorem rejectAcquire_counts (err : AcquireError) (attempt : Nat) :
    closings (rejectAcquire err attempt) = 0 ∧ finishes (rejectAcquire err attempt) = 1 := by
  unfold rejectAcquire
  cases err with
  | queueFull => exact ⟨rfl, rfl⟩
  | queueTimeout => exact ⟨rfl, rfl⟩
  | noNode =>
      dsimp only
      split <;> exact ⟨rfl, rfl⟩
  | ctx cause => cases cause <;> exact ⟨rfl, rfl⟩

theorem abortReply_counts (ctx : Ctx) (now : Int) (wrote : Bool) :
    closings (abortReply ctx now wrote) = 0 ∧
      finishes (abortReply ctx now wrote) = if wrote then 0 else 1 := by
  cases wrote with
  | true => exact ⟨rfl, rfl⟩
  | false =>
      simp only [abortReply, Bool.not_false, Bool.true_and, if_true]
      split <;> exact ⟨rfl, rfl⟩

theorem allFailed_counts (maxAttempts : Int) (lastReason : Option Reason) :
    closings (allFailed maxAttempts lastReason) = 0 ∧
      finishes (allFailed maxAttempts lastReason) = 1 :=
  ⟨rfl, rfl⟩

/-! ## The property -/

inductive LeaseStep where
  | acquired (node : String)
  | closed
  deriving DecidableEq, Repr

def Event.leaseStep (e : Event) : Option LeaseStep := if e.closes then some .closed else none

/-- The leases of a request in time: each one when it is acquired and every time
it is closed. -/
def Served.leaseSteps (run : Served) : List LeaseStep :=
  (run.records.flatMap fun r =>
    .acquired r.node :: r.result.events.filterMap Event.leaseStep) ++
    run.reply.filterMap Event.leaseStep

/-- At most as many leases as attempts, on different nodes, each of them closed
once before the next one and before the end, and the request counted once. -/
structure Disciplined (rel : Reliability) (run : Served) : Prop where
  few : (run.records.length : Int) ≤ rel.maxAttempts
  distinct : (run.records.map Record.node).Nodup
  paired : run.leaseSteps = run.records.flatMap fun r => [.acquired r.node, .closed]
  counted : finishes run.events = 1

theorem filterMap_leaseStep (events : List Event) :
    events.filterMap Event.leaseStep = List.replicate (closings events) .closed := by
  induction events with
  | nil => rfl
  | cons e rest ih =>
      simp only [closings] at ih ⊢
      rw [List.filterMap_cons, List.countP_cons, Event.leaseStep, ih]
      cases e.closes <;> simp [List.replicate_succ]

theorem leaseSteps_paired (run : Served)
    (closed : ∀ r ∈ run.records, closings r.result.events = 1) (reply : closings run.reply = 0) :
    run.leaseSteps = run.records.flatMap fun r => [.acquired r.node, .closed] := by
  rw [Served.leaseSteps, filterMap_leaseStep, reply, List.replicate_zero, List.append_nil]
  apply List.flatMap_congr
  intro r member
  rw [filterMap_leaseStep, closed r member]
  rfl

theorem finishes_eventsOf (records : List Record)
    (uncounted : ∀ r ∈ records, finishes r.result.events = 0) : finishes (eventsOf records) = 0 := by
  induction records with
  | nil => rfl
  | cons r rest ih =>
      have later := ih fun other member => uncounted other (List.mem_cons_of_mem r member)
      simp only [eventsOf, List.flatMap_cons, finishes_append] at later ⊢
      rw [uncounted r List.mem_cons_self, later]

/-! ## The loop -/

/-- A granted answer is a grant of the router to a request with this exclude
set. -/
def Turn.FromRouter (turn : Turn) : Prop :=
  ∀ exclude node, (turn.acquire exclude).answer = .granted node →
    ∃ (n : Nat) (rt : Router.Runtime n) (opts : Router.Options) (w : Router.World n)
      (call : Router.Call) (schedule : List (List (Router.Interference n))) (lease : Nat)
      (i : Fin n), call.request.exclude = exclude ∧
        (w.decision rt opts call schedule).2 = .granted lease ∧
        (w.decision rt opts call schedule).1.w.leases[lease]?.map (fun l => l.node) = some i ∧
        (w.nodes i).name = node

theorem Turn.FromRouter.fresh {turn : Turn} (router : turn.FromRouter) (ctx : Ctx) (now : Int)
    (exclude : List String) (started : Int) (node : String)
    (got : Handler.acquire ctx now (turn.acquire exclude) = (started, .ok node)) :
    node ∉ exclude := by
  have granted : (turn.acquire exclude).answer = .granted node := by
    unfold Handler.acquire at got
    cases answer : (turn.acquire exclude).answer <;> simp_all
  obtain ⟨n, rt, opts, w, call, schedule, lease, i, rfl, pick, onNode, rfl⟩ :=
    router exclude node granted
  obtain ⟨j, onOther, untried⟩ := Router.granted_untried rt opts w call schedule lease pick
  rw [onNode] at onOther
  cases onOther
  exact untried

structure Loop.Orderly (s : Loop) : Prop where
  booked : ∀ r ∈ s.records, closings r.result.events = 1 ∧ finishes r.result.events = 0
  excluded : s.exclude = (s.records.map Record.node).reverse
  distinct : (s.records.map Record.node).Nodup

section
variable (rel : Reliability) (ctx : Ctx) (stream : Bool) (script : Nat → Turn)

theorem Loop.Made.booked {s : Loop} {made : Record} (isMade : s.Made rel ctx stream script made) :
    Booked (script s.attempt).requestFails (script s.attempt).upstream made.result := by
  obtain ⟨started, node, _, rfl⟩ := isMade
  exact attempt_booked rel ctx stream started s.attempt node _ _

theorem Loop.Made.fresh {s : Loop} {made : Record} (isMade : s.Made rel ctx stream script made)
    (router : ∀ k, (script k).FromRouter) : made.node ∉ s.exclude := by
  obtain ⟨started, node, got, rfl⟩ := isMade
  exact (router s.attempt).fresh ctx s.now s.exclude started node got

theorem Booked.of_retry {requestFails : Bool} {upstream : Upstream} {result : Attempted}
    {reason : Reason} (booked : Booked requestFails upstream result)
    (exit : result.exit = .returned .outRetry reason) :
    closings result.events = 1 ∧ finishes result.events = 0 := by
  cases booked with
  | retried _ _ closed uncounted => exact ⟨closed, uncounted⟩
  | aborted other _ closed uncounted => exact ⟨closed, uncounted⟩
  | committed _ other _ _ _ => exact absurd exit (other reason)
  | refused _ _ _ other _ _ =>
      rw [exit] at other
      cases other

theorem Loop.Orderly.distinct_snoc {s : Loop} (orderly : s.Orderly) {made : Record}
    (fresh : made.node ∉ s.exclude) : ((s.records ++ [made]).map Record.node).Nodup := by
  rw [orderly.excluded, List.mem_reverse] at fresh
  rw [List.map_append, List.map_singleton, List.nodup_append]
  refine ⟨orderly.distinct, List.nodup_singleton _, ?_⟩
  intro a member b last same
  rw [List.mem_singleton.mp last] at same
  exact fresh (same ▸ member)

theorem Loop.Orderly.after {s : Loop} (orderly : s.Orderly) {made : Record} {reason : Reason}
    (isMade : s.Made rel ctx stream script made) (router : ∀ k, (script k).FromRouter)
    (exit : made.result.exit = .returned .outRetry reason) (now : Int) :
    (s.after made reason now).Orderly where
  booked := by
    intro r member
    rcases List.mem_append.mp member with earlier | last
    · exact orderly.booked r earlier
    · rw [List.mem_singleton.mp last]
      exact (isMade.booked rel ctx stream script).of_retry exit
  excluded := by
    simp [Loop.after, orderly.excluded]
  distinct := orderly.distinct_snoc (isMade.fresh rel ctx stream script router)

theorem Loop.Reaches.orderly {s next : Loop} (reached : Loop.Reaches rel ctx stream script s next)
    (router : ∀ k, (script k).FromRouter) (orderly : s.Orderly) : next.Orderly := by
  induction reached with
  | refl => exact orderly
  | @tail middle next _ stepped ih =>
      have iterated := iterate_iterated rel ctx stream script middle
      rw [stepped.2] at iterated
      cases iterated with
      | again made reason now isMade exit _ =>
          exact ih.after rel ctx stream script isMade router exit now

theorem Loop.Reaches.attempt_le {s next : Loop}
    (reached : Loop.Reaches rel ctx stream script s next)
    (bound : (s.attempt : Int) ≤ rel.maxAttempts + 1) :
    (next.attempt : Int) ≤ rel.maxAttempts + 1 := by
  induction reached with
  | refl => exact bound
  | tail _ stepped _ =>
      have counted := stepped.attempt rel ctx stream script
      have inside := stepped.1
      omega

/-- The request ends in the attempt `made` after the attempts of `s`. -/
theorem disciplined_snoc {s : Loop} {made : Record} (reply : List Event) (panic : Option Panic)
    (orderly : s.Orderly) (retried : s.Retried) (inside : (s.attempt : Int) ≤ rel.maxAttempts)
    (fresh : made.node ∉ s.exclude) (closed : closings made.result.events = 1)
    (unclosed : closings reply = 0)
    (counted : finishes made.result.events + finishes reply = 1) :
    Disciplined rel ⟨s.records ++ [made], reply, panic⟩ where
  few := by
    have := retried.numbered
    rw [List.length_append, List.length_singleton]
    omega
  distinct := orderly.distinct_snoc fresh
  paired := by
    apply leaseSteps_paired _ _ unclosed
    intro r member
    rcases List.mem_append.mp member with earlier | last
    · exact (orderly.booked r earlier).1
    · rw [List.mem_singleton.mp last]
      exact closed
  counted := by
    have earlier := finishes_eventsOf s.records fun r member => (orderly.booked r member).2
    rw [Served.events, eventsOf_append, eventsOf_singleton, finishes_append, finishes_append,
      earlier, Nat.zero_add]
    exact counted

theorem disciplined_reply {s : Loop} (reply : List Event) (orderly : s.Orderly)
    (few : (s.records.length : Int) ≤ rel.maxAttempts)
    (counts : closings reply = 0 ∧ finishes reply = 1) :
    Disciplined rel ⟨s.records, reply, none⟩ where
  few := few
  distinct := orderly.distinct
  paired := leaseSteps_paired _ (fun r member => (orderly.booked r member).1) counts.1
  counted := by
    rw [Served.events, finishes_append,
      finishes_eventsOf s.records fun r member => (orderly.booked r member).2, counts.2]

/-- The state is about to make an attempt whose response has no valid status at
the commit point. -/
def Loop.StatusRefused (s : Loop) : Prop :=
  ∃ started node resp,
    Handler.acquire ctx s.now ((script s.attempt).acquire s.exclude) = (started, .ok node) ∧
      Commits (script s.attempt).requestFails (script s.attempt).upstream resp ∧
      resp.status < 100

theorem Loop.Made.status {s : Loop} {made : Record} (isMade : s.Made rel ctx stream script made)
    (valid : ¬ s.StatusRefused ctx script) : made.result.exit ≠ .panicked .invalidCode := by
  obtain ⟨started, node, got, rfl⟩ := isMade
  simp only [Loop.attemptOn]
  cases attempt_booked rel ctx stream started s.attempt node (script s.attempt).requestFails
      (script s.attempt).upstream with
  | refused resp commits low _ _ _ =>
      exact absurd ⟨started, node, resp, got, commits, low⟩ valid
  | retried reason exit _ _ => simp [exit]
  | aborted exit _ _ _ => simp [exit]
  | committed _ _ status _ _ => exact status

/-- An attempt that is neither retried nor aborted has closed and counted. -/
theorem Booked.of_end {requestFails : Bool} {upstream : Upstream} {result : Attempted}
    (booked : Booked requestFails upstream result)
    (ends : ∀ reason, result.exit ≠ .returned .outRetry reason ∧
      result.exit ≠ .returned .outAbort reason)
    (status : result.exit ≠ .panicked .invalidCode) :
    closings result.events = 1 ∧ finishes result.events = 1 := by
  cases booked with
  | retried reason exit _ _ => exact absurd exit (ends reason).1
  | aborted exit _ _ _ => exact absurd exit (ends .canceled).2
  | refused _ _ _ exit _ _ => exact absurd exit status
  | committed _ _ _ closed counted => exact ⟨closed, counted⟩

theorem iterated_disciplined {s : Loop} {run : Served} (orderly : s.Orderly)
    (retried : s.Retried) (inside : (s.attempt : Int) ≤ rel.maxAttempts)
    (router : ∀ k, (script k).FromRouter)
    (draws : ∀ attempt : Nat, 1 ≤ attempt → (attempt : Int) < rel.maxAttempts →
      backoff rel attempt (script attempt).jitter ≠ none)
    (valid : ¬ s.StatusRefused ctx script)
    (iterated : Iterated rel ctx stream script s (.inr run)) : Disciplined rel run := by
  cases iterated with
  | refused err got =>
      have := retried.numbered
      exact disciplined_reply rel _ orderly (by omega) (rejectAcquire_counts err s.attempt)
  | panicked made panic isMade exit =>
      obtain ⟨closed, counted⟩ := (isMade.booked rel ctx stream script).of_end (by simp [exit])
        (isMade.status rel ctx stream script valid)
      exact disciplined_snoc rel [] (some panic) orderly retried inside
        (isMade.fresh rel ctx stream script router) closed rfl (by rw [counted]; rfl)
  | done made reason isMade exit =>
      obtain ⟨closed, counted⟩ := (isMade.booked rel ctx stream script).of_end (by simp [exit])
        (isMade.status rel ctx stream script valid)
      exact disciplined_snoc rel [] none orderly retried inside
        (isMade.fresh rel ctx stream script router) closed rfl (by rw [counted]; rfl)
  | aborted made reason isMade exit =>
      have fresh := isMade.fresh rel ctx stream script router
      have reply := abortReply_counts ctx made.result.now
        ((eventsOf (s.records ++ [made])).any Event.sends)
      cases isMade.booked rel ctx stream script with
      | retried _ other _ _ =>
          rw [exit] at other
          cases other
      | refused _ _ _ other _ _ =>
          rw [exit] at other
          cases other
      | aborted _ silent closed uncounted =>
          -- nothing was sent, so the caller counts the request
          have unsent : (eventsOf (s.records ++ [made])).any Event.sends = false := by
            rw [eventsOf_append, eventsOf_singleton]
            exact ((eventsOf_silent s.records retried.records).append silent).sends
          rw [unsent] at reply ⊢
          exact disciplined_snoc rel _ none orderly retried inside fresh closed reply.1
            (by rw [uncounted, reply.2]; rfl)
      | committed sent _ _ closed counted =>
          have wrote : (eventsOf (s.records ++ [made])).any Event.sends = true := by
            rw [eventsOf_append, eventsOf_singleton, List.any_append, sent, Bool.or_true]
          rw [wrote] at reply ⊢
          exact disciplined_snoc rel _ none orderly retried inside fresh closed reply.1
            (by rw [counted, reply.2]; rfl)
  | noBackoff made reason isMade exit more empty =>
      exact absurd empty (draws s.attempt (by rw [retried.numbered]; omega) more)
  | cut made reason isMade exit cut =>
      obtain ⟨closed, uncounted⟩ := (isMade.booked rel ctx stream script).of_retry exit
      exact disciplined_snoc rel [.finish .cancelled] none orderly retried inside
        (isMade.fresh rel ctx stream script router) closed rfl (by rw [uncounted]; rfl)

/-- A refused status leaves the request uncounted. -/
theorem iterate_of_statusRefused {s : Loop} (orderly : s.Orderly)
    (refused : s.StatusRefused ctx script) :
    ∃ run, s.iterate rel ctx stream script = .inr run ∧ finishes run.events = 0 := by
  obtain ⟨started, node, resp, got, commits, status⟩ := refused
  have attempted : (s.attemptOn rel ctx stream script started node).result =
      ⟨started + (script s.attempt).upstream.elapsed + resp.body.first.elapsed,
        resp.headers node s.attempt, .panicked .invalidCode, [resp.body.first.data]⟩ := by
    simp only [Loop.attemptOn]
    rw [commits.attempt, commit_refused _ _ _ _ _ status]
  refine ⟨⟨s.records ++ [s.attemptOn rel ctx stream script started node], [],
    some .invalidCode⟩, ?_, ?_⟩
  · simp only [Loop.iterate, got, attempted]
  · rw [Served.events, eventsOf_append, eventsOf_singleton, attempted, finishes_append,
      finishes_append, finishes_eventsOf s.records fun r member => (orderly.booked r member).2,
      (headers_clientOnly resp node s.attempt).finishes]
    rfl

end

theorem badRequest_disciplined (rel : Reliability) (error : String)
    (positive : 1 ≤ rel.maxAttempts) : Disciplined rel (badRequest error) := by
  constructor
  · simp only [badRequest, List.length_nil]
    omega
  · exact List.nodup_nil
  · rfl
  · rfl

/-- For a `POST` the leases are closed and the request is counted as they should
exactly when no attempt of the request gets to the commit point with a status
below 100. -/
theorem disciplined_iff (h : DirectChatHandler) (req : Incoming) (post : req.method = "POST")
    (start : Int) (clientGone : Option Int) (script : Nat → Turn)
    (positive : 1 ≤ h.init.maxAttempts)
    (draws : ∀ attempt : Nat, 1 ≤ attempt → (attempt : Int) < h.init.maxAttempts →
      backoff h.init attempt (script attempt).jitter ≠ none)
    (router : ∀ k, (script k).FromRouter) :
    Disciplined h.init (serveHTTP h req start clientGone script) ↔
      ¬ ∃ stream s, req.parsed = .accepted stream ∧
        Loop.Reaches h.init (h.ctx start clientGone) stream script (Loop.start start) s ∧
        (s.attempt : Int) ≤ h.init.maxAttempts ∧
        s.StatusRefused (h.ctx start clientGone) script := by
  unfold serveHTTP
  rw [if_neg (by simp [post])]
  cases parsed : req.parsed with
  | unreadable => simp [badRequest_disciplined _ _ positive]
  | badMessages => simp [badRequest_disciplined _ _ positive]
  | unforwardable => simp [badRequest_disciplined _ _ positive]
  | accepted stream =>
      have retried : (Loop.start start).Retried := ⟨rfl, by simp [Loop.start]⟩
      have orderly : (Loop.start start).Orderly := by
        constructor <;> simp [Loop.start]
      have bound : ((Loop.start start).attempt : Int) + h.init.maxAttempts.toNat =
          h.init.maxAttempts + 1 := by
        simp [Loop.start]
        omega
      constructor
      · rintro disciplined ⟨stream', s, same, reached, inside, refused⟩
        cases same
        obtain ⟨run, ended, uncounted⟩ := iterate_of_statusRefused h.init (h.ctx start clientGone)
          stream script (reached.orderly _ _ _ _ router orderly) refused
        have whole := Loop.run_of_reaches h.init (h.ctx start clientGone) stream script _ _ s run
          bound reached inside ended
        have counted := disciplined.counted
        dsimp only at counted
        rw [whole, uncounted] at counted
        cases counted
      · intro valid
        obtain ⟨last, reached, ended⟩ :=
          Loop.run_ends h.init (h.ctx start clientGone) stream script _ _ bound
        have retried := reached.retried _ _ _ _ retried
        have orderly := reached.orderly _ _ _ _ router orderly
        rcases ended with ⟨inside, stepped⟩ | exhausted
        · have iterated := iterate_iterated h.init (h.ctx start clientGone) stream script last
          rw [stepped] at iterated
          apply iterated_disciplined h.init (h.ctx start clientGone) stream script orderly retried
            inside router draws _ iterated
          intro refused
          exact valid ⟨stream, last, rfl, reached, inside, refused⟩
        · dsimp only
          rw [exhausted]
          apply disciplined_reply h.init _ orderly _ (allFailed_counts _ _)
          have made := reached.attempt_le h.init (h.ctx start clientGone) stream script (by omega)
          have := retried.numbered
          omega

/-! A refused connection, then a stream on the other node. -/

/-- The answer of a pool of two free nodes to a request that tried these. -/
def grantTo (tried : List String) (node : String) (upstream : Upstream) : Turn :=
  ⟨fun exclude => ⟨0, if exclude = tried then .granted node else .noNode⟩, false, upstream, 0,
    ⟨0, true⟩⟩

theorem grantTo_fromRouter (tried : List String) (i : Fin 2) (node : String)
    (upstream : Upstream)
    (granted : ((Router.new Router.pairOfNodes 0 Router.oneSlotOptions 0).decision
        (Router.Runtime.exact 2) Router.oneSlotOptions
        (Router.Call.enter Router.oneSlotOptions ⟨"", "", none, tried⟩) []).2 = .granted 0)
    (onNode : ((Router.new Router.pairOfNodes 0 Router.oneSlotOptions 0).decision
        (Router.Runtime.exact 2) Router.oneSlotOptions
        (Router.Call.enter Router.oneSlotOptions ⟨"", "", none, tried⟩) []).1.w.leases[0]?.map
          (fun l => l.node) = some i)
    (named : ((Router.new Router.pairOfNodes 0 Router.oneSlotOptions 0).nodes i).name = node) :
    (grantTo tried node upstream).FromRouter := by
  intro exclude other answer
  simp only [grantTo] at answer
  split at answer
  · rename_i same
    cases answer
    exact ⟨2, Router.Runtime.exact 2, Router.oneSlotOptions, _,
      Router.Call.enter Router.oneSlotOptions ⟨"", "", none, tried⟩, [], 0, i, same.symm, granted,
      onNode, named⟩
  · cases answer

def orderlyScript : Nat → Turn
  | 1 => grantTo [] "b:1" ⟨1, none, 0⟩
  | _ => grantTo ["b:1"] "a:1" ⟨1, some brokenStream, 0⟩

theorem orderlyScript_refuses_no_status :
    Disciplined defaultHandler.init (serveHTTP defaultHandler chatRequest 0 none orderlyScript) ∧
      ¬ ∃ stream s, chatRequest.parsed = .accepted stream ∧
        Loop.Reaches defaultHandler.init (defaultHandler.ctx 0 none) stream orderlyScript
          (Loop.start 0) s ∧
        (s.attempt : Int) ≤ defaultHandler.init.maxAttempts ∧
        s.StatusRefused (defaultHandler.ctx 0 none) orderlyScript := by
  have disciplined : Disciplined defaultHandler.init
      (serveHTTP defaultHandler chatRequest 0 none orderlyScript) := by
    constructor <;> decide +kernel
  refine ⟨disciplined, (disciplined_iff defaultHandler chatRequest rfl 0 none orderlyScript
    (by decide) ?_ ?_).mp disciplined⟩
  · intro attempt positive below
    have few : attempt < 3 := by
      simpa [DirectChatHandler.init, defaultHandler, Settings.defaultReliability] using below
    interval_cases attempt <;> decide +kernel
  · intro k
    simp only [orderlyScript]
    split
    · apply grantTo_fromRouter [] 1 "b:1" <;> decide +kernel
    · apply grantTo_fromRouter ["b:1"] 0 "a:1" <;> decide +kernel

/-! A node answers with the status line `HTTP/1.1 099`. -/

def lowStatus : Response := ⟨99, "text/plain", ⟨readOf "hello", [], .eof⟩⟩

def lowStatusScript : Nat → Turn := fun _ => grantTo [] "b:1" ⟨1, some lowStatus, 0⟩

theorem lowStatus_keeps_lease :
    ¬ ∀ (h : DirectChatHandler) (req : Incoming), req.method = "POST" →
      ∀ (start : Int) (clientGone : Option Int) (script : Nat → Turn),
      1 ≤ h.init.maxAttempts →
      (∀ attempt : Nat, 1 ≤ attempt → (attempt : Int) < h.init.maxAttempts →
        backoff h.init attempt (script attempt).jitter ≠ none) →
      (∀ k, (script k).FromRouter) →
      Disciplined h.init (serveHTTP h req start clientGone script) := by
  intro claim
  have draws : ∀ attempt : Nat, 1 ≤ attempt →
      (attempt : Int) < defaultHandler.init.maxAttempts →
      backoff defaultHandler.init attempt (lowStatusScript attempt).jitter ≠ none := by
    intro attempt positive below
    have few : attempt < 3 := by
      simpa [DirectChatHandler.init, defaultHandler, Settings.defaultReliability] using below
    interval_cases attempt <;> decide +kernel
  have router : ∀ k, (lowStatusScript k).FromRouter := by
    intro k
    simp only [lowStatusScript]
    apply grantTo_fromRouter [] 1 "b:1" <;> decide +kernel
  have disciplined := claim defaultHandler chatRequest rfl 0 none lowStatusScript (by decide) draws
    router
  have unclosed : (serveHTTP defaultHandler chatRequest 0 none lowStatusScript).leaseSteps =
      [.acquired "b:1"] := by
    decide +kernel
  have one : (serveHTTP defaultHandler chatRequest 0 none lowStatusScript).records.map
      Record.node = ["b:1"] := by
    decide +kernel
  obtain ⟨r, rest, records, node, nothing⟩ := List.map_eq_cons_iff.mp one
  have paired := disciplined.paired
  rw [unclosed, records, List.map_eq_nil_iff.mp nothing] at paired
  simp at paired

end RadixGates.Handler
