import Mathlib.Tactic.IntervalCases
import RadixGates.Handler.FirstByte

/-!
# Requests that end before anything was committed

A client that stays connected gets an error from the gateway itself, whichever
way the request ends, except one: when the overall deadline passes during the
sleep between two attempts, the handler returns and has written nothing.
-/

set_option autoImplicit false

namespace RadixGates.Handler

open RadixGates.Router (AcquireError CtxErr)
open RadixGates.Settings (Config validate)

/-! ## The replies -/

def IsError (events : List Event) : Prop := ∃ code, 400 ≤ code ∧ statuses events = [code]

theorem rejectAcquire_isError (err : AcquireError) (attempt : Nat)
    (stays : err ≠ .ctx .canceled) : IsError (rejectAcquire err attempt) := by
  unfold rejectAcquire IsError
  cases err with
  | queueFull => exact ⟨429, by omega, by simp [writeJSON]⟩
  | queueTimeout => exact ⟨503, by omega, by simp [writeJSON]⟩
  | noNode =>
      dsimp only
      split
      · exact ⟨502, by omega, by simp [writeJSON]⟩
      · exact ⟨503, by omega, by simp [writeJSON]⟩
  | ctx cause =>
      cases cause with
      | deadlineExceeded => exact ⟨504, by omega, by simp [writeJSON]⟩
      | canceled => exact absurd rfl stays

theorem allFailed_isError (maxAttempts : Int) (lastReason : Option Reason) :
    IsError (allFailed maxAttempts lastReason) :=
  ⟨502, by omega, by simp [allFailed, writeJSON]⟩

theorem Ctx.cause_of_stays {ctx : Ctx} (stays : ctx.clientGone = none) :
    ctx.cause = .deadlineExceeded := by
  simp [Ctx.cause, stays]

theorem abortReply_isError (ctx : Ctx) (now : Int) (stays : ctx.clientGone = none)
    (done : ctx.err now ≠ none) : IsError (abortReply ctx now false) := by
  have past : ctx.err now = some .deadlineExceeded := by
    rw [ctx.err_later now now done le_rfl, Ctx.cause_of_stays stays]
  refine ⟨504, by omega, ?_⟩
  simp [abortReply, past, writeJSON]

theorem acquire_error_of_stays (ctx : Ctx) (now : Int) (acquiring : Acquiring) (err : AcquireError)
    (stays : ctx.clientGone = none) (got : (acquire ctx now acquiring).2 = .error err) :
    err ≠ .ctx .canceled := by
  unfold acquire at got
  cases answer : acquiring.answer <;> simp only [answer] at got <;> cases got
  · simp
  · simp
  · simp
  · simp [Ctx.cause_of_stays stays]

/-! ## The property -/

/-- The attempt called `WriteHeader`, whether the writer took the code or
panicked. -/
def Record.ReachedCommit (r : Record) : Prop :=
  r.Sent ∨ r.result.exit = .panicked .invalidCode

/-- A request that committed nothing returns with one error of the gateway. -/
def Answered (run : Served) : Prop :=
  (∀ r ∈ run.records, ¬ r.ReachedCommit) → run.panic = none ∧ IsError run.events

/-- In some state of the retry loop the end of the context cuts the sleep after an
attempt that is to be retried. -/
def BackoffCut (h : DirectChatHandler) (start : Int) (clientGone : Option Int) (stream : Bool)
    (script : Nat → Turn) : Prop :=
  ∃ s made reason,
    Loop.Reaches h.init (h.ctx start clientGone) stream script (Loop.start start) s ∧
      s.Made h.init (h.ctx start clientGone) stream script made ∧
      made.result.exit = .returned .outRetry reason ∧
      s.SleepCut h.init (h.ctx start clientGone) script made

theorem Record.Retried.not_reachedCommit {r : Record} (retried : r.Retried) :
    ¬ r.ReachedCommit := by
  obtain ⟨⟨reason, exit⟩, silent⟩ := retried
  rintro (sent | panicked)
  · exact sent silent.statuses
  · rw [exit] at panicked
    cases panicked

theorem Tried.uncommitted {ctx : Ctx} {r : Record} {upstream : Upstream}
    (tried : Tried ctx r.started r.number r.node upstream r.result)
    (uncommitted : ¬ r.ReachedCommit) :
    Silent r.result.events ∧
      ((∃ reason, r.result.exit = .returned .outRetry reason) ∨
        (r.result.exit = .returned .outAbort .canceled ∧ ctx.err r.result.now ≠ none)) := by
  unfold Record.ReachedCommit Record.Sent at uncommitted
  generalize r.result = result at tried uncommitted ⊢
  cases tried with
  | retry _ reason exit silent _ => exact ⟨silent, Or.inl ⟨reason, exit⟩⟩
  | abort later reads done after => exact ⟨abort_silent later reads, Or.inr ⟨rfl, done⟩⟩
  | commit resp answered forwarded =>
      refine absurd ?_ uncommitted
      rcases commit_cases ctx (r.started + upstream.elapsed + resp.body.first.elapsed) r.number
        r.node resp with refused | committed
      · rw [refused]
        exact Or.inr rfl
      · left
        rw [committed.statuses]
        simp

theorem events_isError (run : Served) (silent : Silent (eventsOf run.records))
    (reply : IsError run.reply) : IsError run.events := by
  obtain ⟨code, large, one⟩ := reply
  refine ⟨code, large, ?_⟩
  rw [Served.events, statuses_append, silent.statuses, one, List.nil_append]

section
variable (h : DirectChatHandler) (start : Int) (stream : Bool) (script : Nat → Turn)

theorem iterated_answered (s : Loop) (run : Served) (retried : s.Retried)
    (draws : ∀ attempt : Nat, 1 ≤ attempt → (attempt : Int) < h.init.maxAttempts →
      backoff h.init attempt (script attempt).jitter ≠ none)
    (uncut : ∀ made reason, s.Made h.init (h.ctx start none) stream script made →
      made.result.exit = .returned .outRetry reason →
      ¬ s.SleepCut h.init (h.ctx start none) script made)
    (iterated : Iterated h.init (h.ctx start none) stream script s (.inr run)) : Answered run := by
  have earlier := eventsOf_silent s.records retried.records
  intro uncommitted
  have lastCase : ∀ made, s.Made h.init (h.ctx start none) stream script made →
      run.records = s.records ++ [made] →
      Silent (eventsOf (s.records ++ [made])) ∧
        ((∃ reason, made.result.exit = .returned .outRetry reason) ∨
          (made.result.exit = .returned .outAbort .canceled ∧
            (h.ctx start none).err made.result.now ≠ none)) := by
    intro made isMade records
    have last := (isMade.tried _ _ _ _).2.uncommitted
      (uncommitted made (by rw [records]; simp))
    refine ⟨?_, last.2⟩
    rw [eventsOf_append, eventsOf_singleton]
    exact earlier.append last.1
  cases iterated with
  | refused err got =>
      exact ⟨rfl, events_isError _ earlier
        (rejectAcquire_isError err s.attempt (acquire_error_of_stays _ _ _ err rfl got))⟩
  | panicked made panic isMade exit =>
      obtain ⟨_, ⟨reason, retry⟩ | ⟨abort, _⟩⟩ := lastCase made isMade rfl
      · rw [exit] at retry
        cases retry
      · rw [exit] at abort
        cases abort
  | done made reason isMade exit =>
      obtain ⟨_, ⟨reason', retry⟩ | ⟨abort, _⟩⟩ := lastCase made isMade rfl
      · rw [exit] at retry
        cases retry
      · rw [exit] at abort
        cases abort
  | aborted made reason isMade exit =>
      obtain ⟨silent, ⟨reason', retry⟩ | ⟨_, done⟩⟩ := lastCase made isMade rfl
      · rw [exit] at retry
        cases retry
      · refine ⟨rfl, events_isError _ silent ?_⟩
        dsimp only
        rw [silent.sends]
        exact abortReply_isError _ _ rfl done
  | noBackoff made reason isMade exit more empty =>
      exact absurd empty (draws s.attempt (by rw [retried.numbered]; omega) more)
  | cut made reason isMade exit cut => exact absurd cut (uncut made reason isMade exit)

theorem iterate_of_cut (s : Loop) (made : Record) (reason : Reason)
    (isMade : s.Made h.init (h.ctx start none) stream script made)
    (exit : made.result.exit = .returned .outRetry reason)
    (cut : s.SleepCut h.init (h.ctx start none) script made) :
    s.iterate h.init (h.ctx start none) stream script =
      .inr ⟨s.records ++ [made], [.finish .cancelled], none⟩ := by
  obtain ⟨started, node, got, rfl⟩ := isMade
  obtain ⟨more, d, drawn, isCut⟩ := cut
  have awake := (sleepCtx_cut_iff _ _ _ _).mpr isCut
  simp [Loop.iterate, got, exit, Loop.retry, more, drawn, awake]

theorem run_answered_iff (positive : 1 ≤ h.init.maxAttempts)
    (draws : ∀ attempt : Nat, 1 ≤ attempt → (attempt : Int) < h.init.maxAttempts →
      backoff h.init attempt (script attempt).jitter ≠ none) :
    Answered (Loop.run h.init (h.ctx start none) stream script h.init.maxAttempts.toNat
        (Loop.start start)) ↔
      ¬ BackoffCut h start none stream script := by
  have fresh : (Loop.start start).Retried := ⟨rfl, by simp [Loop.start]⟩
  have bound : ((Loop.start start).attempt : Int) + h.init.maxAttempts.toNat =
      h.init.maxAttempts + 1 := by
    simp [Loop.start]
    omega
  constructor
  · rintro answered ⟨s, made, reason, reached, isMade, exit, cut⟩
    have ended := Loop.run_of_reaches h.init (h.ctx start none) stream script _ _ s _ bound reached
      (le_of_lt cut.1) (iterate_of_cut h start stream script s made reason isMade exit cut)
    have retried := (reached.retried _ _ _ _ fresh).after h.init (h.ctx start none) stream script
      isMade exit 0
    rw [ended] at answered
    obtain ⟨_, code, _, one⟩ := answered fun r member =>
      (retried.records r member).not_reachedCommit
    have silent := eventsOf_silent _ retried.records
    simp only [Loop.after] at silent
    simp [Served.events, silent.statuses] at one
  · intro uncut
    obtain ⟨last, reached, ended⟩ := Loop.run_ends h.init (h.ctx start none) stream script _ _ bound
    have retried := reached.retried _ _ _ _ fresh
    rcases ended with ⟨_, stepped⟩ | exhausted
    · have iterated := iterate_iterated h.init (h.ctx start none) stream script last
      rw [stepped] at iterated
      refine iterated_answered h start stream script last _ retried draws ?_ iterated
      intro made reason isMade exit cut
      exact uncut ⟨last, made, reason, reached, isMade, exit, cut⟩
    · rw [exhausted]
      intro _
      exact ⟨rfl, events_isError _ (eventsOf_silent _ retried.records) (allFailed_isError _ _)⟩

end

theorem badRequest_answered (error : String) : Answered (badRequest error) := by
  intro _
  exact ⟨rfl, 400, by omega, by simp [badRequest, Served.events, eventsOf, writeJSON]⟩

theorem init_maxAttempts (c : Config) (accepted : validate c = .ok ()) (timeout : Int) :
    1 ≤ (DirectChatHandler.mk timeout c.reliability).init.maxAttempts := by
  have positive := (Settings.validate_ok c accepted).maxAttempts_pos
  simp only [DirectChatHandler.init]
  split <;> omega

/-- With a client that stays, a request that commits nothing is answered with
an error exactly if the deadline cuts no sleep of the retry loop. -/
theorem answered_iff_no_backoff_cut (c : Config) (accepted : validate c = .ok ()) (timeout : Int)
    (req : Incoming) (post : req.method = "POST") (start : Int) (script : Nat → Turn)
    (draws : ∀ attempt : Nat, 1 ≤ attempt →
      (attempt : Int) < (DirectChatHandler.mk timeout c.reliability).init.maxAttempts →
      backoff (DirectChatHandler.mk timeout c.reliability).init attempt (script attempt).jitter ≠
        none) :
    Answered (serveHTTP ⟨timeout, c.reliability⟩ req start none script) ↔
      ¬ ∃ stream, req.parsed = .accepted stream ∧
        BackoffCut ⟨timeout, c.reliability⟩ start none stream script := by
  unfold serveHTTP
  rw [if_neg (by simp [post])]
  cases parsed : req.parsed with
  | unreadable => simp [badRequest_answered]
  | badMessages => simp [badRequest_answered]
  | unforwardable => simp [badRequest_answered]
  | accepted stream =>
      rw [run_answered_iff _ start stream script (init_maxAttempts c accepted timeout) draws]
      simp

/-! Every node refuses the connection. -/

def defaultConfig : Config := ⟨⟨5 / 4, 2, 0, 0⟩, Settings.defaultReliability, ⟨128, 10 * second⟩⟩

def deadScript : Nat → Turn
  | 1 => turnOn "n0" ⟨1, none, 0⟩
  | 2 => turnOn "n1" ⟨1, none, 0⟩
  | _ => turnOn "n2" ⟨1, none, 0⟩

theorem deadScript_cuts_no_backoff :
    validate defaultConfig = .ok () ∧
      ¬ ∃ stream, chatRequest.parsed = .accepted stream ∧
        BackoffCut ⟨0, defaultConfig.reliability⟩ 0 none stream deadScript := by
  have accepted : validate defaultConfig = .ok () := by decide +kernel
  refine ⟨accepted, ?_⟩
  refine (answered_iff_no_backoff_cut defaultConfig accepted 0 chatRequest rfl 0 deadScript
    ?_).mp ?_
  · intro attempt positive below
    have few : attempt < 3 := by
      simpa [DirectChatHandler.init, defaultConfig, Settings.defaultReliability] using below
    interval_cases attempt <;> decide +kernel
  · intro _
    exact ⟨by decide +kernel, 502, by omega, by decide +kernel⟩

def tightConfig : Config :=
  { defaultConfig with
    reliability :=
      { Settings.defaultReliability with overallTimeout := 10 * Settings.millisecond } }

theorem deadline_in_backoff_is_silent :
    ¬ ∀ (c : Config), validate c = .ok () → ∀ (timeout : Int) (req : Incoming),
      req.method = "POST" → ∀ (start : Int) (script : Nat → Turn),
      (∀ attempt : Nat, 1 ≤ attempt →
        (attempt : Int) < (DirectChatHandler.mk timeout c.reliability).init.maxAttempts →
        backoff (DirectChatHandler.mk timeout c.reliability).init attempt (script attempt).jitter ≠
          none) →
      Answered (serveHTTP ⟨timeout, c.reliability⟩ req start none script) := by
  intro claim
  have draws : ∀ attempt : Nat, 1 ≤ attempt →
      (attempt : Int) < (DirectChatHandler.mk 0 tightConfig.reliability).init.maxAttempts →
      backoff (DirectChatHandler.mk 0 tightConfig.reliability).init attempt
        (deadScript attempt).jitter ≠ none := by
    intro attempt positive below
    have few : attempt < 3 := by
      simpa [DirectChatHandler.init, tightConfig, Settings.defaultReliability] using below
    interval_cases attempt <;> decide +kernel
  have answered := claim tightConfig (by decide +kernel) 0 chatRequest rfl 0 deadScript draws
  have unsent : ∀ r ∈ (serveHTTP ⟨0, tightConfig.reliability⟩ chatRequest 0 none
      deadScript).records, ¬ r.ReachedCommit := by
    unfold Record.ReachedCommit Record.Sent
    decide +kernel
  obtain ⟨_, code, _, one⟩ := answered unsent
  have nothing : (serveHTTP ⟨0, tightConfig.reliability⟩ chatRequest 0 none
      deadScript).events.all (fun e => !e.onClient) = true := by
    decide +kernel
  have silent : Silent (serveHTTP ⟨0, tightConfig.reliability⟩ chatRequest 0 none
      deadScript).events := by
    simpa [Silent] using nothing
  rw [silent.statuses] at one
  cases one

end RadixGates.Handler
