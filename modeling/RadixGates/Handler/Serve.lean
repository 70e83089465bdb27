import Mathlib.Logic.Relation
import RadixGates.Handler.Attempt

/-!
# `ServeHTTP` and its retry loop

The rest of `gateway-go/handler/direct.go`: the exits before the loop, one
iteration of the loop, and the loop.  The outside world is a `Turn` for each
attempt number.  Decoding the request body is its outcome.

An iteration maps the variables of the loop to their next values or to the end
of the request; `Reaches` is the relation between loop states that the
iterations generate.
-/

set_option autoImplicit false

namespace RadixGates.Handler

open RadixGates.Router (AcquireError CtxErr)
open RadixGates.Settings (Reliability)

structure DirectChatHandler where
  timeout : Int
  reliability : Reliability
  deriving DecidableEq, Repr

/-- `init`: zero fields fall back to the defaults. -/
def DirectChatHandler.init (h : DirectChatHandler) : Reliability :=
  let defaults := Settings.defaultReliability
  let r := h.reliability
  { r with
    maxAttempts := if r.maxAttempts = 0 then defaults.maxAttempts else r.maxAttempts
    attemptTimeout := if r.attemptTimeout = 0 then defaults.attemptTimeout else r.attemptTimeout
    streamIdleTimeout :=
      if r.streamIdleTimeout = 0 then defaults.streamIdleTimeout else r.streamIdleTimeout
    retryBackoff := if r.retryBackoff = 0 then defaults.retryBackoff else r.retryBackoff
    overallTimeout :=
      if r.overallTimeout = 0 then
        if 0 < h.timeout then h.timeout else defaults.overallTimeout
      else r.overallTimeout }

/-! ## Replies of the gateway itself -/

/-- `writeJSON` of a one-entry map; the texts contain nothing to escape. -/
def writeJSON (code : Nat) (error : String) : List Event :=
  [.header "Content-Type" "application/json", .writeHeader code,
    .write (bytesOf ("\x7b\"error\":\"" ++ error ++ "\"\x7d\n"))]

def httpError (text : String) (code : Nat) : List Event :=
  [.header "Content-Type" "text/plain; charset=utf-8",
    .header "X-Content-Type-Options" "nosniff", .writeHeader code, .write (bytesOf (text ++ "\n"))]

def rejectAcquire (err : AcquireError) (attempt : Nat) : List Event :=
  .header "Retry-After" "1" ::
  match err with
  | .queueFull => .finish .queueFull :: writeJSON 429 "gateway admission queue is full"
  | .queueTimeout => .finish .queueTimeout :: writeJSON 503 "timed out waiting for node capacity"
  | .noNode =>
      if 1 < attempt then
        .finish .upstreamFailed ::
          writeJSON 502 "inference engine error: every available node failed"
      else .finish .noNode :: writeJSON 503 "no SGLang instance available for target group"
  | .ctx .deadlineExceeded =>
      .finish .timeout :: writeJSON 504 "request deadline exceeded while waiting for capacity"
  | .ctx .canceled => [.finish .cancelled]

/-- The `outAbort` case; `wrote` is the flag of the tracked writer. -/
def abortReply (ctx : Ctx) (now : Int) (wrote : Bool) : List Event :=
  if !wrote && decide (ctx.err now = some .deadlineExceeded) then
    .finish .timeout :: writeJSON 504 "request deadline exceeded"
  else if !wrote then [.finish .cancelled]
  else []

def lastReasonText : Option Reason → String
  | none => ""
  | some reason => reason.text

def allFailed (maxAttempts : Int) (lastReason : Option Reason) : List Event :=
  .finish .upstreamFailed :: .header "Retry-After" "1" ::
    writeJSON 502 ("inference engine error: all " ++ toString maxAttempts ++
      " attempts failed (last: " ++ lastReasonText lastReason ++ ")")

/-! ## Waiting -/

/-- `backoff`: `none` when `rand.Int63n` panics; `jitter` is the random draw. -/
def backoff (rel : Reliability) (attempt jitter : Nat) : Option Int :=
  let shifted := wrap64 (rel.retryBackoff * 2 ^ (attempt - 1))
  let d := if second < shifted then second else shifted
  let half := Int.tdiv d 2
  if half + 1 ≤ 0 then none else some (half + (jitter : Int) % (half + 1))

/-- How a `select` on a timer and the context turns out: how late the goroutine
looks, and which case it takes when both are ready. -/
structure Sleep where
  late : Nat
  timerFirst : Bool
  deriving DecidableEq, Repr

def sleepCtx (ctx : Ctx) (now d : Int) (sleep : Sleep) : Int × Bool :=
  let wakes := max (now + sleep.late) (min (now + d) ctx.doneAt)
  let timer := decide (now + d ≤ wakes)
  let done := decide (ctx.doneAt ≤ wakes)
  (wakes, if timer && done then sleep.timerFirst else timer)

inductive Answer where
  | granted (node : String)
  | noNode
  | queueFull
  | queueTimeout
  | ctxDone
  deriving DecidableEq, Repr

structure Acquiring where
  elapsed : Nat
  answer : Answer
  deriving DecidableEq, Repr

def acquire (ctx : Ctx) (now : Int) (acquiring : Acquiring) : Int × Except AcquireError String :=
  let later := now + acquiring.elapsed
  match acquiring.answer with
  | .granted node => (later, .ok node)
  | .noNode => (later, .error .noNode)
  | .queueFull => (later, .error .queueFull)
  | .queueTimeout => (later, .error .queueTimeout)
  | .ctxDone => (max later ctx.doneAt, .error (.ctx ctx.cause))

/-! ## The loop -/

structure Turn where
  acquire : List String → Acquiring
  requestFails : Bool
  upstream : Upstream
  jitter : Nat
  sleep : Sleep

structure Record where
  number : Nat
  node : String
  started : Int
  result : Attempted
  deriving DecidableEq, Repr

/-- The variables at the head of an iteration, with the attempts so far. -/
structure Loop where
  attempt : Nat
  now : Int
  exclude : List String
  lastReason : Option Reason
  records : List Record
  deriving DecidableEq, Repr

structure Served where
  records : List Record
  reply : List Event
  panic : Option Panic
  deriving DecidableEq, Repr

def eventsOf (records : List Record) : List Event := records.flatMap fun r => r.result.events

def Served.events (run : Served) : List Event := eventsOf run.records ++ run.reply

section
variable (rel : Reliability) (ctx : Ctx) (stream : Bool) (script : Nat → Turn)

def Loop.attemptOn (s : Loop) (started : Int) (node : String) : Record :=
  ⟨s.attempt, node, started, Handler.attempt rel ctx stream started s.attempt node
    (script s.attempt).requestFails (script s.attempt).upstream⟩

def Loop.retry (s : Loop) (made : Record) (reason : Reason) : Loop ⊕ Served :=
  let next : Loop :=
    ⟨s.attempt + 1, made.result.now, made.node :: s.exclude, some reason, s.records ++ [made]⟩
  if (s.attempt : Int) < rel.maxAttempts then
    match backoff rel s.attempt (script s.attempt).jitter with
    | none => .inr ⟨next.records, [], some .int63n⟩
    | some d =>
        let slept := sleepCtx ctx next.now d (script s.attempt).sleep
        if slept.2 then .inl { next with now := slept.1 }
        else .inr ⟨next.records, [.finish .cancelled], none⟩
  else .inl next

def Loop.iterate (s : Loop) : Loop ⊕ Served :=
  let got := Handler.acquire ctx s.now ((script s.attempt).acquire s.exclude)
  match got.2 with
  | .error err => .inr ⟨s.records, rejectAcquire err s.attempt, none⟩
  | .ok node =>
      let made := s.attemptOn rel ctx stream script got.1 node
      match made.result.exit with
      | .panicked panic => .inr ⟨s.records ++ [made], [], some panic⟩
      | .returned .outDone _ => .inr ⟨s.records ++ [made], [], none⟩
      | .returned .outAbort _ =>
          .inr ⟨s.records ++ [made],
            abortReply ctx made.result.now ((eventsOf (s.records ++ [made])).any Event.sends), none⟩
      | .returned .outRetry reason => s.retry rel ctx script made reason

def Loop.run : Nat → Loop → Served
  | 0, s => ⟨s.records, allFailed rel.maxAttempts s.lastReason, none⟩
  | left + 1, s =>
      match s.iterate rel ctx stream script with
      | .inl next => Loop.run left next
      | .inr run => run

end

def Loop.start (now : Int) : Loop := ⟨1, now, [], none, []⟩

/-! ## The request -/

inductive Parsed where
  | unreadable
  | badMessages
  | unforwardable
  | accepted (stream : Bool)
  deriving DecidableEq, Repr

structure Incoming where
  method : String
  parsed : Parsed
  deriving DecidableEq, Repr

def badRequest (error : String) : Served :=
  ⟨[], .finish .badRequest :: writeJSON 400 error, none⟩

def DirectChatHandler.ctx (h : DirectChatHandler) (start : Int) (clientGone : Option Int) : Ctx :=
  ⟨start + h.init.overallTimeout, clientGone⟩

/-- `ServeHTTP`; `start` is the instant the overall timeout starts at. -/
def serveHTTP (h : DirectChatHandler) (req : Incoming) (start : Int) (clientGone : Option Int)
    (script : Nat → Turn) : Served :=
  if req.method ≠ "POST" then ⟨[], httpError "method not allowed" 405, none⟩
  else match req.parsed with
  | .unreadable => badRequest "request body is invalid or exceeds 4 MiB"
  | .badMessages => badRequest "missing or invalid 'messages' field"
  | .unforwardable => badRequest "request body could not be forwarded"
  | .accepted stream =>
      Loop.run h.init (h.ctx start clientGone) stream script h.init.maxAttempts.toNat
        (Loop.start start)

end RadixGates.Handler
