import RadixGates.Config.Settings
import RadixGates.Router.Pool

/-!
# One upstream attempt

`DirectChatHandler.attempt` in `gateway-go/handler/direct.go`, as a function
of what the outside world answers: how long each call takes, whether the
connection fails, the response with every read of its body, and whether the
client takes each write.  The function returns the instant it ends at, what it
did in order, and how it ended.

The request context ends at a fixed instant: when the client goes away, or at
the overall deadline.  A read that a timer or the end of the context cuts
short is a read that fails; every read may fail at any instant.
-/

set_option autoImplicit false

namespace RadixGates.Handler

open RadixGates.Router (CtxErr)

/-! ## Effects -/

inductive Reason where
  | timeout
  | connError
  | busy
  | http5xx
  | readError
  | internalError
  | canceled
  | ok
  | midstreamError
  deriving DecidableEq, Repr

def Reason.text : Reason → String
  | .timeout => "timeout"
  | .connError => "conn_error"
  | .busy => "busy"
  | .http5xx => "http_5xx"
  | .readError => "read_error"
  | .internalError => "internal_error"
  | .canceled => "canceled"
  | .ok => "ok"
  | .midstreamError => "midstream_error"

inductive Label where
  | badRequest
  | queueFull
  | queueTimeout
  | noNode
  | upstreamFailed
  | timeout
  | cancelled
  | directOk
  | midstreamFailed
  deriving DecidableEq, Repr

/-- What the handler does to the outside: the calls on the client's writer,
on the lease of the attempt, and on the two outcome counters. -/
inductive Event where
  | header (name value : String)
  | writeHeader (code : Nat)
  | write (bytes : List UInt8)
  | flush
  | leaseDone (success : Bool)
  | leaseRelease
  | upstreamAttempt (result : Reason)
  | finish (label : Label)
  deriving DecidableEq, Repr

def bytesOf (text : String) : List UInt8 := text.toUTF8.toList

def Event.bytes : Event → List UInt8
  | .write bytes => bytes
  | _ => []

def Event.status : Event → Option Nat
  | .writeHeader code => some code
  | _ => none

def bodyOf (events : List Event) : List UInt8 := events.flatMap Event.bytes

def statuses (events : List Event) : List Nat := events.filterMap Event.status

/-- Something that puts bytes on the wire: the flag of `trackedWriter`. -/
def Event.sends : Event → Bool
  | .writeHeader _ | .write _ => true
  | _ => false

/-! ## The outside world -/

/-- The request context under the overall timeout: when the deadline is, and
when the client goes away, if it does. -/
structure Ctx where
  deadline : Int
  clientGone : Option Int
  deriving DecidableEq, Repr

def Ctx.doneAt (ctx : Ctx) : Int :=
  match ctx.clientGone with
  | none => ctx.deadline
  | some gone => min gone ctx.deadline

def Ctx.cause (ctx : Ctx) : CtxErr :=
  match ctx.clientGone with
  | none => .deadlineExceeded
  | some gone => if gone ≤ ctx.deadline then .canceled else .deadlineExceeded

def Ctx.err (ctx : Ctx) (now : Int) : Option CtxErr :=
  if ctx.doneAt ≤ now then some ctx.cause else none

/-- One `Read` of the body: the bytes it returns and how long it takes, and how
the client takes the write of these bytes. -/
structure Read where
  data : List UInt8
  elapsed : Nat
  accepted : Bool
  writing : Nat
  deriving DecidableEq, Repr

/-- The time between the return of the read and the next call. -/
def Read.handing (read : Read) : Nat := if read.data = [] then 0 else read.writing

inductive Stop where
  | eof
  | failed
  deriving DecidableEq, Repr

/-- The reads of a body in order.  Only the last one returns an error, which
may come together with data. -/
structure Body where
  first : Read
  rest : List Read
  stop : Stop
  deriving DecidableEq, Repr

def Body.reads (body : Body) : List Read := body.first :: body.rest

structure Response where
  status : Nat
  contentType : String
  body : Body
  deriving DecidableEq, Repr

/-- The answer of `Do`: how long it takes and the response, if any, with the
time that discarding its body takes where the handler does that. -/
structure Upstream where
  elapsed : Nat
  response : Option Response
  draining : Nat
  deriving DecidableEq, Repr

/-! ## The attempt -/

inductive Outcome where
  | outDone
  | outRetry
  | outAbort
  deriving DecidableEq, Repr

/-- `http.ErrAbortHandler`, the refusal of `rand.Int63n` to draw from an empty
range, and that of `WriteHeader` to take a code that is no status. -/
inductive Panic where
  | abortHandler
  | int63n
  | invalidCode
  deriving DecidableEq, Repr

inductive Exit where
  | returned (outcome : Outcome) (reason : Reason)
  | panicked (panic : Panic)
  deriving DecidableEq, Repr

structure Attempted where
  now : Int
  events : List Event
  exit : Exit
  reads : List (List UInt8)
  deriving DecidableEq, Repr

def headerNode : String := "X-Gateway-Node"

def headerAttempts : String := "X-Gateway-Attempts"

def Response.isSSE (resp : Response) : Bool :=
  "text/event-stream".toList.isPrefixOf resp.contentType.toList

def Response.headers (resp : Response) (node : String) (number : Nat) : List Event :=
  (if resp.contentType ≠ "" then [.header "Content-Type" resp.contentType] else []) ++
  (if resp.isSSE then [.header "Cache-Control" "no-cache", .header "X-Accel-Buffering" "no"]
    else []) ++
  [.header headerNode node, .header headerAttempts (toString number)]

def interruptedJSON : String :=
  "\x7b\"error\":\x7b\"type\":\"upstream_interrupted\",\"message\":\"node stream interrupted after output started; the request was not retried\"\x7d\x7d"

/-- What is written to a stream that broke. -/
def interruptedEvent : List UInt8 := bytesOf ("data: " ++ interruptedJSON ++ "\n\n")

/-- The first-token timeout; a response that comes in one piece gets the
overall budget. -/
def firstByte (rel : Settings.Reliability) (stream : Bool) : Int :=
  if stream then rel.attemptTimeout else rel.overallTimeout

def fail (now : Int) (reason : Reason) (reads : List (List UInt8)) : Attempted where
  now := now
  events := [.leaseDone false, .upstreamAttempt reason]
  exit := .returned .outRetry reason
  reads := reads

/-- `abort`: no verdict, and the caller answers. -/
def abort (now : Int) (reads : List (List UInt8)) : Attempted where
  now := now
  events := [.leaseRelease, .upstreamAttempt .canceled]
  exit := .returned .outAbort .canceled
  reads := reads

/-- The exits before the commit point on an error: the context first, then the
first-byte timer, then the error itself. -/
def giveUp (ctx : Ctx) (now firesAt : Int) (reason : Reason) (reads : List (List UInt8)) :
    Attempted :=
  if ctx.err now ≠ none then abort now reads
  else if firesAt ≤ now then fail now .timeout reads
  else fail now reason reads

structure Copied where
  now : Int
  events : List Event
  reads : List (List UInt8)
  refused : Bool
  deriving DecidableEq, Repr

def copyLoop : Int → List Read → Copied
  | now, [] => ⟨now, [], [], false⟩
  | now, read :: rest =>
      if read.data = [] then
        let later := copyLoop (now + read.elapsed) rest
        { later with reads := read.data :: later.reads }
      else if read.accepted then
        let later := copyLoop (now + read.elapsed + read.writing) rest
        { later with
          events := .write read.data :: .flush :: later.events
          reads := read.data :: later.reads }
      else ⟨now + read.elapsed + read.writing, [.write read.data], [read.data], true⟩

def cancelled : List Event := [.leaseRelease, .upstreamAttempt .canceled, .finish .cancelled]

/-- How a committed response ends once the copy loop has stopped at a read
error. -/
def conclude (ctx : Ctx) (now : Int) (resp : Response) : List Event × Exit :=
  match resp.body.stop with
  | .eof =>
      ([.leaseDone true, .upstreamAttempt .ok, .finish .directOk], .returned .outDone .ok)
  | .failed =>
      if ctx.err now ≠ none then (cancelled, .returned .outAbort .canceled)
      else
        let closing : List Event :=
          [.leaseDone false, .upstreamAttempt .midstreamError, .finish .midstreamFailed]
        if resp.isSSE then
          (closing ++ [.write interruptedEvent, .flush], .returned .outDone .midstreamError)
        else (closing, .panicked .abortHandler)

/-- From the commit point on; `now` is when the first read returned. -/
def commit (ctx : Ctx) (now : Int) (number : Nat) (node : String) (resp : Response) :
    Attempted :=
  let first := resp.body.first
  let headers := resp.headers node number
  if resp.status < 100 ∨ 999 < resp.status then
    ⟨now, headers, .panicked .invalidCode, [first.data]⟩
  else
    let opened := headers ++ [.writeHeader resp.status] ++
      if first.data = [] then [] else [.write first.data]
    if first.data ≠ [] ∧ !first.accepted then
      ⟨now + first.writing, opened ++ cancelled, .returned .outAbort .canceled, [first.data]⟩
    else
      let copied := copyLoop (now + first.handing) resp.body.rest
      let sent := opened ++ .flush :: copied.events
      let reads := first.data :: copied.reads
      if copied.refused then
        ⟨copied.now, sent ++ cancelled, .returned .outAbort .canceled, reads⟩
      else
        let ending := conclude ctx copied.now resp
        ⟨copied.now, sent ++ ending.1, ending.2, reads⟩

/-- `attempt`, from the grant of the lease at `now`. -/
def attempt (rel : Settings.Reliability) (ctx : Ctx) (stream : Bool) (now : Int) (number : Nat)
    (node : String) (requestFails : Bool) (upstream : Upstream) : Attempted :=
  let firesAt := now + firstByte rel stream
  if requestFails then
    ⟨now, [.leaseRelease], .returned .outRetry .internalError, []⟩
  else
    let answered := now + upstream.elapsed
    match upstream.response with
    | none => giveUp ctx answered firesAt .connError []
    | some resp =>
        if resp.status = 429 then
          ⟨answered + upstream.draining, [.leaseRelease, .upstreamAttempt .busy],
            .returned .outRetry .busy, []⟩
        else if 500 ≤ resp.status ∧ resp.status ≠ 501 then
          fail (answered + upstream.draining) .http5xx []
        else
          let first := resp.body.first
          let started := answered + first.elapsed
          if first.data = [] ∧ resp.body.rest = [] ∧ resp.body.stop = .failed then
            giveUp ctx started firesAt .readError [first.data]
          else commit ctx started number node resp

end RadixGates.Handler
