import RadixGates.Handler.Charges

/-!
# The metrics of the handler

`ServeHTTP` and `attempt` again, with the calls on the metrics that the model of
the handler leaves out, each in its place: `radixgates_active_requests`,
`radixgates_request_duration_seconds`, `radixgates_queue_wait_seconds`,
`radixgates_retries_total`, `radixgates_time_to_first_byte_seconds` and
`radixgates_midstream_failures_total`; and with the node of each call on
`radixgates_upstream_attempts_total`.  Without these the log is the list of events
of the handler.
-/

set_option autoImplicit false

namespace RadixGates.Handler

open RadixGates.Settings (Reliability)

inductive Item where
  /-- What the handler does without the metrics below. -/
  | event (e : Event)
  | upstreamAttempts (node : String) (result : Reason)
  /-- `ActiveRequests`, by one up or down. -/
  | active (delta : Int)
  | requestDuration (elapsed : Int)
  | queueWait (elapsed : Int)
  | retries (reason : Option Reason)
  | timeToFirstByte (elapsed : Int)
  | midstreamFailures (node : String)
  deriving DecidableEq, Repr

def Item.event? : Item → Option Event
  | .event e => some e
  | .upstreamAttempts _ result => some (.upstreamAttempt result)
  | _ => none

def plain (events : List Event) : List Item := events.map Item.event

/-- What an attempt on this node does. -/
def Item.of (node : String) : Event → Item
  | .upstreamAttempt result => .upstreamAttempts node result
  | e => .event e

def onNode (node : String) (events : List Event) : List Item := events.map (Item.of node)

def erase (log : List Item) : List Event := log.filterMap Item.event?

/-! ## The attempt -/

section
variable (ctx : Ctx) (arrived : Int) (node : String)

def concludeLog (now : Int) (resp : Response) : List Item :=
  match resp.body.stop with
  | .eof => onNode node [.leaseDone true, .upstreamAttempt .ok, .finish .directOk]
  | .failed =>
      if ctx.err now ≠ none then onNode node cancelled
      else
        onNode node [.leaseDone false, .upstreamAttempt .midstreamError] ++
          .midstreamFailures node :: .event (.finish .midstreamFailed) ::
          if resp.isSSE then onNode node [.write interruptedEvent, .flush] else []

def commitLog (now : Int) (number : Nat) (resp : Response) : List Item :=
  let first := resp.body.first
  let headers := resp.headers node number
  if resp.status < 100 ∨ 999 < resp.status then onNode node headers
  else
    let opened := headers ++ [.writeHeader resp.status] ++
      if first.data = [] then [] else [.write first.data]
    if first.data ≠ [] ∧ !first.accepted then onNode node (opened ++ cancelled)
    else
      let copied := copyLoop (now + first.handing) resp.body.rest
      onNode node opened ++
        .event .flush :: .timeToFirstByte (now + first.handing - arrived) ::
        (onNode node copied.events ++
          if copied.refused then onNode node cancelled else concludeLog ctx node copied.now resp)

def attemptLog (rel : Reliability) (stream : Bool) (now : Int) (number : Nat)
    (requestFails : Bool) (upstream : Upstream) : List Item :=
  let firesAt := now + firstByte rel stream
  if requestFails then onNode node [.leaseRelease]
  else
    let answered := now + upstream.elapsed
    match upstream.response with
    | none => onNode node (giveUp ctx answered firesAt .connError []).events
    | some resp =>
        if resp.status = 429 then onNode node [.leaseRelease, .upstreamAttempt .busy]
        else if 500 ≤ resp.status ∧ resp.status ≠ 501 then
          onNode node (fail (answered + upstream.draining) .http5xx []).events
        else
          let first := resp.body.first
          let started := answered + first.elapsed
          if first.data = [] ∧ resp.body.rest = [] ∧ resp.body.stop = .failed then
            onNode node (giveUp ctx started firesAt .readError [first.data]).events
          else commitLog ctx arrived node started number resp

end

/-! ## The loop -/

section
variable (rel : Reliability) (ctx : Ctx) (stream : Bool) (script : Nat → Turn) (arrived : Int)

def Loop.attemptLog (s : Loop) (started : Int) (node : String) : List Item :=
  Handler.attemptLog ctx arrived node rel stream started s.attempt
    (script s.attempt).requestFails (script s.attempt).upstream

/-- One iteration: what it logs, and when it ends if the request ends with it. -/
def Loop.iterateLog (s : Loop) : List Item × Int :=
  let got := Handler.acquire ctx s.now ((script s.attempt).acquire s.exclude)
  let waited := Item.queueWait (got.1 - s.now)
  match got.2 with
  | .error err => (waited :: plain (rejectAcquire err s.attempt), got.1)
  | .ok node =>
      let made := s.attemptOn rel ctx stream script got.1 node
      let log := waited :: (if 1 < s.attempt then [.retries s.lastReason] else []) ++
        s.attemptLog rel ctx stream script arrived got.1 node
      match made.result.exit with
      | .panicked _ | .returned .outDone _ => (log, made.result.now)
      | .returned .outAbort _ =>
          (log ++ plain (abortReply ctx made.result.now
            ((eventsOf (s.records ++ [made])).any Event.sends)), made.result.now)
      | .returned .outRetry reason =>
          match s.retry rel ctx script made reason with
          | .inl _ => (log, made.result.now)
          | .inr run =>
              (log ++ plain run.reply,
                match backoff rel s.attempt (script s.attempt).jitter with
                | none => made.result.now
                | some d => (sleepCtx ctx made.result.now d (script s.attempt).sleep).1)

def Loop.runLog : Nat → Loop → List Item × Int
  | 0, s => (plain (allFailed rel.maxAttempts s.lastReason), s.now)
  | left + 1, s =>
      let turn := s.iterateLog rel ctx stream script arrived
      match s.iterate rel ctx stream script with
      | .inl next =>
          let later := Loop.runLog left next
          (turn.1 ++ later.1, later.2)
      | .inr _ => turn

end

/-! ## The request -/

/-- `ServeHTTP` of a request that came in at `arrived`; the overall timeout
starts at `start`, once the body was read. -/
def serveLog (h : DirectChatHandler) (req : Incoming) (arrived start : Int)
    (clientGone : Option Int) (script : Nat → Turn) : List Item :=
  if req.method ≠ "POST" then plain (httpError "method not allowed" 405)
  else
    let log := match req.parsed with
      | .unreadable => (plain (badRequest "request body is invalid or exceeds 4 MiB").reply, start)
      | .badMessages => (plain (badRequest "missing or invalid 'messages' field").reply, start)
      | .unforwardable => (plain (badRequest "request body could not be forwarded").reply, start)
      | .accepted stream =>
          Loop.runLog h.init (h.ctx start clientGone) stream script arrived
            h.init.maxAttempts.toNat (Loop.start start)
    .active 1 :: log.1 ++ [.active (-1), .requestDuration (log.2 - arrived)]

/-! ## Without the metrics -/

@[simp] theorem erase_nil : erase [] = [] := rfl

@[simp] theorem erase_append (xs ys : List Item) : erase (xs ++ ys) = erase xs ++ erase ys :=
  List.filterMap_append

@[simp] theorem erase_cons (item : Item) (rest : List Item) :
    erase (item :: rest) = item.event?.toList ++ erase rest := by
  cases item <;> rfl

@[simp] theorem erase_plain (events : List Event) : erase (plain events) = events := by
  induction events with
  | nil => rfl
  | cons e rest ih => simpa [plain, erase, Item.event?] using ih

@[simp] theorem erase_onNode (node : String) (events : List Event) :
    erase (onNode node events) = events := by
  induction events with
  | nil => rfl
  | cons e rest ih => cases e <;> simpa [onNode, erase, Item.of, Item.event?] using ih

theorem concludeLog_erase (ctx : Ctx) (node : String) (now : Int) (resp : Response) :
    erase (concludeLog ctx node now resp) = (conclude ctx now resp).1 := by
  unfold concludeLog conclude
  cases resp.body.stop with
  | eof => simp
  | failed =>
      dsimp only
      split_ifs <;> simp [Item.event?]

end RadixGates.Handler
