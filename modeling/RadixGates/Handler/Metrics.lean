import RadixGates.Handler.Metered

/-!
# What the metrics of the handler count

Every attempt is counted under its node and the result it ended with, unless it
could not be sent or its status was refused.  A retry is counted under the reason
of the attempt before it, and the time to the first byte is observed exactly when a
response was flushed to the client.
-/

set_option autoImplicit false

namespace RadixGates.Handler

open RadixGates.Router (AcquireError)
open RadixGates.Settings (Reliability)

/-! ## Reading a log -/

def Item.retries? : Item → Option (Option Reason)
  | .retries reason => some reason
  | _ => none

def Item.firstByte? : Item → Option Int
  | .timeToFirstByte elapsed => some elapsed
  | _ => none

def Item.midstream? : Item → Option String
  | .midstreamFailures node => some node
  | _ => none

def Event.isFlush (e : Event) : Bool := decide (e = .flush)

def Event.isMidstream (e : Event) : Bool := decide (e = .finish .midstreamFailed)

def Event.upstream? : Event → Option Reason
  | .upstreamAttempt result => some result
  | _ => none

/-- A call on the counter of attempts, by node and result; one that has no node
would show up under the empty name. -/
def Item.upstream? : Item → Option (String × Reason)
  | .upstreamAttempts node result => some (node, result)
  | .event (.upstreamAttempt result) => some ("", result)
  | _ => none

theorem plain_filterMap {α : Type} (f : Item → Option α) (blind : ∀ e, f (.event e) = none)
    (events : List Event) : (plain events).filterMap f = [] := by
  apply List.filterMap_eq_nil_iff.mpr
  intro item member
  obtain ⟨e, _, rfl⟩ := List.mem_map.mp member
  exact blind e

theorem onNode_filterMap {α : Type} (f : Item → Option α) (blind : ∀ e, f (.event e) = none)
    (unlabelled : ∀ node result, f (.upstreamAttempts node result) = none) (node : String)
    (events : List Event) : (onNode node events).filterMap f = [] := by
  apply List.filterMap_eq_nil_iff.mpr
  intro item member
  obtain ⟨e, _, rfl⟩ := List.mem_map.mp member
  cases e with
  | upstreamAttempt result => exact unlabelled node result
  | header | writeHeader | write | flush | leaseDone | leaseRelease | finish => exact blind _

theorem onNode_upstream (node : String) (events : List Event) :
    (onNode node events).filterMap Item.upstream? =
      (events.filterMap Event.upstream?).map fun result => (node, result) := by
  induction events with
  | nil => rfl
  | cons e rest ih =>
      cases e with
      | upstreamAttempt result => exact congrArg (List.cons (node, result)) ih
      | header | writeHeader | write | flush | leaseDone | leaseRelease | finish => exact ih

theorem plain_upstream {events : List Event} (uncounted : events.filterMap Event.upstream? = []) :
    (plain events).filterMap Item.upstream? = [] := by
  apply List.filterMap_eq_nil_iff.mpr
  intro item member
  obtain ⟨e, inEvents, rfl⟩ := List.mem_map.mp member
  have unseen := List.filterMap_eq_nil_iff.mp uncounted e inEvents
  cases e with
  | upstreamAttempt result => cases unseen
  | header | writeHeader | write | flush | leaseDone | leaseRelease | finish => rfl

theorem any_of_clientOnly {events : List Event} (only : ClientOnly events) :
    events.any Event.isMidstream = false ∧ events.filterMap Event.upstream? = [] := by
  constructor
  · rw [List.any_eq_false]
    intro e member isMidstream
    have onClient := only e member
    simp only [Event.isMidstream, decide_eq_true_eq] at isMidstream
    rw [isMidstream] at onClient
    cases onClient
  · apply List.filterMap_eq_nil_iff.mpr
    intro e member
    have onClient := only e member
    cases e with
    | upstreamAttempt result => cases onClient
    | header | writeHeader | write | flush | leaseDone | leaseRelease | finish => rfl

theorem any_of_silent {events : List Event} (silent : Silent events) :
    events.any Event.isFlush = false := by
  rw [List.any_eq_false]
  intro e member isFlush
  have offClient := silent e member
  simp only [Event.isFlush, decide_eq_true_eq] at isFlush
  rw [isFlush] at offClient
  cases offClient

/-! ## One attempt -/

/-- The result that an attempt is counted under, by how it ended: not at all if
the request could not be built or the client's writer refused the status. -/
def Exit.result : Exit → Option Reason
  | .returned .outRetry .internalError => none
  | .returned _ reason => some reason
  | .panicked .abortHandler => some .midstreamError
  | .panicked _ => none

/-- What the metrics say about one attempt. -/
structure AttemptMetered (node : String) (log : List Item) (result : Attempted) : Prop where
  events : erase log = result.events
  retries : log.filterMap Item.retries? = []
  firstByte : (log.filterMap Item.firstByte?).length =
    if result.events.any Event.isFlush then 1 else 0
  midstream : log.filterMap Item.midstream? =
    if result.events.any Event.isMidstream then [node] else []
  upstream : log.filterMap Item.upstream? =
    (result.exit.result.map fun reason => (node, reason)).toList

theorem AttemptMetered.of_unflushed {node : String} (result : Attempted)
    (unflushed : result.events.any Event.isFlush = false)
    (unbroken : result.events.any Event.isMidstream = false)
    (counted : result.events.filterMap Event.upstream? = result.exit.result.toList) :
    AttemptMetered node (onNode node result.events) result where
  events := erase_onNode node result.events
  retries := onNode_filterMap _ (fun _ => rfl) (fun _ _ => rfl) _ _
  firstByte := by
    rw [onNode_filterMap _ (fun _ => rfl) (fun _ _ => rfl), unflushed]
    rfl
  midstream := by
    rw [onNode_filterMap _ (fun _ => rfl) (fun _ _ => rfl), unbroken]
    rfl
  upstream := by
    rw [onNode_upstream, counted, Option.toList_map]

theorem giveUp_metered (ctx : Ctx) (node : String) (now firesAt : Int) (reason : Reason)
    (external : reason ≠ .internalError) (reads : List (List UInt8)) :
    AttemptMetered node (onNode node (giveUp ctx now firesAt reason reads).events)
      (giveUp ctx now firesAt reason reads) := by
  unfold giveUp
  split_ifs
  · exact AttemptMetered.of_unflushed _ rfl rfl rfl
  · exact AttemptMetered.of_unflushed _ rfl rfl rfl
  · refine AttemptMetered.of_unflushed _ rfl rfl ?_
    cases reason with
    | internalError => exact absurd rfl external
    | timeout | connError | busy | http5xx | readError | canceled | ok | midstreamError => rfl

theorem headers_unflushed (resp : Response) (node : String) (number : Nat) :
    (resp.headers node number).any Event.isFlush = false := by
  unfold Response.headers
  split_ifs <;> simp [Event.isFlush]

theorem opening_unflushed (resp : Response) (node : String) (number : Nat) :
    (resp.opening node number).any Event.isFlush = false := by
  unfold Response.opening
  rw [List.any_append, List.any_append, headers_unflushed]
  split_ifs <;> simp [Event.isFlush]

theorem concludeLog_metered (ctx : Ctx) (node : String) (now : Int) (resp : Response) :
    (concludeLog ctx node now resp).filterMap Item.retries? = [] ∧
      (concludeLog ctx node now resp).filterMap Item.firstByte? = [] ∧
      (concludeLog ctx node now resp).filterMap Item.midstream? =
        (if (conclude ctx now resp).1.any Event.isMidstream then [node] else []) ∧
      (concludeLog ctx node now resp).filterMap Item.upstream? =
        ((conclude ctx now resp).2.result.map fun reason => (node, reason)).toList := by
  unfold concludeLog conclude
  cases resp.body.stop with
  | eof => exact ⟨rfl, rfl, rfl, rfl⟩
  | failed =>
      by_cases done : ctx.err now ≠ none
      · simp only [if_pos done]
        exact ⟨rfl, rfl, rfl, rfl⟩
      · by_cases sse : resp.isSSE = true
        · simp only [if_neg done, if_pos sse]
          exact ⟨rfl, rfl, rfl, rfl⟩
        · simp only [if_neg done, if_neg sse]
          exact ⟨rfl, rfl, rfl, rfl⟩

theorem flushed_filterMap {α : Type} (f : Item → Option α) (blind : ∀ e, f (.event e) = none)
    (unlabelled : ∀ node result, f (.upstreamAttempts node result) = none) (node : String)
    (opened copied : List Event) (elapsed : Int) (ending : List Item) :
    (onNode node opened ++ .event .flush :: .timeToFirstByte elapsed ::
        (onNode node copied ++ ending)).filterMap f =
      (f (.timeToFirstByte elapsed)).toList ++ ending.filterMap f := by
  have none := onNode_filterMap f blind unlabelled node
  rw [List.filterMap_append, none, List.nil_append, List.filterMap_cons_none (blind .flush),
    List.filterMap_cons, List.filterMap_append, none]
  cases f (.timeToFirstByte elapsed) <;> rfl

/-- The log of a response whose first bytes the client has taken. -/
theorem AttemptMetered.of_flushed {node : String} {opened copied : List Event} {ending : List Item}
    {result : Attempted} (elapsed : Int) (only : ClientOnly opened) (onlyCopied : ClientOnly copied)
    (events : result.events = opened ++ .flush :: (copied ++ erase ending))
    (idle : ending.filterMap Item.retries? = [] ∧ ending.filterMap Item.firstByte? = [])
    (midstream : ending.filterMap Item.midstream? =
      if (erase ending).any Event.isMidstream then [node] else [])
    (upstream : ending.filterMap Item.upstream? =
      (result.exit.result.map fun reason => (node, reason)).toList) :
    AttemptMetered node
      (onNode node opened ++ .event .flush :: .timeToFirstByte elapsed ::
        (onNode node copied ++ ending)) result where
  events := by
    rw [events]
    simp [Item.event?]
  retries := by
    rw [flushed_filterMap _ (fun _ => rfl) (fun _ _ => rfl), idle.1]
    rfl
  firstByte := by
    rw [flushed_filterMap _ (fun _ => rfl) (fun _ _ => rfl), idle.2, events]
    simp [Item.firstByte?, Event.isFlush]
  midstream := by
    have before := (any_of_clientOnly only).1
    have between := (any_of_clientOnly onlyCopied).1
    rw [flushed_filterMap _ (fun _ => rfl) (fun _ _ => rfl), midstream, events]
    simp only [List.any_append, List.any_cons, before, between, Bool.false_or]
    rfl
  upstream := by
    have before := (any_of_clientOnly only).2
    have between := (any_of_clientOnly onlyCopied).2
    rw [List.filterMap_append, onNode_upstream, before, List.map_nil, List.nil_append,
      List.filterMap_cons_none rfl, List.filterMap_cons_none rfl, List.filterMap_append,
      onNode_upstream, between, List.map_nil, List.nil_append, upstream]

theorem cancelled_metered (node : String) :
    ((onNode node cancelled).filterMap Item.retries? = [] ∧
        (onNode node cancelled).filterMap Item.firstByte? = []) ∧
      (onNode node cancelled).filterMap Item.midstream? =
        (if (erase (onNode node cancelled)).any Event.isMidstream then [node] else []) ∧
      (onNode node cancelled).filterMap Item.upstream? = [(node, .canceled)] :=
  ⟨⟨rfl, rfl⟩, rfl, rfl⟩

theorem commitLog_eq (ctx : Ctx) (arrived : Int) (node : String) (now : Int) (number : Nat)
    (resp : Response) (valid : ¬ (resp.status < 100 ∨ 999 < resp.status)) :
    commitLog ctx arrived node now number resp =
      if resp.body.first.data ≠ [] ∧ !resp.body.first.accepted then
        onNode node (resp.opening node number ++ cancelled)
      else
        let copied := copyLoop (now + resp.body.first.handing) resp.body.rest
        onNode node (resp.opening node number) ++
          .event .flush :: .timeToFirstByte (now + resp.body.first.handing - arrived) ::
          (onNode node copied.events ++
            if copied.refused then onNode node cancelled
            else concludeLog ctx node copied.now resp) := by
  simp only [commitLog, if_neg valid, Response.opening]

theorem commit_metered (ctx : Ctx) (arrived : Int) (node : String) (now : Int) (number : Nat)
    (resp : Response) :
    AttemptMetered node (commitLog ctx arrived node now number resp)
      (commit ctx now number node resp) := by
  by_cases invalid : resp.status < 100 ∨ 999 < resp.status
  · have only := any_of_clientOnly (headers_clientOnly resp node number)
    simp only [commitLog, commit, if_pos invalid]
    exact AttemptMetered.of_unflushed ⟨now, resp.headers node number, .panicked .invalidCode,
      [resp.body.first.data]⟩ (headers_unflushed resp node number) only.1 only.2
  have opened := opening_clientOnly resp node number
  have copied := copyLoop_clientOnly (now + resp.body.first.handing) resp.body.rest
  rw [commit_eq ctx now number node resp invalid, commitLog_eq ctx arrived node now number resp
    invalid]
  dsimp only
  split_ifs with refused stopped
  · have only := any_of_clientOnly opened
    refine AttemptMetered.of_unflushed ⟨_, resp.opening node number ++ cancelled,
      .returned .outAbort .canceled, [resp.body.first.data]⟩ ?_ ?_ ?_
    · rw [List.any_append, opening_unflushed]
      rfl
    · rw [List.any_append, only.1]
      rfl
    · rw [List.filterMap_append, only.2]
      rfl
  · obtain ⟨idle, midstream, upstream⟩ := cancelled_metered node
    exact AttemptMetered.of_flushed _ opened copied (by simp) idle midstream upstream
  · obtain ⟨retries, firstByte, midstream, upstream⟩ := concludeLog_metered ctx node
      (copyLoop (now + resp.body.first.handing) resp.body.rest).now resp
    rw [← concludeLog_erase ctx node] at midstream
    refine AttemptMetered.of_flushed _ opened copied ?_ ⟨retries, firstByte⟩ midstream upstream
    simp [concludeLog_erase]

theorem attempt_metered (rel : Reliability) (ctx : Ctx) (stream : Bool) (arrived now : Int)
    (number : Nat) (node : String) (requestFails : Bool) (upstream : Upstream) :
    AttemptMetered node (attemptLog ctx arrived node rel stream now number requestFails upstream)
      (attempt rel ctx stream now number node requestFails upstream) := by
  unfold attemptLog attempt
  dsimp only
  split_ifs with fails
  · exact AttemptMetered.of_unflushed ⟨now, [.leaseRelease], _, []⟩ rfl rfl rfl
  · cases upstream.response with
    | none => exact giveUp_metered ctx node _ _ .connError (by simp) []
    | some resp =>
        dsimp only
        split_ifs with busy broken empty
        · exact AttemptMetered.of_unflushed ⟨_, [.leaseRelease, .upstreamAttempt .busy],
            .returned .outRetry .busy, []⟩ rfl rfl rfl
        · exact AttemptMetered.of_unflushed (fail _ .http5xx []) rfl rfl rfl
        · exact giveUp_metered ctx node _ _ .readError (by simp) _
        · exact commit_metered ctx arrived node _ number resp

/-! ## The attempts of a request -/

def Record.reason (r : Record) : Option Reason :=
  match r.result.exit with
  | .returned _ reason => some reason
  | .panicked _ => none

def Record.flushed (r : Record) : Bool := r.result.events.any Event.isFlush

def Record.interrupted (r : Record) : Bool := r.result.events.any Event.isMidstream

/-- The labels an attempt is counted under. -/
def Record.counted (r : Record) : Option (String × Reason) :=
  r.result.exit.result.map fun reason => (r.node, reason)

/-- The calls are those of the attempts and the reply. -/
structure Metered (log : List Item) (run : Served) : Prop where
  events : erase log = run.events
  retries : log.filterMap Item.retries? = run.records.dropLast.map Record.reason
  firstByte : (log.filterMap Item.firstByte?).length = run.records.countP Record.flushed
  midstream : log.filterMap Item.midstream? =
    (run.records.filter Record.interrupted).map Record.node
  upstream : log.filterMap Item.upstream? = run.records.filterMap Record.counted

/-- The attempts so far, as if the request ended without a reply. -/
def Served.sofar (records : List Record) : Served := ⟨records, [], none⟩

theorem sofar_events (records : List Record) : (Served.sofar records).events = eventsOf records :=
  List.append_nil _

theorem metered_nil : Metered [] (Served.sofar []) := ⟨rfl, rfl, rfl, rfl, rfl⟩

theorem Metered.wait {log : List Item} {run : Served} (metered : Metered log run)
    (waited : Int) : Metered (log ++ [.queueWait waited]) run where
  events := by simp [metered.events, Item.event?]
  retries := by simp [List.filterMap_append, metered.retries, Item.retries?]
  firstByte := by simp [List.filterMap_append, metered.firstByte, Item.firstByte?]
  midstream := by simp [List.filterMap_append, metered.midstream, Item.midstream?]
  upstream := by simp [List.filterMap_append, metered.upstream, Item.upstream?]

theorem map_dropLast_snoc (records : List Record) :
    records.map Record.reason = records.dropLast.map Record.reason ++
      (records.getLast?.map Record.reason).toList := by
  rcases List.eq_nil_or_concat records with rfl | ⟨earlier, last, rfl⟩
  · rfl
  · simp

theorem Metered.attempt {log made : List Item} {records : List Record} {r : Record}
    (metered : Metered log (Served.sofar records))
    (attempted : AttemptMetered r.node made r.result) (retried : List Item)
    (reasons : retried = (records.getLast?.map fun last => Item.retries last.reason).toList) :
    Metered (log ++ retried ++ made) (Served.sofar (records ++ [r])) := by
  have blind : ∀ {α : Type} (f : Item → Option α), (∀ reason, f (.retries reason) = none) →
      retried.filterMap f = [] := by
    intro α f none
    rw [reasons]
    cases records.getLast? <;> simp [none]
  constructor
  · rw [erase_append, erase_append, metered.events, sofar_events, sofar_events, eventsOf_append,
      eventsOf_singleton, attempted.events,
      show erase retried = [] from blind Item.event? fun _ => rfl, List.append_nil]
  · rw [List.filterMap_append, List.filterMap_append, metered.retries, attempted.retries,
      List.append_nil, reasons]
    simp only [Served.sofar, List.dropLast_concat]
    rw [map_dropLast_snoc records]
    cases records.getLast? <;> rfl
  · rw [List.filterMap_append, List.filterMap_append, blind Item.firstByte? fun _ => rfl,
      List.append_nil, List.length_append, metered.firstByte, attempted.firstByte]
    simp only [Served.sofar, List.countP_append, List.countP_singleton]
    rfl
  · rw [List.filterMap_append, List.filterMap_append, blind Item.midstream? fun _ => rfl,
      List.append_nil, metered.midstream, attempted.midstream]
    simp only [Served.sofar, List.filter_append, List.map_append]
    congr 1
    cases broken : r.result.events.any Event.isMidstream <;>
      simp [Record.interrupted, broken]
  · rw [List.filterMap_append, List.filterMap_append, blind Item.upstream? fun _ => rfl,
      List.append_nil, metered.upstream, attempted.upstream]
    simp only [Served.sofar, List.filterMap_append]
    rfl

theorem Metered.reply {log : List Item} {records : List Record}
    (metered : Metered log (Served.sofar records)) (reply : List Event) (panic : Option Panic)
    (uncounted : reply.filterMap Event.upstream? = []) :
    Metered (log ++ plain reply) ⟨records, reply, panic⟩ where
  events := by
    rw [erase_append, metered.events, sofar_events, erase_plain]
    rfl
  retries := by
    rw [List.filterMap_append, plain_filterMap _ (fun _ => rfl), List.append_nil, metered.retries]
    rfl
  firstByte := by
    rw [List.filterMap_append, plain_filterMap _ (fun _ => rfl), List.append_nil, metered.firstByte]
    rfl
  midstream := by
    rw [List.filterMap_append, plain_filterMap _ (fun _ => rfl), List.append_nil, metered.midstream]
    rfl
  upstream := by
    rw [List.filterMap_append, plain_upstream uncounted, List.append_nil, metered.upstream]
    rfl

/-! ## Replies -/

theorem rejectAcquire_uncounted (err : AcquireError) (attempt : Nat) :
    (rejectAcquire err attempt).filterMap Event.upstream? = [] := by
  unfold rejectAcquire
  cases err with
  | noNode =>
      dsimp only
      split_ifs <;> rfl
  | ctx cause => cases cause <;> rfl
  | queueFull | queueTimeout => rfl

theorem abortReply_uncounted (ctx : Ctx) (now : Int) (wrote : Bool) :
    (abortReply ctx now wrote).filterMap Event.upstream? = [] := by
  unfold abortReply
  split_ifs <;> rfl

/-! ## Iterations -/

/-- The retry counter at the head of an attempt. -/
def Loop.retriesLog (s : Loop) : List Item :=
  if 1 < s.attempt then [.retries s.lastReason] else []

/-- What an iteration logs on its way to this. -/
inductive Logged (s : Loop) : Loop ⊕ Served → List Item → Prop where
  | refused (waited : Int) (err : AcquireError) :
      Logged s (.inr ⟨s.records, rejectAcquire err s.attempt, none⟩)
        (.queueWait waited :: plain (rejectAcquire err s.attempt))
  | ended (waited : Int) (made : Record) (log : List Item)
      (attempted : AttemptMetered made.node log made.result) (reply : List Event)
      (panic : Option Panic) (uncounted : reply.filterMap Event.upstream? = []) :
      Logged s (.inr ⟨s.records ++ [made], reply, panic⟩)
        (.queueWait waited :: s.retriesLog ++ log ++ plain reply)
  | again (waited : Int) (made : Record) (log : List Item)
      (attempted : AttemptMetered made.node log made.result) (reason : Reason) (now : Int)
      (exit : made.result.exit = .returned .outRetry reason) :
      Logged s (.inl (s.after made reason now)) (.queueWait waited :: s.retriesLog ++ log)

section
variable (rel : Reliability) (ctx : Ctx) (stream : Bool) (script : Nat → Turn) (arrived : Int)

theorem retry_logged (s : Loop) (waited : Int) (made : Record) (log : List Item)
    (attempted : AttemptMetered made.node log made.result) (reason : Reason)
    (exit : made.result.exit = .returned .outRetry reason) :
    Logged s (s.retry rel ctx script made reason)
      (match s.retry rel ctx script made reason with
        | .inl _ => .queueWait waited :: s.retriesLog ++ log
        | .inr run => .queueWait waited :: s.retriesLog ++ log ++ plain run.reply) := by
  unfold Loop.retry
  dsimp only
  split_ifs with more
  · cases backoff rel s.attempt (script s.attempt).jitter with
    | none => exact .ended waited made log attempted [] (some .int63n) rfl
    | some d =>
        dsimp only
        split_ifs
        · exact .again waited made log attempted reason _ exit
        · exact .ended waited made log attempted [.finish .cancelled] none rfl
  · exact .again waited made log attempted reason _ exit

theorem iterateLog_logged (s : Loop) :
    Logged s (s.iterate rel ctx stream script) (s.iterateLog rel ctx stream script arrived).1 := by
  unfold Loop.iterate Loop.iterateLog
  generalize Handler.acquire ctx s.now ((script s.attempt).acquire s.exclude) = got
  obtain ⟨started, answer⟩ := got
  cases answer with
  | error err => exact .refused _ err
  | ok node =>
      have attempted : AttemptMetered (s.attemptOn rel ctx stream script started node).node
          (s.attemptLog rel ctx stream script arrived started node)
          (s.attemptOn rel ctx stream script started node).result :=
        attempt_metered rel ctx stream arrived started s.attempt node _ _
      dsimp only
      generalize s.attemptOn rel ctx stream script started node = made at attempted ⊢
      generalize s.attemptLog rel ctx stream script arrived started node = log at attempted ⊢
      cases exit : made.result.exit with
      | panicked panic =>
          simpa [plain, Loop.retriesLog] using
            Logged.ended (started - s.now) made log attempted [] (some panic) rfl
      | returned outcome reason =>
          cases outcome with
          | outDone =>
              simpa [plain, Loop.retriesLog] using
                Logged.ended (started - s.now) made log attempted [] none rfl
          | outAbort =>
              exact .ended (started - s.now) made log attempted _ none (abortReply_uncounted _ _ _)
          | outRetry =>
              have logged := retry_logged rel ctx script s (started - s.now) made log attempted
                reason exit
              dsimp only
              cases after : s.retry rel ctx script made reason with
              | inl next =>
                  rw [after] at logged
                  exact logged
              | inr run =>
                  rw [after] at logged
                  exact logged

/-! ## The loop -/

/-- The loop knows how many attempts there were and how the last one failed. -/
structure Loop.Recalls (s : Loop) : Prop where
  numbered : s.attempt = s.records.length + 1
  lastReason : s.lastReason = s.records.getLast?.bind Record.reason

theorem Loop.Recalls.retriesLog {s : Loop} (recalls : s.Recalls) :
    s.retriesLog = (s.records.getLast?.map fun last => Item.retries last.reason).toList := by
  unfold Loop.retriesLog
  rw [recalls.numbered, recalls.lastReason]
  rcases List.eq_nil_or_concat s.records with none | ⟨earlier, last, more⟩
  · simp [none]
  · simp [more]

theorem Loop.Recalls.after {s : Loop} (recalls : s.Recalls) {made : Record} {reason : Reason}
    (exit : made.result.exit = .returned .outRetry reason) (now : Int) :
    (s.after made reason now).Recalls where
  numbered := by simp [Loop.after, recalls.numbered]
  lastReason := by simp [Loop.after, Record.reason, exit]

theorem runLog_metered (left : Nat) (s : Loop) (log : List Item) (recalls : s.Recalls)
    (metered : Metered log (Served.sofar s.records)) :
    Metered (log ++ (Loop.runLog rel ctx stream script arrived left s).1)
      (Loop.run rel ctx stream script left s) := by
  induction left generalizing s log with
  | zero => exact metered.reply _ none rfl
  | succ left ih =>
      have logged := iterateLog_logged rel ctx stream script arrived s
      have first := fun waited => metered.wait waited
      simp only [Loop.runLog, Loop.run]
      generalize (s.iterateLog rel ctx stream script arrived) = turn at logged ⊢
      obtain ⟨items, ends⟩ := turn
      dsimp only at logged
      generalize s.iterate rel ctx stream script = after at logged ⊢
      cases logged with
      | refused waited err =>
          have replied := (first waited).reply _ none (rejectAcquire_uncounted err s.attempt)
          simpa using replied
      | ended waited made items attempted reply panic uncounted =>
          have replied := ((first waited).attempt attempted _ recalls.retriesLog).reply reply panic
            uncounted
          simpa using replied
      | again waited made items attempted reason now exit =>
          have later := ih (s.after made reason now) _ (recalls.after exit now)
            ((first waited).attempt attempted _ recalls.retriesLog)
          simpa using later

end

/-! ## The request -/

theorem enclosed_filterMap {α : Type} (f : Item → Option α)
    (blind : ∀ delta elapsed, f (.active delta) = none ∧ f (.requestDuration elapsed) = none)
    (log : List Item) (elapsed : Int) :
    (Item.active 1 :: log ++ [Item.active (-1), Item.requestDuration elapsed]).filterMap f =
      log.filterMap f := by
  rw [List.filterMap_append, List.filterMap_cons_none (blind 1 0).1,
    List.filterMap_cons_none (blind (-1) 0).1, List.filterMap_cons_none (blind 0 elapsed).2]
  exact List.append_nil _

theorem Metered.enclosed {log : List Item} {run : Served} (metered : Metered log run)
    (elapsed : Int) :
    Metered (.active 1 :: log ++ [.active (-1), .requestDuration elapsed]) run where
  events := by simp [metered.events, Item.event?]
  retries := by
    rw [enclosed_filterMap _ (fun _ _ => ⟨rfl, rfl⟩), metered.retries]
  firstByte := by
    rw [enclosed_filterMap _ (fun _ _ => ⟨rfl, rfl⟩), metered.firstByte]
  midstream := by
    rw [enclosed_filterMap _ (fun _ _ => ⟨rfl, rfl⟩), metered.midstream]
  upstream := by
    rw [enclosed_filterMap _ (fun _ _ => ⟨rfl, rfl⟩), metered.upstream]

theorem serveLog_metered (h : DirectChatHandler) (req : Incoming) (arrived start : Int)
    (clientGone : Option Int) (script : Nat → Turn) :
    Metered (serveLog h req arrived start clientGone script)
      (serveHTTP h req start clientGone script) := by
  have refused : ∀ text,
      Metered ([] ++ plain (badRequest text).reply) (badRequest text) :=
    fun text => metered_nil.reply _ none rfl
  unfold serveLog serveHTTP
  split_ifs with other
  · exact metered_nil.reply (httpError "method not allowed" 405) none rfl
  · apply Metered.enclosed
    cases req.parsed with
    | unreadable | badMessages | unforwardable => exact refused _
    | accepted stream =>
        exact runLog_metered h.init (h.ctx start clientGone) stream script arrived _ _ []
          ⟨rfl, rfl⟩ metered_nil

theorem flushed_at_most_once (h : DirectChatHandler) (req : Incoming) (start : Int)
    (clientGone : Option Int) (script : Nat → Turn) :
    (serveHTTP h req start clientGone script).records.countP Record.flushed ≤ 1 := by
  rcases List.eq_nil_or_concat (serveHTTP h req start clientGone script).records with
    none | ⟨earlier, last, records⟩
  · simp [none]
  · obtain ⟨retried, _⟩ := serveHTTP_last h req start clientGone script earlier last
      (by simpa using records)
    have silent : earlier.countP Record.flushed = 0 := by
      rw [List.countP_eq_zero]
      intro r member flushed
      rw [Record.flushed, any_of_silent (retried r member).2] at flushed
      cases flushed
    rw [records, List.concat_eq_append, List.countP_append, silent, List.countP_singleton]
    split <;> omega

end RadixGates.Handler
