import Mathlib.Tactic.Common
import RadixGates.Handler.Serve

/-!
# What an attempt and an iteration can do

One inversion lemma for each function of the handler, and from them what a
whole request looks like: attempts that were retried, then possibly one that
was not.
-/

set_option autoImplicit false

namespace RadixGates.Handler

open RadixGates.Router (AcquireError)
open RadixGates.Settings (Reliability)

/-! ## Reading a list of events -/

@[simp] theorem bodyOf_nil : bodyOf [] = [] := rfl

@[simp] theorem bodyOf_cons (e : Event) (rest : List Event) :
    bodyOf (e :: rest) = e.bytes ++ bodyOf rest := rfl

@[simp] theorem bodyOf_append (xs ys : List Event) : bodyOf (xs ++ ys) = bodyOf xs ++ bodyOf ys :=
  List.flatMap_append

@[simp] theorem statuses_nil : statuses [] = [] := rfl

@[simp] theorem statuses_cons (e : Event) (rest : List Event) :
    statuses (e :: rest) = e.status.toList ++ statuses rest := by
  cases e <;> rfl

@[simp] theorem statuses_append (xs ys : List Event) :
    statuses (xs ++ ys) = statuses xs ++ statuses ys :=
  List.filterMap_append

attribute [simp] Event.bytes Event.status

def Event.onClient : Event → Bool
  | .header _ _ | .writeHeader _ | .write _ | .flush => true
  | _ => false

def Silent (events : List Event) : Prop := ∀ e ∈ events, e.onClient = false

theorem Silent.bodyOf {events : List Event} (silent : Silent events) :
    Handler.bodyOf events = [] := by
  apply List.flatMap_eq_nil_iff.mpr
  intro e member
  have quiet := silent e member
  cases e <;> first | rfl | cases quiet

theorem Silent.statuses {events : List Event} (silent : Silent events) :
    Handler.statuses events = [] := by
  apply List.filterMap_eq_nil_iff.mpr
  intro e member
  have quiet := silent e member
  cases e <;> first | rfl | cases quiet

theorem Silent.sends {events : List Event} (silent : Silent events) :
    events.any Event.sends = false := by
  apply List.any_eq_false.mpr
  intro e member
  have quiet := silent e member
  cases e <;> simp_all [Event.onClient, Event.sends]

/-- Nothing but calls on the client's writer. -/
def ClientOnly (events : List Event) : Prop := ∀ e ∈ events, e.onClient = true

theorem ClientOnly.append {xs ys : List Event} (first : ClientOnly xs) (second : ClientOnly ys) :
    ClientOnly (xs ++ ys) := by
  intro e member
  rcases List.mem_append.mp member with member | member
  · exact first e member
  · exact second e member

/-! ## The context -/

theorem Ctx.err_none (ctx : Ctx) (now : Int) : ctx.err now = none ↔ now < ctx.doneAt := by
  unfold Ctx.err
  split <;> simp <;> omega

theorem Ctx.err_later (ctx : Ctx) (now later : Int) (done : ctx.err now ≠ none)
    (after : now ≤ later) : ctx.err later = some ctx.cause := by
  rw [ne_eq, ctx.err_none] at done
  unfold Ctx.err
  rw [if_pos (by omega)]

/-! ## One attempt -/

inductive Tried (ctx : Ctx) (now : Int) (number : Nat) (node : String) (upstream : Upstream) :
    Attempted → Prop where
  | retry (result : Attempted) (reason : Reason)
      (exit : result.exit = .returned .outRetry reason) (silent : Silent result.events)
      (later : now ≤ result.now) : Tried ctx now number node upstream result
  | abort (later : Int) (reads : List (List UInt8)) (done : ctx.err later ≠ none)
      (after : now ≤ later) : Tried ctx now number node upstream (abort later reads)
  | commit (resp : Response) (answered : upstream.response = some resp)
      (forwarded : ¬ (resp.body.first.data = [] ∧ resp.body.rest = [] ∧
        resp.body.stop = .failed)) :
      Tried ctx now number node upstream
        (commit ctx (now + upstream.elapsed + resp.body.first.elapsed) number node resp)

theorem fail_silent (now : Int) (reason : Reason) (reads : List (List UInt8)) :
    Silent (fail now reason reads).events := by
  simp [Silent, fail, Event.onClient]

theorem abort_silent (now : Int) (reads : List (List UInt8)) :
    Silent (abort now reads).events := by
  simp [Silent, abort, Event.onClient]

theorem giveUp_tried (ctx : Ctx) (now later firesAt : Int) (number : Nat) (node : String)
    (upstream : Upstream) (reason : Reason) (reads : List (List UInt8)) (after : now ≤ later) :
    Tried ctx now number node upstream (giveUp ctx later firesAt reason reads) := by
  unfold giveUp
  split_ifs with done fired
  · exact Tried.abort later reads done after
  · exact Tried.retry _ _ rfl (fail_silent _ _ _) after
  · exact Tried.retry _ _ rfl (fail_silent _ _ _) after

theorem attempt_tried (rel : Reliability) (ctx : Ctx) (stream : Bool) (now : Int) (number : Nat)
    (node : String) (requestFails : Bool) (upstream : Upstream) :
    Tried ctx now number node upstream
      (attempt rel ctx stream now number node requestFails upstream) := by
  simp only [attempt]
  split
  · exact Tried.retry _ _ rfl (by simp [Silent, Event.onClient]) le_rfl
  · split
    · exact giveUp_tried ctx now _ _ number node upstream _ _ (by omega)
    · rename_i resp answered
      split_ifs with busy broken empty
      · apply Tried.retry _ _ rfl (by simp [Silent, Event.onClient])
        dsimp only
        omega
      · apply Tried.retry _ _ rfl (fail_silent _ _ _)
        simp only [fail]
        omega
      · exact giveUp_tried ctx now _ _ number node upstream _ _ (by omega)
      · exact Tried.commit resp answered empty

/-! ## After the commit point -/

theorem copyLoop_body (now : Int) (reads : List Read) :
    bodyOf (copyLoop now reads).events = (copyLoop now reads).reads.flatten := by
  induction reads generalizing now with
  | nil => rfl
  | cons read rest ih =>
      simp only [copyLoop]
      split_ifs with empty accepted
      · simpa [empty] using ih _
      · simpa using ih _
      · simp

theorem copyLoop_reads (now : Int) (reads : List Read) :
    (copyLoop now reads).reads <+: reads.map Read.data := by
  induction reads generalizing now with
  | nil => exact List.prefix_refl _
  | cons read rest ih =>
      simp only [copyLoop, List.map_cons]
      split_ifs with empty accepted
      · exact (List.prefix_cons_inj _).mpr (ih _)
      · exact (List.prefix_cons_inj _).mpr (ih _)
      · exact (List.prefix_cons_inj _).mpr List.nil_prefix

theorem copyLoop_events (now : Int) (reads : List Read) :
    ∀ e ∈ (copyLoop now reads).events, e = .flush ∨ ∃ bytes, e = .write bytes := by
  induction reads generalizing now with
  | nil => simp [copyLoop]
  | cons read rest ih =>
      simp only [copyLoop]
      split_ifs with empty accepted
      · exact ih _
      · intro e member
        rcases List.mem_cons.mp member with rfl | member
        · exact Or.inr ⟨_, rfl⟩
        · rcases List.mem_cons.mp member with rfl | member
          · exact Or.inl rfl
          · exact ih _ e member
      · intro e member
        exact Or.inr ⟨_, List.mem_singleton.mp member⟩

def TakesAll (reads : List Read) : Prop := ∀ read ∈ reads, read.data ≠ [] → read.accepted = true

theorem TakesAll.first {body : Body} (takes : TakesAll body.reads) :
    ¬ (body.first.data ≠ [] ∧ (!body.first.accepted) = true) := by
  rintro ⟨nonempty, refused⟩
  rw [takes body.first List.mem_cons_self nonempty] at refused
  cases refused

theorem TakesAll.rest {body : Body} (takes : TakesAll body.reads) : TakesAll body.rest :=
  fun read member => takes read (List.mem_cons_of_mem _ member)

def duration (reads : List Read) : Nat := (reads.map fun read => read.elapsed + read.handing).sum

theorem copyLoop_takesAll (now : Int) (reads : List Read) (takes : TakesAll reads) :
    (copyLoop now reads).refused = false ∧
      (copyLoop now reads).now = now + duration reads ∧
      (copyLoop now reads).reads = reads.map Read.data := by
  induction reads generalizing now with
  | nil => simp [copyLoop, duration]
  | cons read rest ih =>
      have later := fun t => ih t fun next member => takes next (List.mem_cons_of_mem read member)
      simp only [copyLoop]
      split_ifs with empty accepted
      · obtain ⟨refused, ended, forwarded⟩ := later (now + read.elapsed)
        refine ⟨refused, ?_, ?_⟩
        · simp only [ended, duration, List.map_cons, List.sum_cons, Read.handing, empty]
          simp
          omega
        · simp [forwarded]
      · obtain ⟨refused, ended, forwarded⟩ := later (now + read.elapsed + read.writing)
        refine ⟨refused, ?_, ?_⟩
        · simp only [ended, duration, List.map_cons, List.sum_cons, Read.handing, empty, if_false]
          push_cast
          omega
        · simp [forwarded]
      · exact absurd (takes read List.mem_cons_self empty) accepted

theorem headers_body (resp : Response) (node : String) (number : Nat) :
    bodyOf (resp.headers node number) = [] := by
  unfold Response.headers
  split <;> split <;> rfl

theorem headers_statuses (resp : Response) (node : String) (number : Nat) :
    statuses (resp.headers node number) = [] := by
  unfold Response.headers
  split <;> split <;> rfl

theorem headers_clientOnly (resp : Response) (node : String) (number : Nat) :
    ClientOnly (resp.headers node number) := by
  unfold Response.headers ClientOnly
  split <;> split <;> simp [Event.onClient]

theorem copyLoop_clientOnly (now : Int) (reads : List Read) :
    ClientOnly (copyLoop now reads).events := by
  intro e member
  rcases copyLoop_events now reads e member with rfl | ⟨bytes, rfl⟩ <;> rfl

theorem conclude_body (ctx : Ctx) (now : Int) (resp : Response) :
    bodyOf (conclude ctx now resp).1 =
      if resp.body.stop = .failed ∧ ctx.err now = none ∧ resp.isSSE then interruptedEvent
      else [] := by
  unfold conclude
  cases resp.body.stop with
  | eof => rfl
  | failed =>
      dsimp only
      by_cases done : ctx.err now = none
      · cases sse : resp.isSSE <;> simp [done]
      · simp [done, cancelled]

def HeadersSent (events : List Event) : Prop :=
  ∀ e ∈ events, (∀ name value, e ≠ .header name value) ∧ ∀ code, e ≠ .writeHeader code

theorem HeadersSent.append {xs ys : List Event} (first : HeadersSent xs) (second : HeadersSent ys) :
    HeadersSent (xs ++ ys) := by
  intro e member
  rcases List.mem_append.mp member with member | member
  · exact first e member
  · exact second e member

theorem HeadersSent.statuses {events : List Event} (sent : HeadersSent events) :
    Handler.statuses events = [] := by
  apply List.filterMap_eq_nil_iff.mpr
  intro e member
  have quiet := sent e member
  cases e <;> simp_all [Event.status]

theorem copyLoop_headersSent (now : Int) (reads : List Read) :
    HeadersSent (copyLoop now reads).events := by
  intro e member
  rcases copyLoop_events now reads e member with rfl | ⟨bytes, rfl⟩ <;> simp

theorem cancelled_headersSent : HeadersSent cancelled := by
  simp [HeadersSent, cancelled]

theorem conclude_headersSent (ctx : Ctx) (now : Int) (resp : Response) :
    HeadersSent (conclude ctx now resp).1 := by
  unfold conclude
  split
  · simp [HeadersSent]
  · dsimp only
    split_ifs
    · exact cancelled_headersSent
    · simp [HeadersSent]
    · simp [HeadersSent]

theorem conclude_exit (ctx : Ctx) (now : Int) (resp : Response) (reason : Reason) :
    (conclude ctx now resp).2 ≠ .returned .outRetry reason := by
  unfold conclude
  split
  · simp
  · dsimp only
    split_ifs <;> simp

/-- The calls on the client's writer up to the first flush. -/
def Response.opening (resp : Response) (node : String) (number : Nat) : List Event :=
  resp.headers node number ++ [Event.writeHeader resp.status] ++
    if resp.body.first.data = [] then [] else [Event.write resp.body.first.data]

theorem opening_clientOnly (resp : Response) (node : String) (number : Nat) :
    ClientOnly (resp.opening node number) := by
  refine ((headers_clientOnly resp node number).append ?_).append ?_
  · simp [ClientOnly, Event.onClient]
  · split <;> simp [ClientOnly, Event.onClient]

theorem opening_split (resp : Response) (node : String) (number : Nat) :
    ∃ firstWrite, resp.opening node number =
        resp.headers node number ++ .writeHeader resp.status :: firstWrite ∧
      HeadersSent firstWrite := by
  refine ⟨_, List.append_assoc _ _ _, ?_⟩
  split <;> simp [HeadersSent]

theorem opening_body (resp : Response) (node : String) (number : Nat) :
    bodyOf (resp.opening node number) = resp.body.first.data := by
  unfold Response.opening
  split <;> simp_all [headers_body]

theorem opening_write (resp : Response) (node : String) (number : Nat)
    (nonempty : resp.body.first.data ≠ []) :
    .write resp.body.first.data ∈ resp.opening node number := by
  simp [Response.opening, nonempty]

theorem opening_sends (resp : Response) (node : String) (number : Nat) :
    (resp.opening node number).any Event.sends = true := by
  simp [Response.opening, Event.sends]

theorem commit_eq (ctx : Ctx) (now : Int) (number : Nat) (node : String) (resp : Response)
    (valid : ¬ (resp.status < 100 ∨ 999 < resp.status)) :
    commit ctx now number node resp =
      if resp.body.first.data ≠ [] ∧ !resp.body.first.accepted then
        ⟨now + resp.body.first.writing, resp.opening node number ++ cancelled,
          .returned .outAbort .canceled, [resp.body.first.data]⟩
      else
        let copied := copyLoop (now + resp.body.first.handing) resp.body.rest
        let sent := resp.opening node number ++ .flush :: copied.events
        if copied.refused then
          ⟨copied.now, sent ++ cancelled, .returned .outAbort .canceled,
            resp.body.first.data :: copied.reads⟩
        else
          ⟨copied.now, sent ++ (conclude ctx copied.now resp).1, (conclude ctx copied.now resp).2,
            resp.body.first.data :: copied.reads⟩ := by
  simp only [commit, if_neg valid, Response.opening]

theorem copied_clientOnly (now : Int) (reads : List Read) :
    ClientOnly (Event.flush :: (copyLoop now reads).events) := by
  have flushed : ClientOnly [Event.flush] := by simp [ClientOnly, Event.onClient]
  exact flushed.append (copyLoop_clientOnly now reads)

/-- A response that reached the client's writer: the header of the upstream
response, then every byte read in order, then possibly the error event. -/
structure Committed (resp : Response) (node : String) (number : Nat) (result : Attempted) :
    Prop where
  events : ∃ tail, result.events = resp.headers node number ++ .writeHeader resp.status :: tail ∧
    HeadersSent tail
  reads : result.reads <+: resp.body.reads.map Read.data
  complete : TakesAll resp.body.reads → result.reads = resp.body.reads.map Read.data
  body : bodyOf result.events = result.reads.flatten ∨
    (resp.isSSE = true ∧ bodyOf result.events = result.reads.flatten ++ interruptedEvent)
  exit : ∀ reason, result.exit ≠ .returned .outRetry reason

theorem Committed.statuses {resp : Response} {node : String} {number : Nat} {result : Attempted}
    (committed : Committed resp node number result) :
    Handler.statuses result.events = [resp.status] := by
  obtain ⟨tail, events, sent⟩ := committed.events
  simp [events, headers_statuses, sent.statuses]

/-- The commit point either refuses the status code or commits. -/
theorem commit_cases (ctx : Ctx) (now : Int) (number : Nat) (node : String) (resp : Response) :
    commit ctx now number node resp =
        ⟨now, resp.headers node number, .panicked .invalidCode, [resp.body.first.data]⟩ ∨
      Committed resp node number (commit ctx now number node resp) := by
  by_cases invalid : resp.status < 100 ∨ 999 < resp.status
  · left
    simp only [commit, if_pos invalid]
  right
  rw [commit_eq ctx now number node resp invalid]
  obtain ⟨firstWrite, opened, wrote⟩ := opening_split resp node number
  have handed := opening_body resp node number
  have copied := copyLoop_reads (now + resp.body.first.handing) resp.body.rest
  have body := copyLoop_body (now + resp.body.first.handing) resp.body.rest
  have sent := copyLoop_headersSent (now + resp.body.first.handing) resp.body.rest
  have taken := copyLoop_takesAll (now + resp.body.first.handing) resp.body.rest
  dsimp only
  generalize copyLoop (now + resp.body.first.handing) resp.body.rest = loop
    at copied body sent taken ⊢
  have flushed : HeadersSent [Event.flush] := by simp [HeadersSent]
  have allSent : HeadersSent (firstWrite ++ .flush :: loop.events) :=
    wrote.append (HeadersSent.append flushed sent)
  have reads : resp.body.first.data :: loop.reads <+: resp.body.reads.map Read.data :=
    (List.prefix_cons_inj _).mpr copied
  split_ifs with refused stopped
  · refine ⟨⟨firstWrite ++ cancelled, by simp [opened], wrote.append cancelled_headersSent⟩,
      ?_, ?_, ?_, ?_⟩
    · exact (List.prefix_cons_inj _).mpr List.nil_prefix
    · intro takes
      exact absurd refused takes.first
    · left
      simp [handed, cancelled]
    · simp
  · refine ⟨⟨(firstWrite ++ .flush :: loop.events) ++ cancelled, by simp [opened],
      allSent.append cancelled_headersSent⟩, reads, ?_, ?_, ?_⟩
    · intro takes
      rw [(taken takes.rest).1] at stopped
      cases stopped
    · left
      simp [handed, body, cancelled]
    · simp
  · refine ⟨⟨(firstWrite ++ .flush :: loop.events) ++ (conclude ctx loop.now resp).1,
      by simp [opened], allSent.append (conclude_headersSent _ _ _)⟩, reads, ?_, ?_,
      conclude_exit ctx loop.now resp⟩
    · intro takes
      simp [(taken takes.rest).2.2, Body.reads]
    have marker := conclude_body ctx loop.now resp
    split_ifs at marker with interrupted
    · right
      simp [interrupted, handed, body, marker]
    · left
      simp [handed, body, marker]

/-! ## The clock -/

theorem copyLoop_now (now : Int) (reads : List Read) : now ≤ (copyLoop now reads).now := by
  induction reads generalizing now with
  | nil => exact le_rfl
  | cons read rest ih =>
      simp only [copyLoop]
      split_ifs
      · have := ih (now + read.elapsed)
        dsimp only
        omega
      · have := ih (now + read.elapsed + read.writing)
        dsimp only
        omega
      · dsimp only
        omega

theorem commit_now (ctx : Ctx) (now : Int) (number : Nat) (node : String) (resp : Response) :
    now ≤ (commit ctx now number node resp).now := by
  have copied := copyLoop_now (now + resp.body.first.handing) resp.body.rest
  by_cases invalid : resp.status < 100 ∨ 999 < resp.status
  · simp only [commit, if_pos invalid]
    exact le_rfl
  rw [commit_eq ctx now number node resp invalid]
  dsimp only
  split_ifs <;> dsimp only <;> omega

theorem attempt_now (rel : Reliability) (ctx : Ctx) (stream : Bool) (now : Int) (number : Nat)
    (node : String) (requestFails : Bool) (upstream : Upstream) :
    now ≤ (attempt rel ctx stream now number node requestFails upstream).now := by
  have tried := attempt_tried rel ctx stream now number node requestFails upstream
  generalize attempt rel ctx stream now number node requestFails upstream = result at tried ⊢
  cases tried with
  | retry _ _ _ _ later => exact later
  | abort later _ _ after => exact after
  | commit resp _ _ =>
      have := commit_now ctx (now + upstream.elapsed + resp.body.first.elapsed) number node resp
      omega

theorem acquire_now (ctx : Ctx) (now : Int) (acquiring : Acquiring) :
    now ≤ (Handler.acquire ctx now acquiring).1 := by
  unfold Handler.acquire
  cases acquiring.answer <;> dsimp only <;> omega

theorem sleepCtx_now (ctx : Ctx) (now d : Int) (sleep : Sleep) :
    now ≤ (sleepCtx ctx now d sleep).1 := by
  simp only [sleepCtx]
  omega

/-! ## One iteration -/

section
variable (rel : Reliability) (ctx : Ctx) (stream : Bool) (script : Nat → Turn)

def Loop.Made (s : Loop) (made : Record) : Prop :=
  ∃ started node,
    Handler.acquire ctx s.now ((script s.attempt).acquire s.exclude) = (started, .ok node) ∧
      made = s.attemptOn rel ctx stream script started node

def Loop.after (s : Loop) (made : Record) (reason : Reason) (now : Int) : Loop :=
  ⟨s.attempt + 1, now, made.node :: s.exclude, some reason, s.records ++ [made]⟩

/-- A sleep from `now` on that the context cuts: it ends before the sleep does and
the goroutine looks before that too, or both are over when it looks and the
`select` takes the context. -/
def Sleep.CutBy (sleep : Sleep) (ctx : Ctx) (now d : Int) : Prop :=
  (ctx.doneAt < now + d ∧ now + sleep.late < now + d) ∨
    (ctx.doneAt ≤ max (now + sleep.late) (now + d) ∧ now + d ≤ max (now + sleep.late) ctx.doneAt ∧
      sleep.timerFirst = false)

theorem sleepCtx_cut_iff (ctx : Ctx) (now d : Int) (sleep : Sleep) :
    (sleepCtx ctx now d sleep).2 = false ↔ sleep.CutBy ctx now d := by
  simp only [sleepCtx, Sleep.CutBy]
  split_ifs with both
  · simp only [Bool.and_eq_true, decide_eq_true_eq] at both
    cases sleep.timerFirst <;> simp <;> omega
  · simp only [Bool.and_eq_true, decide_eq_true_eq] at both
    simp only [decide_eq_false_iff_not]
    omega

/-- The sleep after an attempt with more to come is cut. -/
def Loop.SleepCut (s : Loop) (made : Record) : Prop :=
  (s.attempt : Int) < rel.maxAttempts ∧
    ∃ d, backoff rel s.attempt (script s.attempt).jitter = some d ∧
      (script s.attempt).sleep.CutBy ctx made.result.now d

inductive Iterated (s : Loop) : Loop ⊕ Served → Prop where
  | refused (err : AcquireError)
      (got : (Handler.acquire ctx s.now ((script s.attempt).acquire s.exclude)).2 = .error err) :
      Iterated s (.inr ⟨s.records, rejectAcquire err s.attempt, none⟩)
  | panicked (made : Record) (panic : Panic) (isMade : s.Made rel ctx stream script made)
      (exit : made.result.exit = .panicked panic) :
      Iterated s (.inr ⟨s.records ++ [made], [], some panic⟩)
  | done (made : Record) (reason : Reason) (isMade : s.Made rel ctx stream script made)
      (exit : made.result.exit = .returned .outDone reason) :
      Iterated s (.inr ⟨s.records ++ [made], [], none⟩)
  | aborted (made : Record) (reason : Reason) (isMade : s.Made rel ctx stream script made)
      (exit : made.result.exit = .returned .outAbort reason) :
      Iterated s (.inr ⟨s.records ++ [made],
        abortReply ctx made.result.now ((eventsOf (s.records ++ [made])).any Event.sends), none⟩)
  | noBackoff (made : Record) (reason : Reason) (isMade : s.Made rel ctx stream script made)
      (exit : made.result.exit = .returned .outRetry reason)
      (more : (s.attempt : Int) < rel.maxAttempts)
      (empty : backoff rel s.attempt (script s.attempt).jitter = none) :
      Iterated s (.inr ⟨s.records ++ [made], [], some .int63n⟩)
  | cut (made : Record) (reason : Reason) (isMade : s.Made rel ctx stream script made)
      (exit : made.result.exit = .returned .outRetry reason)
      (cut : s.SleepCut rel ctx script made) :
      Iterated s (.inr ⟨s.records ++ [made], [.finish .cancelled], none⟩)
  | again (made : Record) (reason : Reason) (now : Int)
      (isMade : s.Made rel ctx stream script made)
      (exit : made.result.exit = .returned .outRetry reason)
      (uncut : ¬ s.SleepCut rel ctx script made) (later : made.result.now ≤ now) :
      Iterated s (.inl (s.after made reason now))

theorem retry_iterated (s : Loop) (made : Record) (reason : Reason)
    (isMade : s.Made rel ctx stream script made)
    (exit : made.result.exit = .returned .outRetry reason) :
    Iterated rel ctx stream script s (s.retry rel ctx script made reason) := by
  simp only [Loop.retry]
  split_ifs with more
  · cases drawn : backoff rel s.attempt (script s.attempt).jitter with
    | none => exact Iterated.noBackoff made reason isMade exit more drawn
    | some d =>
        dsimp only
        split_ifs with slept
        · refine Iterated.again made reason _ isMade exit ?_ (sleepCtx_now _ _ _ _)
          rintro ⟨_, d', drawn', cut⟩
          obtain rfl : d' = d := by simpa [drawn] using drawn'.symm
          rw [(sleepCtx_cut_iff _ _ _ _).mpr cut] at slept
          cases slept
        · have cut := (sleepCtx_cut_iff _ _ _ _).mp (Bool.eq_false_of_not_eq_true slept)
          exact Iterated.cut made reason isMade exit ⟨more, d, drawn, cut⟩
  · exact Iterated.again made reason _ isMade exit (fun cut => more cut.1) le_rfl

theorem iterate_iterated (s : Loop) :
    Iterated rel ctx stream script s (s.iterate rel ctx stream script) := by
  unfold Loop.iterate
  cases got : Handler.acquire ctx s.now ((script s.attempt).acquire s.exclude) with
  | mk started answer =>
      cases answer with
      | error err => exact Iterated.refused err (by rw [got])
      | ok node =>
          have isMade : s.Made rel ctx stream script
              (s.attemptOn rel ctx stream script started node) := ⟨started, node, got, rfl⟩
          dsimp only
          generalize s.attemptOn rel ctx stream script started node = made at isMade ⊢
          cases exit : made.result.exit with
          | panicked panic => exact Iterated.panicked made panic isMade exit
          | returned outcome reason =>
              cases outcome with
              | outDone => exact Iterated.done made reason isMade exit
              | outAbort => exact Iterated.aborted made reason isMade exit
              | outRetry => exact retry_iterated rel ctx stream script s made reason isMade exit

theorem Loop.Made.tried {s : Loop} {made : Record} (isMade : s.Made rel ctx stream script made) :
    made.number = s.attempt ∧
      Tried ctx made.started made.number made.node (script made.number).upstream made.result := by
  obtain ⟨started, node, _, rfl⟩ := isMade
  exact ⟨rfl, attempt_tried rel ctx stream started s.attempt node _ _⟩

/-! ## The loop -/

def Record.Retried (r : Record) : Prop :=
  (∃ reason, r.result.exit = .returned .outRetry reason) ∧ Silent r.result.events

structure Loop.Retried (s : Loop) : Prop where
  numbered : s.attempt = s.records.length + 1
  records : ∀ r ∈ s.records, r.Retried

theorem Tried.retried {now : Int} {number : Nat} {node : String} {upstream : Upstream}
    {result : Attempted} {reason : Reason} (tried : Tried ctx now number node upstream result)
    (exit : result.exit = .returned .outRetry reason) : Silent result.events := by
  cases tried with
  | retry _ _ _ silent _ => exact silent
  | abort later reads done after => exact abort_silent later reads
  | commit resp answered forwarded =>
      rcases commit_cases ctx (now + upstream.elapsed + resp.body.first.elapsed) number node resp
        with refused | committed
      · rw [refused] at exit
        cases exit
      · exact absurd exit (committed.exit reason)

theorem Loop.Retried.after {s : Loop} (retried : s.Retried) {made : Record} {reason : Reason}
    (isMade : s.Made rel ctx stream script made)
    (exit : made.result.exit = .returned .outRetry reason) (now : Int) :
    (s.after made reason now).Retried := by
  refine ⟨?_, ?_⟩
  · simp [Loop.after, retried.numbered]
  · intro r member
    rcases List.mem_append.mp member with earlier | last
    · exact retried.records r earlier
    · obtain rfl := List.mem_singleton.mp last
      exact ⟨⟨reason, exit⟩, (isMade.tried rel ctx stream script).2.retried ctx exit⟩

def Loop.Next (s next : Loop) : Prop :=
  (s.attempt : Int) ≤ rel.maxAttempts ∧ s.iterate rel ctx stream script = .inl next

/-- The states at the head of the loop that the iterations reach. -/
def Loop.Reaches : Loop → Loop → Prop := Relation.ReflTransGen (Loop.Next rel ctx stream script)

theorem Loop.Next.attempt {s next : Loop} (stepped : s.Next rel ctx stream script next) :
    next.attempt = s.attempt + 1 := by
  have iterated := iterate_iterated rel ctx stream script s
  rw [stepped.2] at iterated
  cases iterated
  rfl

theorem Loop.Next.retried {s next : Loop} (stepped : s.Next rel ctx stream script next)
    (retried : s.Retried) : next.Retried := by
  have iterated := iterate_iterated rel ctx stream script s
  rw [stepped.2] at iterated
  cases iterated with
  | again made reason now isMade exit _ =>
      exact retried.after rel ctx stream script isMade exit now

theorem Loop.Reaches.retried {s next : Loop} (reached : Loop.Reaches rel ctx stream script s next)
    (retried : s.Retried) : next.Retried := by
  induction reached with
  | refl => exact retried
  | tail _ stepped ih => exact stepped.retried rel ctx stream script ih

/-- A run ends in an iteration of a reached state, or after the last attempt. -/
theorem Loop.run_ends (left : Nat) (s : Loop)
    (bound : (s.attempt : Int) + left = rel.maxAttempts + 1) :
    ∃ last, Loop.Reaches rel ctx stream script s last ∧
      (((last.attempt : Int) ≤ rel.maxAttempts ∧
          last.iterate rel ctx stream script = .inr (Loop.run rel ctx stream script left s)) ∨
        Loop.run rel ctx stream script left s =
          ⟨last.records, allFailed rel.maxAttempts last.lastReason, none⟩) := by
  induction left generalizing s with
  | zero => exact ⟨s, Relation.ReflTransGen.refl, Or.inr rfl⟩
  | succ left ih =>
      have inside : (s.attempt : Int) ≤ rel.maxAttempts := by omega
      simp only [Loop.run]
      cases stepped : s.iterate rel ctx stream script with
      | inr run => exact ⟨s, Relation.ReflTransGen.refl, Or.inl ⟨inside, stepped⟩⟩
      | inl next =>
          have nextStep : s.Next rel ctx stream script next := ⟨inside, stepped⟩
          have counted := nextStep.attempt rel ctx stream script
          obtain ⟨last, reached, ended⟩ := ih next (by omega)
          exact ⟨last, Relation.ReflTransGen.head nextStep reached, ended⟩

theorem Loop.run_of_reaches (left : Nat) (s last : Loop) (run : Served)
    (bound : (s.attempt : Int) + left = rel.maxAttempts + 1)
    (reached : Loop.Reaches rel ctx stream script s last)
    (inside : (last.attempt : Int) ≤ rel.maxAttempts)
    (ended : last.iterate rel ctx stream script = .inr run) :
    Loop.run rel ctx stream script left s = run := by
  induction left generalizing s with
  | zero =>
      rcases Relation.ReflTransGen.cases_head reached with rfl | ⟨next, stepped, _⟩
      · omega
      · have := stepped.1
        omega
  | succ left ih =>
      simp only [Loop.run]
      rcases Relation.ReflTransGen.cases_head reached with rfl | ⟨next, stepped, later⟩
      · rw [ended]
      · have counted := stepped.attempt rel ctx stream script
        rw [stepped.2]
        exact ih next (by omega) later

theorem Loop.Made.now {s : Loop} {made : Record} (isMade : s.Made rel ctx stream script made) :
    s.now ≤ made.started ∧ made.started ≤ made.result.now := by
  obtain ⟨started, node, got, rfl⟩ := isMade
  have acquired := acquire_now ctx s.now ((script s.attempt).acquire s.exclude)
  rw [got] at acquired
  exact ⟨acquired, attempt_now rel ctx stream started s.attempt node _ _⟩

/-- Every attempt is made in some iteration, none of which is before the start. -/
theorem Loop.run_made (start : Int) (left : Nat) (s : Loop) (started : start ≤ s.now)
    (sofar : ∀ r ∈ s.records,
      ∃ before : Loop, start ≤ before.now ∧ before.Made rel ctx stream script r) :
    ∀ r ∈ (Loop.run rel ctx stream script left s).records,
      ∃ before : Loop, start ≤ before.now ∧ before.Made rel ctx stream script r := by
  induction left generalizing s with
  | zero => exact sofar
  | succ left ih =>
      have snoc : ∀ made, s.Made rel ctx stream script made → ∀ r ∈ s.records ++ [made],
          ∃ before : Loop, start ≤ before.now ∧ before.Made rel ctx stream script r := by
        intro made isMade r member
        rcases List.mem_append.mp member with earlier | last
        · exact sofar r earlier
        · rw [List.mem_singleton.mp last]
          exact ⟨s, started, isMade⟩
      have iterated := iterate_iterated rel ctx stream script s
      simp only [Loop.run]
      generalize s.iterate rel ctx stream script = next at iterated ⊢
      cases iterated with
      | refused err got => exact sofar
      | panicked made panic isMade exit => exact snoc made isMade
      | done made reason isMade exit => exact snoc made isMade
      | aborted made reason isMade exit => exact snoc made isMade
      | noBackoff made reason isMade exit more empty => exact snoc made isMade
      | cut made reason isMade exit cut => exact snoc made isMade
      | again made reason now isMade exit uncut later =>
          have clock := isMade.now rel ctx stream script
          exact ih _ (by simp only [Loop.after]; omega) (snoc made isMade)

end

/-! ## The request -/

theorem serveHTTP_made (h : DirectChatHandler) (req : Incoming) (start : Int)
    (clientGone : Option Int) (script : Nat → Turn) :
    ∀ r ∈ (serveHTTP h req start clientGone script).records,
      ∃ stream, req.parsed = .accepted stream ∧ ∃ before : Loop,
        start ≤ before.now ∧ before.Made h.init (h.ctx start clientGone) stream script r := by
  intro r member
  simp only [serveHTTP] at member
  split at member
  · cases member
  cases parsed : req.parsed with
  | unreadable => simp [parsed, badRequest] at member
  | badMessages => simp [parsed, badRequest] at member
  | unforwardable => simp [parsed, badRequest] at member
  | accepted stream =>
      simp only [parsed] at member
      refine ⟨stream, rfl, Loop.run_made h.init (h.ctx start clientGone) stream script start
        h.init.maxAttempts.toNat (Loop.start start) le_rfl ?_ r member⟩
      simp [Loop.start]

/-- How a request that ends in an attempt ends. -/
inductive EndsIn (ctx : Ctx) (run : Served) (made : Record) : Prop where
  | panicked (panic : Panic) (exit : made.result.exit = .panicked panic) (reply : run.reply = [])
      (ending : run.panic = some panic)
  | done (reason : Reason) (exit : made.result.exit = .returned .outDone reason)
      (reply : run.reply = []) (ending : run.panic = none)
  | aborted (reason : Reason) (exit : made.result.exit = .returned .outAbort reason)
      (reply : run.reply =
        abortReply ctx made.result.now ((eventsOf run.records).any Event.sends))
      (ending : run.panic = none)

/-- All attempts were retried, or all but the last one, which ended the
request. -/
theorem serveHTTP_ends (h : DirectChatHandler) (req : Incoming) (start : Int)
    (clientGone : Option Int) (script : Nat → Turn) :
    (∀ r ∈ (serveHTTP h req start clientGone script).records, r.Retried) ∨
    ∃ stream s made, Loop.Retried s ∧
      s.Made h.init (h.ctx start clientGone) stream script made ∧
      (serveHTTP h req start clientGone script).records = s.records ++ [made] ∧
      EndsIn (h.ctx start clientGone) (serveHTTP h req start clientGone script) made := by
  unfold serveHTTP
  split
  · left
    simp
  · split
    · left
      simp [badRequest]
    · left
      simp [badRequest]
    · left
      simp [badRequest]
    · rename_i stream _
      have fresh : (Loop.start start).Retried := ⟨rfl, by simp [Loop.start]⟩
      by_cases positive : h.init.maxAttempts < 0
      · -- a negative limit makes no attempt
        rw [Int.toNat_of_nonpos positive.le]
        left
        exact fresh.records
      obtain ⟨last, reached, ended⟩ := Loop.run_ends h.init (h.ctx start clientGone) stream script
        h.init.maxAttempts.toNat (Loop.start start) (by simp [Loop.start]; omega)
      have retried := reached.retried h.init (h.ctx start clientGone) stream script fresh
      generalize Loop.run h.init (h.ctx start clientGone) stream script h.init.maxAttempts.toNat
        (Loop.start start) = run at ended ⊢
      rcases ended with ⟨_, stepped⟩ | rfl
      · have iterated := iterate_iterated h.init (h.ctx start clientGone) stream script last
        rw [stepped] at iterated
        cases iterated with
        | refused err got => exact Or.inl retried.records
        | noBackoff made reason isMade exit more empty =>
            left
            exact (retried.after h.init (h.ctx start clientGone) stream script isMade exit 0).records
        | cut made reason isMade exit cut =>
            left
            exact (retried.after h.init (h.ctx start clientGone) stream script isMade exit 0).records
        | panicked made panic isMade exit =>
            exact Or.inr ⟨stream, last, made, retried, isMade, rfl, .panicked panic exit rfl rfl⟩
        | done made reason isMade exit =>
            exact Or.inr ⟨stream, last, made, retried, isMade, rfl, .done reason exit rfl rfl⟩
        | aborted made reason isMade exit =>
            exact Or.inr ⟨stream, last, made, retried, isMade, rfl, .aborted reason exit rfl rfl⟩
      · exact Or.inl retried.records

end RadixGates.Handler
