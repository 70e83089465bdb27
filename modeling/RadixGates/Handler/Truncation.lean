import RadixGates.Handler.FirstByte

/-!
# Truncated responses

How a committed response ends when the client takes everything it is given.
A body that was not read to its end is marked as such, by the error event or by
an aborted connection, exactly when the overall deadline has not passed by then:
past the deadline the handler returns as if the client had gone away.
-/

set_option autoImplicit false

namespace RadixGates.Handler

/-! ## The end of a committed response -/

def Body.bytes (body : Body) : List UInt8 := (body.reads.map Read.data).flatten

/-- When a response that is answered after `elapsed` has been read and handed
on to the client. -/
def Response.copiedAt (resp : Response) (started : Int) (elapsed : Nat) : Int :=
  started + elapsed + duration resp.body.reads

theorem duration_reads (body : Body) :
    duration body.reads = body.first.elapsed + body.first.handing + duration body.rest := by
  simp [duration, Body.reads]

/-- A committed response that the client takes as a whole: its bytes on the
writer, then the end. -/
theorem commit_takesAll (ctx : Ctx) (started : Int) (elapsed number : Nat) (node : String)
    (resp : Response) (valid : ¬ (resp.status < 100 ∨ 999 < resp.status))
    (takes : TakesAll resp.body.reads) :
    ∃ calls, ClientOnly calls ∧ bodyOf calls = resp.body.bytes ∧
      commit ctx (started + elapsed + resp.body.first.elapsed) number node resp =
        ⟨resp.copiedAt started elapsed,
          calls ++ (conclude ctx (resp.copiedAt started elapsed) resp).1,
          (conclude ctx (resp.copiedAt started elapsed) resp).2,
          resp.body.reads.map Read.data⟩ := by
  obtain ⟨refused, ended, reads⟩ := copyLoop_takesAll
    (started + elapsed + resp.body.first.elapsed + resp.body.first.handing) resp.body.rest
    takes.rest
  have body := copyLoop_body
    (started + elapsed + resp.body.first.elapsed + resp.body.first.handing) resp.body.rest
  have instant : started + elapsed + resp.body.first.elapsed + resp.body.first.handing +
      duration resp.body.rest = resp.copiedAt started elapsed := by
    rw [Response.copiedAt, duration_reads]
    push_cast
    omega
  rw [reads] at body
  rw [instant] at ended
  refine ⟨_, (opening_clientOnly resp node number).append (copied_clientOnly
    (started + elapsed + resp.body.first.elapsed + resp.body.first.handing) resp.body.rest), ?_, ?_⟩
  · rw [bodyOf_append, opening_body, bodyOf_cons, body]
    rfl
  · rw [commit_eq ctx _ number node resp valid, if_neg takes.first]
    simp only [refused, ended, reads, Body.reads, Bool.false_eq_true, if_false, List.map_cons]

theorem commit_concludes (ctx : Ctx) (started : Int) (elapsed number : Nat) (node : String)
    (resp : Response) (takes : TakesAll resp.body.reads)
    (sent : statuses
      (commit ctx (started + elapsed + resp.body.first.elapsed) number node resp).events ≠ []) :
    (commit ctx (started + elapsed + resp.body.first.elapsed) number node resp).exit =
        (conclude ctx (resp.copiedAt started elapsed) resp).2 ∧
      bodyOf (commit ctx (started + elapsed + resp.body.first.elapsed) number node resp).events =
        resp.body.bytes ++ bodyOf (conclude ctx (resp.copiedAt started elapsed) resp).1 := by
  by_cases valid : resp.status < 100 ∨ 999 < resp.status
  · simp only [commit, if_pos valid] at sent
    exact absurd (headers_statuses resp node number) sent
  · obtain ⟨calls, _, body, whole⟩ := commit_takesAll ctx started elapsed number node resp valid
      takes
    rw [whole, ← body]
    exact ⟨rfl, bodyOf_append _ _⟩

theorem sent_concludes (h : DirectChatHandler) (req : Incoming) (start : Int)
    (clientGone : Option Int) (script : Nat → Turn) (earlier : List Record) (last : Record)
    (records : (serveHTTP h req start clientGone script).records = earlier ++ [last])
    (sent : last.Sent) (resp : Response)
    (answered : (script last.number).upstream.response = some resp)
    (takes : TakesAll resp.body.reads) :
    EndsIn (h.ctx start clientGone) (serveHTTP h req start clientGone script) last ∧
      last.result.exit = (conclude (h.ctx start clientGone)
        (resp.copiedAt last.started (script last.number).upstream.elapsed) resp).2 ∧
      bodyOf (serveHTTP h req start clientGone script).events =
        resp.body.bytes ++ bodyOf (conclude (h.ctx start clientGone)
          (resp.copiedAt last.started (script last.number).upstream.elapsed) resp).1 := by
  obtain ⟨retried, lastRetried | ⟨stream, s, isMade, ends⟩⟩ :=
    serveHTTP_last h req start clientGone script earlier last records
  · exact absurd sent lastRetried.not_sent
  · have tried := (isMade.tried _ _ _ _).2
    rw [events_of_sent ends records sent, bodyOf_append, (eventsOf_silent earlier retried).bodyOf,
      List.nil_append]
    refine ⟨ends, ?_⟩
    unfold Record.Sent at sent
    generalize last.result = result at tried sent ⊢
    cases tried with
    | retry _ _ _ silent _ => exact absurd silent.statuses sent
    | abort later reads done after => exact absurd (abort_silent later reads).statuses sent
    | commit resp' answered' forwarded =>
        obtain rfl : resp' = resp := by simpa [answered] using answered'.symm
        exact commit_concludes _ _ _ _ _ _ takes sent

def Exit.panic : Exit → Option Panic
  | .panicked panic => some panic
  | .returned _ _ => none

theorem EndsIn.panic_eq {ctx : Ctx} {run : Served} {made : Record} (ends : EndsIn ctx run made) :
    run.panic = made.result.exit.panic := by
  cases ends with
  | panicked panic exit _ ending => rw [exit, ending]; rfl
  | done reason exit _ ending => rw [exit, ending]; rfl
  | aborted reason exit _ ending => rw [exit, ending]; rfl

/-! ## The property -/

/-- The response was read to its end, or the client can tell that it was not. -/
def ShowsTruncation (run : Served) (resp : Response) : Prop :=
  resp.body.stop = .eof ∨
    if resp.isSSE then run.panic = none ∧ bodyOf run.events = resp.body.bytes ++ interruptedEvent
    else run.panic = some .abortHandler

theorem interruptedEvent_ne_nil : interruptedEvent ≠ [] := by decide +kernel

/-- With a client that stays and takes everything, a truncated response is
marked exactly if its body stops before the overall deadline. -/
theorem truncation_shown_iff (h : DirectChatHandler) (req : Incoming) (start : Int)
    (script : Nat → Turn) (earlier : List Record) (last : Record)
    (records : (serveHTTP h req start none script).records = earlier ++ [last])
    (sent : last.Sent) (resp : Response)
    (answered : (script last.number).upstream.response = some resp)
    (takes : TakesAll resp.body.reads) :
    ShowsTruncation (serveHTTP h req start none script) resp ↔
      (resp.body.stop = .eof ∨
        resp.copiedAt last.started (script last.number).upstream.elapsed <
          start + h.init.overallTimeout) := by
  obtain ⟨ends, exit, body⟩ :=
    sent_concludes h req start none script earlier last records sent resp answered takes
  have live := (h.ctx start none).err_none
    (resp.copiedAt last.started (script last.number).upstream.elapsed)
  have marker := conclude_body (h.ctx start none)
    (resp.copiedAt last.started (script last.number).upstream.elapsed) resp
  have panic := ends.panic_eq
  rw [exit] at panic
  rw [marker] at body
  simp only [DirectChatHandler.ctx, Ctx.doneAt] at live panic body
  rw [← live]
  unfold ShowsTruncation
  cases stop : resp.body.stop with
  | eof => simp
  | failed =>
      simp only [conclude, stop] at panic
      by_cases alive : (⟨start + h.init.overallTimeout, none⟩ : Ctx).err
          (resp.copiedAt last.started (script last.number).upstream.elapsed) = none
      · cases sse : resp.isSSE <;> simp [panic, body, stop, alive, sse, Exit.panic]
      · cases sse : resp.isSSE <;>
          simp [panic, body, stop, alive, sse, Exit.panic, interruptedEvent_ne_nil]

theorem failover_shows_truncation :
    ShowsTruncation (serveHTTP defaultHandler chatRequest 0 none failoverScript) brokenStream := by
  obtain ⟨first, last, records, number, started, sent⟩ := failover_records
  refine (truncation_shown_iff defaultHandler chatRequest 0 failoverScript [first] last records
    sent brokenStream ?_ ?_).mpr (Or.inr ?_)
  · rw [number]
    rfl
  · unfold TakesAll
    decide +kernel
  · rw [number, started]
    decide +kernel

/-! After its first event the node is silent; the overall deadline passes and
the read fails. -/

def hastyHandler : DirectChatHandler :=
  ⟨0, { Settings.defaultReliability with overallTimeout := 10 * second }⟩

def cutStream : Response :=
  ⟨200, "text/event-stream", ⟨readOf "data: a\n\n", [⟨[], 10000000000, true, 0⟩], .failed⟩⟩

def deadlineScript : Nat → Turn := fun _ => turnOn "n0" ⟨1, some cutStream, 0⟩

theorem deadline_hides_truncation :
    ¬ ∀ (h : DirectChatHandler) (req : Incoming) (start : Int) (script : Nat → Turn)
      (earlier : List Record) (last : Record),
      (serveHTTP h req start none script).records = earlier ++ [last] → last.Sent →
      ∀ resp, (script last.number).upstream.response = some resp → TakesAll resp.body.reads →
      ShowsTruncation (serveHTTP h req start none script) resp := by
  intro claim
  have shape : (serveHTTP hastyHandler chatRequest 0 none deadlineScript).records.map
      (fun r => statuses r.result.events) = [[200]] := by
    decide +kernel
  obtain ⟨last, after, records, status, ends⟩ := List.map_eq_cons_iff.mp shape
  obtain rfl := List.map_eq_nil_iff.mp ends
  have shows := claim hastyHandler chatRequest 0 deadlineScript [] last records
    (by simp [Record.Sent, status]) cutStream rfl (by unfold TakesAll; decide +kernel)
  unfold ShowsTruncation at shows
  revert shows
  decide +kernel

end RadixGates.Handler
