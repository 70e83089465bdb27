import RadixGates.Lib.EventStream
import RadixGates.Handler.Truncation

/-!
# The error event of an interrupted stream

The handler appends the event to whatever bytes it has forwarded.  A client
that parses the stream gets it as an event of its own exactly if the forwarded
bytes stop between two events.
-/

set_option autoImplicit false

namespace RadixGates.Handler

open RadixGates.EventStream (events parserAfter)

theorem interruptedEvent_eq : interruptedEvent =
    EventStream.dataLine (bytesOf interruptedJSON) ++ [EventStream.LF, EventStream.LF] := by
  decide +kernel

theorem interruptedJSON_plain : EventStream.Plain (bytesOf interruptedJSON) := by
  unfold EventStream.Plain
  decide +kernel

/-- The client's parser dispatches every event of the forwarded bytes, then the
error event, and nothing else. -/
def DeliversInterrupted (forwarded body : List UInt8) : Prop :=
  ∃ message, events body = events forwarded ++ [message] ∧
    message.data = bytesOf interruptedJSON

/-- The forwarded bytes stop at the end of a line, and no `data` line since the
last empty one is waiting to be dispatched; or the waiting data is the error
itself and the unfinished line is of another field. -/
def StopsBetweenEvents (forwarded : List UInt8) : Prop :=
  (parserAfter forwarded).Takes (bytesOf interruptedJSON)

/-- An event stream that breaks while its client is there: the error event is
delivered exactly if the stream stops between two events. -/
theorem interrupted_delivered_iff (h : DirectChatHandler) (req : Incoming) (start : Int)
    (clientGone : Option Int) (script : Nat → Turn) (earlier : List Record) (last : Record)
    (records : (serveHTTP h req start clientGone script).records = earlier ++ [last])
    (sent : last.Sent) (resp : Response)
    (answered : (script last.number).upstream.response = some resp)
    (takes : TakesAll resp.body.reads) (sse : resp.isSSE = true)
    (broke : resp.body.stop = .failed)
    (live : (h.ctx start clientGone).err
      (resp.copiedAt last.started (script last.number).upstream.elapsed) = none) :
    DeliversInterrupted resp.body.bytes
        (bodyOf (serveHTTP h req start clientGone script).events) ↔
      StopsBetweenEvents resp.body.bytes := by
  obtain ⟨_, _, body⟩ := sent_concludes h req start clientGone script earlier last records sent
    resp answered takes
  rw [conclude_body, if_pos ⟨broke, live, sse⟩, interruptedEvent_eq] at body
  rw [body]
  exact EventStream.events_append_data resp.body.bytes (bytesOf interruptedJSON)
    interruptedJSON_plain

theorem failover_delivers_interrupted :
    DeliversInterrupted brokenStream.body.bytes
      (bodyOf (serveHTTP defaultHandler chatRequest 0 none failoverScript).events) := by
  obtain ⟨first, last, records, number, started, sent⟩ := failover_records
  refine (interrupted_delivered_iff defaultHandler chatRequest 0 none failoverScript [first]
    last records sent brokenStream ?_ ?_ ?_ rfl ?_).mpr ?_
  · rw [number]
    rfl
  · unfold TakesAll
    decide +kernel
  · decide +kernel
  · rw [number, started]
    decide +kernel
  · exact Or.inl (by decide +kernel)

/-! The node dies in the middle of a `data` line. -/

def tornStream : Response :=
  ⟨200, "text/event-stream", ⟨readOf "data: a\n\n", [readOf "data: \"b"], .failed⟩⟩

def tornScript : Nat → Turn := fun _ => turnOn "n0" ⟨1, some tornStream, 0⟩

theorem torn_line_swallows_interrupted :
    ¬ ∀ (h : DirectChatHandler) (req : Incoming) (start : Int) (clientGone : Option Int)
      (script : Nat → Turn) (earlier : List Record) (last : Record),
      (serveHTTP h req start clientGone script).records = earlier ++ [last] → last.Sent →
      ∀ resp, (script last.number).upstream.response = some resp → TakesAll resp.body.reads →
      resp.isSSE = true → resp.body.stop = .failed →
      (h.ctx start clientGone).err
        (resp.copiedAt last.started (script last.number).upstream.elapsed) = none →
      DeliversInterrupted resp.body.bytes
        (bodyOf (serveHTTP h req start clientGone script).events) := by
  intro claim
  have shape : (serveHTTP defaultHandler chatRequest 0 none tornScript).records.map
      (fun r => (r.started, statuses r.result.events)) = [(0, [200])] := by
    decide +kernel
  obtain ⟨last, after, records, facts, ends⟩ := List.map_eq_cons_iff.mp shape
  obtain rfl := List.map_eq_nil_iff.mp ends
  obtain ⟨started, status⟩ := Prod.mk.inj facts
  have live : (defaultHandler.ctx 0 none).err
      (tornStream.copiedAt last.started (tornScript last.number).upstream.elapsed) = none := by
    rw [started]
    change (defaultHandler.ctx 0 none).err (tornStream.copiedAt 0 1) = none
    decide +kernel
  obtain ⟨message, both, data⟩ := claim defaultHandler chatRequest 0 none tornScript [] last
    records (by simp [Record.Sent, status]) tornStream rfl (by unfold TakesAll; decide +kernel)
    (by decide +kernel) rfl live
  have last? : (events (bodyOf (serveHTTP defaultHandler chatRequest 0 none
      tornScript).events)).getLast?.map EventStream.Message.data ≠
        some (bytesOf interruptedJSON) := by
    decide +kernel
  rw [both] at last?
  simp [data] at last?

end RadixGates.Handler
