import RadixGates.Handler.Outcomes

/-!
# First-byte commit

What the client's writer gets from upstream comes from the last attempt alone,
and is what that attempt read.
-/

set_option autoImplicit false

namespace RadixGates.Handler

def Record.Sent (r : Record) : Prop := statuses r.result.events ≠ []

def clientCalls (events : List Event) : List Event := events.filter Event.onClient

theorem clientCalls_append (xs ys : List Event) :
    clientCalls (xs ++ ys) = clientCalls xs ++ clientCalls ys :=
  List.filter_append ..

theorem Silent.clientCalls {events : List Event} (silent : Silent events) :
    Handler.clientCalls events = [] := by
  apply List.filter_eq_nil_iff.mpr
  intro e member
  simp [silent e member]

theorem Silent.append {xs ys : List Event} (first : Silent xs) (second : Silent ys) :
    Silent (xs ++ ys) := by
  intro e member
  rcases List.mem_append.mp member with member | member
  · exact first e member
  · exact second e member

theorem eventsOf_silent (records : List Record) (retried : ∀ r ∈ records, r.Retried) :
    Silent (eventsOf records) := by
  intro e member
  obtain ⟨r, inRecords, inEvents⟩ := List.mem_flatMap.mp member
  exact (retried r inRecords).2 e inEvents

theorem eventsOf_append (xs ys : List Record) :
    eventsOf (xs ++ ys) = eventsOf xs ++ eventsOf ys :=
  List.flatMap_append

theorem eventsOf_singleton (r : Record) : eventsOf [r] = r.result.events := by
  simp [eventsOf]

theorem sends_of_statuses (events : List Event) (sent : statuses events ≠ []) :
    events.any Event.sends = true := by
  obtain ⟨code, member⟩ := List.exists_mem_of_ne_nil _ sent
  obtain ⟨e, inEvents, status⟩ := List.mem_filterMap.mp member
  refine List.any_eq_true.mpr ⟨e, inEvents, ?_⟩
  cases e <;> simp_all [Event.status, Event.sends]

theorem Record.Retried.not_sent {r : Record} (retried : r.Retried) : ¬ r.Sent :=
  fun sent => sent retried.2.statuses

theorem Tried.sent_or_silent {ctx : Ctx} {now : Int} {number : Nat} {node : String}
    {upstream : Upstream} {result : Attempted} (tried : Tried ctx now number node upstream result) :
    (∃ resp, upstream.response = some resp ∧ Committed resp node number result) ∨
      (statuses result.events = [] ∧ bodyOf result.events = []) := by
  cases tried with
  | retry _ _ _ silent _ => exact Or.inr ⟨silent.statuses, silent.bodyOf⟩
  | abort later reads done after =>
      have silent := abort_silent later reads
      exact Or.inr ⟨silent.statuses, silent.bodyOf⟩
  | commit resp answered forwarded =>
      rcases commit_cases ctx (now + upstream.elapsed + resp.body.first.elapsed) number node resp
        with refused | committed
      · right
        rw [refused]
        exact ⟨headers_statuses resp node number, headers_body resp node number⟩
      · exact Or.inl ⟨resp, answered, committed⟩

theorem EndsIn.reply_of_sent {ctx : Ctx} {run : Served} {made : Record} {earlier : List Record}
    (ends : EndsIn ctx run made) (records : run.records = earlier ++ [made]) (sent : made.Sent) :
    run.reply = [] := by
  cases ends with
  | panicked _ _ reply _ => exact reply
  | done _ _ reply _ => exact reply
  | aborted reason exit reply ending =>
      have wrote : (eventsOf run.records).any Event.sends = true := by
        rw [records, eventsOf_append, List.any_append, eventsOf_singleton,
          sends_of_statuses _ sent, Bool.or_true]
      rw [reply, wrote]
      rfl

theorem serveHTTP_last (h : DirectChatHandler) (req : Incoming) (start : Int)
    (clientGone : Option Int) (script : Nat → Turn) (earlier : List Record) (last : Record)
    (records : (serveHTTP h req start clientGone script).records = earlier ++ [last]) :
    (∀ r ∈ earlier, r.Retried) ∧
      (last.Retried ∨
        ∃ stream s, Loop.Made h.init (h.ctx start clientGone) stream script s last ∧
          EndsIn (h.ctx start clientGone) (serveHTTP h req start clientGone script) last) := by
  rcases serveHTTP_ends h req start clientGone script with
    allRetried | ⟨stream, s, made, retried, isMade, split, ends⟩
  · rw [records] at allRetried
    exact ⟨fun r member => allRetried r (List.mem_append_left _ member),
      Or.inl (allRetried last (by simp))⟩
  · obtain ⟨rfl, same⟩ := List.append_inj' (records.symm.trans split) rfl
    obtain rfl : last = made := by simpa using same
    exact ⟨retried.records, Or.inr ⟨stream, s, isMade, ends⟩⟩

/-- The events of a request whose last attempt committed. -/
theorem events_of_sent {ctx : Ctx} {run : Served} {earlier : List Record} {last : Record}
    (ends : EndsIn ctx run last) (records : run.records = earlier ++ [last]) (sent : last.Sent) :
    run.events = eventsOf earlier ++ last.result.events := by
  rw [Served.events, records, eventsOf_append, eventsOf_singleton, ends.reply_of_sent records sent,
    List.append_nil]

/-- Every attempt before the last one was retried and left the client's writer
alone.  If the last one committed, the calls on the writer are its calls: the
upstream header, then all it read, then possibly the error event.  If it did
not, it handed the writer no byte. -/
theorem first_byte_commit (h : DirectChatHandler) (req : Incoming) (start : Int)
    (clientGone : Option Int) (script : Nat → Turn) (earlier : List Record) (last : Record)
    (records : (serveHTTP h req start clientGone script).records = earlier ++ [last]) :
    (∀ r ∈ earlier, r.Retried) ∧
      (last.Sent →
        (∃ resp, (script last.number).upstream.response = some resp ∧
          Committed resp last.node last.number last.result) ∧
        clientCalls (serveHTTP h req start clientGone script).events =
          clientCalls last.result.events) ∧
      (¬ last.Sent → bodyOf last.result.events = []) := by
  obtain ⟨retried, lastRetried | ⟨stream, s, isMade, ends⟩⟩ :=
    serveHTTP_last h req start clientGone script earlier last records
  · refine ⟨retried, ?_, ?_⟩
    · intro sent
      exact absurd sent lastRetried.not_sent
    · intro _
      exact lastRetried.2.bodyOf
  · have tried := (isMade.tried _ _ _ _).2.sent_or_silent
    refine ⟨retried, ?_, ?_⟩
    · intro sent
      rcases tried with committed | ⟨unsent, _⟩
      · refine ⟨committed, ?_⟩
        rw [events_of_sent ends records sent, clientCalls_append,
          (eventsOf_silent earlier retried).clientCalls, List.nil_append]
      · exact absurd unsent sent
    · intro unsent
      rcases tried with ⟨resp, _, committed⟩ | ⟨_, empty⟩
      · exact absurd (by simp [Record.Sent, committed.statuses]) unsent
      · exact empty

/-! A refused connection, then a stream that breaks after two events. -/

def defaultHandler : DirectChatHandler := ⟨0, Settings.defaultReliability⟩

def chatRequest : Incoming := ⟨"POST", .accepted true⟩

def turnOn (node : String) (upstream : Upstream) : Turn :=
  ⟨fun _ => ⟨0, .granted node⟩, false, upstream, 0, ⟨0, true⟩⟩

def readOf (text : String) : Read := ⟨bytesOf text, 1, true, 1⟩

def brokenStream : Response :=
  ⟨200, "text/event-stream", ⟨readOf "data: a\n\n", [readOf "data: b\n\n"], .failed⟩⟩

def failoverScript : Nat → Turn
  | 1 => turnOn "n0" ⟨1, none, 0⟩
  | _ => turnOn "n1" ⟨1, some brokenStream, 0⟩

theorem failover_records :
    ∃ first last,
      (serveHTTP defaultHandler chatRequest 0 none failoverScript).records = [first] ++ [last] ∧
      last.number = 2 ∧ last.started = 12500001 ∧ last.Sent := by
  have shape : (serveHTTP defaultHandler chatRequest 0 none failoverScript).records.map
      (fun r => (r.number, r.started, statuses r.result.events)) =
        [(1, 0, []), (2, 12500001, [200])] := by
    decide +kernel
  obtain ⟨first, rest, records, _, more⟩ := List.map_eq_cons_iff.mp shape
  obtain ⟨last, after, rfl, facts, ends⟩ := List.map_eq_cons_iff.mp more
  obtain rfl := List.map_eq_nil_iff.mp ends
  simp only [Prod.mk.injEq] at facts
  obtain ⟨number, started, status⟩ := facts
  exact ⟨first, last, records, number, started, by simp [Record.Sent, status]⟩

theorem failover_commits_second :
    ∃ first last,
      (serveHTTP defaultHandler chatRequest 0 none failoverScript).records = [first] ++ [last] ∧
      first.Retried ∧ last.Sent ∧
      clientCalls (serveHTTP defaultHandler chatRequest 0 none failoverScript).events =
        clientCalls last.result.events := by
  obtain ⟨first, last, records, _, _, sent⟩ := failover_records
  have committed := first_byte_commit defaultHandler chatRequest 0 none failoverScript
    [first] last records
  exact ⟨first, last, records, committed.1 first (by simp), sent, (committed.2.1 sent).2⟩

end RadixGates.Handler
