import RadixGates.Breaker.Verdicts
import RadixGates.Handler.Discipline
import RadixGates.Handler.Truncation

/-!
# What counts against a node

An attempt hands its lease back with a verdict or without one.  Without one
means that the client is gone or takes no more, that the node was busy, that
there was no request to send, or that the overall deadline has passed.  A node
that answers nothing is charged when the first-byte timer ends the attempt
before that deadline.
-/

set_option autoImplicit false

namespace RadixGates.Handler

open RadixGates.Breaker (Session Ticket)
open RadixGates.Settings (Reliability)

/-! ## Verdicts -/

/-- How a call closes the lease: `Done` with its verdict, or `Release`. -/
def Event.verdict : Event → Option (Option Bool)
  | .leaseDone success => some (some success)
  | .leaseRelease => some none
  | _ => none

def verdicts (events : List Event) : List (Option Bool) := events.filterMap Event.verdict

@[simp] theorem verdicts_append (xs ys : List Event) :
    verdicts (xs ++ ys) = verdicts xs ++ verdicts ys :=
  List.filterMap_append

theorem ClientOnly.verdicts {events : List Event} (only : ClientOnly events) :
    Handler.verdicts events = [] := by
  apply List.filterMap_eq_nil_iff.mpr
  intro e member
  have onClient := only e member
  cases e <;> simp_all [Event.onClient, Event.verdict]

/-! ## A lease without a verdict -/

/-- The client cancelled or took a write no more, the node was busy, or the
upstream request could not be built. -/
inductive Excused (ctx : Ctx) (turn : Turn) (result : Attempted) : Prop where
  | unbuilt (fails : turn.requestFails = true)
  | busy (resp : Response) (answered : turn.upstream.response = some resp)
      (status : resp.status = 429)
  | canceled (gone : ctx.err result.now = some .canceled)
  | refusedWrite (resp : Response) (answered : turn.upstream.response = some resp) (read : Read)
      (member : read ∈ resp.body.reads) (refused : read.accepted = false)
      (handed : .write read.data ∈ result.events)

theorem Ctx.err_cases (ctx : Ctx) (now : Int) (done : ctx.err now ≠ none) :
    ctx.err now = some .canceled ∨ ctx.err now = some .deadlineExceeded := by
  cases err : ctx.err now with
  | none => exact absurd err done
  | some cause => cases cause <;> simp

theorem copyLoop_refused (now : Int) (reads : List Read)
    (refused : (copyLoop now reads).refused = true) :
    ∃ read ∈ reads, read.accepted = false ∧ .write read.data ∈ (copyLoop now reads).events := by
  induction reads generalizing now with
  | nil => cases refused
  | cons read rest ih =>
      simp only [copyLoop] at refused ⊢
      split_ifs at refused ⊢ with empty accepted
      · obtain ⟨later, member, no, written⟩ := ih _ refused
        exact ⟨later, List.mem_cons_of_mem _ member, no, written⟩
      · obtain ⟨later, member, no, written⟩ := ih _ refused
        exact ⟨later, List.mem_cons_of_mem _ member, no, by simp [written]⟩
      · exact ⟨read, List.mem_cons_self, by simpa using accepted, List.mem_singleton_self _⟩

section
variable (ctx : Ctx) (turn : Turn)

theorem giveUp_released (now firesAt : Int) (reason : Reason) (reads : List (List UInt8))
    (released : none ∈ verdicts (giveUp ctx now firesAt reason reads).events) :
    ctx.err (giveUp ctx now firesAt reason reads).now = some .canceled ∨
      ctx.err (giveUp ctx now firesAt reason reads).now = some .deadlineExceeded := by
  simp only [giveUp] at released ⊢
  split_ifs at released ⊢ with done fired
  · exact ctx.err_cases now done
  · simp [fail, verdicts, Event.verdict] at released
  · simp [fail, verdicts, Event.verdict] at released

theorem conclude_released (now : Int) (resp : Response)
    (released : none ∈ verdicts (conclude ctx now resp).1) :
    ctx.err now = some .canceled ∨ ctx.err now = some .deadlineExceeded := by
  unfold conclude at released
  cases stop : resp.body.stop with
  | eof => simp [stop, verdicts, Event.verdict] at released
  | failed =>
      simp only [stop] at released
      split_ifs at released with done sse
      · exact ctx.err_cases now done
      · simp [verdicts, Event.verdict] at released
      · simp [verdicts, Event.verdict] at released

/-- A committed attempt hands its lease back at a write that the client does not
take, or at the end of the body. -/
theorem commit_verdict (now : Int) (number : Nat) (node : String) (resp : Response)
    (v : Option Bool) (given : v ∈ verdicts (commit ctx now number node resp).events) :
    (v = none ∧ ∃ read ∈ resp.body.reads, read.accepted = false ∧
        .write read.data ∈ (commit ctx now number node resp).events) ∨
      v ∈ verdicts (conclude ctx (commit ctx now number node resp).now resp).1 := by
  by_cases invalid : resp.status < 100 ∨ 999 < resp.status
  · simp only [commit, if_pos invalid, (headers_clientOnly resp node number).verdicts] at given
    cases given
  have opened := opening_clientOnly resp node number
  have copied := copied_clientOnly (now + resp.body.first.handing) resp.body.rest
  rw [commit_eq ctx now number node resp invalid] at given ⊢
  dsimp only at given ⊢
  split_ifs at given ⊢ with unwritten stopped
  · left
    rw [verdicts_append, opened.verdicts] at given
    refine ⟨List.mem_singleton.mp given, resp.body.first, List.mem_cons_self, ?_, ?_⟩
    · simpa using unwritten.2
    · exact List.mem_append_left _ (opening_write resp node number unwritten.1)
  · left
    rw [verdicts_append, (opened.append copied).verdicts] at given
    obtain ⟨read, member, refused, written⟩ := copyLoop_refused _ _ stopped
    exact ⟨List.mem_singleton.mp given, read, List.mem_cons_of_mem _ member, refused,
      by simp [written]⟩
  · rw [verdicts_append, (opened.append copied).verdicts, List.nil_append] at given
    exact Or.inr given

theorem commit_released (now : Int) (number : Nat) (node : String) (resp : Response)
    (answered : turn.upstream.response = some resp)
    (released : none ∈ verdicts (commit ctx now number node resp).events) :
    Excused ctx turn (commit ctx now number node resp) ∨
      ctx.err (commit ctx now number node resp).now = some .deadlineExceeded := by
  rcases commit_verdict ctx now number node resp none released with
    ⟨_, read, member, refused, handed⟩ | concluded
  · exact Or.inl (Excused.refusedWrite resp answered read member refused handed)
  · rcases conclude_released ctx _ resp concluded with gone | passed
    · exact Or.inl (Excused.canceled gone)
    · exact Or.inr passed

/-- A lease closed without a verdict has one of the four excuses, or the overall
deadline has passed. -/
theorem attempt_released (rel : Reliability) (stream : Bool) (now : Int) (number : Nat)
    (node : String)
    (released : none ∈ verdicts
      (attempt rel ctx stream now number node turn.requestFails turn.upstream).events) :
    Excused ctx turn (attempt rel ctx stream now number node turn.requestFails turn.upstream) ∨
      ctx.err (attempt rel ctx stream now number node turn.requestFails turn.upstream).now =
        some .deadlineExceeded := by
  cases built : turn.requestFails with
  | true => exact Or.inl (Excused.unbuilt built)
  | false =>
      simp only [attempt, built, Bool.false_eq_true, if_false] at released ⊢
      cases answered : turn.upstream.response with
      | none =>
          simp only [answered] at released
          rcases giveUp_released ctx _ _ _ _ released with gone | passed
          · exact Or.inl (Excused.canceled gone)
          · exact Or.inr passed
      | some resp =>
          simp only [answered] at released ⊢
          split_ifs at released ⊢ with busy broken empty
          · exact Or.inl (Excused.busy resp answered busy)
          · simp [fail, verdicts, Event.verdict] at released
          · rcases giveUp_released ctx _ _ _ _ released with gone | passed
            · exact Or.inl (Excused.canceled gone)
            · exact Or.inr passed
          · exact commit_released ctx turn _ number node resp answered released

end

/-! ## A node that sends nothing -/

/-- The node accepts the attempt and sends no header, or no body after it; the
failure is seen at `seen`. -/
inductive Hung (turn : Turn) (started : Int) : (seen : Int) → Prop where
  | noHeader (built : turn.requestFails = false) (silent : turn.upstream.response = none) :
      Hung turn started (started + turn.upstream.elapsed)
  | noBody (built : turn.requestFails = false) (resp : Response)
      (answered : turn.upstream.response = some resp) (notBusy : resp.status ≠ 429)
      (notBroken : ¬ (500 ≤ resp.status ∧ resp.status ≠ 501))
      (empty : resp.body.first.data = [] ∧ resp.body.rest = [] ∧ resp.body.stop = .failed) :
      Hung turn started (started + turn.upstream.elapsed + resp.body.first.elapsed)

theorem Hung.gives_up {turn : Turn} {started seen : Int} (hung : Hung turn started seen)
    (rel : Reliability) (ctx : Ctx) (stream : Bool) (number : Nat) (node : String) :
    ∃ reason reads,
      attempt rel ctx stream started number node turn.requestFails turn.upstream =
        giveUp ctx seen (started + firstByte rel stream) reason reads := by
  cases hung with
  | noHeader built silent =>
      exact ⟨.connError, [], by simp only [attempt, built, silent, Bool.false_eq_true, if_false]⟩
  | noBody built resp answered notBusy notBroken empty =>
      refine ⟨.readError, [resp.body.first.data], ?_⟩
      simp only [attempt, built, answered, Bool.false_eq_true, if_false, if_neg notBusy,
        if_neg notBroken, if_pos empty]

theorem Ctx.err_none_of_stays (ctx : Ctx) (now : Int)
    (stays : ∀ gone, ctx.clientGone = some gone → now < gone) (early : now < ctx.deadline) :
    ctx.err now = none := by
  rw [ctx.err_none, Ctx.doneAt]
  cases gone : ctx.clientGone with
  | none => exact early
  | some leaves => exact lt_min (stays leaves gone) early

theorem Ctx.doneAt_le_deadline (ctx : Ctx) : ctx.doneAt ≤ ctx.deadline := by
  unfold Ctx.doneAt
  cases ctx.clientGone with
  | none => exact le_rfl
  | some gone => exact min_le_right _ _

/-- The timer that ends the attempt before the deadline is seen as a timeout. -/
theorem Hung.charged {turn : Turn} {started seen : Int} (hung : Hung turn started seen)
    (rel : Reliability) (ctx : Ctx) (stream : Bool) (number : Nat) (node : String) (late : Nat)
    (cut : seen = min (started + firstByte rel stream) ctx.doneAt + late)
    (stays : ∀ gone, ctx.clientGone = some gone → seen < gone)
    (early : started + firstByte rel stream + late < ctx.deadline) :
    (attempt rel ctx stream started number node turn.requestFails turn.upstream).events =
      [.leaseDone false, .upstreamAttempt .timeout] := by
  have before : seen < ctx.deadline := by
    have := min_le_left (started + firstByte rel stream) ctx.doneAt
    omega
  have alive := ctx.err_none_of_stays seen stays before
  have fired : started + firstByte rel stream ≤ seen := by
    rw [ctx.err_none] at alive
    omega
  obtain ⟨reason, reads, gives⟩ := hung.gives_up rel ctx stream number node
  rw [gives, giveUp, if_neg (by simp [alive]), if_pos fired]
  rfl

/-- A timer that does not end before the overall deadline ends nothing. -/
theorem Hung.released {turn : Turn} {started seen : Int} (hung : Hung turn started seen)
    (rel : Reliability) (ctx : Ctx) (stream : Bool) (number : Nat) (node : String)
    (passed : ctx.doneAt ≤ seen) :
    verdicts (attempt rel ctx stream started number node turn.requestFails turn.upstream).events =
      [none] := by
  have ended : ctx.err seen ≠ none := by
    rw [ne_eq, ctx.err_none]
    omega
  obtain ⟨reason, reads, gives⟩ := hung.gives_up rel ctx stream number node
  rw [gives, giveUp, if_pos ended]
  rfl

/-! ## The breaker -/

/-- A lease handed back to the breaker that issued its ticket. -/
structure Handback where
  now : Int
  ticket : Ticket
  events : List Event

def Handback.report (b : Breaker) (back : Handback) : Breaker :=
  (verdicts back.events).foldl (fun b verdict => Router.reportTo b back.now back.ticket verdict) b

theorem opened_by_handbacks (b : Breaker) (closed : b.state = .closed)
    (below : b.consecFail < b.cfg.failureThreshold) (backs : List Handback)
    (current : ∀ back ∈ backs, back.ticket.gen = b.gen)
    (failed : ∀ back ∈ backs, verdicts back.events = [some false])
    (enough : b.cfg.failureThreshold ≤ b.consecFail + backs.length) :
    ∃ k ≤ backs.length, ((backs.take k).foldl Handback.report b).state = .opened := by
  have reports : ∀ (backs : List Handback) (b : Breaker),
      (∀ back ∈ backs, verdicts back.events = [some false]) →
      backs.foldl Handback.report b =
        (backs.map fun back => (back.now, back.ticket)).foldl (fun b r => b.done r.1 r.2 false)
          b := by
    intro backs
    induction backs with
    | nil => exact fun _ _ => rfl
    | cons back rest ih =>
        intro b failed
        rw [List.foldl_cons, List.map_cons, List.foldl_cons,
          ih _ fun other member => failed other (List.mem_cons_of_mem _ member), Handback.report,
          failed back List.mem_cons_self]
        rfl
  obtain ⟨k, few, opened⟩ := b.opened_by_failures closed below
    (backs.map fun back => (back.now, back.ticket))
    (by
      intro r member
      obtain ⟨back, inBacks, rfl⟩ := List.mem_map.mp member
      exact current back inBacks)
    (by simpa using enough)
  refine ⟨k, by simpa using few, ?_⟩
  rw [reports _ b fun back member => failed back (List.mem_of_mem_take member), List.map_take]
  exact opened

/-! ## The property -/

/-- In every attempt of a request: a node that hangs until the first-byte timer
has ended the attempt, `late` before this is seen, is charged if the overall
deadline is not reached by then and the client stays.  That is never so when
nothing is streamed: then the deadline ends the attempt and nobody is charged.  A
lease closed without a verdict has an excuse, or the overall deadline has passed.
As many charges as the threshold says open a closed breaker. -/
theorem hung_node_charged (h : DirectChatHandler) (req : Incoming) (start : Int)
    (clientGone : Option Int) (script : Nat → Turn) (stream : Bool)
    (accepted : req.parsed = .accepted stream) :
    (∀ r ∈ (serveHTTP h req start clientGone script).records,
      (∀ (seen : Int) (late : Nat), Hung (script r.number) r.started seen →
        seen = min (r.started + firstByte h.init stream) (h.ctx start clientGone).doneAt + late →
        (∀ gone, clientGone = some gone → seen < gone) →
        r.started + firstByte h.init stream + late < start + h.init.overallTimeout →
        verdicts r.result.events = [some false]) ∧
      (stream = false → start + h.init.overallTimeout ≤ r.started + firstByte h.init stream ∧
        ∀ (seen : Int) (late : Nat), Hung (script r.number) r.started seen →
          seen = min (r.started + firstByte h.init stream) (h.ctx start clientGone).doneAt + late →
          verdicts r.result.events = [none]) ∧
      (none ∈ verdicts r.result.events →
        Excused (h.ctx start clientGone) (script r.number) r.result ∨
          (h.ctx start clientGone).err r.result.now = some .deadlineExceeded)) ∧
    ∀ (cfg : Breaker.Config) (clock : Int) (calls : List (Int × Breaker.Call)) (s : Session),
      Session.Reached cfg clock calls s → s.b.state = .closed →
      ∀ backs : List Handback, (∀ back ∈ backs, back.ticket.gen = s.b.gen) →
        (∀ back ∈ backs, verdicts back.events = [some false]) →
        s.b.cfg.failureThreshold ≤ backs.length →
        ∃ k ≤ backs.length, ((backs.take k).foldl Handback.report s.b).state = .opened := by
  constructor
  · intro r member
    obtain ⟨stream', same, s, after, isMade⟩ :=
      serveHTTP_made h req start clientGone script r member
    obtain rfl : stream' = stream := by simpa [accepted] using same.symm
    have clock := (isMade.now h.init (h.ctx start clientGone) stream' script).1
    obtain ⟨started, node, _, rfl⟩ := isMade
    refine ⟨?_, ?_, ?_⟩
    · intro seen late hung cut stays early
      have events := hung.charged h.init (h.ctx start clientGone) stream' s.attempt node late cut
        stays early
      simp only [Loop.attemptOn] at events ⊢
      rw [events]
      rfl
    · rintro rfl
      have overall : start + h.init.overallTimeout ≤
          (s.attemptOn h.init (h.ctx start clientGone) false script started node).started +
            firstByte h.init false := by
        simp only [firstByte, Bool.false_eq_true, if_false]
        omega
      refine ⟨overall, ?_⟩
      intro seen late hung cut
      apply hung.released h.init (h.ctx start clientGone) false s.attempt node
      have first : (h.ctx start clientGone).doneAt ≤ start + h.init.overallTimeout :=
        (h.ctx start clientGone).doneAt_le_deadline
      omega
    · exact attempt_released (h.ctx start clientGone) (script s.attempt) h.init stream' started
        s.attempt node
  · intro cfg clock calls s reached closed backs current failed enough
    obtain ⟨counted, below⟩ := (Session.counted_of_reached reached).failures closed
    exact opened_by_handbacks s.b closed below backs current failed (by omega)

/-! Every node takes the connection and answers nothing. -/

def hungScript (elapsed : Nat) : Nat → Turn :=
  fun number => turnOn ("n" ++ toString number) ⟨elapsed, none, 0⟩

theorem hungScript_hung (elapsed number : Nat) (started : Int) :
    Hung (hungScript elapsed number) started (started + elapsed) :=
  .noHeader rfl rfl

def fiveFailures : Breaker.Config := ⟨5, 5 * second, 60 * second, 1⟩

theorem hungScript_opens_breaker :
    ∃ r ∈ (serveHTTP defaultHandler chatRequest 0 none (hungScript 15000000000)).records,
      verdicts r.result.events = [some false] ∧
        ∃ k ≤ 5, (((List.replicate 5 (Handback.mk 0 ⟨false, 0⟩ r.result.events)).take k).foldl
          Handback.report (Breaker.new fiveFailures)).state = .opened := by
  obtain ⟨charged, opened⟩ := hung_node_charged defaultHandler chatRequest 0 none
    (hungScript 15000000000) true rfl
  have shape : (serveHTTP defaultHandler chatRequest 0 none (hungScript 15000000000)).records.map
      (fun r => r.started) = [0, 15012500000, 30037500000] := by
    decide +kernel
  obtain ⟨r, rest, records, started, _⟩ := List.map_eq_cons_iff.mp shape
  have member : r ∈
      (serveHTTP defaultHandler chatRequest 0 none (hungScript 15000000000)).records := by
    rw [records]
    exact List.mem_cons_self
  have failed : verdicts r.result.events = [some false] := by
    apply (charged r member).1 (r.started + 15000000000) 0
      (hungScript_hung 15000000000 r.number r.started)
    · rw [started]
      decide
    · intro gone leaves
      cases leaves
    · rw [started]
      decide
  obtain ⟨k, few, isOpen⟩ := opened fiveFailures 0 [] (Session.start fiveFailures 0) rfl rfl
    (List.replicate 5 ⟨0, ⟨false, 0⟩, r.result.events⟩)
    (by
      intro back isBack
      rw [List.eq_of_mem_replicate isBack]
      rfl)
    (by
      intro back isBack
      rw [List.eq_of_mem_replicate isBack]
      exact failed)
    (by rw [List.length_replicate]; decide)
  exact ⟨r, member, failed, k, by simpa using few, isOpen⟩

/-! A request that does not stream waits for the overall deadline; a stream is
cut by it. -/

def wholeRequest : Incoming := ⟨"POST", .accepted false⟩

theorem deadline_charges_nobody :
    (¬ ∀ (h : DirectChatHandler) (req : Incoming) (start : Int) (clientGone : Option Int)
      (script : Nat → Turn) (stream : Bool), req.parsed = .accepted stream →
      0 < h.init.attemptTimeout → 0 < h.init.overallTimeout →
      ∀ r ∈ (serveHTTP h req start clientGone script).records,
      ∀ (seen : Int) (late : Nat), Hung (script r.number) r.started seen →
      seen = min (r.started + firstByte h.init stream) (h.ctx start clientGone).doneAt + late →
      (∀ gone, clientGone = some gone → seen < gone) →
      verdicts r.result.events = [some false]) ∧
    ¬ ∀ (h : DirectChatHandler) (req : Incoming) (start : Int) (clientGone : Option Int)
      (script : Nat → Turn), 0 < h.init.attemptTimeout → 0 < h.init.overallTimeout →
      ∀ r ∈ (serveHTTP h req start clientGone script).records,
      none ∈ verdicts r.result.events →
      Excused (h.ctx start clientGone) (script r.number) r.result := by
  constructor
  · intro claim
    have shape : (serveHTTP defaultHandler wholeRequest 0 none (hungScript 600000000000)).records.map
        (fun r => (r.started, verdicts r.result.events)) = [(0, [none])] := by
      decide +kernel
    obtain ⟨r, rest, records, facts, _⟩ := List.map_eq_cons_iff.mp shape
    obtain ⟨started, released⟩ := Prod.mk.inj facts
    have charged := claim defaultHandler wholeRequest 0 none (hungScript 600000000000) false rfl
      (by decide) (by decide) r (by rw [records]; exact List.mem_cons_self)
      (r.started + 600000000000) 0 (hungScript_hung 600000000000 r.number r.started)
      (by rw [started]; decide) (by simp)
    rw [released] at charged
    cases charged
  · intro claim
    have shape : (serveHTTP hastyHandler chatRequest 0 none deadlineScript).records.map
        (fun r => (verdicts r.result.events, (hastyHandler.ctx 0 none).err r.result.now)) =
          [([none], some .deadlineExceeded)] := by
      decide +kernel
    obtain ⟨r, rest, records, facts, _⟩ := List.map_eq_cons_iff.mp shape
    obtain ⟨released, passed⟩ := Prod.mk.inj facts
    have excused := claim hastyHandler chatRequest 0 none deadlineScript (by decide) (by decide) r
      (by rw [records]; exact List.mem_cons_self) (by rw [released]; exact List.mem_singleton_self _)
    cases excused with
    | unbuilt fails => cases fails
    | busy resp answered status =>
        obtain rfl : cutStream = resp := by simpa [deadlineScript, turnOn] using answered
        cases status
    | canceled gone =>
        rw [passed] at gone
        cases gone
    | refusedWrite resp answered read member refused handed =>
        obtain rfl : cutStream = resp := by simpa [deadlineScript, turnOn] using answered
        have takes : ∀ read ∈ cutStream.body.reads, read.accepted = true := by decide
        rw [takes read member] at refused
        cases refused

end RadixGates.Handler
