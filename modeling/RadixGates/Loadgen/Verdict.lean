import RadixGates.Handler.Interrupted
import RadixGates.Loadgen.Requests
import RadixGates.Mock.Stream

/-!
# What the load generator counts as a success

The worker streams, the gateway forwards what it gets of the stream and marks an
interruption, and the load generator looks at the lines.  The stream may be cut
at any byte, also inside a line, where the mark of the gateway becomes part of
the torn line.
-/

set_option autoImplicit false

namespace RadixGates.Loadgen

open RadixGates.Handler
open RadixGates.EventStream (LF)
open RadixGates.Lines (lines trimSpace)
open RadixGates.Mock (doneFrame doneLine frame tokenLine)

/-! ## Kinds of lines -/

inductive Kind where
  | done
  | error
  | token
  | other
  deriving DecidableEq, Repr

def kindOf (line : List UInt8) : Kind :=
  if bytesOf "data: [DONE]" <+: trimSpace line then .done
  else if bytesOf "\"error\"" <:+: trimSpace line then .error
  else if bytesOf "data:" <+: trimSpace line then .token
  else .other

def kinds (body : List UInt8) : List Kind := (lines body).map kindOf

theorem line_kind (seen : Seen) (line : List UInt8) :
    seen.line line =
      ⟨seen.token || kindOf line == .token, seen.done || kindOf line == .done,
        seen.err || kindOf line == .error⟩ := by
  simp only [Seen.line, kindOf]
  split_ifs <;> simp [beq_eq_decide]

theorem foldl_line (seen : Seen) (rest : List (List UInt8)) :
    rest.foldl Seen.line seen =
      ⟨seen.token || rest.any fun line => kindOf line == .token,
        seen.done || rest.any fun line => kindOf line == .done,
        seen.err || rest.any fun line => kindOf line == .error⟩ := by
  induction rest generalizing seen with
  | nil => simp
  | cons line rest ih =>
      rw [List.foldl_cons, ih, line_kind]
      simp [Bool.or_assoc]

/-- The three conditions of `ok`. -/
def Succeeds (body : List UInt8) : Prop :=
  .token ∈ kinds body ∧ .done ∈ kinds body ∧ .error ∉ kinds body

instance decidableSucceeds (body : List UInt8) : Decidable (Succeeds body) :=
  inferInstanceAs (Decidable (_ ∧ _ ∧ _))

theorem scan_ok (body : List UInt8) :
    ((scan body).token && (scan body).done && !(scan body).err) = true ↔ Succeeds body := by
  have seen : ∀ kind : Kind,
      ((lines body).any fun line => kindOf line == kind) = true ↔ kind ∈ kinds body := by
    intro kind
    simp [kinds, List.any_eq_true]
  unfold scan Succeeds
  rw [foldl_line]
  simp only [Bool.false_or, Bool.and_eq_true, Bool.not_eq_true', ← Bool.not_eq_true, seen, and_assoc]

theorem kinds_line (line rest : List UInt8) (plain : LF ∉ line) :
    kinds (line ++ LF :: rest) = kindOf (line ++ [LF]) :: kinds rest := by
  rw [kinds, Lines.lines_line line rest plain]
  rfl

/-! ## Token lines -/

/-- What every token line starts with; the mark of the end does not. -/
def tokenStart : List UInt8 := bytesOf "data: \x7b"

theorem tokenStart_starts (i : Nat) : tokenStart <+: tokenLine i := by
  have starts : tokenStart <+:
      bytesOf "data: \x7b\"choices\":[\x7b\"index\":0,\"delta\":\x7b\"content\":\"tok" := by
    decide +kernel
  rw [tokenLine, List.append_assoc]
  exact starts.trans (List.prefix_append _ _)

theorem not_done_of_tokenStart (line : List UInt8) (starts : tokenStart <+: line) :
    ¬ bytesOf "data: [DONE]" <+: line := by
  intro done
  have both := List.prefix_of_prefix_length_le starts done (by decide +kernel)
  revert both
  decide +kernel

theorem not_error_tokenLine (i : Nat) : ¬ bytesOf "\"error\"" <:+: tokenLine i := by
  intro found
  have apart : ∀ d ∈ Mock.decimal i, d ∉ bytesOf "\"error\"" := by
    intro d member inside
    obtain ⟨low, high⟩ := Mock.decimal_digit i d member
    have letters : ∀ b ∈ bytesOf "\"error\"", ¬ (48 ≤ b ∧ b ≤ 57) := by decide +kernel
    exact letters d inside ⟨low, high⟩
  rcases Lines.infix_skip _ _ _ _ (by decide +kernel) apart (Mock.decimal_ne_nil i) found with
    left | right
  · revert left
    decide +kernel
  · revert right
    decide +kernel

theorem solid_d : Lines.Solid Lines.spaces 100 := by decide +kernel

theorem solid_brace : Lines.Solid (Lines.spaces.map List.reverse) 125 := by decide +kernel

theorem tokenLine_cons (i : Nat) : ∃ rest, tokenLine i = 100 :: rest := by
  obtain ⟨rest, shape⟩ := tokenStart_starts i
  have first : tokenStart = 100 :: tokenStart.tail := by decide +kernel
  rw [first] at shape
  exact ⟨_, shape.symm⟩

theorem tokenLine_snoc (i : Nat) : ∃ front, tokenLine i = front ++ [125] := by
  have last : bytesOf " \"\x7d\x7d]\x7d" = bytesOf " \"\x7d\x7d]" ++ [125] := by decide +kernel
  rw [tokenLine, last, ← List.append_assoc]
  exact ⟨_, rfl⟩

theorem kindOf_tokenLine (i : Nat) : kindOf (tokenLine i ++ [LF]) = .token := by
  obtain ⟨rest, shape⟩ := tokenLine_cons i
  have trimmed := Lines.trimSpace_newline 100 125 (tokenLine i) rest shape (tokenLine_snoc i)
    solid_d solid_brace
  have data : bytesOf "data:" <+: tokenLine i := by
    have starts : bytesOf "data:" <+: tokenStart := by decide +kernel
    exact starts.trans (tokenStart_starts i)
  rw [kindOf, trimmed, if_neg (not_done_of_tokenStart _ (tokenStart_starts i)),
    if_neg (not_error_tokenLine i), if_pos data]

theorem kinds_frame (i : Nat) (rest : List UInt8) :
    kinds (frame i ++ rest) = .token :: .other :: kinds rest := by
  have blank : kindOf [LF] = .other := by decide +kernel
  have split : frame i ++ rest = tokenLine i ++ LF :: ([] ++ LF :: rest) := by simp [frame]
  rw [split, kinds_line _ _ (Mock.tokenLine_plain i), kinds_line _ _ (by simp), kindOf_tokenLine i,
    List.nil_append, blank]

theorem kinds_frames (xs : List Nat) (rest : List UInt8) :
    kinds (xs.flatMap frame ++ rest) = xs.flatMap (fun _ => [.token, .other]) ++ kinds rest := by
  induction xs with
  | nil => rfl
  | cons x xs ih =>
      rw [List.flatMap_cons, List.append_assoc, kinds_frame, ih]
      rfl

/-! ## A cut inside a token -/

theorem other_of_nil : kindOf [] = .other := by decide +kernel

/-- No piece of a token line is the mark of the end. -/
theorem not_done_torn (i : Nat) (q : List UInt8) (torn : q <+: tokenLine i) :
    kindOf q ≠ .done := by
  intro done
  cases q with
  | nil =>
      rw [other_of_nil] at done
      cases done
  | cons b rest =>
      obtain ⟨tail, shape⟩ := tokenLine_cons i
      rw [shape] at torn
      obtain rfl := (List.cons_prefix_cons.mp torn).1
      have trimmed := (Lines.trimSpace_prefix 100 rest solid_d).trans torn
      rw [← shape] at trimmed
      unfold kindOf at done
      split_ifs at done with marked
      exact not_done_of_tokenStart _ (tokenStart_starts i) (marked.trans trimmed)

/-- The line of the error event. -/
def interruptedLine : List UInt8 := EventStream.dataLine (bytesOf interruptedJSON)

theorem interruptedLine_plain : LF ∉ interruptedLine := by
  have json : LF ∉ bytesOf interruptedJSON := fun member => (interruptedJSON_plain LF member).1 rfl
  have name : LF ∉ EventStream.dataName ∧ LF ≠ EventStream.colon ∧ LF ≠ EventStream.space := by
    decide
  simp [interruptedLine, EventStream.dataLine, json, name]

/-- The error event after a torn token line is still seen as an error. -/
theorem error_torn (i : Nat) (q : List UInt8) (torn : q <+: tokenLine i) :
    kindOf (q ++ interruptedLine ++ [LF]) = .error := by
  have starts : ∃ rest, q ++ interruptedLine = 100 :: rest := by
    cases q with
    | nil => exact ⟨_, rfl⟩
    | cons b rest =>
        obtain ⟨tail, shape⟩ := tokenLine_cons i
        rw [shape] at torn
        obtain rfl := (List.cons_prefix_cons.mp torn).1
        exact ⟨_, rfl⟩
  have ends : ∃ front, q ++ interruptedLine = front ++ [125] := by
    have last : interruptedLine = interruptedLine.dropLast ++ [125] := by decide +kernel
    rw [last, ← List.append_assoc]
    exact ⟨_, rfl⟩
  obtain ⟨rest, shape⟩ := starts
  have trimmed := Lines.trimSpace_newline 100 125 _ rest shape ends solid_d solid_brace
  have unmarked : ¬ bytesOf "data: [DONE]" <+: q ++ interruptedLine := by
    rcases List.prefix_or_prefix_of_prefix torn (tokenStart_starts i) with short | long
    · have few : ∀ p ∈ tokenStart.inits, ¬ bytesOf "data: [DONE]" <+: p ++ interruptedLine := by
        decide +kernel
      exact few q ((List.mem_inits _ _).mpr short)
    · exact not_done_of_tokenStart _ (long.trans (List.prefix_append _ _))
  have marked : bytesOf "\"error\"" <:+: q ++ interruptedLine := by
    have inside : bytesOf "\"error\"" <:+: interruptedLine := by decide +kernel
    exact inside.trans (List.suffix_append q interruptedLine).isInfix
  rw [kindOf, trimmed, if_neg unmarked, if_pos marked]

/-- A frame that is not complete stops in its line, or at the end of it. -/
theorem frame_cut (i : Nat) (q : List UInt8) (stops : q <+: frame i) (proper : q ≠ frame i) :
    q <+: tokenLine i ∨ q = tokenLine i ++ [LF] := by
  have split : frame i = (tokenLine i ++ [LF]) ++ [LF] := by simp [frame]
  rw [split] at stops proper
  rcases List.prefix_concat_iff.mp stops with whole | shorter
  · exact absurd whole proper
  · rcases List.prefix_concat_iff.mp shorter with line | torn
    · exact Or.inr line
    · exact Or.inl torn

theorem prefix_plain {q line : List UInt8} (torn : q <+: line) (plain : LF ∉ line) : LF ∉ q :=
  fun member => plain (torn.subset member)

theorem torn_unfinished (i : Nat) (q : List UInt8) (stops : q <+: frame i)
    (proper : q ≠ frame i) : .done ∉ kinds q := by
  rcases frame_cut i q stops proper with torn | rfl
  · rw [kinds, Lines.lines_plain q (prefix_plain torn (Mock.tokenLine_plain i))]
    simpa using (not_done_torn i q torn).symm
  · have nothing : kinds [] = [.other] := by decide +kernel
    rw [kinds_line (tokenLine i) [] (Mock.tokenLine_plain i), kindOf_tokenLine i, nothing]
    simp

theorem torn_error (i : Nat) (q : List UInt8) (stops : q <+: frame i) (proper : q ≠ frame i) :
    .error ∈ kinds (q ++ interruptedEvent) := by
  have after : ∀ p, p <+: tokenLine i → .error ∈ kinds (p ++ interruptedEvent) := by
    intro p torn
    have plain : LF ∉ p ++ interruptedLine := by
      simp [prefix_plain torn (Mock.tokenLine_plain i), interruptedLine_plain]
    have split : p ++ interruptedEvent = (p ++ interruptedLine) ++ LF :: [LF] := by
      simp [interruptedEvent_eq, interruptedLine]
    rw [split, kinds_line _ _ plain, error_torn i p torn]
    exact List.mem_cons_self
  rcases frame_cut i q stops proper with torn | rfl
  · exact after q torn
  · rw [List.append_assoc, List.singleton_append, kinds_line _ _ (Mock.tokenLine_plain i)]
    exact List.mem_cons_of_mem _ (after [] List.nil_prefix)

/-! ## A cut at the end of the stream -/

/-- The end of the stream, cut anywhere, with and without the error event: it is
seen when its line is there, and the event is missed only if it sticks to that
line. -/
theorem doneFrame_cut (q : List UInt8) (stops : q <+: doneFrame) :
    (.done ∈ kinds q ↔ doneLine <+: q) ∧ .error ∉ kinds q ∧
      ((.done ∈ kinds (q ++ interruptedEvent) ∧ .error ∉ kinds (q ++ interruptedEvent)) ↔
        q = doneLine) := by
  have every : ∀ p ∈ doneFrame.inits, (.done ∈ kinds p ↔ doneLine <+: p) ∧ .error ∉ kinds p ∧
      ((.done ∈ kinds (p ++ interruptedEvent) ∧ .error ∉ kinds (p ++ interruptedEvent)) ↔
        p = doneLine) := by
    decide +kernel
  exact every q ((List.mem_inits _ _).mpr stops)

theorem succeeds_frames (xs : List Nat) (some : xs ≠ []) (rest : List UInt8) :
    Succeeds (xs.flatMap frame ++ rest) ↔ .done ∈ kinds rest ∧ .error ∉ kinds rest := by
  have token : Kind.token ∈ xs.flatMap fun _ => [Kind.token, .other] := by
    obtain ⟨x, member⟩ := List.exists_mem_of_ne_nil xs some
    exact List.mem_flatMap.mpr ⟨x, member, by simp⟩
  simp [Succeeds, kinds_frames, token]

theorem unfinished_frames (xs : List Nat) (rest : List UInt8)
    (unfinished : .done ∉ kinds rest ∨ .error ∈ kinds rest) :
    ¬ Succeeds (xs.flatMap frame ++ rest) := by
  rintro ⟨_, done, clean⟩
  rw [kinds_frames] at done clean
  rcases unfinished with cut | marked
  · simp [cut] at done
  · exact clean (List.mem_append_right _ marked)

/-- A stream that is cut anywhere counts as a success if the mark of the end is
there; with the error event, only if the cut is right behind the mark. -/
theorem succeeds_iff (xs : List Nat) (some : xs ≠ []) (p : List UInt8)
    (stops : p <+: xs.flatMap frame ++ doneFrame) :
    (Succeeds p ↔ xs.flatMap frame ++ doneLine <+: p) ∧
      (Succeeds (p ++ interruptedEvent) ↔ p = xs.flatMap frame ++ doneLine) := by
  rcases Lines.prefix_flatMap frame xs doneFrame p stops with
    ⟨before, x, after, q, rfl, torn, proper, rfl⟩ | ⟨q, atEnd, rfl⟩
  · have short : ¬ (before ++ x :: after).flatMap frame ++ doneLine <+:
        before.flatMap frame ++ q := by
      intro long
      have bound := long.length_le
      have less : q.length < (frame x).length :=
        lt_of_le_of_ne torn.length_le fun same => proper (torn.eq_of_length same)
      simp only [List.flatMap_append, List.flatMap_cons, List.length_append] at bound
      omega
    refine ⟨iff_of_false ?_ short, iff_of_false ?_ fun same => short (same ▸ List.prefix_rfl)⟩
    · exact unfinished_frames before q (Or.inl (torn_unfinished x q torn proper))
    · rw [List.append_assoc]
      exact unfinished_frames before _ (Or.inr (torn_error x q torn proper))
  · obtain ⟨done, clean, marked⟩ := doneFrame_cut q atEnd
    constructor
    · rw [succeeds_frames xs some, List.prefix_append_right_inj, done]
      exact ⟨fun holds => holds.1, fun holds => ⟨holds, clean⟩⟩
    · rw [List.append_assoc, succeeds_frames xs some, marked, List.append_right_inj]

/-! ## Worker, gateway and load generator -/

theorem headerOf_committed (resp : Response) (node : String) (number : Nat)
    (events tail : List Event) (silent : Silent events) :
    headerOf headerNode
        (events ++ (resp.headers node number ++ .writeHeader resp.status :: tail)) = node ∧
      headerOf headerAttempts
        (events ++ (resp.headers node number ++ .writeHeader resp.status :: tail)) =
          toString number := by
  have unsent : ∀ e ∈ events ++ resp.headers node number, (!e.sends) = true := by
    intro e member
    rcases List.mem_append.mp member with early | header
    · have quiet := silent e early
      cases e <;> simp_all [Event.onClient, Event.sends]
    · cases e <;> simp_all [Response.headers, Event.sends]
  have before : (events ++ (resp.headers node number ++ .writeHeader resp.status :: tail)).takeWhile
      (fun e => !e.sends) = events ++ resp.headers node number := by
    rw [← List.append_assoc, List.takeWhile_append_of_pos unsent]
    simp [Event.sends]
  have apart : headerAttempts ≠ headerNode := by decide
  constructor
  · rw [headerOf, before]
    simp [Response.headers, apart]
  · rw [headerOf, before]
    simp [Response.headers]

/-- The answer to a request whose last attempt reached the client. -/
theorem received_of_sent (h : DirectChatHandler) (req : Incoming) (start : Int)
    (clientGone : Option Int) (script : Nat → Turn) (earlier : List Handler.Record)
    (last : Handler.Record)
    (records : (serveHTTP h req start clientGone script).records = earlier ++ [last])
    (sent : last.Sent) (resp : Response)
    (answered : (script last.number).upstream.response = some resp)
    (refused : List UInt8) :
    ∃ err, received refused (serveHTTP h req start clientGone script) =
      .answered resp.status (toString last.number) last.node
        (bodyOf (serveHTTP h req start clientGone script).events) err := by
  obtain ⟨retried, lastRetried | ⟨stream, s, isMade, ends⟩⟩ :=
    serveHTTP_last h req start clientGone script earlier last records
  · exact absurd sent lastRetried.not_sent
  · have tried := (isMade.tried _ _ _ _).2
    rcases tried.sent_or_silent with ⟨resp', answered', committed⟩ | ⟨unsent, _⟩
    · obtain rfl : resp' = resp := by simpa [answered] using answered'.symm
      obtain ⟨tail, events, _⟩ := committed.events
      have whole := events_of_sent ends records sent
      rw [events] at whole
      have silent := eventsOf_silent earlier retried
      obtain ⟨node, attempts⟩ := headerOf_committed resp' last.node last.number (eventsOf earlier)
        tail silent
      have sends : (serveHTTP h req start clientGone script).events.any Event.sends = true := by
        rw [whole]
        simp [Event.sends]
      have status : (statuses (serveHTTP h req start clientGone script).events).head? =
          some resp'.status := by
        rw [whole]
        simp [silent.statuses, headers_statuses]
      refine ⟨(serveHTTP h req start clientGone script).panic.map fun _ => bytesOf "unexpected EOF",
        ?_⟩
      unfold received
      rw [if_neg (by simp [sends]), status, whole, node, attempts]
      rfl
    · exact absurd unsent sent

theorem oneRequest_answered (status : Nat) (attempts backend : String) (body : List UInt8)
    (err : Option (List UInt8)) (made : Record)
    (recorded : made = oneRequest (.answered status attempts backend body err)) :
    made.status = status ∧ made.attempts = attempts ∧ made.backend = backend ∧
      (made.ok = true ↔ status = 200 ∧ Succeeds body) := by
  subst recorded
  rw [oneRequest]
  by_cases fine : status = 200
  · rw [if_neg (not_not.mpr fine)]
    refine ⟨rfl, rfl, rfl, ?_⟩
    rw [scan_ok]
    exact ⟨fun succeeds => ⟨fine, succeeds⟩, fun both => both.2⟩
  · rw [if_pos fine]
    exact ⟨rfl, rfl, rfl, by simp [fine]⟩

/-- The worker's stream is cut anywhere on its way to the gateway, or by the
worker itself, and the gateway forwards it to a client that takes everything.
The record names the attempt and the node that answered.  It is a success
exactly if all tokens and the mark of the end came through; if the gateway had
to mark an interruption, only if nothing came behind the mark of the end.  A
stream that the worker hung up in is never a success. -/
theorem success_means_complete (h : DirectChatHandler) (req : Incoming) (start : Int)
    (clientGone : Option Int) (script : Nat → Turn) (earlier : List Handler.Record)
    (last : Handler.Record)
    (records : (serveHTTP h req start clientGone script).records = earlier ++ [last])
    (sent : last.Sent) (resp : Response)
    (answered : (script last.number).upstream.response = some resp)
    (takes : TakesAll resp.body.reads) (o : Mock.Options) (f : Mock.Fault) (chat : Mock.ChatReq)
    (stream : resp.body.bytes <+: (Mock.streamed o f chat).1) (refused : List UInt8)
    (made : Record)
    (recorded : made = oneRequest (received refused (serveHTTP h req start clientGone script))) :
    made.status = resp.status ∧ made.attempts = toString last.number ∧ made.backend = last.node ∧
      (made.ok = true ↔ resp.status = 200 ∧
        if resp.body.stop = .failed ∧ (h.ctx start clientGone).err
            (resp.copiedAt last.started (script last.number).upstream.elapsed) = none ∧
            resp.isSSE = true then
          resp.body.bytes = Mock.allTokens o chat ++ doneLine
        else Mock.allTokens o chat ++ doneLine <+: resp.body.bytes) ∧
      ((Mock.streamed o f chat).2 = true → made.ok = false) := by
  obtain ⟨err, got⟩ := received_of_sent h req start clientGone script earlier last records sent resp
    answered refused
  obtain ⟨_, _, body⟩ := sent_concludes h req start clientGone script earlier last records sent
    resp answered takes
  rw [conclude_body] at body
  rw [got] at recorded
  obtain ⟨status, attempts, backend, ok⟩ := oneRequest_answered _ _ _ _ _ made recorded
  have cut : resp.body.bytes <+: Mock.allTokens o chat ++ doneFrame :=
    stream.trans (Mock.streamFrom_prefix f _ 0)
  have some : List.range' 0 (o.tokensFor chat).toNat ≠ [] := by
    have := Mock.tokensFor_pos o chat
    simp
    omega
  obtain ⟨bare, marked⟩ := succeeds_iff _ some resp.body.bytes cut
  have complete : made.ok = true ↔ resp.status = 200 ∧
      if resp.body.stop = .failed ∧ (h.ctx start clientGone).err
          (resp.copiedAt last.started (script last.number).upstream.elapsed) = none ∧
          resp.isSSE = true then
        resp.body.bytes = Mock.allTokens o chat ++ doneLine
      else Mock.allTokens o chat ++ doneLine <+: resp.body.bytes := by
    rw [ok, body]
    split_ifs with interrupted
    · exact and_congr_right fun _ => marked
    · rw [List.append_nil]
      exact and_congr_right fun _ => bare
  refine ⟨status, attempts, backend, complete, ?_⟩
  intro hung
  rw [← Bool.not_eq_true, complete]
  rintro ⟨_, whole⟩
  have through : Mock.allTokens o chat ++ doneLine <+: resp.body.bytes := by
    split_ifs at whole
    · rw [whole]
    · exact whole
  have short : (Mock.streamed o f chat).1 <+: Mock.allTokens o chat := by
    rcases Mock.streamFrom_cases f (o.tokensFor chat).toNat 0 with all | ⟨_, short⟩
    · simp [Mock.streamed, all] at hung
    · exact short
  have bound := (through.trans (stream.trans short)).length_le
  have long : 0 < doneLine.length := by decide +kernel
  rw [List.length_append] at bound
  omega

/-! One token and the mark of the end, in two reads. -/

def oneToken : Mock.ChatReq := ⟨[⟨"user", "\"hi\"", some "hi"⟩], true, 1⟩

def wholeStream : Response :=
  ⟨200, "text/event-stream", ⟨⟨frame 0, 1, true, 1⟩, [⟨doneFrame, 1, true, 1⟩], .eof⟩⟩

def wholeScript : Nat → Turn := fun _ => turnOn "n0" ⟨1, some wholeStream, 0⟩

theorem success_of_oneToken :
    let made := oneRequest (received [] (serveHTTP defaultHandler chatRequest 0 none wholeScript))
    made.ok = true ∧ made.backend = "n0" := by
  have shape : (serveHTTP defaultHandler chatRequest 0 none wholeScript).records.map
      (fun r => (r.node, statuses r.result.events)) = [("n0", [200])] := by
    decide +kernel
  obtain ⟨last, after, records, facts, ends⟩ := List.map_eq_cons_iff.mp shape
  obtain rfl := List.map_eq_nil_iff.mp ends
  obtain ⟨node, status⟩ := Prod.mk.inj facts
  obtain ⟨_, _, backend, complete, _⟩ := success_means_complete defaultHandler chatRequest 0 none
    wholeScript [] last records (by simp [Record.Sent, status]) wholeStream rfl
    (by unfold TakesAll; decide +kernel) ⟨"w", 0, 0, 0, 0, 0, 0⟩ ⟨.none, 0, 0⟩ oneToken
    (by decide +kernel) [] _ rfl
  refine ⟨complete.mpr ⟨rfl, ?_⟩, backend.trans node⟩
  rw [if_neg (by simp [wholeStream])]
  decide +kernel

end RadixGates.Loadgen
