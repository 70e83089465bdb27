import Mathlib.Data.List.Chain
import RadixGates.Handler.Charges

/-!
# The idle timer of a committed stream

`attempt` arms the timer after the first write and resets it when a read of the
loop returns.  It runs on while the bytes of that read are written to the client,
so it measures the write together with the next read.  Once it has fired the
context of the attempt is cancelled and the body yields nothing more.
-/

set_option autoImplicit false

namespace RadixGates.Handler

open RadixGates.Settings (Reliability)

/-! ## What the loop reads -/

/-- The reads of the loop under the timer, and whether it fired; the timer was
set `since` before the next read is called. -/
def idleCut (idle : Int) : (since : Nat) → List Read → List Read × Bool
  | _, [] => ([], false)
  | since, read :: rest =>
      if idle ≤ since + read.elapsed then ([⟨[], (idle - since).toNat, true, 0⟩], true)
      else
        let later := idleCut idle read.handing rest
        (read :: later.1, later.2)

/-- The response as `attempt` sees it, of a node that would send `resp`. -/
def Response.underIdle (idle : Int) (resp : Response) : Response :=
  let cut := idleCut idle 0 resp.body.rest
  { resp with
    body :=
      { resp.body with rest := cut.1, stop := if cut.2 then .failed else resp.body.stop } }

def Turn.underIdle (idle : Int) (turn : Turn) : Turn :=
  { turn with
    upstream :=
      { turn.upstream with response := turn.upstream.response.map (Response.underIdle idle) } }

/-- No write to the client takes the idle timeout together with the read after
it. -/
def NoGap (idle : Int) (reads : List Read) : Prop :=
  reads.IsChain fun read next => (read.handing : Int) + next.elapsed < idle

instance (idle : Int) (reads : List Read) : Decidable (NoGap idle reads) :=
  inferInstanceAs (Decidable (reads.IsChain _))

theorem idleCut_uncut (idle : Int) (since : Nat) (reads : List Read)
    (uncut : (idleCut idle since reads).2 = false) : (idleCut idle since reads).1 = reads := by
  induction reads generalizing since with
  | nil => rfl
  | cons read rest ih =>
      simp only [idleCut] at uncut ⊢
      split_ifs at uncut ⊢
      rw [ih _ uncut]

theorem idleCut_uncut_iff (idle : Int) (since : Nat) (read : Read) (rest : List Read) :
    (idleCut idle since (read :: rest)).2 = false ↔
      since + read.elapsed < idle ∧ NoGap idle (read :: rest) := by
  induction rest generalizing since read with
  | nil =>
      by_cases fired : idle ≤ since + read.elapsed
      · simp [idleCut, fired]
      · simp [idleCut, fired, NoGap]
        omega
  | cons next rest ih =>
      have later := ih read.handing next
      unfold NoGap at later ⊢
      rw [List.isChain_cons_cons, ← later, idleCut]
      by_cases fired : idle ≤ since + read.elapsed
      · simp [fired]
      · simp [fired]
        omega

theorem idleCut_takesAll (idle : Int) (since : Nat) (reads : List Read) (takes : TakesAll reads) :
    TakesAll (idleCut idle since reads).1 := by
  induction reads generalizing since with
  | nil => exact takes
  | cons read rest ih =>
      have later := ih read.handing fun other member => takes other (List.mem_cons_of_mem _ member)
      simp only [idleCut]
      split_ifs with fired
      · simp [TakesAll]
      · intro other member
        rcases List.mem_cons.mp member with rfl | member
        · exact takes other List.mem_cons_self
        · exact later other member

theorem idleCut_duration (idle : Int) (since : Nat) (reads : List Read) :
    duration (idleCut idle since reads).1 ≤ duration reads := by
  induction reads generalizing since with
  | nil => exact le_rfl
  | cons read rest ih =>
      have later := ih read.handing
      simp only [idleCut]
      split_ifs with fired
      · simp only [duration, List.map_cons, List.map_nil, List.sum_cons, List.sum_nil,
          Read.handing, if_true]
        omega
      · simp only [duration, List.map_cons, List.sum_cons] at later ⊢
        omega

/-! ## A node that does its part -/

/-- The upstream reports no error, and no read of the loop takes the idle
timeout by itself. -/
def Response.Healthy (idle : Int) (resp : Response) : Prop :=
  resp.body.stop = .eof ∧ ∀ read ∈ resp.body.rest, (read.elapsed : Int) < idle

theorem Response.healthy_or (idle : Int) (resp : Response) :
    resp.Healthy idle ∨ resp.body.stop = .failed ∨
      ∃ read ∈ resp.body.rest, idle ≤ read.elapsed := by
  by_cases slow : ∃ read ∈ resp.body.rest, idle ≤ read.elapsed
  · exact Or.inr (Or.inr slow)
  cases stop : resp.body.stop with
  | failed => exact Or.inr (Or.inl rfl)
  | eof =>
      left
      refine ⟨stop, ?_⟩
      intro read member
      exact not_le.mp fun silent => slow ⟨read, member, silent⟩

theorem Response.Healthy.uncut_iff {idle : Int} {resp : Response} (healthy : resp.Healthy idle) :
    (idleCut idle 0 resp.body.rest).2 = false ↔ NoGap idle resp.body.rest := by
  have quick := healthy.2
  cases rest : resp.body.rest with
  | nil => simp [idleCut, NoGap]
  | cons read later =>
      rw [rest] at quick
      have first := quick read List.mem_cons_self
      rw [idleCut_uncut_iff]
      simp [first]

theorem underIdle_uncut (idle : Int) (resp : Response)
    (uncut : (idleCut idle 0 resp.body.rest).2 = false) : resp.underIdle idle = resp := by
  simp only [Response.underIdle, idleCut_uncut _ _ _ uncut, uncut, Bool.false_eq_true, if_false]

theorem underIdle_cut (idle : Int) (resp : Response)
    (cut : (idleCut idle 0 resp.body.rest).2 = true) :
    (resp.underIdle idle).body.stop = .failed := by
  simp only [Response.underIdle, cut, if_true]

theorem underIdle_takesAll (idle : Int) (resp : Response) (takes : TakesAll resp.body.reads) :
    TakesAll (resp.underIdle idle).body.reads := by
  intro read member
  rcases List.mem_cons.mp member with rfl | member
  · exact takes resp.body.first List.mem_cons_self
  · exact idleCut_takesAll idle 0 resp.body.rest takes.rest read member

theorem underIdle_copiedAt (idle : Int) (resp : Response) (started : Int) (elapsed : Nat) :
    (resp.underIdle idle).copiedAt started elapsed ≤ resp.copiedAt started elapsed := by
  have shorter := idleCut_duration idle 0 resp.body.rest
  simp only [Response.copiedAt, duration_reads]
  change _ + (((resp.body.first.elapsed + resp.body.first.handing +
    duration (idleCut idle 0 resp.body.rest).1 : Nat)) : Int) ≤ _
  omega

theorem idleCut_nil (idle : Int) (since : Nat) (reads : List Read) :
    (idleCut idle since reads).1 = [] ↔ reads = [] := by
  cases reads with
  | nil => simp [idleCut]
  | cons read rest =>
      simp only [idleCut]
      split_ifs <;> simp

/-- The timer does not touch what decides on the commit. -/
theorem Commits.underIdle {turn : Turn} {resp : Response}
    (commits : Commits turn.requestFails turn.upstream resp) (idle : Int) :
    Commits (turn.underIdle idle).requestFails (turn.underIdle idle).upstream
      (resp.underIdle idle) where
  built := commits.built
  answered := by simp [Turn.underIdle, commits.answered]
  notBusy := commits.notBusy
  notBroken := commits.notBroken
  forwarded := by
    rintro ⟨noData, noRest, failed⟩
    have empty := (idleCut_nil idle 0 resp.body.rest).mp noRest
    have uncut : (idleCut idle 0 resp.body.rest).2 = false := by
      rw [empty]
      rfl
    rw [underIdle_uncut idle resp uncut] at failed
    exact commits.forwarded ⟨noData, empty, failed⟩

/-! ## The property -/

/-- A failure is reported only of a node that failed or was silent by itself. -/
def BlamesFaulty (idle : Int) (resp : Response) (result : Attempted) : Prop :=
  some false ∈ verdicts result.events →
    resp.body.stop = .failed ∨ ∃ read ∈ resp.body.rest, idle ≤ read.elapsed

/-- A healthy stream is forwarded as a whole and closed as a success, and only a
faulty one as a failure. -/
structure SparesNode (idle : Int) (resp : Response) (result : Attempted) : Prop where
  whole : resp.Healthy idle →
    bodyOf result.events = resp.body.bytes ∧ verdicts result.events = [some true]
  blamed : BlamesFaulty idle resp result

theorem conclude_eof (ctx : Ctx) (now : Int) (resp : Response) (stop : resp.body.stop = .eof) :
    bodyOf (conclude ctx now resp).1 = [] ∧ verdicts (conclude ctx now resp).1 = [some true] := by
  simp only [conclude, stop]
  exact ⟨rfl, rfl⟩

theorem conclude_blamed (ctx : Ctx) (now : Int) (resp : Response)
    (blamed : some false ∈ verdicts (conclude ctx now resp).1) : resp.body.stop = .failed := by
  cases stop : resp.body.stop with
  | failed => rfl
  | eof =>
      rw [(conclude_eof ctx now resp stop).2] at blamed
      simp at blamed

theorem conclude_failed (ctx : Ctx) (now : Int) (resp : Response)
    (stop : resp.body.stop = .failed) (live : ctx.err now = none) :
    verdicts (conclude ctx now resp).1 = [some false] := by
  simp only [conclude, stop, live, ne_eq, not_true_eq_false, if_false]
  split <;> rfl

theorem attempt_underIdle {turn : Turn} {resp : Response}
    (commits : Commits turn.requestFails turn.upstream resp) (valid : 100 ≤ resp.status)
    (takes : TakesAll resp.body.reads) (rel : Reliability) (ctx : Ctx) (stream : Bool)
    (started : Int) (number : Nat) (node : String) (idle : Int) :
    ∃ calls, ClientOnly calls ∧ bodyOf calls = (resp.underIdle idle).body.bytes ∧
      (attempt rel ctx stream started number node (turn.underIdle idle).requestFails
        (turn.underIdle idle).upstream).events =
        calls ++ (conclude ctx ((resp.underIdle idle).copiedAt started turn.upstream.elapsed)
          (resp.underIdle idle)).1 := by
  have small : ¬ (resp.status < 100 ∨ 999 < resp.status) := by
    have := commits.notBroken
    omega
  obtain ⟨calls, only, body, whole⟩ := commit_takesAll ctx started turn.upstream.elapsed number
    node (resp.underIdle idle) small (underIdle_takesAll idle resp takes)
  refine ⟨calls, only, body, ?_⟩
  rw [(commits.underIdle idle).attempt]
  exact congrArg Attempted.events whole

/-- Without a gap the timer changes nothing, so what is blamed is at fault; this
asks nothing of the client or the deadline. -/
theorem attempt_blamesFaulty {turn : Turn} {resp : Response}
    (commits : Commits turn.requestFails turn.upstream resp) (rel : Reliability) (ctx : Ctx)
    (stream : Bool) (started : Int) (number : Nat) (node : String) (idle : Int)
    (steady : resp.Healthy idle → NoGap idle resp.body.rest) :
    BlamesFaulty idle resp (attempt rel ctx stream started number node
      (turn.underIdle idle).requestFails (turn.underIdle idle).upstream) := by
  intro blamed
  rw [(commits.underIdle idle).attempt] at blamed
  rcases commit_verdict ctx _ number node _ _ blamed with ⟨impossible, _⟩ | concluded
  · cases impossible
  have failed := conclude_blamed ctx _ _ concluded
  rcases resp.healthy_or idle with healthy | faulty
  · rw [underIdle_uncut idle resp (healthy.uncut_iff.mpr (steady healthy))] at failed
    exact Or.inl failed
  · exact faulty

/-- A committed attempt whose client stays and takes everything before the
deadline spares a healthy node exactly if no write to the client takes the idle
timeout together with the read after it.  In that case only a faulty node is
blamed, whatever the client does. -/
theorem node_spared_iff (h : DirectChatHandler) (req : Incoming) (start : Int)
    (clientGone : Option Int) (script : Nat → Turn) (r : Record)
    (member : r ∈ (serveHTTP h req start clientGone
      fun number => (script number).underIdle h.init.streamIdleTimeout).records)
    (resp : Response)
    (commits : Commits (script r.number).requestFails (script r.number).upstream resp)
    (valid : 100 ≤ resp.status) :
    (TakesAll resp.body.reads →
      (h.ctx start clientGone).err
        (resp.copiedAt r.started (script r.number).upstream.elapsed) = none →
      (SparesNode h.init.streamIdleTimeout resp r.result ↔
        (resp.Healthy h.init.streamIdleTimeout →
          NoGap h.init.streamIdleTimeout resp.body.rest))) ∧
      ((resp.Healthy h.init.streamIdleTimeout →
          NoGap h.init.streamIdleTimeout resp.body.rest) →
        BlamesFaulty h.init.streamIdleTimeout resp r.result) := by
  obtain ⟨stream, _, s, _, started, node, _, rfl⟩ :=
    serveHTTP_made h req start clientGone _ r member
  simp only [Loop.attemptOn] at commits ⊢
  generalize h.init.streamIdleTimeout = idle
  have blames := attempt_blamesFaulty commits h.init (h.ctx start clientGone) stream started
    s.attempt node idle
  refine ⟨?_, blames⟩
  intro takes live
  obtain ⟨calls, only, body, events⟩ := attempt_underIdle commits valid takes h.init
    (h.ctx start clientGone) stream started s.attempt node idle
  generalize attempt h.init (h.ctx start clientGone) stream started s.attempt node
    ((script s.attempt).underIdle idle).requestFails ((script s.attempt).underIdle idle).upstream =
    result at events blames ⊢
  have judged : verdicts result.events = verdicts (conclude (h.ctx start clientGone)
      ((resp.underIdle idle).copiedAt started (script s.attempt).upstream.elapsed)
      (resp.underIdle idle)).1 := by
    rw [events, verdicts_append, only.verdicts, List.nil_append]
  have alive : (h.ctx start clientGone).err
      ((resp.underIdle idle).copiedAt started (script s.attempt).upstream.elapsed) = none := by
    rw [Ctx.err_none] at live ⊢
    exact lt_of_le_of_lt (underIdle_copiedAt idle resp started _) live
  constructor
  · intro spares healthy
    apply healthy.uncut_iff.mp
    by_contra cut
    have failed := conclude_failed _ _ _ (underIdle_cut idle resp (by simpa using cut)) alive
    rw [← judged, (spares.whole healthy).2] at failed
    cases failed
  · intro steady
    refine ⟨?_, blames steady⟩
    intro healthy
    have same := underIdle_uncut idle resp (healthy.uncut_iff.mpr (steady healthy))
    rw [same] at judged events body
    obtain ⟨nothing, success⟩ := conclude_eof (h.ctx start clientGone)
      (resp.copiedAt started (script s.attempt).upstream.elapsed) resp healthy.1
    rw [judged, events, bodyOf_append, nothing, List.append_nil]
    exact ⟨body, success⟩

/-! The write of the second event takes this long; the reads take a nanosecond. -/

def pacedStream (writing : Nat) : Response :=
  ⟨200, "text/event-stream", ⟨readOf "data: a\n\n",
    [⟨bytesOf "data: b\n\n", 1, true, writing⟩, readOf "data: c\n\n"], .eof⟩⟩

def pacedScript (writing : Nat) : Nat → Turn :=
  fun _ => turnOn "n0" ⟨1, some (pacedStream writing), 0⟩

theorem pacedScript_commits (writing number : Nat) :
    Commits (pacedScript writing number).requestFails (pacedScript writing number).upstream
      (pacedStream writing) :=
  ⟨rfl, rfl, by simp [pacedStream], by simp [pacedStream], by simp [pacedStream]⟩

theorem pacedStream_takesAll (writing : Nat) : TakesAll (pacedStream writing).body.reads := by
  intro read member
  simp only [pacedStream, Body.reads, List.mem_cons, List.not_mem_nil, or_false] at member
  rcases member with rfl | rfl | rfl <;> simp [readOf]

theorem patient_client_spares_node :
    ∃ r ∈ (serveHTTP defaultHandler chatRequest 0 none fun number =>
        (pacedScript 20000000000 number).underIdle defaultHandler.init.streamIdleTimeout).records,
      verdicts r.result.events = [some true] ∧
        bodyOf r.result.events = (pacedStream 20000000000).body.bytes := by
  have shape : (serveHTTP defaultHandler chatRequest 0 none fun number =>
      (pacedScript 20000000000 number).underIdle
        defaultHandler.init.streamIdleTimeout).records.map (fun r => r.started) = [0] := by
    decide +kernel
  obtain ⟨r, rest, records, started, _⟩ := List.map_eq_cons_iff.mp shape
  have member : r ∈ (serveHTTP defaultHandler chatRequest 0 none fun number =>
      (pacedScript 20000000000 number).underIdle
        defaultHandler.init.streamIdleTimeout).records := by
    rw [records]
    exact List.mem_cons_self
  have live : (defaultHandler.ctx 0 none).err
      ((pacedStream 20000000000).copiedAt r.started 1) = none := by
    rw [started]
    decide +kernel
  have spares := ((node_spared_iff defaultHandler chatRequest 0 none (pacedScript 20000000000) r
    member (pacedStream 20000000000) (pacedScript_commits _ _) (by decide)).1
    (pacedStream_takesAll _) live).mpr (fun _ => by decide +kernel)
  obtain ⟨whole, success⟩ := spares.whole
    (by unfold Response.Healthy; decide +kernel)
  exact ⟨r, member, success, whole⟩

theorem slow_client_costs_node :
    ¬ ∀ (h : DirectChatHandler) (req : Incoming) (start : Int) (clientGone : Option Int)
      (script : Nat → Turn),
      ∀ r ∈ (serveHTTP h req start clientGone
        fun number => (script number).underIdle h.init.streamIdleTimeout).records,
      ∀ resp, Commits (script r.number).requestFails (script r.number).upstream resp →
      100 ≤ resp.status → TakesAll resp.body.reads →
      (h.ctx start clientGone).err
        (resp.copiedAt r.started (script r.number).upstream.elapsed) = none →
      SparesNode h.init.streamIdleTimeout resp r.result := by
  intro claim
  have shape : (serveHTTP defaultHandler chatRequest 0 none fun number =>
      (pacedScript 30000000000 number).underIdle
        defaultHandler.init.streamIdleTimeout).records.map
          (fun r => (r.started, verdicts r.result.events)) = [(0, [some false])] := by
    decide +kernel
  obtain ⟨r, rest, records, facts, _⟩ := List.map_eq_cons_iff.mp shape
  obtain ⟨started, failed⟩ := Prod.mk.inj facts
  have live : (defaultHandler.ctx 0 none).err
      ((pacedStream 30000000000).copiedAt r.started 1) = none := by
    rw [started]
    decide +kernel
  have spares := claim defaultHandler chatRequest 0 none (pacedScript 30000000000) r
    (by rw [records]; exact List.mem_cons_self) (pacedStream 30000000000)
    (pacedScript_commits _ _) (by decide) (pacedStream_takesAll _) live
  have success := (spares.whole (by unfold Response.Healthy; decide +kernel)).2
  rw [failed] at success
  cases success

end RadixGates.Handler
