import RadixGates.Lib.IndexedLru
import RadixGates.Lib.Runs

/-!
# The simulated worker

`gateway-go/internal/mock/worker.go`: the worker that stands in for an inference
server, with its prefix cache, its counters and its faults.  Many requests are
served at a time; each of them takes the lock of the worker for the fault, for
the cache, for the counters, and for the counters once more when it ends.  How
long it is served in between is left open.
-/

set_option autoImplicit false

namespace RadixGates.Mock

/-- The fault modes; any other text injects nothing. -/
inductive Mode where
  | none
  | error503
  | hang
  | slow
  | reset
  | midstream
  | healthDown
  | other (text : String)
  deriving DecidableEq, Repr

structure Fault where
  mode : Mode
  delayMS : Int
  afterTokens : Int
  deriving DecidableEq, Repr

structure Options where
  name : String
  ttftCold : Int
  ttftWarm : Int
  tpot : Int
  tokens : Int
  capacity : Int
  cacheSize : Int
  deriving DecidableEq, Repr

def millisecond : Int := 1000000

def Options.defaults (o : Options) : Options :=
  { o with
    ttftCold := if o.ttftCold ≤ 0 then 100 * millisecond else o.ttftCold
    ttftWarm := if o.ttftWarm ≤ 0 then 50 * millisecond else o.ttftWarm
    tpot := if o.tpot ≤ 0 then 15 * millisecond else o.tpot
    tokens := if o.tokens ≤ 0 then 16 else o.tokens
    capacity := if o.capacity ≤ 0 then 4 else o.capacity
    cacheSize := if o.cacheSize ≤ 0 then 4 else o.cacheSize }

/-- `lru` and `cached` are the list and the index of the cache. -/
structure Worker where
  opts : Options
  fault : Fault
  inflight : Int
  requests : Int
  warm : Int
  cache : IndexedLru String

def new (o : Options) : Worker := ⟨o.defaults, ⟨.none, 0, 0⟩, 0, 0, 0, IndexedLru.empty⟩

def Worker.setFault (w : Worker) (f : Fault) : Worker :=
  { w with fault := if f.mode = .other "" then { f with mode := .none } else f }

def Worker.touch (w : Worker) (key : String) : Worker × Bool :=
  let touched := w.cache.touch w.opts.cacheSize key
  ({ w with cache := touched.1 }, touched.2)

structure Stats where
  name : String
  requests : Int
  warmHits : Int
  inflight : Int
  deriving DecidableEq, Repr

def Worker.stats (w : Worker) : Stats := ⟨w.opts.name, w.requests, w.warm, w.inflight⟩

/-! ## Requests -/

/-- The content of a message: its text, and the string it decodes to if it is
one. -/
structure Message where
  role : String
  raw : String
  decoded : Option String
  deriving DecidableEq, Repr

structure ChatReq where
  messages : List Message
  stream : Bool
  maxTokens : Int
  deriving DecidableEq, Repr

/-- The content of the first system message; without one, the contents of the
messages, which are collected until there are 256 bytes. -/
def prefixKeyFrom : (sb : String) → List Message → String
  | sb, [] => sb
  | sb, m :: rest =>
      let s := m.decoded.getD m.raw
      if m.role = "system" then s
      else prefixKeyFrom (if sb.utf8ByteSize < 256 then sb ++ s else sb) rest

def prefixKey (r : ChatReq) : String := prefixKeyFrom "" r.messages

/-- How a request ends: under a fault, as a bad request, or served. -/
inductive Outcome where
  | error503
  | reset
  | hung
  | badRequest
  | served (warm : Bool)
  deriving DecidableEq, Repr

/-- Where the goroutine of a request is. -/
inductive Stage where
  | arrived
  | admitted (req : ChatReq)
  | touched (warm : Bool)
  | serving (warm : Bool)
  | ended (outcome : Outcome)
  deriving DecidableEq, Repr

/-- `chat` after it has read the fault; the body is `none` if it is no request. -/
def checked (f : Fault) (body : Option ChatReq) : Stage :=
  match f.mode with
  | .error503 => .ended .error503
  | .reset => .ended .reset
  | .hang => .ended .hung
  | _ =>
      match body with
      | none => .ended .badRequest
      | some req => if req.messages = [] then .ended .badRequest else .admitted req

structure Chat where
  body : Option ChatReq
  stage : Stage
  deriving DecidableEq, Repr

/-- The worker with its requests.  The log of the cache holds every key in the
order of its use, and whether it was found. -/
structure Server where
  w : Worker
  chats : List Chat
  log : List (String × Bool)

inductive Move where
  | setFault (f : Fault)
  | arrive (body : Option ChatReq)
  | check (k : Nat)
  | touch (k : Nat)
  | count (k : Nat)
  | finish (k : Nat)

def Server.setStage (s : Server) (k : Nat) (chat : Chat) (stage : Stage) : Server :=
  { s with chats := s.chats.set k { chat with stage := stage } }

def Server.step (s : Server) : Move → Option Server
  | .setFault f => some { s with w := s.w.setFault f }
  | .arrive body => some { s with chats := s.chats ++ [⟨body, .arrived⟩] }
  | .check k =>
      s.chats[k]?.bind fun chat =>
        match chat.stage with
        | .arrived => some (s.setStage k chat (checked s.w.fault chat.body))
        | _ => none
  | .touch k =>
      s.chats[k]?.bind fun chat =>
        match chat.stage with
        | .admitted req =>
            let key := prefixKey req
            let touched := s.w.touch key
            some { s.setStage k chat (.touched touched.2) with
              w := touched.1
              log := s.log ++ [(key, touched.2)] }
        | _ => none
  | .count k =>
      s.chats[k]?.bind fun chat =>
        match chat.stage with
        | .touched warm =>
            some { s.setStage k chat (.serving warm) with
              w := { s.w with
                inflight := s.w.inflight + 1
                requests := s.w.requests + 1
                warm := if warm then s.w.warm + 1 else s.w.warm } }
        | _ => none
  | .finish k =>
      s.chats[k]?.bind fun chat =>
        match chat.stage with
        | .serving warm =>
            some { s.setStage k chat (.ended (.served warm)) with
              w := { s.w with inflight := s.w.inflight - 1 } }
        | _ => none

def Reached (o : Options) (moves : List Move) (s : Server) : Prop :=
  Runs.run Server.step ⟨new o, [], []⟩ moves = some s

/-! ## What a move does -/

inductive Moved (s : Server) : Move → Server → Prop where
  | setFault (f : Fault) : Moved s (.setFault f) { s with w := s.w.setFault f }
  | arrived (body : Option ChatReq) :
      Moved s (.arrive body) { s with chats := s.chats ++ [⟨body, .arrived⟩] }
  | checked (k : Nat) (chat : Chat) (found : s.chats[k]? = some chat)
      (stage : chat.stage = .arrived) :
      Moved s (.check k) (s.setStage k chat (checked s.w.fault chat.body))
  | touched (k : Nat) (chat : Chat) (found : s.chats[k]? = some chat) (req : ChatReq)
      (stage : chat.stage = .admitted req) :
      Moved s (.touch k)
        { s.setStage k chat (.touched (s.w.touch (prefixKey req)).2) with
          w := (s.w.touch (prefixKey req)).1
          log := s.log ++ [(prefixKey req, (s.w.touch (prefixKey req)).2)] }
  | counted (k : Nat) (chat : Chat) (found : s.chats[k]? = some chat) (warm : Bool)
      (stage : chat.stage = .touched warm) :
      Moved s (.count k)
        { s.setStage k chat (.serving warm) with
          w := { s.w with
            inflight := s.w.inflight + 1
            requests := s.w.requests + 1
            warm := if warm then s.w.warm + 1 else s.w.warm } }
  | finished (k : Nat) (chat : Chat) (found : s.chats[k]? = some chat) (warm : Bool)
      (stage : chat.stage = .serving warm) :
      Moved s (.finish k)
        { s.setStage k chat (.ended (.served warm)) with
          w := { s.w with inflight := s.w.inflight - 1 } }

theorem step_moved (s next : Server) (move : Move) (stepped : s.step move = some next) :
    Moved s move next := by
  cases move with
  | setFault f =>
      cases Option.some.inj stepped
      exact .setFault f
  | arrive body =>
      cases Option.some.inj stepped
      exact .arrived body
  | check k =>
      obtain ⟨chat, found, moved⟩ := Option.bind_eq_some_iff.mp stepped
      cases stage : chat.stage with
      | arrived =>
          simp only [stage, Option.some.injEq] at moved
          cases moved
          exact .checked k chat found stage
      | admitted _ | touched _ | serving _ | ended _ =>
          simp only [stage] at moved
          cases moved
  | touch k =>
      obtain ⟨chat, found, moved⟩ := Option.bind_eq_some_iff.mp stepped
      cases stage : chat.stage with
      | admitted req =>
          simp only [stage, Option.some.injEq] at moved
          cases moved
          exact .touched k chat found req stage
      | arrived | touched _ | serving _ | ended _ =>
          simp only [stage] at moved
          cases moved
  | count k =>
      obtain ⟨chat, found, moved⟩ := Option.bind_eq_some_iff.mp stepped
      cases stage : chat.stage with
      | touched warm =>
          simp only [stage, Option.some.injEq] at moved
          cases moved
          exact .counted k chat found warm stage
      | arrived | admitted _ | serving _ | ended _ =>
          simp only [stage] at moved
          cases moved
  | finish k =>
      obtain ⟨chat, found, moved⟩ := Option.bind_eq_some_iff.mp stepped
      cases stage : chat.stage with
      | serving warm =>
          simp only [stage, Option.some.injEq] at moved
          cases moved
          exact .finished k chat found warm stage
      | arrived | admitted _ | touched _ | ended _ =>
          simp only [stage] at moved
          cases moved

end RadixGates.Mock
