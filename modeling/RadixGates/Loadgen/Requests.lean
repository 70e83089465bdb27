import RadixGates.Handler.Serve
import RadixGates.Lib.Lines

/-!
# One request of the load generator

`oneRequest` in `gateway-go/cmd/loadgen/main.go`: what it makes of the answer to
a streaming request.  The times of the record are left out.  `received` is the
answer that an HTTP client gets from what the gateway's handler did: the headers
as they were at the first call that sends anything, the bytes in order, and an
error at the end if the handler panicked.
-/

set_option autoImplicit false

namespace RadixGates.Loadgen

open RadixGates.Handler (Event Served bodyOf bytesOf statuses)
open RadixGates.Lines (lines trimSpace)

/-- `client.Do` fails, or there is a response whose body is read to its end or
to an error. -/
inductive Answer where
  | failed (err : List UInt8)
  | answered (status : Nat) (attempts backend : String) (body : List UInt8)
      (err : Option (List UInt8))
  deriving DecidableEq, Repr

structure Record where
  status : Nat
  ok : Bool
  attempts : String
  backend : String
  errMsg : List UInt8
  deriving DecidableEq, Repr

def shorten (s : List UInt8) : List UInt8 :=
  (s.map fun b => if b = EventStream.LF then 32 else b).take 80

structure Seen where
  token : Bool
  done : Bool
  err : Bool
  deriving DecidableEq, Repr

/-- The switch on one line. -/
def Seen.line (seen : Seen) (line : List UInt8) : Seen :=
  let line := trimSpace line
  if bytesOf "data: [DONE]" <+: line then { seen with done := true }
  else if bytesOf "\"error\"" <:+: line then { seen with err := true }
  else if bytesOf "data:" <+: line then { seen with token := true }
  else seen

def scan (body : List UInt8) : Seen := (lines body).foldl Seen.line ⟨false, false, false⟩

def oneRequest : Answer → Record
  | .failed err => ⟨0, false, "", "", shorten err⟩
  | .answered status attempts backend body err =>
      if status ≠ 200 then
        ⟨status, false, attempts, backend, bytesOf ("http " ++ toString status)⟩
      else
        let seen := scan body
        let ok := seen.token && seen.done && !seen.err
        let errMsg := (err.map shorten).getD []
        ⟨status, ok, attempts, backend,
          if ok = false ∧ errMsg = [] then
            if seen.err then bytesOf "stream error event"
            else if seen.done = false then bytesOf "stream ended without [DONE]"
            else bytesOf "no tokens"
          else errMsg⟩

/-! ## What the gateway sends -/

/-- The value of a header when the first bytes are sent. -/
def headerOf (name : String) (events : List Event) : String :=
  (events.takeWhile fun e => !e.sends).foldl
    (fun value e =>
      match e with
      | .header key text => if key = name then text else value
      | _ => value) ""

/-- `refused` is the error of a request whose connection is closed without a
response. -/
def received (refused : List UInt8) (run : Served) : Answer :=
  if run.panic.isSome ∧ run.events.any Event.sends = false then .failed refused
  else
    .answered ((statuses run.events).head?.getD 200)
      (headerOf Handler.headerAttempts run.events) (headerOf Handler.headerNode run.events)
      (bodyOf run.events) (run.panic.map fun _ => bytesOf "unexpected EOF")

end RadixGates.Loadgen
