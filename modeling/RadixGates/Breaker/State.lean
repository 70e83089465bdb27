import Mathlib.Algebra.Order.Ring.Int

/-!
# The circuit breaker

Functional model of `gateway-go/breaker/breaker.go`.  Every exported method
runs under the breaker's own mutex, so a method is one function from the
breaker and a clock reading to the breaker it leaves and its answer.

A method is given one reading.  `Done` is the only method that can read the
clock twice (`advanceLocked`, then `tripLocked`); it does so only when the
first reading promoted the breaker, and then the ticket is stale and
`tripLocked` is not reached, see `Session.done_after_promotion_is_stale`.

Counters, durations and clock readings are integers, the last two in
nanoseconds.  A `time.Time` covers far more than an `int64` of them and does
not wrap; the only duration arithmetic that can leave `int64` is the doubling
of the cool-down, which does.  The generation is the source's `uint64`, taken
as a natural number: fewer than `2 ^ 64` transitions are assumed throughout.
-/

set_option autoImplicit false

namespace RadixGates

/-- Two's complement `int64` arithmetic. -/
def wrap64 (x : Int) : Int := Int.bmod x (2 ^ 64)

theorem wrap64_of_fits (x : Int) (low : -2 ^ 63 ≤ x) (high : x < 2 ^ 63) :
    wrap64 x = x := by
  unfold wrap64
  apply Int.bmod_eq_of_le_mul_two <;> omega

def second : Int := 1000000000

inductive Breaker.State where
  | closed
  | opened
  | halfOpen
  deriving DecidableEq, Repr

structure Breaker.Config where
  failureThreshold : Int
  openDuration : Int
  maxOpenDuration : Int
  halfOpenMax : Int
  deriving DecidableEq, Repr

/-- Returned by `allow`; stamped with the generation it was issued under. -/
structure Breaker.Ticket where
  probe : Bool
  gen : Nat
  deriving DecidableEq, Repr

namespace Breaker

def Config.clamp (cfg : Config) : Config :=
  let openDuration := if cfg.openDuration ≤ 0 then second else cfg.openDuration
  { failureThreshold := if cfg.failureThreshold < 1 then 1 else cfg.failureThreshold
    halfOpenMax := if cfg.halfOpenMax < 1 then 1 else cfg.halfOpenMax
    openDuration := openDuration
    maxOpenDuration :=
      if cfg.maxOpenDuration < openDuration then openDuration else cfg.maxOpenDuration }

/-- What `New` guarantees of the configuration a breaker runs with. -/
structure Config.Clamped (cfg : Config) : Prop where
  failureThreshold_pos : 1 ≤ cfg.failureThreshold
  halfOpenMax_pos : 1 ≤ cfg.halfOpenMax
  openDuration_pos : 0 < cfg.openDuration
  open_le_max : cfg.openDuration ≤ cfg.maxOpenDuration

theorem Config.clamp_clamped (cfg : Config) : cfg.clamp.Clamped := by
  have secondPos : (0 : Int) < second := by decide
  constructor <;> simp only [Config.clamp] <;> split_ifs <;> omega

end Breaker

/-- The breaker's fields, without the mutex and the clock; the configuration
is one that `New` has clamped.  `changes` is the
list of `onChange(from, to)` calls made so far, newest first. -/
structure Breaker where
  cfg : Breaker.Config
  clamped : cfg.Clamped
  state : Breaker.State
  gen : Nat
  consecFail : Int
  openUntil : Int
  curOpen : Int
  halfInFlight : Int
  changes : List (Breaker.State × Breaker.State)
  deriving DecidableEq, Repr

namespace Breaker

def new (cfg : Config) : Breaker where
  cfg := cfg.clamp
  clamped := cfg.clamp_clamped
  state := .closed
  gen := 0
  consecFail := 0
  openUntil := 0
  curOpen := cfg.clamp.openDuration
  halfInFlight := 0
  changes := []

def setLocked (b : Breaker) (target : State) : Breaker :=
  if b.state = target then b
  else { b with state := target, gen := b.gen + 1, changes := (b.state, target) :: b.changes }

/-- Lazily promotes Open to HalfOpen once the cool-down has passed. -/
def advanceLocked (b : Breaker) (now : Int) : Breaker :=
  if b.state = .opened ∧ ¬ now < b.openUntil then
    setLocked { b with halfInFlight := 0 } .halfOpen
  else b

def tripLocked (b : Breaker) (now : Int) : Breaker :=
  setLocked { b with consecFail := 0, openUntil := now + b.curOpen } .opened

/-- The method `State`, which promotes before it reads the field. -/
def readState (b : Breaker) (now : Int) : Breaker × State :=
  let b := b.advanceLocked now
  (b, b.state)

def available (b : Breaker) (now : Int) : Breaker × Bool :=
  let b := b.advanceLocked now
  match b.state with
  | .closed => (b, true)
  | .halfOpen => (b, decide (b.halfInFlight < b.cfg.halfOpenMax))
  | .opened => (b, false)

/-- `Allow`; the ticket is absent when the second result of the source is
`false`. -/
def allow (b : Breaker) (now : Int) : Breaker × Option Ticket :=
  let b := b.advanceLocked now
  match b.state with
  | .closed => (b, some ⟨false, b.gen⟩)
  | .halfOpen =>
      if b.halfInFlight < b.cfg.halfOpenMax then
        ({ b with halfInFlight := b.halfInFlight + 1 }, some ⟨true, b.gen⟩)
      else (b, none)
  | .opened => (b, none)

def done (b : Breaker) (now : Int) (t : Ticket) (success : Bool) : Breaker :=
  let b := b.advanceLocked now
  if t.gen ≠ b.gen then b  -- stale: issued under an earlier state
  else match b.state with
  | .closed =>
      if success then { b with consecFail := 0 }
      else
        let b := { b with consecFail := b.consecFail + 1 }
        if b.cfg.failureThreshold ≤ b.consecFail then b.tripLocked now else b
  | .halfOpen =>
      if !t.probe then b
      else if success then
        setLocked { b with consecFail := 0, curOpen := b.cfg.openDuration } .closed
      else
        tripLocked
          { b with curOpen := min (wrap64 (b.curOpen * 2)) b.cfg.maxOpenDuration } now
  | .opened => b

/-- `Cancel` reads no clock and does not promote. -/
def cancel (b : Breaker) (t : Ticket) : Breaker :=
  if t.probe ∧ b.state = .halfOpen ∧ t.gen = b.gen ∧ 0 < b.halfInFlight then
    { b with halfInFlight := b.halfInFlight - 1 }
  else b

end Breaker

end RadixGates
