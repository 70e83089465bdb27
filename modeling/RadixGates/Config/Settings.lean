import RadixGates.Breaker.State

/-!
# The gateway's configuration

`gateway-go/config/config.go`: the sections that `Validate` checks and the
defaults of the failure handling.  Durations are nanoseconds; a float is the
rational it denotes.
-/

set_option autoImplicit false

namespace RadixGates.Settings

def millisecond : Int := 1000000

@[ext]
structure Routing where
  boundedLoadFactor : Rat
  affinityFloor : Int
  affinityWait : Int
  placementSize : Int
  deriving DecidableEq, Repr

@[ext]
structure Breaker where
  enabled : Bool
  failureThreshold : Int
  openDuration : Int
  maxOpenDuration : Int
  halfOpenMax : Int
  deriving DecidableEq, Repr

@[ext]
structure Health where
  enabled : Bool
  interval : Int
  timeout : Int
  path : String
  unhealthyThreshold : Int
  healthyThreshold : Int
  deriving DecidableEq, Repr

@[ext]
structure Reliability where
  maxAttempts : Int
  attemptTimeout : Int
  streamIdleTimeout : Int
  retryBackoff : Int
  overallTimeout : Int
  breaker : Breaker
  health : Health
  deriving DecidableEq, Repr

@[ext]
structure Admission where
  maxQueue : Int
  queueTimeout : Int
  deriving DecidableEq, Repr

/-- `Config`, without the port, the model, the log level and the instances,
which `Validate` does not look at. -/
structure Config where
  routing : Routing
  reliability : Reliability
  admission : Admission
  deriving DecidableEq, Repr

def defaultReliability : Reliability where
  maxAttempts := 3
  attemptTimeout := 15 * second
  streamIdleTimeout := 30 * second
  retryBackoff := 25 * millisecond
  overallTimeout := 600 * second
  breaker := ⟨true, 5, 5 * second, 60 * second, 1⟩
  health := ⟨true, 2 * second, second, "/health", 2, 1⟩

/-- `Validate`: the text of the first error, if any. -/
def validate (c : Config) : Except String Unit :=
  let r := c.reliability
  if c.routing.boundedLoadFactor < 1 then
    .error "config: routing.bounded_load_factor must be >= 1"
  else if c.routing.affinityFloor < 1 then
    .error "config: routing.affinity_floor must be >= 1"
  else if c.routing.placementSize < 0 then
    .error "config: routing.placement_size must not be negative"
  else if c.routing.affinityWait < 0 then
    .error "config: routing.affinity_wait must not be negative"
  else if r.maxAttempts < 1 then
    .error "config: reliability.max_attempts must be >= 1"
  else if r.attemptTimeout ≤ 0 ∨ r.streamIdleTimeout ≤ 0 ∨ r.overallTimeout ≤ 0 then
    .error "config: reliability timeouts must be positive"
  else if r.breaker.enabled ∧ (r.breaker.failureThreshold < 1 ∨ r.breaker.halfOpenMax < 1 ∨
      r.breaker.openDuration ≤ 0) then
    .error
      "config: reliability.breaker needs failure_threshold>=1, half_open_max>=1, open_duration>0"
  else if r.health.enabled ∧ (r.health.interval ≤ 0 ∨ r.health.timeout ≤ 0 ∨
      r.health.path = "" ∨ r.health.unhealthyThreshold < 1 ∨ r.health.healthyThreshold < 1) then
    .error "config: reliability.health is incomplete"
  else if c.admission.maxQueue < 0 ∨ c.admission.queueTimeout ≤ 0 then
    .error "config: admission.max_queue must be >= 0 and queue_timeout > 0"
  else .ok ()

structure Reliability.Valid (r : Reliability) : Prop where
  maxAttempts_pos : 1 ≤ r.maxAttempts
  attemptTimeout_pos : 0 < r.attemptTimeout
  streamIdleTimeout_pos : 0 < r.streamIdleTimeout
  overallTimeout_pos : 0 < r.overallTimeout

theorem ok_of_ite_error {α : Type} {c : Prop} [Decidable c] {text : String}
    {rest : Except String α} {value : α}
    (accepted : (if c then .error text else rest) = .ok value) : ¬ c ∧ rest = .ok value := by
  by_cases fails : c
  · rw [if_pos fails] at accepted
    cases accepted
  · rw [if_neg fails] at accepted
    exact ⟨fails, accepted⟩

theorem validate_ok (c : Config) (accepted : validate c = .ok ()) : c.reliability.Valid := by
  unfold validate at accepted
  obtain ⟨_, accepted⟩ := ok_of_ite_error accepted
  obtain ⟨_, accepted⟩ := ok_of_ite_error accepted
  obtain ⟨_, accepted⟩ := ok_of_ite_error accepted
  obtain ⟨_, accepted⟩ := ok_of_ite_error accepted
  obtain ⟨attempts, accepted⟩ := ok_of_ite_error accepted
  obtain ⟨timeouts, _⟩ := ok_of_ite_error accepted
  obtain ⟨attempt, idle, overall⟩ := not_or.mp timeouts |>.imp_right not_or.mp
  constructor <;> omega

example : validate ⟨⟨5 / 4, 2, 0, 0⟩, defaultReliability, ⟨128, 10 * second⟩⟩ = .ok () := by
  decide +kernel

end RadixGates.Settings
