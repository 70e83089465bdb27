import RadixGates.Config.Duration
import RadixGates.Lib.Records
import RadixGates.Router.Startup

/-!
# Loading the configuration

`Load` of `gateway-go/config/config.go` decodes the first JSON value of the file
over the defaults and validates what comes out.
-/

set_option autoImplicit false

namespace RadixGates.Settings

open RadixGates.Json
open RadixGates.Router (Instance Deployment)

/-! ## Decoding -/

/-- The number as it is written. -/
def numberValue (number : Number) : ℚ :=
  let digits := number.fraction.getD []
  let whole := digits.foldl (fun v digit => 10 * v + digit.val) number.whole
  let magnitude : ℚ := whole * 10 ^ (number.exponent.getD 0 - digits.length)
  if number.negative then -magnitude else magnitude

/-- A `float64`; a number out of its range is an error. -/
def asFloat64 : Value → Option ℚ
  | .num number => some (Float64.round (numberValue number)) |>.filter fun x => |x| < 2 ^ 1024
  | _ => none

def asDuration (value : Value) : Option Int := (unmarshalJSON value).toOption

/-- `Config`, with the instances as they are in memory. -/
@[ext]
structure GatewayConfig extends Config where
  port : Int
  defaultModel : String
  logLevel : String
  sglangInstances : Slice Instance
  maxConcurrentPerNode : Int
  deriving DecidableEq, Repr

/-- The values that `Load` starts from. -/
def defaults : GatewayConfig where
  port := 8080
  defaultModel := "NousResearch/Meta-Llama-3-8B-Instruct"
  logLevel := "info"
  sglangInstances := Slice.nil
  maxConcurrentPerNode := 8
  routing := ⟨5 / 4, 4, 0, 0⟩
  reliability := defaultReliability
  admission := ⟨128, 10 * second⟩

def zeroInstance : Instance := ⟨"", "", 0, 0, ""⟩

def instanceFields : List (RecordField Instance) :=
  [⟨"group", storePlain asStr fun i x => { i with group := x }⟩,
    ⟨"host", storePlain asStr fun i x => { i with host := x }⟩,
    ⟨"port", storePlain asInt fun i x => { i with port := x }⟩,
    ⟨"max_concurrent", storePlain asInt fun i x => { i with maxConcurrent := x }⟩,
    ⟨"role", storePlain asStr fun i x => { i with role := x }⟩]

def routingFields : List (RecordField Routing) :=
  [⟨"bounded_load_factor", storePlain asFloat64 fun r x => { r with boundedLoadFactor := x }⟩,
    ⟨"affinity_floor", storePlain asInt fun r x => { r with affinityFloor := x }⟩,
    ⟨"affinity_wait", storeCustom asDuration fun r x => { r with affinityWait := x }⟩,
    ⟨"placement_size", storePlain asInt fun r x => { r with placementSize := x }⟩]

def breakerFields : List (RecordField Breaker) :=
  [⟨"enabled", storePlain asBool fun b x => { b with enabled := x }⟩,
    ⟨"failure_threshold", storePlain asInt fun b x => { b with failureThreshold := x }⟩,
    ⟨"open_duration", storeCustom asDuration fun b x => { b with openDuration := x }⟩,
    ⟨"max_open_duration", storeCustom asDuration fun b x => { b with maxOpenDuration := x }⟩,
    ⟨"half_open_max", storePlain asInt fun b x => { b with halfOpenMax := x }⟩]

def healthFields : List (RecordField Health) :=
  [⟨"enabled", storePlain asBool fun h x => { h with enabled := x }⟩,
    ⟨"interval", storeCustom asDuration fun h x => { h with interval := x }⟩,
    ⟨"timeout", storeCustom asDuration fun h x => { h with timeout := x }⟩,
    ⟨"path", storePlain asStr fun h x => { h with path := x }⟩,
    ⟨"unhealthy_threshold", storePlain asInt fun h x => { h with unhealthyThreshold := x }⟩,
    ⟨"healthy_threshold", storePlain asInt fun h x => { h with healthyThreshold := x }⟩]

def reliabilityFields : List (RecordField Reliability) :=
  [⟨"max_attempts", storePlain asInt fun r x => { r with maxAttempts := x }⟩,
    ⟨"attempt_timeout", storeCustom asDuration fun r x => { r with attemptTimeout := x }⟩,
    ⟨"stream_idle_timeout", storeCustom asDuration fun r x => { r with streamIdleTimeout := x }⟩,
    ⟨"retry_backoff", storeCustom asDuration fun r x => { r with retryBackoff := x }⟩,
    ⟨"overall_timeout", storeCustom asDuration fun r x => { r with overallTimeout := x }⟩,
    ⟨"breaker", storeOver (decodeRecord breakerFields) Reliability.breaker
      fun r x => { r with breaker := x }⟩,
    ⟨"health", storeOver (decodeRecord healthFields) Reliability.health
      fun r x => { r with health := x }⟩]

def admissionFields : List (RecordField Admission) :=
  [⟨"max_queue", storePlain asInt fun a x => { a with maxQueue := x }⟩,
    ⟨"queue_timeout", storeCustom asDuration fun a x => { a with queueTimeout := x }⟩]

def configFields : List (RecordField GatewayConfig) :=
  [⟨"port", storePlain asInt fun c x => { c with port := x }⟩,
    ⟨"default_model", storePlain asStr fun c x => { c with defaultModel := x }⟩,
    ⟨"log_level", storePlain asStr fun c x => { c with logLevel := x }⟩,
    ⟨"sglang_instances", storeOver (decodeSlice (decodeRecord instanceFields) zeroInstance)
      GatewayConfig.sglangInstances fun c x => { c with sglangInstances := x }⟩,
    ⟨"max_concurrent_per_node", storePlain asInt fun c x => { c with maxConcurrentPerNode := x }⟩,
    ⟨"routing", storeOver (decodeRecord routingFields) (fun c => c.routing)
      fun c x => { c with routing := x }⟩,
    ⟨"reliability", storeOver (decodeRecord reliabilityFields) (fun c => c.reliability)
      fun c x => { c with reliability := x }⟩,
    ⟨"admission", storeOver (decodeRecord admissionFields) (fun c => c.admission)
      fun c x => { c with admission := x }⟩]

/-- What `Load` finds under the path. -/
inductive File where
  | unreadable
  /-- The text does not start with a JSON value. -/
  | malformed
  | holds (first : Value)

inductive LoadError where
  | openConfig
  | parseConfig
  | invalid (text : String)
  deriving DecidableEq, Repr

def load : File → Except LoadError GatewayConfig
  | .unreadable => .error .openConfig
  | .malformed => .error .parseConfig
  | .holds first =>
      match decodeRecord configFields defaults first with
      | none => .error .parseConfig
      | some c =>
          match validate c.toConfig with
          | .error text => .error (.invalid text)
          | .ok () => .ok c

/-- What `main` goes on with. -/
def GatewayConfig.deployment (c : GatewayConfig) : Deployment :=
  ⟨c.toConfig, c.sglangInstances.elements, c.maxConcurrentPerNode⟩

/-! ## What the text settles -/

def instanceOverlay (o : Object) (i : Instance) : Instance where
  group := o.setting "group" asStr i.group
  host := o.setting "host" asStr i.host
  port := o.setting "port" asInt i.port
  maxConcurrent := o.setting "max_concurrent" asInt i.maxConcurrent
  role := o.setting "role" asStr i.role

def Routing.overlay (o : Object) (r : Routing) : Routing where
  boundedLoadFactor := o.setting "bounded_load_factor" asFloat64 r.boundedLoadFactor
  affinityFloor := o.setting "affinity_floor" asInt r.affinityFloor
  affinityWait := o.setting "affinity_wait" asDuration r.affinityWait
  placementSize := o.setting "placement_size" asInt r.placementSize

def Breaker.overlay (o : Object) (b : Breaker) : Breaker where
  enabled := o.setting "enabled" asBool b.enabled
  failureThreshold := o.setting "failure_threshold" asInt b.failureThreshold
  openDuration := o.setting "open_duration" asDuration b.openDuration
  maxOpenDuration := o.setting "max_open_duration" asDuration b.maxOpenDuration
  halfOpenMax := o.setting "half_open_max" asInt b.halfOpenMax

def Health.overlay (o : Object) (h : Health) : Health where
  enabled := o.setting "enabled" asBool h.enabled
  interval := o.setting "interval" asDuration h.interval
  timeout := o.setting "timeout" asDuration h.timeout
  path := o.setting "path" asStr h.path
  unhealthyThreshold := o.setting "unhealthy_threshold" asInt h.unhealthyThreshold
  healthyThreshold := o.setting "healthy_threshold" asInt h.healthyThreshold

def Reliability.overlay (o : Object) (r : Reliability) : Reliability where
  maxAttempts := o.setting "max_attempts" asInt r.maxAttempts
  attemptTimeout := o.setting "attempt_timeout" asDuration r.attemptTimeout
  streamIdleTimeout := o.setting "stream_idle_timeout" asDuration r.streamIdleTimeout
  retryBackoff := o.setting "retry_backoff" asDuration r.retryBackoff
  overallTimeout := o.setting "overall_timeout" asDuration r.overallTimeout
  breaker := r.breaker.overlay (o.inside "breaker")
  health := r.health.overlay (o.inside "health")

def Admission.overlay (o : Object) (a : Admission) : Admission where
  maxQueue := o.setting "max_queue" asInt a.maxQueue
  queueTimeout := o.setting "queue_timeout" asDuration a.queueTimeout

/-- Every setting but the instances: the last value that the text gives for it,
or else the default. -/
def GatewayConfig.overlay (o : Object) (c : GatewayConfig) : GatewayConfig where
  port := o.setting "port" asInt c.port
  defaultModel := o.setting "default_model" asStr c.defaultModel
  logLevel := o.setting "log_level" asStr c.logLevel
  sglangInstances := c.sglangInstances
  maxConcurrentPerNode := o.setting "max_concurrent_per_node" asInt c.maxConcurrentPerNode
  routing := c.routing.overlay (o.inside "routing")
  reliability := c.reliability.overlay (o.inside "reliability")
  admission := c.admission.overlay (o.inside "admission")

theorem instanceFields_distinct : Distinct instanceFields := by
  unfold Distinct
  decide +kernel

theorem routingFields_distinct : Distinct routingFields := by
  unfold Distinct
  decide +kernel

theorem breakerFields_distinct : Distinct breakerFields := by
  unfold Distinct
  decide +kernel

theorem healthFields_distinct : Distinct healthFields := by
  unfold Distinct
  decide +kernel

theorem reliabilityFields_distinct : Distinct reliabilityFields := by
  unfold Distinct
  decide +kernel

theorem admissionFields_distinct : Distinct admissionFields := by
  unfold Distinct
  decide +kernel

theorem configFields_distinct : Distinct configFields := by
  unfold Distinct
  decide +kernel

theorem instance_decoded {o : Object} {i i' : Instance}
    (decoded : decodeStruct instanceFields i o = some i') : i' = instanceOverlay o i := by
  apply Instance.ext
  · exact decodeStruct_setting instanceFields_distinct decoded 0 rfl Instance.group
      (storePlain_sets rfl fun _ _ => rfl) (by simp [instanceFields])
  · exact decodeStruct_setting instanceFields_distinct decoded 1 rfl Instance.host
      (storePlain_sets rfl fun _ _ => rfl) (by simp [instanceFields])
  · exact decodeStruct_setting instanceFields_distinct decoded 2 rfl Instance.port
      (storePlain_sets rfl fun _ _ => rfl) (by simp [instanceFields])
  · exact decodeStruct_setting instanceFields_distinct decoded 3 rfl Instance.maxConcurrent
      (storePlain_sets rfl fun _ _ => rfl) (by simp [instanceFields])
  · exact decodeStruct_setting instanceFields_distinct decoded 4 rfl Instance.role
      (storePlain_sets rfl fun _ _ => rfl) (by simp [instanceFields])

theorem Routing.decoded {o : Object} {r r' : Routing}
    (decoded : decodeStruct routingFields r o = some r') : r' = r.overlay o := by
  apply Routing.ext
  · exact decodeStruct_setting routingFields_distinct decoded 0 rfl Routing.boundedLoadFactor
      (storePlain_sets rfl fun _ _ => rfl) (by simp [routingFields])
  · exact decodeStruct_setting routingFields_distinct decoded 1 rfl Routing.affinityFloor
      (storePlain_sets rfl fun _ _ => rfl) (by simp [routingFields])
  · exact decodeStruct_setting routingFields_distinct decoded 2 rfl Routing.affinityWait
      (storeCustom_sets fun _ _ => rfl) (by simp [routingFields])
  · exact decodeStruct_setting routingFields_distinct decoded 3 rfl Routing.placementSize
      (storePlain_sets rfl fun _ _ => rfl) (by simp [routingFields])

theorem Breaker.decoded {o : Object} {b b' : Breaker}
    (decoded : decodeStruct breakerFields b o = some b') : b' = b.overlay o := by
  apply Breaker.ext
  · exact decodeStruct_setting breakerFields_distinct decoded 0 rfl Breaker.enabled
      (storePlain_sets rfl fun _ _ => rfl) (by simp [breakerFields])
  · exact decodeStruct_setting breakerFields_distinct decoded 1 rfl Breaker.failureThreshold
      (storePlain_sets rfl fun _ _ => rfl) (by simp [breakerFields])
  · exact decodeStruct_setting breakerFields_distinct decoded 2 rfl Breaker.openDuration
      (storeCustom_sets fun _ _ => rfl) (by simp [breakerFields])
  · exact decodeStruct_setting breakerFields_distinct decoded 3 rfl Breaker.maxOpenDuration
      (storeCustom_sets fun _ _ => rfl) (by simp [breakerFields])
  · exact decodeStruct_setting breakerFields_distinct decoded 4 rfl Breaker.halfOpenMax
      (storePlain_sets rfl fun _ _ => rfl) (by simp [breakerFields])

theorem Health.decoded {o : Object} {h h' : Health}
    (decoded : decodeStruct healthFields h o = some h') : h' = h.overlay o := by
  apply Health.ext
  · exact decodeStruct_setting healthFields_distinct decoded 0 rfl Health.enabled
      (storePlain_sets rfl fun _ _ => rfl) (by simp [healthFields])
  · exact decodeStruct_setting healthFields_distinct decoded 1 rfl Health.interval
      (storeCustom_sets fun _ _ => rfl) (by simp [healthFields])
  · exact decodeStruct_setting healthFields_distinct decoded 2 rfl Health.timeout
      (storeCustom_sets fun _ _ => rfl) (by simp [healthFields])
  · exact decodeStruct_setting healthFields_distinct decoded 3 rfl Health.path
      (storePlain_sets rfl fun _ _ => rfl) (by simp [healthFields])
  · exact decodeStruct_setting healthFields_distinct decoded 4 rfl Health.unhealthyThreshold
      (storePlain_sets rfl fun _ _ => rfl) (by simp [healthFields])
  · exact decodeStruct_setting healthFields_distinct decoded 5 rfl Health.healthyThreshold
      (storePlain_sets rfl fun _ _ => rfl) (by simp [healthFields])

theorem Reliability.decoded {o : Object} {r r' : Reliability}
    (decoded : decodeStruct reliabilityFields r o = some r') : r' = r.overlay o := by
  apply Reliability.ext
  · exact decodeStruct_setting reliabilityFields_distinct decoded 0 rfl Reliability.maxAttempts
      (storePlain_sets rfl fun _ _ => rfl) (by simp [reliabilityFields])
  · exact decodeStruct_setting reliabilityFields_distinct decoded 1 rfl Reliability.attemptTimeout
      (storeCustom_sets fun _ _ => rfl) (by simp [reliabilityFields])
  · exact decodeStruct_setting reliabilityFields_distinct decoded 2 rfl
      Reliability.streamIdleTimeout (storeCustom_sets fun _ _ => rfl) (by simp [reliabilityFields])
  · exact decodeStruct_setting reliabilityFields_distinct decoded 3 rfl Reliability.retryBackoff
      (storeCustom_sets fun _ _ => rfl) (by simp [reliabilityFields])
  · exact decodeStruct_setting reliabilityFields_distinct decoded 4 rfl Reliability.overallTimeout
      (storeCustom_sets fun _ _ => rfl) (by simp [reliabilityFields])
  · exact Breaker.decoded (decodeStruct_inside reliabilityFields_distinct decoded 5 rfl
      (fun _ _ => rfl) (by simp [reliabilityFields]))
  · exact Health.decoded (decodeStruct_inside reliabilityFields_distinct decoded 6 rfl
      (fun _ _ => rfl) (by simp [reliabilityFields]))

theorem Admission.decoded {o : Object} {a a' : Admission}
    (decoded : decodeStruct admissionFields a o = some a') : a' = a.overlay o := by
  apply Admission.ext
  · exact decodeStruct_setting admissionFields_distinct decoded 0 rfl Admission.maxQueue
      (storePlain_sets rfl fun _ _ => rfl) (by simp [admissionFields])
  · exact decodeStruct_setting admissionFields_distinct decoded 1 rfl Admission.queueTimeout
      (storeCustom_sets fun _ _ => rfl) (by simp [admissionFields])

theorem GatewayConfig.decoded {o : Object} {c c' : GatewayConfig}
    (decoded : decodeStruct configFields c o = some c') :
    c' = { c.overlay o with sglangInstances := c'.sglangInstances } := by
  have distinct := configFields_distinct
  apply GatewayConfig.ext
  · exact Routing.decoded (decodeStruct_inside distinct decoded 5 rfl (fun _ _ => rfl)
      (by simp [configFields]))
  · exact Reliability.decoded (decodeStruct_inside distinct decoded 6 rfl (fun _ _ => rfl)
      (by simp [configFields]))
  · exact Admission.decoded (decodeStruct_inside distinct decoded 7 rfl (fun _ _ => rfl)
      (by simp [configFields]))
  · exact decodeStruct_setting distinct decoded 0 rfl GatewayConfig.port
      (storePlain_sets rfl fun _ _ => rfl) (by simp [configFields])
  · exact decodeStruct_setting distinct decoded 1 rfl GatewayConfig.defaultModel
      (storePlain_sets rfl fun _ _ => rfl) (by simp [configFields])
  · exact decodeStruct_setting distinct decoded 2 rfl GatewayConfig.logLevel
      (storePlain_sets rfl fun _ _ => rfl) (by simp [configFields])
  · rfl
  · exact decodeStruct_setting distinct decoded 4 rfl GatewayConfig.maxConcurrentPerNode
      (storePlain_sets rfl fun _ _ => rfl) (by simp [configFields])

/-- The instances are those of the last list.  Each of them has the values that
its item gives; the others are zero, unless an earlier list was there. -/
def GatewayConfig.Lists (c : GatewayConfig) (o : Object) : Prop :=
  (o.bound "sglang_instances" = [] → c.sglangInstances.elements = []) ∧
    ∀ earlier last, o.bound "sglang_instances" = earlier ++ [last] →
      List.Forall₂
        (fun item inst => ∃ old : Instance, (earlier = [] → old = zeroInstance) ∧
          inst = instanceOverlay item.members old)
        last.items c.sglangInstances.elements

theorem GatewayConfig.decoded_lists {o : Object} {c : GatewayConfig}
    (decoded : decodeStruct configFields defaults o = some c) : c.Lists o := by
  have folded := decodeStruct_over configFields_distinct decoded 3 rfl (fun _ _ => rfl)
    (by simp [configFields])
  constructor
  · intro none
    rw [none] at folded
    exact congrArg Slice.elements (Option.some.inj folded).symm
  · intro earlier last split
    rw [split, List.foldlM_append] at folded
    obtain ⟨before, first, later⟩ := Option.bind_eq_some_iff.mp folded
    have sliced : decodeSlice (decodeRecord instanceFields) zeroInstance before last =
        some c.sglangInstances := by
      simpa using later
    refine (decodeSlice_elements sliced).imp ?_
    rintro item inst ⟨old, inMemory, isInstance⟩
    refine ⟨old, ?_, instance_decoded (decodeRecord_members isInstance)⟩
    -- the first list finds no memory
    rintro rfl
    cases Option.some.inj first
    exact inMemory.resolve_right (List.not_mem_nil)

/-- An accepted file settles every value as its text says, in any spelling and
whatever it says twice, and the gateway has slots as soon as the number of slots
for a node without a limit is positive. -/
theorem accepted_file_settles (file : File) (c : GatewayConfig) (accepted : load file = .ok c) :
    ∃ first, file = .holds first ∧
      c = { defaults.overlay first.members with sglangInstances := c.sglangInstances } ∧
      c.Lists first.members ∧ validate c.toConfig = .ok () ∧
      (1 ≤ c.maxConcurrentPerNode → ∀ rt clock, c.deployment.ServesIdle rt clock) := by
  cases file with
  | unreadable | malformed => cases accepted
  | holds first =>
      rw [load] at accepted
      split at accepted
      · cases accepted
      · rename_i read isRecord
        split at accepted
        · cases accepted
        · rename_i valid
          cases accepted
          have decoded := decodeRecord_members isRecord
          refine ⟨first, rfl, GatewayConfig.decoded decoded, GatewayConfig.decoded_lists decoded,
            valid, ?_⟩
          intro positive rt clock
          apply Router.servesIdle_of_slots
          intro inst _ _
          unfold Deployment.slots
          split_ifs with none
          · exact positive
          · omega

/-- The routing is given twice; the second object is spelled otherwise. -/
def routedTwice : Value :=
  .obj [("port", .num (Number.ofInt 9000)),
    ("routing", .obj [("affinity_wait", .str "30ms"), ("placement_size", .num (Number.ofInt 4))]),
    ("Routing", .obj [("affinity_floor", .null), ("Affinity_Wait", .str "1.5s")]),
    ("reliability", .null),
    ("sglang_instances", .arr [.obj [("host", .str "a"), ("port", .num (Number.ofInt 1))], .null])]

def loadedTwice : GatewayConfig :=
  { defaults with
    port := 9000
    routing := ⟨5 / 4, 4, 1500 * millisecond, 4⟩
    sglangInstances := ⟨[⟨"", "a", 1, 0, ""⟩, zeroInstance], []⟩ }

theorem routedTwice_serves :
    load (.holds routedTwice) = .ok loadedTwice ∧
      loadedTwice.deployment.ServesIdle (Router.Runtime.exact 2) 0 := by
  have accepted : load (.holds routedTwice) = .ok loadedTwice := by decide +kernel
  obtain ⟨_, _, _, _, _, serves⟩ := accepted_file_settles _ loadedTwice accepted
  exact ⟨accepted, serves (by decide) _ _⟩

end RadixGates.Settings
