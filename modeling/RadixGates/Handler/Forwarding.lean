import RadixGates.Handler.Serve
import RadixGates.Lib.Json

/-!
# The request that is forwarded

`ServeHTTP` decodes the body twice: into a `ChatRequest`, where keys match the
fields in any spelling, and into a map with the keys as they are.  It puts the
values it settled on into the map, takes the routing hint out and sends the map
to the node.  The two views of the body agree as long as these fields are
spelled as the gateway spells them and a number among them is not `null`.
-/

set_option autoImplicit false

namespace RadixGates.Handler

open RadixGates.Json

/-- `float64` and its decimal notation: a number that was formatted parses as
itself. -/
structure Float64Codec where
  Float64 : Type
  parseFloat : Number → Option Float64
  formatFloat : Float64 → Number
  round_trip : ∀ x, parseFloat (formatFloat x) = some x
  /-- The constant `0.7`. -/
  pointSeven : Float64
  parse_pointSeven : parseFloat ⟨false, 0, some [7], none⟩ = some pointSeven

/-- `ChatRequest`.  Of the messages only their number is kept; their contents
feed the routing key. -/
structure ChatRequest (Float64 : Type) where
  messages : Nat
  model : String
  stream : Option Bool
  temperature : Option Float64
  maxTokens : Option Int
  target : String

def messageFields : List (RecordField Unit) :=
  [⟨"role", storeString fun s _ => s⟩, ⟨"content", fun s _ => some s⟩]

def decodeMessage : Value → Option Unit
  | .null => some ()
  | .obj members => decodeStruct messageFields () members
  | _ => none

section
variable (codec : Float64Codec)

def Float64Codec.asFloat : Value → Option codec.Float64
  | .num number => codec.parseFloat number
  | _ => none

def storeMessages (req : ChatRequest codec.Float64) : Value → Option (ChatRequest codec.Float64)
  | .null => some { req with messages := 0 }
  | .arr items =>
      if items.all fun item => (decodeMessage item).isSome then
        some { req with messages := items.length }
      else none
  | _ => none

def chatRequestFields : List (RecordField (ChatRequest codec.Float64)) :=
  [⟨"messages", storeMessages codec⟩,
    ⟨"model", storeString fun req text => { req with model := text }⟩,
    ⟨"stream", storePointer asBool fun req x => { req with stream := x }⟩,
    ⟨"temperature", storePointer codec.asFloat fun req x => { req with temperature := x }⟩,
    ⟨"max_tokens", storePointer asInt fun req x => { req with maxTokens := x }⟩,
    ⟨"target", storeString fun req text => { req with target := text }⟩]

/-- The two views of a body that is accepted.  A body that is `null` has no
messages; all others that are no objects are errors. -/
def parseBody : Value → Option (ChatRequest codec.Float64 × Object)
  | .obj members =>
      (decodeStruct (chatRequestFields codec) ⟨0, "", none, none, none, ""⟩ members).bind fun req =>
        if req.messages = 0 then none else some (req, decodeMap members)
  | _ => none

/-- The values of a request after the defaults were filled in. -/
structure Effective where
  model : String
  stream : Bool
  temperature : codec.Float64
  maxTokens : Int

def effective (defaultModel : String) (req : ChatRequest codec.Float64) : Effective codec where
  model := if req.model ≠ "" ∧ req.model ≠ "default" then req.model else defaultModel
  stream := req.stream.getD true
  temperature := req.temperature.getD codec.pointSeven
  maxTokens := req.maxTokens.getD 512

def rewriteFields (values : Effective codec) (fields : Object) : Object :=
  let fields := fields.put "model" (.str values.model)
  let fields := fields.put "stream" (.bool values.stream)
  let fields := fields.putAbsent "temperature" (.num (codec.formatFloat values.temperature))
  let fields := fields.putAbsent "max_tokens" (.num (Number.ofInt values.maxTokens))
  -- gateway-only routing hint; SGLang should not see it
  marshalMap (fields.remove "target")

/-- What the handler settled on and what it sends, for a body it accepts. -/
def forward (defaultModel : String) (body : Value) : Option (Effective codec × Object) :=
  (parseBody codec body).map fun parsed =>
    let values := effective codec defaultModel parsed.1
    (values, rewriteFields codec values parsed.2)

/-- The outcome of decoding; a body that is no JSON text is absent. -/
def parsedBody (defaultModel : String) : Option Value → Parsed
  | none => .badMessages
  | some body =>
      match forward codec defaultModel body with
      | none => .badMessages
      | some sent => .accepted sent.1.stream

/-! ## What the client asked for -/

/-- The last member for a field decides, in any spelling; for the model, the last
one that is not `null`. -/
def ofClient (defaultModel : String) (members : Object) : Effective codec where
  model :=
    let asked := ((members.bound "model").filterMap asStr).getLast?.getD ""
    if asked ≠ "" ∧ asked ≠ "default" then asked else defaultModel
  stream := ((members.bound "stream").getLast?.bind asBool).getD true
  temperature := ((members.bound "temperature").getLast?.bind codec.asFloat).getD codec.pointSeven
  maxTokens := ((members.bound "max_tokens").getLast?.bind asInt).getD 512

theorem chatRequestFields_distinct : Distinct (chatRequestFields codec) := by
  have names : ((chatRequestFields codec).map fun f => foldName f.name) =
      ["messages", "model", "stream", "temperature", "max_tokens", "target"].map foldName := rfl
  rw [Distinct, names]
  decide +kernel

theorem storeMessages_keeps {β : Type} {get : ChatRequest codec.Float64 → β}
    (getSet : ∀ req count, get { req with messages := count } = get req)
    (req : ChatRequest codec.Float64) (value : Value) (req' : ChatRequest codec.Float64)
    (stored : storeMessages codec req value = some req') : get req' = get req := by
  cases value with
  | null =>
      cases Option.some.inj stored
      exact getSet req 0
  | arr items =>
      simp only [storeMessages] at stored
      split at stored
      · cases Option.some.inj stored
        exact getSet req items.length
      · cases stored
  | bool | num | str | obj => cases stored

/-- What is read from a field does not depend on the other ones. -/
theorem chatRequestFields_keep {β : Type} (get : ChatRequest codec.Float64 → β) (name : String)
    (messages : name ≠ "messages" → ∀ req count, get { req with messages := count } = get req)
    (model : name ≠ "model" → ∀ req text, get { req with model := text } = get req)
    (stream : name ≠ "stream" → ∀ req x, get { req with stream := x } = get req)
    (temperature : name ≠ "temperature" → ∀ req x, get { req with temperature := x } = get req)
    (maxTokens : name ≠ "max_tokens" → ∀ req x, get { req with maxTokens := x } = get req)
    (target : name ≠ "target" → ∀ req text, get { req with target := text } = get req)
    (g : RecordField (ChatRequest codec.Float64)) (isField : g ∈ chatRequestFields codec)
    (away : g.name ≠ name) (req : ChatRequest codec.Float64) (value : Value)
    (req' : ChatRequest codec.Float64) (stored : g.store req value = some req') :
    get req' = get req := by
  simp only [chatRequestFields, List.mem_cons, List.not_mem_nil, or_false] at isField
  rcases isField with rfl | rfl | rfl | rfl | rfl | rfl
  · exact storeMessages_keeps codec (messages away.symm) req value req' stored
  · exact storeString_keeps (model away.symm) req value req' stored
  · exact storePointer_keeps (stream away.symm) req value req' stored
  · exact storePointer_keeps (temperature away.symm) req value req' stored
  · exact storePointer_keeps (maxTokens away.symm) req value req' stored
  · exact storeString_keeps (target away.symm) req value req' stored

theorem effective_eq_ofClient (defaultModel : String) (members : Object)
    (req : ChatRequest codec.Float64)
    (decoded : decodeStruct (chatRequestFields codec) ⟨0, "", none, none, none, ""⟩ members =
      some req) :
    effective codec defaultModel req = ofClient codec defaultModel members := by
  have distinct := chatRequestFields_distinct codec
  have isField : ∀ index f, (chatRequestFields codec)[index]? = some f →
      f ∈ chatRequestFields codec := fun index f found => List.mem_of_getElem? found
  have model := decodeStruct_string distinct (isField 1 _ rfl) (fun req => req.model)
    (fun _ _ => rfl)
    (chatRequestFields_keep codec (fun req => req.model) "model" (fun _ _ _ => rfl)
      (fun away => absurd rfl away) (fun _ _ _ => rfl) (fun _ _ _ => rfl) (fun _ _ _ => rfl)
      (fun _ _ _ => rfl)) members _ req decoded
  have stream := decodeStruct_pointer distinct (isField 2 _ rfl) rfl (fun req => req.stream)
    (fun _ _ => rfl)
    (chatRequestFields_keep codec (fun req => req.stream) "stream" (fun _ _ _ => rfl)
      (fun _ _ _ => rfl) (fun away => absurd rfl away) (fun _ _ _ => rfl) (fun _ _ _ => rfl)
      (fun _ _ _ => rfl)) members _ req rfl decoded
  have temperature := decodeStruct_pointer distinct (isField 3 _ rfl) rfl
    (fun req => req.temperature) (fun _ _ => rfl)
    (chatRequestFields_keep codec (fun req => req.temperature) "temperature" (fun _ _ _ => rfl)
      (fun _ _ _ => rfl) (fun _ _ _ => rfl) (fun away => absurd rfl away) (fun _ _ _ => rfl)
      (fun _ _ _ => rfl)) members _ req rfl decoded
  have maxTokens := decodeStruct_pointer distinct (isField 4 _ rfl) rfl
    (fun req => req.maxTokens) (fun _ _ => rfl)
    (chatRequestFields_keep codec (fun req => req.maxTokens) "max_tokens" (fun _ _ _ => rfl)
      (fun _ _ _ => rfl) (fun _ _ _ => rfl) (fun _ _ _ => rfl) (fun away => absurd rfl away)
      (fun _ _ _ => rfl)) members _ req rfl decoded
  dsimp only at model stream temperature maxTokens
  simp only [effective, ofClient, model, stream, temperature, maxTokens]

/-! ## What the node gets -/

def rewritten : List String := ["model", "stream", "temperature", "max_tokens", "target"]

theorem value_rewriteFields (values : Effective codec) (members : Object) (key : String) :
    (rewriteFields codec values (decodeMap members)).value key =
      if key = "target" then none
      else if key = "max_tokens" then
        some ((members.value key).getD (.num (Number.ofInt values.maxTokens)))
      else if key = "temperature" then
        some ((members.value key).getD (.num (codec.formatFloat values.temperature)))
      else if key = "stream" then some (.bool values.stream)
      else if key = "model" then some (.str values.model)
      else members.value key := by
  have isMap : (decodeMap members).IsMap := isMap_decodeMap members
  simp only [rewriteFields]
  rw [IsMap.value_marshalMap]
  · simp only [value_remove, value_putAbsent, value_put, value_decodeMap]
    by_cases tokens : key = "max_tokens"
    · subst tokens
      simp
    by_cases temperature : key = "temperature"
    · subst temperature
      simp
    simp [tokens, temperature]
  · exact IsMap.remove (IsMap.putAbsent (IsMap.putAbsent (IsMap.put (IsMap.put isMap _ _) _ _) _ _)
      _ _) _

theorem binds_target_iff (key : String) :
    (bindKey (chatRequestFields codec) key).map (fun f => f.name) = some "target" ↔
      foldName key = foldName "target" := by
  have binds := bindKey_eq_some_iff (chatRequestFields_distinct codec) key
  constructor
  · intro bound
    obtain ⟨f, found, name⟩ := Option.map_eq_some_iff.mp bound
    rw [← ((binds f).mp found).2, name]
  · intro same
    have isField : (chatRequestFields codec)[5]? = some
        ⟨"target", storeString fun req text => { req with target := text }⟩ := rfl
    rw [(binds _).mpr ⟨List.mem_of_getElem? isField, same.symm⟩]
    rfl

/-- Nothing is lost on the way, the routing hint stays in the gateway and the
node gets the values the handler settled on, which are those of the client. -/
structure Faithful (defaultModel : String) (members : Object) (values : Effective codec)
    (sent : Object) : Prop where
  client : values = ofClient codec defaultModel members
  others : ∀ key, key ∉ rewritten → sent.value key = members.value key
  hint : ∀ key ∈ sent.keys,
    (bindKey (chatRequestFields codec) key).map (fun f => f.name) ≠ some "target"
  model : sent.value "model" = some (.str values.model)
  stream : sent.value "stream" = some (.bool values.stream)
  temperature : (sent.value "temperature").bind codec.asFloat = some values.temperature
  maxTokens : (sent.value "max_tokens").bind asInt = some values.maxTokens

/-- The hint is spelled in lower case, and a temperature or a token limit that is
has the same value as the last one in any spelling, where `null` stands for the
default. -/
structure WellSpelled (members : Object) : Prop where
  target : ∀ key ∈ members.keys, foldName key = foldName "target" → key = "target"
  temperature : ∀ value, members.value "temperature" = some value →
    codec.asFloat value =
      some (((members.bound "temperature").getLast?.bind codec.asFloat).getD codec.pointSeven)
  maxTokens : ∀ value, members.value "max_tokens" = some value →
    asInt value = some (((members.bound "max_tokens").getLast?.bind asInt).getD 512)

theorem forward_accepted {defaultModel : String} {members : Object} {values : Effective codec}
    {sent : Object} (accepted : forward codec defaultModel (.obj members) = some (values, sent)) :
    values = ofClient codec defaultModel members ∧
      sent = rewriteFields codec values (decodeMap members) := by
  obtain ⟨⟨req, fields⟩, parsed, same⟩ := Option.map_eq_some_iff.mp accepted
  obtain ⟨other, decoded, rest⟩ := Option.bind_eq_some_iff.mp parsed
  split at rest
  · cases rest
  · cases Option.some.inj rest
    cases same
    exact ⟨effective_eq_ofClient codec defaultModel members req decoded, rfl⟩

theorem asInt_bounds (value : Value) (i : Int) (read : asInt value = some i) :
    -2 ^ 63 ≤ i ∧ i < 2 ^ 63 := by
  cases value with
  | num number => simpa using (Option.filter_eq_some_iff.mp read).2
  | null | bool | str | arr | obj => cases read

theorem asInt_ofInt (i : Int) (low : -2 ^ 63 ≤ i) (high : i < 2 ^ 63) :
    asInt (.num (Number.ofInt i)) = some i := by
  rw [asInt, Number.integer_ofInt, Option.filter_some, if_pos (decide_eq_true ⟨low, high⟩)]

/-- The limit of a request fits into an `int`, so it is sent as it is. -/
theorem asInt_maxTokens (defaultModel : String) (members : Object) :
    asInt (.num (Number.ofInt (ofClient codec defaultModel members).maxTokens)) =
      some (ofClient codec defaultModel members).maxTokens := by
  simp only [ofClient]
  cases asked : (members.bound "max_tokens").getLast?.bind asInt with
  | none => exact asInt_ofInt 512 (by decide) (by decide)
  | some i =>
      obtain ⟨value, _, read⟩ := Option.bind_eq_some_iff.mp asked
      obtain ⟨low, high⟩ := asInt_bounds value i read
      exact asInt_ofInt i low high

theorem rewritten_not_hint :
    ∀ key ∈ rewritten, foldName key = foldName "target" → key = "target" := by
  decide +kernel

theorem value_sent_of_not_mem (values : Effective codec) (members : Object) (key : String)
    (kept : key ∉ rewritten) :
    (rewriteFields codec values (decodeMap members)).value key = members.value key := by
  simp only [rewritten, List.mem_cons, List.not_mem_nil, or_false, not_or] at kept
  simp [value_rewriteFields, kept]

theorem Faithful.wellSpelled {defaultModel : String} {members : Object} {values : Effective codec}
    (faithful : Faithful codec defaultModel members values
      (rewriteFields codec values (decodeMap members))) : WellSpelled codec members := by
  have client := faithful.client
  refine ⟨?_, ?_, ?_⟩
  · intro key inBody same
    by_contra other
    have kept : key ∉ rewritten := fun member => other (rewritten_not_hint key member same)
    have reaches := (value_isSome_iff members key).mpr inBody
    rw [← faithful.others key kept, value_isSome_iff] at reaches
    exact faithful.hint key reaches ((binds_target_iff codec key).mpr same)
  · intro value given
    have reached := faithful.temperature
    rw [value_rewriteFields, client] at reached
    simpa [given, ofClient] using reached
  · intro value given
    have reached := faithful.maxTokens
    rw [value_rewriteFields, client] at reached
    simpa [given, ofClient] using reached

theorem WellSpelled.faithful {members : Object} (spelled : WellSpelled codec members)
    (defaultModel : String) :
    Faithful codec defaultModel members (ofClient codec defaultModel members)
      (rewriteFields codec (ofClient codec defaultModel members) (decodeMap members)) := by
  have sent := value_rewriteFields codec (ofClient codec defaultModel members) members
  constructor
  case client => rfl
  case others => exact value_sent_of_not_mem codec _ members
  case hint =>
    intro key reaches bound
    have same := (binds_target_iff codec key).mp bound
    rw [← value_isSome_iff] at reaches
    have hidden : key = "target" := by
      by_cases settled : key ∈ rewritten
      · exact rewritten_not_hint key settled same
      · rw [value_sent_of_not_mem codec _ members key settled, value_isSome_iff] at reaches
        exact spelled.target key reaches same
    rw [sent, if_pos hidden] at reaches
    cases reaches
  case model => simp [sent]
  case stream => simp [sent]
  case temperature =>
    rw [sent]
    cases given : members.value "temperature" with
    | none => simp [Float64Codec.asFloat, codec.round_trip]
    | some value => simpa [given, ofClient] using spelled.temperature value given
  case maxTokens =>
    rw [sent]
    cases given : members.value "max_tokens" with
    | none => simpa [given] using asInt_maxTokens codec defaultModel members
    | some value => simpa [given, ofClient] using spelled.maxTokens value given

/-- An accepted request is forwarded faithfully exactly if it is well spelled. -/
theorem forward_faithful_iff (defaultModel : String) (members : Object) (values : Effective codec)
    (sent : Object) (accepted : forward codec defaultModel (.obj members) = some (values, sent)) :
    Faithful codec defaultModel members values sent ↔ WellSpelled codec members := by
  obtain ⟨rfl, rfl⟩ := forward_accepted codec accepted
  exact ⟨Faithful.wellSpelled codec, fun spelled => spelled.faithful codec defaultModel⟩

/-- The stream mode of the retry loop is the one the node is asked for. -/
theorem parsedBody_stream (defaultModel : String) (body : Value) (stream : Bool)
    (parsed : parsedBody codec defaultModel (some body) = .accepted stream) :
    ∃ values sent, forward codec defaultModel body = some (values, sent) ∧
      sent.value "stream" = some (.bool stream) := by
  simp only [parsedBody] at parsed
  split at parsed
  · cases parsed
  · rename_i result forwarded
    obtain ⟨values, sent⟩ := result
    cases parsed
    cases body with
    | obj members =>
        refine ⟨values, sent, forwarded, ?_⟩
        rw [(forward_accepted codec forwarded).2]
        simp [value_rewriteFields]
    | null | bool | num | str | arr => cases forwarded

end

/-- Decimal numbers of a few digits, which are their own shortest notation. -/
def shortDecimals : Float64Codec where
  Float64 := Number
  parseFloat := some
  formatFloat := id
  round_trip _ := rfl
  pointSeven := ⟨false, 0, some [7], none⟩
  parse_pointSeven := rfl

def oneMessage : Value := .arr [.obj [("role", .str "user"), ("content", .str "hi")]]

def toolRequest : Object :=
  [("model", .str "m"), ("stream", .bool false), ("top_p", .num ⟨false, 0, some [8], none⟩),
    ("Temperature", .num ⟨false, 0, some [2], none⟩), ("max_tokens", .num ⟨false, 64, none, none⟩),
    ("target", .str "local"), ("messages", oneMessage)]

theorem toolRequest_forwarded :
    ∃ values sent, forward shortDecimals "fallback" (.obj toolRequest) = some (values, sent) ∧
      values.temperature = (⟨false, 0, some [2], none⟩ : Number) ∧
      Faithful shortDecimals "fallback" toolRequest values sent := by
  have isAccepted : (forward shortDecimals "fallback" (.obj toolRequest)).isSome = true := by
    decide +kernel
  obtain ⟨⟨values, sent⟩, accepted⟩ := Option.isSome_iff_exists.mp isAccepted
  refine ⟨values, sent, accepted, ?_, ?_⟩
  · rw [(forward_accepted shortDecimals accepted).1]
    rfl
  · apply (forward_faithful_iff shortDecimals "fallback" toolRequest values sent accepted).mpr
    refine ⟨by decide +kernel, ?_, ?_⟩
    · intro value given
      cases given
    · intro value given
      cases given
      rfl

def capitalHint : Object := [("messages", oneMessage), ("Target", .str "local")]

def nullTemperature : Object := [("messages", oneMessage), ("temperature", .null)]

theorem other_spellings_unfaithful :
    (∃ values sent, forward shortDecimals "m" (.obj capitalHint) = some (values, sent) ∧
        sent.value "Target" = some (.str "local") ∧
        ¬ Faithful shortDecimals "m" capitalHint values sent) ∧
      (∃ values sent, forward shortDecimals "m" (.obj nullTemperature) = some (values, sent) ∧
        sent.value "temperature" = some .null ∧
        ¬ Faithful shortDecimals "m" nullTemperature values sent) := by
  have hint : (forward shortDecimals "m" (.obj capitalHint)).isSome = true := by decide +kernel
  have null : (forward shortDecimals "m" (.obj nullTemperature)).isSome = true := by decide +kernel
  obtain ⟨⟨values, sent⟩, accepted⟩ := Option.isSome_iff_exists.mp hint
  obtain ⟨⟨values', sent'⟩, accepted'⟩ := Option.isSome_iff_exists.mp null
  obtain ⟨_, rfl⟩ := forward_accepted shortDecimals accepted
  obtain ⟨_, rfl⟩ := forward_accepted shortDecimals accepted'
  refine ⟨⟨values, _, accepted, ?_, ?_⟩, values', _, accepted', ?_, ?_⟩
  · rw [value_rewriteFields]
    rfl
  · intro faithful
    exact absurd ((faithful.wellSpelled shortDecimals).target "Target" (by decide +kernel)
      (by decide +kernel)) (by decide)
  · rw [value_rewriteFields]
    rfl
  · intro faithful
    cases (faithful.wellSpelled shortDecimals).temperature .null rfl

end RadixGates.Handler
