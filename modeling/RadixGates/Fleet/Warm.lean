import RadixGates.Fleet.Homes
import RadixGates.Handler.RoutingKey
import RadixGates.Mock.Warmth

/-!
# Prefix affinity keeps the caches warm

The router places prompts by the hash of the system prompt, and a worker caches
them by the system prompt.  While the router's candidates stay the same and
requests get the node they prefer, the prompts of a fleet whose caches have room
for all of them together are computed once each, in any interleaving.
-/

set_option autoImplicit false

namespace RadixGates.Fleet

open RadixGates.Handler (Message computePrefixHash systemContent)
open RadixGates.Router (Action Instance Options Runtime World grantLog groupKey)

/-! ## The key of the router and the key of the cache -/

/-- The worker gets the roles and the texts of the client's messages; a content
that is no text may be encoded in another way. -/
def Forwarded (client : List Message) (upstream : List Mock.Message) : Prop :=
  client.map (fun m => (m.role, m.content.decoded)) = upstream.map fun m => (m.role, m.decoded)

instance (client : List Message) (upstream : List Mock.Message) :
    Decidable (Forwarded client upstream) :=
  inferInstanceAs (Decidable (_ = _))

/-- The system prompt of the request is this text. -/
def AsksWith : List Message → String → Prop
  | [], _ => False
  | m :: rest, prompt =>
      if m.role = "system" then m.content.decoded = some prompt else AsksWith rest prompt

theorem systemContent_of_asks (messages : List Message) (prompt : String)
    (asks : AsksWith messages prompt) : systemContent messages = prompt := by
  induction messages with
  | nil => cases asks
  | cons m rest ih =>
      rw [AsksWith] at asks
      rw [systemContent]
      split_ifs at asks ⊢ with system
      · rw [Handler.messageContentForRouting, asks, Option.getD_some]
      · exact ih asks

theorem prefixKeyFrom_of_asks (messages : List Message) (upstream : List Mock.Message)
    (prompt sb : String) (asks : AsksWith messages prompt)
    (forwarded : Forwarded messages upstream) : Mock.prefixKeyFrom sb upstream = prompt := by
  induction messages generalizing upstream sb with
  | nil => cases asks
  | cons m rest ih =>
      cases upstream with
      | nil => cases forwarded
      | cons m' rest' =>
          obtain ⟨same, later⟩ := List.cons.inj forwarded
          obtain ⟨role, decoded⟩ := Prod.mk.inj same
          rw [AsksWith, role, decoded] at asks
          rw [Mock.prefixKeyFrom]
          split_ifs at asks ⊢ with system
          · rw [asks, Option.getD_some]
          · exact ih rest' _ asks later
          · exact ih rest' _ asks later

/-! ## Where the keys of a cache come from -/

structure Sourced (P : Mock.ChatReq → Prop) (s : Mock.Server) : Prop where
  bodies : ∀ chat ∈ s.chats, ∀ req, chat.body = some req → P req
  admitted : ∀ chat ∈ s.chats, ∀ req, chat.stage = .admitted req → P req
  keys : ∀ key ∈ s.keys, ∃ req, P req ∧ Mock.prefixKey req = key

theorem checked_admitted (f : Mock.Fault) (body : Option Mock.ChatReq) (req : Mock.ChatReq)
    (admitted : Mock.checked f body = .admitted req) : body = some req := by
  unfold Mock.checked at admitted
  split at admitted
  · cases admitted
  · cases admitted
  · cases admitted
  · split at admitted
    · cases admitted
    · split_ifs at admitted
      cases admitted
      rfl

/-- A request that goes on, but not to the cache. -/
theorem Sourced.set {P : Mock.ChatReq → Prop} {s : Mock.Server} (sourced : Sourced P s) (k : Nat)
    {chat : Mock.Chat} (member : chat ∈ s.chats) (stage : Mock.Stage)
    (passed : ∀ req, stage = .admitted req → chat.body = some req) (w : Mock.Worker)
    (log : List (String × Bool))
    (keys : ∀ key ∈ log.map Prod.fst, ∃ req, P req ∧ Mock.prefixKey req = key) :
    Sourced P ⟨w, s.chats.set k { chat with stage := stage }, log⟩ where
  bodies c inChats req body := by
    rcases List.mem_or_eq_of_mem_set inChats with old | rfl
    · exact sourced.bodies c old req body
    · exact sourced.bodies chat member req body
  admitted c inChats req isAdmitted := by
    rcases List.mem_or_eq_of_mem_set inChats with old | rfl
    · exact sourced.admitted c old req isAdmitted
    · exact sourced.bodies chat member req (passed req isAdmitted)
  keys := keys

theorem Sourced.step {P : Mock.ChatReq → Prop} {s next : Mock.Server} {move : Mock.Move}
    (sourced : Sourced P s) (only : ∀ req, move = .arrive (some req) → P req)
    (moved : Mock.Moved s move next) : Sourced P next := by
  cases moved with
  | setFault f => exact ⟨sourced.bodies, sourced.admitted, sourced.keys⟩
  | arrived body =>
      refine ⟨?_, ?_, sourced.keys⟩
      · intro chat member req isBody
        rcases List.mem_append.mp member with old | fresh
        · exact sourced.bodies chat old req isBody
        · cases List.mem_singleton.mp fresh
          exact only req (congrArg Mock.Move.arrive isBody)
      · intro chat member req isAdmitted
        rcases List.mem_append.mp member with old | fresh
        · exact sourced.admitted chat old req isAdmitted
        · cases List.mem_singleton.mp fresh
          cases isAdmitted
  | checked k chat found stage =>
      exact sourced.set k (List.mem_of_getElem? found) _
        (fun req isAdmitted => checked_admitted _ _ req isAdmitted) _ _ sourced.keys
  | touched k chat found req stage =>
      have member := List.mem_of_getElem? found
      refine sourced.set k member _ (fun _ isAdmitted => by cases isAdmitted) _ _ ?_
      intro key inLog
      rw [List.map_append] at inLog
      rcases List.mem_append.mp inLog with old | fresh
      · exact sourced.keys key old
      · cases List.mem_singleton.mp fresh
        exact ⟨req, sourced.admitted chat member req stage, rfl⟩
  | counted k chat found warm stage | finished k chat found warm stage =>
      exact sourced.set k (List.mem_of_getElem? found) _ (fun _ isAdmitted => by cases isAdmitted)
        _ _ sourced.keys

theorem keys_of_reached (P : Mock.ChatReq → Prop) {o : Mock.Options} {moves : List Mock.Move}
    {s : Mock.Server} (reached : Mock.Reached o moves s)
    (only : ∀ req, Mock.Move.arrive (some req) ∈ moves → P req) :
    ∀ key ∈ s.keys, ∃ req, P req ∧ Mock.prefixKey req = key := by
  have sourced : Sourced P s := by
    apply Runs.run_preserves_of_forall Mock.Server.step (Sourced P)
      (fun move => ∀ req, move = .arrive (some req) → P req) _ moves _ s _ _ reached
    · exact fun _ _ _ sourced ok stepped => sourced.step ok (Mock.step_moved _ _ _ stepped)
    · constructor <;> simp [Mock.Server.keys]
    · rintro move member req rfl
      exact only req member
  exact sourced.keys

/-! ## The fleet -/

section
variable {n : Nat}

/-- The request came to this node with one of the prompts, by a lease of the
log. -/
def Sent (prompts : List String) (log : List (String × Fin n)) (i : Fin n)
    (req : Mock.ChatReq) : Prop :=
  ∃ messages prompt, prompt ∈ prompts ∧ AsksWith messages prompt ∧
    Forwarded messages req.messages ∧ (computePrefixHash (systemContent messages), i) ∈ log

/-- The prompts of a worker's cache are recorded on its node. -/
theorem key_recorded {prompts : List String} {log : List (String × Fin n)} {group : String}
    {w : World n} (recorded : ∀ grant ∈ log, w.recorded (groupKey group grant.1) = some grant.2)
    {i : Fin n} {o : Mock.Options} {moves : List Mock.Move} {s : Mock.Server}
    (reached : Mock.Reached o moves s)
    (sent : ∀ req, Mock.Move.arrive (some req) ∈ moves → Sent prompts log i req) :
    ∀ key ∈ s.keys,
      key ∈ prompts ∧ w.recorded (groupKey group (computePrefixHash key)) = some i := by
  intro key member
  obtain ⟨req, ⟨messages, prompt, inPrompts, asks, forwarded, logged⟩, rfl⟩ :=
    keys_of_reached (Sent prompts log i) reached sent key member
  have cached : Mock.prefixKey req = prompt :=
    prefixKeyFrom_of_asks messages req.messages prompt "" asks forwarded
  rw [systemContent_of_asks messages prompt asks] at logged
  rw [cached]
  exact ⟨inPrompts, recorded (computePrefixHash prompt, i) logged⟩

/-- Prompts that are recorded on a node are counted there. -/
theorem card_le_placed {w : World n} (consistent : Router.Consistent w) {group : String}
    {prompts : List String}
    (distinct : (prompts.map fun p => groupKey group (computePrefixHash p)).Nodup) (i : Fin n)
    (keys : Finset String) (recorded : ∀ key ∈ keys,
      key ∈ prompts ∧ w.recorded (groupKey group (computePrefixHash key)) = some i) :
    (keys.card : Int) ≤ (w.nodes i).placed := by
  have injective : ∀ a ∈ keys, ∀ b ∈ keys, groupKey group (computePrefixHash a) =
      groupKey group (computePrefixHash b) → a = b := fun a inKeys b inKeys' same =>
    List.inj_on_of_nodup_map distinct (recorded a inKeys).1 (recorded b inKeys').1 same
  have counted : (keys.image fun key => groupKey group (computePrefixHash key)).card = keys.card :=
    Finset.card_image_of_injOn fun a inKeys b inKeys' same => injective a inKeys b inKeys' same
  have inside : keys.image (fun key => groupKey group (computePrefixHash key)) ⊆
      ((w.placeLRU.filter fun p => p.node = i).map fun p => p.key).toFinset := by
    intro id member
    obtain ⟨key, inKeys, rfl⟩ := Finset.mem_image.mp member
    obtain ⟨p, inList, isKey, onNode⟩ := (consistent.recorded_iff _ i).mp (recorded key inKeys).2
    rw [List.mem_toFinset, List.mem_map]
    exact ⟨p, List.mem_filter.mpr ⟨inList, by simpa using onNode⟩, isKey⟩
  have bound := (Finset.card_le_card inside).trans (List.toFinset_card_le _)
  rw [counted, List.length_map, ← List.countP_eq_length_filter] at bound
  rw [consistent.placed i]
  exact_mod_cast bound

end

/-- Prompts that the placement memory and the caches of the candidates together
have room for: every prompt is computed by one worker of the fleet, and by that
one only when it is asked for the first time. -/
theorem prompts_are_computed_once (instances : List Instance) (defaultMaxConcurrent : Int)
    (opts : Options) (rt : Runtime instances.length) (clock : Int)
    (actions : List (Action instances.length)) (w : World instances.length)
    (reached : Router.Reached instances defaultMaxConcurrent opts rt clock actions w)
    (cands : List (Fin instances.length)) (nonempty : cands ≠ []) (nodup : cands.Nodup)
    (group : String) (prompts : List String)
    (settled : Runs.Along (World.step rt opts.clamp)
      (World.Settled rt opts.clamp cands group (prompts.map computePrefixHash))
      (Router.new instances defaultMaxConcurrent opts clock) actions)
    (distinct : (prompts.map fun p => groupKey group (computePrefixHash p)).Nodup)
    (few : (prompts.length : Int) ≤ opts.placementSize)
    (o : Fin instances.length → Mock.Options)
    (room : ∀ i ∈ cands, prompts.length ≤ cands.length * (o i).defaults.cacheSize.toNat)
    (moves : Fin instances.length → List Mock.Move) (s : Fin instances.length → Mock.Server)
    (served : ∀ i ∈ cands, Mock.Reached (o i) (moves i) (s i))
    (finished : ∀ i ∈ cands, ∀ chat ∈ (s i).chats, ∃ outcome, chat.stage = .ended outcome)
    (sent : ∀ i ∈ cands, ∀ req, Mock.Move.arrive (some req) ∈ moves i →
      Sent prompts (grantLog rt opts.clamp
        (Router.new instances defaultMaxConcurrent opts clock) actions) i req) :
    (∀ i ∈ cands, (s i).w.requests - (s i).w.warm = (s i).keys.toFinset.card) ∧
      ∑ i ∈ cands.toFinset, ((s i).w.requests - (s i).w.warm) ≤ prompts.length := by
  have unplaced : (Router.new instances defaultMaxConcurrent opts clock).Unplaced :=
    ⟨fun _ => rfl, rfl, fun _ => rfl⟩
  have sized : 0 ≤ opts.clamp.placementSize := (Int.natCast_nonneg _).trans few
  have fewHashes : ((prompts.map computePrefixHash).length : Int) ≤ opts.clamp.placementSize := by
    rw [List.length_map]
    exact few
  obtain ⟨settles, logged⟩ := Router.log_recorded nonempty fewHashes actions _ w
    (unplaced.even sized cands _) reached settled
  have recorded : ∀ i ∈ cands, ∀ key ∈ (s i).keys.toFinset,
      key ∈ prompts ∧ w.recorded (groupKey group (computePrefixHash key)) = some i := by
    intro i member key inKeys
    exact key_recorded logged (served i member) (sent i member) key (List.mem_toFinset.mp inKeys)
  have cold : ∀ i ∈ cands, (s i).w.requests - (s i).w.warm = (s i).keys.toFinset.card := by
    intro i member
    have share := settles.even.share nodup (o i).defaults.cacheSize.toNat
      (by simpa using room i member) i member
    have counted := card_le_placed settles.even.toConsistent distinct i _ (recorded i member)
    have fits : (s i).keys.toFinset.card ≤ (o i).defaults.cacheSize.toNat := by omega
    obtain ⟨_, _, misses⟩ := Mock.counts_of_finished (served i member) (finished i member)
    rw [misses, Recency.misses_of_fits _ _ fits]
  refine ⟨cold, ?_⟩
  have disjoint : (cands.toFinset : Set (Fin instances.length)).PairwiseDisjoint
      fun i => (s i).keys.toFinset := by
    intro i member j member' apart
    rw [Function.onFun, Finset.disjoint_left]
    intro key here there
    have onI := (recorded i (List.mem_toFinset.mp member) key here).2
    have onJ := (recorded j (List.mem_toFinset.mp member') key there).2
    exact apart (Option.some.inj (onI.symm.trans onJ))
  have inside : cands.toFinset.biUnion (fun i => (s i).keys.toFinset) ⊆ prompts.toFinset := by
    intro key member
    obtain ⟨i, inCands, inKeys⟩ := Finset.mem_biUnion.mp member
    exact List.mem_toFinset.mpr (recorded i (List.mem_toFinset.mp inCands) key inKeys).1
  calc ∑ i ∈ cands.toFinset, ((s i).w.requests - (s i).w.warm)
      = ∑ i ∈ cands.toFinset, ((s i).keys.toFinset.card : Int) :=
        Finset.sum_congr rfl fun i member => cold i (List.mem_toFinset.mp member)
    _ = ((cands.toFinset.biUnion fun i => (s i).keys.toFinset).card : Int) := by
        rw [Finset.card_biUnion disjoint, Nat.cast_sum]
    _ ≤ (prompts.toFinset.card : Int) := by exact_mod_cast Finset.card_le_card inside
    _ ≤ prompts.length := by exact_mod_cast List.toFinset_card_le prompts

/-! Two prompts on two nodes, each with a cache for one; the first prompt is asked
for again. -/

def ask (prompt : String) : Router.Request := ⟨computePrefixHash prompt, "", none, []⟩

def twoPrompts : List (Action 2) :=
  [.acquire (ask "a"), .evaluate 0 [], .other (.report 0 (some true)), .release 0,
    .acquire (ask "b"), .evaluate 1 [], .acquire (ask "a"), .evaluate 2 []]

def servedTwice : List Mock.Move := Mock.served 0 "a" ++ Mock.served 1 "a"

theorem sent_of_log (log : List (String × Fin 2)) (i : Fin 2) (prompt : String)
    (inPrompts : prompt ∈ ["a", "b"]) (logged : (computePrefixHash prompt, i) ∈ log) :
    Sent ["a", "b"] log i (Mock.prompt prompt) := by
  have asks : AsksWith [⟨"system", ⟨prompt, some prompt⟩⟩] prompt := by simp [AsksWith]
  refine ⟨_, prompt, inPrompts, asks, rfl, ?_⟩
  rw [systemContent_of_asks _ prompt asks]
  exact logged

theorem prompts_of_twoPrompts :
    ∃ first second : Mock.Server,
      Mock.Reached (Mock.cacheOf 1) servedTwice first ∧
      Mock.Reached (Mock.cacheOf 1) (Mock.served 0 "b") second ∧
      first.w.requests = 2 ∧ first.w.requests - first.w.warm = 1 ∧
      (second.w.requests - second.w.warm) + (first.w.requests - first.w.warm) ≤ 2 := by
  have ranFirst : (Runs.run Mock.Server.step ⟨Mock.new (Mock.cacheOf 1), [], []⟩ servedTwice).map
      (fun s => (s.keys, s.w.requests, s.chats.map fun chat => chat.stage)) =
        some (["a", "a"], 2, [.ended (.served false), .ended (.served true)]) := by
    decide +kernel
  have ranSecond : (Runs.run Mock.Server.step ⟨Mock.new (Mock.cacheOf 1), [], []⟩
      (Mock.served 0 "b")).map (fun s => s.chats.map fun chat => chat.stage) =
        some [.ended (.served false)] := by
    decide +kernel
  have ranRouter : (Runs.run (World.step (Runtime.exact 2) Router.memoryForTwo.clamp)
      Router.emptyPair twoPrompts).isSome = true := by
    decide +kernel
  have settled : Runs.Along (World.step (Runtime.exact 2) Router.memoryForTwo.clamp)
      (World.Settled (Runtime.exact 2) Router.memoryForTwo.clamp [0, 1] ""
        (["a", "b"].map computePrefixHash)) Router.emptyPair twoPrompts := by
    decide +kernel
  have logged : grantLog (Runtime.exact 2) Router.memoryForTwo.clamp Router.emptyPair twoPrompts =
      [(computePrefixHash "a", 1), (computePrefixHash "b", 0), (computePrefixHash "a", 1)] := by
    decide +kernel
  have distinct : (["a", "b"].map fun p => groupKey "" (computePrefixHash p)).Nodup := by
    decide +kernel
  obtain ⟨first, reachedFirst, facts⟩ := Option.map_eq_some_iff.mp ranFirst
  obtain ⟨keys, facts⟩ := Prod.mk.inj facts
  obtain ⟨requests, stages⟩ := Prod.mk.inj facts
  obtain ⟨second, reachedSecond, stages'⟩ := Option.map_eq_some_iff.mp ranSecond
  obtain ⟨w, reached⟩ := Option.isSome_iff_exists.mp ranRouter
  have ended : ∀ (s : Mock.Server) (outcomes : List Mock.Outcome),
      (s.chats.map fun chat => chat.stage) = outcomes.map Mock.Stage.ended →
      ∀ chat ∈ s.chats, ∃ outcome, chat.stage = .ended outcome := by
    intro s outcomes same chat member
    have inStages := List.mem_map_of_mem (f := fun chat : Mock.Chat => chat.stage) member
    rw [same] at inStages
    obtain ⟨outcome, _, isEnded⟩ := List.mem_map.mp inStages
    exact ⟨outcome, isEnded.symm⟩
  have served : ∀ i : Fin 2, Mock.Reached (Mock.cacheOf 1)
      (![Mock.served 0 "b", servedTwice] i) (![second, first] i)
    | 0 => reachedSecond
    | 1 => reachedFirst
  have finished : ∀ i : Fin 2, ∀ chat ∈ (![second, first] i).chats,
      ∃ outcome, chat.stage = .ended outcome
    | 0 => ended second [.served false] stages'
    | 1 => ended first [.served false, .served true] stages
  have sent : ∀ (i : Fin 2) (req : Mock.ChatReq),
      Mock.Move.arrive (some req) ∈ ![Mock.served 0 "b", servedTwice] i →
        Sent ["a", "b"] (grantLog (Runtime.exact 2) Router.memoryForTwo.clamp Router.emptyPair
          twoPrompts) i req := by
    intro i req arrives
    rw [logged]
    match i with
    | 0 =>
        have same : req = Mock.prompt "b" := by simpa [Mock.served] using arrives
        rw [same]
        exact sent_of_log _ 0 "b" (by simp) (by simp)
    | 1 =>
        have same : req = Mock.prompt "a" := by simpa [servedTwice, Mock.served] using arrives
        rw [same]
        exact sent_of_log _ 1 "a" (by simp) (by simp)
  have nonempty : ([0, 1] : List (Fin 2)) ≠ [] := by simp
  have nodup : ([0, 1] : List (Fin 2)).Nodup := by decide
  have inCands : (1 : Fin 2) ∈ ([0, 1] : List (Fin 2)) := by simp
  have room : ∀ i ∈ ([0, 1] : List (Fin 2)), ["a", "b"].length ≤
      ([0, 1] : List (Fin 2)).length * (Mock.cacheOf 1).defaults.cacheSize.toNat := by decide
  obtain ⟨cold, total⟩ := prompts_are_computed_once Router.pairOfNodes 0 Router.memoryForTwo
    (Runtime.exact 2) 0 twoPrompts w reached ([0, 1] : List (Fin 2)) nonempty nodup ""
    ["a", "b"] settled distinct (by decide) (fun _ => Mock.cacheOf 1) room
    ![Mock.served 0 "b", servedTwice] ![second, first] (fun i _ => served i)
    (fun i _ => finished i) (fun i _ => sent i)
  have once : first.w.requests - first.w.warm = (first.keys.toFinset.card : Int) :=
    cold (1 : Fin 2) inCands
  have all : ∑ i ∈ ({0, 1} : Finset (Fin 2)),
      ((![second, first] i).w.requests - (![second, first] i).w.warm) ≤ 2 := total
  refine ⟨first, second, reachedFirst, reachedSecond, requests, ?_, ?_⟩
  · rw [once, keys]
    decide
  · simp at all
    omega

end RadixGates.Fleet
