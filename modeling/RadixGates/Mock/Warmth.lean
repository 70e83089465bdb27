import RadixGates.Mock.Worker
import RadixGates.Router.Frame

/-!
# Which requests are warm

The cache of the worker under any interleaving of its requests, by the list of
all uses: what it holds, which uses find their prefix, and what the counters of
`/admin/stats` say about it.
-/

set_option autoImplicit false

namespace RadixGates.Mock

/-! ## The cache -/

theorem one_le_cacheSize (o : Options) : 1 ≤ o.defaults.cacheSize := by
  simp only [Options.defaults]
  split <;> omega

def Server.keys (s : Server) : List String := s.log.map Prod.fst

/-- The cache holds the keys used last, and the log says which were found. -/
structure Cached (size : Nat) (s : Server) : Prop where
  opts : s.w.opts.cacheSize = size
  bounded : s.w.cache.Bounded size
  recent : s.w.cache.keys = Recency.recent size s.keys
  found : s.log.map Prod.snd = Recency.hits size [] s.keys

theorem Cached.touch {size : Nat} {s : Server} (cached : Cached size s) (chats : List Chat)
    (key : String) :
    Cached size ⟨(s.w.touch key).1, chats, s.log ++ [(key, (s.w.touch key).2)]⟩ := by
  obtain ⟨bounded, keys, hit⟩ := cached.bounded.touch key
  have touched : s.w.touch key =
      ({ s.w with cache := (s.w.cache.touch size key).1 }, (s.w.cache.touch size key).2) := by
    simp only [Worker.touch, cached.opts]
  have used : Server.keys ⟨(s.w.touch key).1, chats, s.log ++ [(key, (s.w.touch key).2)]⟩ =
      s.keys ++ [key] := by
    simp [Server.keys]
  constructor
  · exact cached.opts
  · rw [touched]
    exact bounded
  · rw [used, Recency.recent_snoc, ← cached.recent, touched]
    exact keys
  · have warm : (s.w.cache.touch size key).2 = decide (key ∈ Recency.recent size s.keys) := by
      rw [← cached.recent, Bool.eq_iff_iff, hit, decide_eq_true_eq]
    rw [used, Recency.hits_snoc, ← cached.found, List.nil_append, ← warm, touched]
    simp

theorem Cached.step {size : Nat} {s next : Server} {move : Move} (cached : Cached size s)
    (moved : Moved s move next) : Cached size next := by
  cases moved with
  | touched k chat found req stage => exact cached.touch _ (prefixKey req)
  | setFault | arrived | checked | counted | finished =>
      exact ⟨cached.opts, cached.bounded, cached.recent, cached.found⟩

/-! ## The counters -/

def Chat.isServing (chat : Chat) : Bool :=
  match chat.stage with
  | .serving _ => true
  | _ => false

/-- The flag of a request that has gone past the cache. -/
def Chat.flag (chat : Chat) : Option Bool :=
  match chat.stage with
  | .touched warm | .serving warm | .ended (.served warm) => some warm
  | _ => none

/-- The flag of a request that was counted. -/
def Chat.counted (chat : Chat) : Option Bool :=
  match chat.stage with
  | .serving warm | .ended (.served warm) => some warm
  | _ => none

/-- The counters of the worker and the log of the cache, by the requests. -/
structure Counted (s : Server) : Prop where
  inflight : s.w.inflight = (s.chats.countP Chat.isServing : Int)
  requests : s.w.requests = (s.chats.countP fun chat => chat.counted.isSome : Int)
  warm : s.w.warm = (s.chats.countP fun chat => chat.counted == some true : Int)
  uses : s.log.length = s.chats.countP fun chat => chat.flag.isSome
  hits : s.log.countP Prod.snd = s.chats.countP fun chat => chat.flag == some true

/-- A move of one request changes the counters by what it changes about the
request. -/
theorem Counted.set {s next : Server} (counted : Counted s) {k : Nat} {chat chat' : Chat}
    (found : s.chats[k]? = some chat) (chats : next.chats = s.chats.set k chat')
    (inflight : next.w.inflight + (if chat.isServing then 1 else 0) =
      s.w.inflight + if chat'.isServing then 1 else 0)
    (requests : next.w.requests + (if chat.counted.isSome then 1 else 0) =
      s.w.requests + if chat'.counted.isSome then 1 else 0)
    (warm : next.w.warm + (if chat.counted == some true then 1 else 0) =
      s.w.warm + if chat'.counted == some true then 1 else 0)
    (uses : next.log.length + (if chat.flag.isSome then 1 else 0) =
      s.log.length + if chat'.flag.isSome then 1 else 0)
    (hits : next.log.countP Prod.snd + (if chat.flag == some true then 1 else 0) =
      s.log.countP Prod.snd + if chat'.flag == some true then 1 else 0) : Counted next := by
  have balance := fun p : Chat → Bool => Router.countP_set_balance p s.chats k chat chat' found
  constructor
  · have served := balance Chat.isServing
    have before := counted.inflight
    rw [chats]
    split_ifs at served inflight <;> omega
  · have asked := balance fun chat => chat.counted.isSome
    have before := counted.requests
    rw [chats]
    split_ifs at asked requests <;> omega
  · have found := balance fun chat => chat.counted == some true
    have before := counted.warm
    rw [chats]
    split_ifs at found warm <;> omega
  · have used := balance fun chat => chat.flag.isSome
    have before := counted.uses
    rw [chats]
    split_ifs at used uses <;> omega
  · have hit := balance fun chat => chat.flag == some true
    have before := counted.hits
    rw [chats]
    split_ifs at hit hits <;> omega

theorem checked_idle (f : Fault) (body : Option ChatReq) :
    (∃ outcome, checked f body = .ended outcome ∧ ∀ warm, outcome ≠ .served warm) ∨
      ∃ req, checked f body = .admitted req := by
  unfold checked
  split
  · exact Or.inl ⟨_, rfl, by simp⟩
  · exact Or.inl ⟨_, rfl, by simp⟩
  · exact Or.inl ⟨_, rfl, by simp⟩
  · cases body with
    | none => exact Or.inl ⟨_, rfl, by simp⟩
    | some req =>
        dsimp only
        split_ifs
        · exact Or.inl ⟨_, rfl, by simp⟩
        · exact Or.inr ⟨req, rfl⟩

theorem Counted.step {s next : Server} {move : Move} (counted : Counted s)
    (moved : Moved s move next) : Counted next := by
  cases moved with
  | setFault f =>
      exact ⟨counted.inflight, counted.requests, counted.warm, counted.uses, counted.hits⟩
  | arrived body =>
      constructor <;>
        simp [counted.inflight, counted.requests, counted.warm, counted.uses, counted.hits,
          Chat.isServing, Chat.counted, Chat.flag]
  | checked k chat found stage =>
      refine counted.set found rfl ?_ ?_ ?_ ?_ ?_ <;>
        rcases checked_idle s.w.fault chat.body with ⟨outcome, out, unserved⟩ | ⟨req, out⟩ <;>
        simp only [Server.setStage, out, Chat.isServing, Chat.counted, Chat.flag, stage] <;>
        cases outcome <;> simp_all
  | touched k chat found req stage =>
      refine counted.set found rfl ?_ ?_ ?_ ?_ ?_ <;>
        simp [Chat.isServing, Chat.counted, Chat.flag, stage, Worker.touch]
  | counted k chat found warm stage =>
      refine counted.set found rfl ?_ ?_ ?_ ?_ ?_
      · simp [Chat.isServing, stage]
      · simp [Chat.counted, stage]
      · cases warm <;> simp [Chat.counted, stage]
      · simp [Server.setStage, Chat.flag, stage]
      · simp [Server.setStage, Chat.flag, stage]
  | finished k chat found warm stage =>
      refine counted.set found rfl ?_ ?_ ?_ ?_ ?_ <;>
        simp [Server.setStage, Chat.isServing, Chat.counted, Chat.flag, stage]

/-! ## Every run -/

section
variable {o : Options} {moves : List Move} {s : Server}

theorem cached_of_reached (reached : Reached o moves s) :
    Cached o.defaults.cacheSize.toNat s := by
  apply Runs.run_preserves Server.step (Cached o.defaults.cacheSize.toNat) _ moves _ s _ reached
  · exact fun _ _ _ cached stepped => cached.step (step_moved _ _ _ stepped)
  · have positive := one_le_cacheSize o
    refine ⟨?_, ⟨IndexedLru.consistent_empty, Nat.zero_le _⟩, ?_, rfl⟩
    · simp only [new]
      omega
    · simp [new, IndexedLru.empty, IndexedLru.keys, Server.keys, Recency.recent]

theorem counted_of_reached (reached : Reached o moves s) : Counted s := by
  apply Runs.run_preserves Server.step Counted _ moves _ s _ reached
  · exact fun _ _ _ counted stepped => counted.step (step_moved _ _ _ stepped)
  · exact ⟨rfl, rfl, rfl, rfl, rfl⟩

end

/-- Under any interleaving of requests and faults the list and the index of the
cache agree and hold the last `CacheSize` distinct prefixes; a request is warm
exactly when its prefix is one of them; and the counters of `/admin/stats` are the
numbers of the requests being served, of those that were counted, and of the warm
ones among these. -/
theorem cache_holds_recent_prefixes (o : Options) (moves : List Move) (s : Server)
    (reached : Reached o moves s) :
    s.w.cache.keys = Recency.recent o.defaults.cacheSize.toNat s.keys ∧
      (∀ key id, s.w.cache.index key = some id ↔ (id, key) ∈ s.w.cache.elements) ∧
      s.log.map Prod.snd = Recency.hits o.defaults.cacheSize.toNat [] s.keys ∧
      Counted s := by
  have cached := cached_of_reached reached
  exact ⟨cached.recent, cached.bounded.indexed, cached.found, counted_of_reached reached⟩

theorem length_eq_countP_add_count (log : List (String × Bool)) :
    log.length = log.countP Prod.snd + (log.map Prod.snd).count false := by
  induction log with
  | nil => rfl
  | cons entry rest ih =>
      obtain ⟨key, warm⟩ := entry
      cases warm <;> simp [ih] <;> omega

/-- When all requests are over, the counters are those of the log. -/
theorem counts_of_finished {o : Options} {moves : List Move} {s : Server}
    (reached : Reached o moves s)
    (finished : ∀ chat ∈ s.chats, ∃ outcome, chat.stage = .ended outcome) :
    s.w.inflight = 0 ∧ s.w.requests = s.log.length ∧
      s.w.requests - s.w.warm =
        ((Recency.hits o.defaults.cacheSize.toNat [] s.keys).count false : Int) := by
  have cached := cached_of_reached reached
  have counted := counted_of_reached reached
  have same : ∀ chat ∈ s.chats, chat.counted = chat.flag := by
    intro chat member
    obtain ⟨outcome, stage⟩ := finished chat member
    unfold Chat.counted Chat.flag
    rw [stage]
    cases outcome <;> rfl
  have nobody : s.chats.countP Chat.isServing = 0 := by
    rw [List.countP_eq_zero]
    intro chat member
    obtain ⟨outcome, stage⟩ := finished chat member
    simp [Chat.isServing, stage]
  have asked : s.chats.countP (fun chat => chat.counted.isSome) =
      s.chats.countP fun chat => chat.flag.isSome :=
    List.countP_congr fun chat member => by rw [same chat member]
  have found : s.chats.countP (fun chat => chat.counted == some true) =
      s.chats.countP fun chat => chat.flag == some true :=
    List.countP_congr fun chat member => by rw [same chat member]
  have inflight := counted.inflight
  have requests := counted.requests
  have warm := counted.warm
  have uses := counted.uses
  have hits := counted.hits
  have split := length_eq_countP_add_count s.log
  rw [cached.found] at split
  exact ⟨by omega, by omega, by omega⟩

/-- When all requests are over, every distinct prefix was cold at least once,
and exactly once if the cache has room for all of them. -/
theorem fitting_prefixes_stay_warm (o : Options) (moves : List Move) (s : Server)
    (reached : Reached o moves s)
    (finished : ∀ chat ∈ s.chats, ∃ outcome, chat.stage = .ended outcome) :
    s.w.inflight = 0 ∧ s.w.requests = s.log.length ∧
      (s.keys.toFinset.card : Int) ≤ s.w.requests - s.w.warm ∧
      (s.keys.toFinset.card ≤ o.defaults.cacheSize.toNat →
        s.w.requests - s.w.warm = s.keys.toFinset.card) := by
  obtain ⟨inflight, requests, misses⟩ := counts_of_finished reached finished
  have cold := Recency.card_le_misses o.defaults.cacheSize.toNat s.keys
  refine ⟨inflight, requests, by omega, ?_⟩
  intro fits
  have exactly := Recency.misses_of_fits o.defaults.cacheSize.toNat s.keys fits
  omega

/-! Two prefixes in turn, in a cache for two and in a cache for one. -/

def prompt (text : String) : ChatReq := ⟨[⟨"system", text, some text⟩], true, 0⟩

/-- The moves of one request from its arrival to its end. -/
def served (k : Nat) (text : String) : List Move :=
  [.arrive (some (prompt text)), .check k, .touch k, .count k, .finish k]

def inTurn : List Move := served 0 "a" ++ served 1 "b" ++ served 2 "a" ++ served 3 "b"

def cacheOf (size : Int) : Options := ⟨"w", 0, 0, 0, 0, 0, size⟩

theorem cache_of_inTurn :
    ∃ s, Reached (cacheOf 2) inTurn s ∧ s.w.cache.keys = ["b", "a"] ∧
      s.log.map Prod.snd = [false, false, true, true] ∧ s.w.requests = 4 ∧ s.w.warm = 2 := by
  have evaluated : (Runs.run Server.step ⟨new (cacheOf 2), [], []⟩ inTurn).map
      (fun s => (s.keys, s.chats.map fun chat => chat.stage)) =
        some (["a", "b", "a", "b"], [.ended (.served false), .ended (.served false),
          .ended (.served true), .ended (.served true)]) := by
    decide +kernel
  obtain ⟨s, reached, facts⟩ := Option.map_eq_some_iff.mp evaluated
  obtain ⟨keys, stages⟩ := Prod.mk.inj facts
  obtain ⟨recent, _, found, counted⟩ := cache_holds_recent_prefixes (cacheOf 2) inTurn s reached
  have byStage : ∀ p : Stage → Bool, s.chats.countP (fun chat => p chat.stage) =
      [Stage.ended (.served false), .ended (.served false), .ended (.served true),
        .ended (.served true)].countP p := by
    intro p
    rw [← stages, List.countP_map]
    rfl
  refine ⟨s, reached, ?_, ?_, ?_, ?_⟩
  · rw [recent, keys]
    decide +kernel
  · rw [found, keys]
    decide +kernel
  · rw [counted.requests]
    exact congrArg Nat.cast (byStage fun stage => (Chat.counted ⟨none, stage⟩).isSome)
  · rw [counted.warm]
    exact congrArg Nat.cast (byStage fun stage => Chat.counted ⟨none, stage⟩ == some true)

theorem inTurn_stays_warm :
    ∃ s, Reached (cacheOf 2) inTurn s ∧ s.w.requests = 4 ∧ s.w.requests - s.w.warm = 2 := by
  have evaluated : (Runs.run Server.step ⟨new (cacheOf 2), [], []⟩ inTurn).map
      (fun s => (s.keys, s.w.requests, s.chats.map fun chat => chat.stage)) =
        some (["a", "b", "a", "b"], 4, [.ended (.served false), .ended (.served false),
          .ended (.served true), .ended (.served true)]) := by
    decide +kernel
  obtain ⟨s, reached, facts⟩ := Option.map_eq_some_iff.mp evaluated
  obtain ⟨keys, facts⟩ := Prod.mk.inj facts
  obtain ⟨requests, stages⟩ := Prod.mk.inj facts
  have finished : ∀ chat ∈ s.chats, ∃ outcome, chat.stage = .ended outcome := by
    intro chat member
    have inStages := List.mem_map_of_mem (f := fun chat : Chat => chat.stage) member
    rw [stages] at inStages
    simp only [List.mem_cons, List.not_mem_nil, or_false] at inStages
    rcases inStages with isOver | isOver | isOver | isOver <;> exact ⟨_, isOver⟩
  obtain ⟨_, _, _, exactly⟩ := fitting_prefixes_stay_warm (cacheOf 2) inTurn s reached finished
  have card : s.keys.toFinset.card = 2 := by
    rw [keys]
    decide +kernel
  have cold := exactly (by rw [card]; decide)
  rw [card] at cold
  exact ⟨s, reached, requests, cold⟩

end RadixGates.Mock
