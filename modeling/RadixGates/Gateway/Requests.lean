import RadixGates.Gateway.Calls
import RadixGates.Router.Holdings

/-!
# One request among many

Whatever the other requests, the health checks and the scrapes do meanwhile, a
request that is over was served as `ServeHTTP` serves it on its own, when each
turn of its loop hears what the router has returned to the call it made there.
-/

set_option autoImplicit false

namespace RadixGates.Handler

section
variable {rel : Settings.Reliability} {ctx : Ctx} {stream : Bool} {script script' : Nat → Turn}

/-! ## The script of a loop -/

theorem iterate_congr (s : Loop) (same : script s.attempt = script' s.attempt) :
    s.iterate rel ctx stream script = s.iterate rel ctx stream script' := by
  have made : ∀ started node, s.attemptOn rel ctx stream script started node =
      s.attemptOn rel ctx stream script' started node := by
    intro started node
    simp only [Loop.attemptOn, same]
  have retried : ∀ record reason,
      s.retry rel ctx script record reason = s.retry rel ctx script' record reason := by
    intro record reason
    simp only [Loop.retry, same]
  unfold Loop.iterate
  rw [same]
  simp only [made, retried]

theorem Loop.run_of_exhausted (left : Nat) (s last : Loop)
    (bound : (s.attempt : Int) + left = rel.maxAttempts + 1)
    (reached : Loop.Reaches rel ctx stream script s last)
    (spent : rel.maxAttempts < last.attempt) :
    Loop.run rel ctx stream script left s =
      ⟨last.records, allFailed rel.maxAttempts last.lastReason, none⟩ := by
  induction left generalizing s with
  | zero =>
      rcases Relation.ReflTransGen.cases_head reached with rfl | ⟨next, stepped, _⟩
      · rfl
      · have := stepped.1
        omega
  | succ left ih =>
      rcases Relation.ReflTransGen.cases_head reached with rfl | ⟨next, stepped, later⟩
      · omega
      · have counted := stepped.attempt rel ctx stream script
        simp only [Loop.run]
        rw [stepped.2]
        exact ih next (by omega) later

/-! ## The attempts of a loop -/

/-- Another turn adds its attempt, on a node that was not tried before. -/
theorem iterate_grown {s next : Loop} {turn : Turn} (orderly : s.Orderly)
    (router : turn.FromRouter)
    (again : s.iterate rel ctx stream (fun _ => turn) = .inl next) :
    s.records <+: next.records ∧ next.records.length = s.records.length + 1 ∧
      next.attempt = s.attempt + 1 ∧ next.Orderly := by
  have iterated := iterate_iterated rel ctx stream (fun _ => turn) s
  rw [again] at iterated
  cases iterated with
  | again made reason now isMade exit uncut =>
      exact ⟨List.prefix_append s.records [made], by simp [Loop.after], rfl,
        orderly.after rel ctx stream (fun _ => turn) isMade (fun _ => router) exit now⟩

theorem iterate_ended {s : Loop} {turn : Turn} {served : Served} (orderly : s.Orderly)
    (router : turn.FromRouter)
    (ended : s.iterate rel ctx stream (fun _ => turn) = .inr served) :
    s.records <+: served.records ∧ (served.records.map Record.node).Nodup := by
  have iterated := iterate_iterated rel ctx stream (fun _ => turn) s
  rw [ended] at iterated
  cases iterated with
  | refused err got => exact ⟨List.prefix_rfl, orderly.distinct⟩
  | panicked made panic isMade | done made reason isMade | aborted made reason isMade
  | noBackoff made reason isMade | cut made reason isMade =>
      exact ⟨List.prefix_append s.records [made],
        orderly.distinct_snoc (isMade.fresh rel ctx stream (fun _ => turn) fun _ => router)⟩

theorem orderly_start (now : Int) : (Loop.start now).Orderly :=
  ⟨by simp [Loop.start], rfl, List.nodup_nil⟩

end

theorem serveHTTP_accepted (h : DirectChatHandler) (stream : Bool) (start : Int)
    (clientGone : Option Int) (script : Nat → Turn) :
    serveHTTP h ⟨"POST", .accepted stream⟩ start clientGone script =
      Loop.run h.init (h.ctx start clientGone) stream script h.init.maxAttempts.toNat
        (Loop.start start) := by
  simp [serveHTTP]

end RadixGates.Handler

namespace RadixGates.Gateway

open RadixGates.Handler
open RadixGates.Router (Action Answers Call GrantedTo Lease Options Runtime Stepped World)

section
variable {n : Nat} (h : DirectChatHandler) (rt : Runtime n) (opts : Options)

/-- With these calls the request has come to the head of its loop. -/
def Client.OnPath (w : World n) (c : Client) (mine : List Nat) (loop : Loop) : Prop :=
  ∃ turns : List Turn, c.Told h rt opts w mine turns loop.records ∧
    loop.records.length = turns.length ∧ loop.attempt = turns.length + 1 ∧ loop.Orderly ∧
    ∀ script, Starts turns script →
      Loop.Reaches h.init (c.ctx h) c.stream script (Loop.start c.arrived) loop

/-- This is how the request is served on its own, with the answers to these calls
and whatever else it might have been answered. -/
def Client.ServedAlone (w : World n) (c : Client) (mine : List Nat) (served : Served) : Prop :=
  ∃ turns : List Turn, c.Told h rt opts w mine turns served.records ∧
    ∀ script, Starts turns script →
      served = serveHTTP h ⟨"POST", .accepted c.stream⟩ c.arrived c.clientGone script

def Client.Continues (w : World n) (c : Client) (mine : List Nat) : Loop ⊕ Served → Prop
  | .inl loop => c.OnPath h rt opts w mine loop
  | .inr served => c.ServedAlone h rt opts w mine served ∧ (served.records.map Record.node).Nodup

/-- Where the request is, and that its calls have brought it there; the last one
may not be heard yet. -/
inductive Client.Follows (w : World n) (c : Client) (mine : List Nat) : Prop where
  | looping (stage : c.stage = .looping) (onPath : c.OnPath h rt opts w mine c.loop)
  | acquiring (heard : List Nat) (index : Nat) (last : mine = heard ++ [index])
      (stage : c.stage = .acquiring index) (onPath : c.OnPath h rt opts w heard c.loop)
      (inside : (c.loop.attempt : Int) ≤ h.init.maxAttempts) (call : Call)
      (called : w.calls[index]? = some call) (asked : call.request = c.request)
  | forwarding (heard : List Nat) (index lease : Nat) (started : Int)
      (last : mine = heard ++ [index]) (stage : c.stage = .forwarding lease started)
      (onPath : c.OnPath h rt opts w heard c.loop)
      (inside : (c.loop.attempt : Int) ≤ h.init.maxAttempts) (call : Call)
      (called : w.calls[index]? = some call) (asked : call.request = c.request)
      (returned : call.pc = .returned (.ok lease))
  | closing (lease : Nat) (verdict : Option Bool) (finished : Int) (next : Loop ⊕ Served)
      (stage : c.stage = .closing lease verdict finished next)
      (continues : c.Continues h rt opts w mine next)
  | ended (served : Served) (kept : Option Nat) (stage : c.stage = .ended served kept)
      (alone : c.Continues h rt opts w mine (.inr served))

variable {h rt opts}

/-! ## Where the stage is known -/

theorem Client.Follows.atHead {w : World n} {c : Client} {mine : List Nat}
    (follows : c.Follows h rt opts w mine) (looping : c.stage = .looping) :
    c.OnPath h rt opts w mine c.loop := by
  cases follows with
  | looping _ onPath => exact onPath
  | acquiring _ _ _ stage | forwarding _ _ _ _ _ stage | closing _ _ _ _ stage
  | ended _ _ stage =>
      rw [looping] at stage
      cases stage

/-- The last call of a request that is in `Acquire` is the one it waits for. -/
theorem Client.Follows.inAcquire {w : World n} {c : Client} {mine : List Nat} {index : Nat}
    (follows : c.Follows h rt opts w mine) (acquiring : c.stage = .acquiring index) :
    ∃ heard call, mine = heard ++ [index] ∧ c.OnPath h rt opts w heard c.loop ∧
      (c.loop.attempt : Int) ≤ h.init.maxAttempts ∧ w.calls[index]? = some call ∧
      call.request = c.request := by
  cases follows with
  | acquiring heard other last stage onPath inside call called asked =>
      rw [acquiring] at stage
      cases stage
      exact ⟨heard, call, last, onPath, inside, called, asked⟩
  | looping stage | forwarding _ _ _ _ _ stage | closing _ _ _ _ stage | ended _ _ stage =>
      rw [acquiring] at stage
      cases stage

theorem Client.Follows.inAttempt {w : World n} {c : Client} {mine : List Nat} {lease : Nat}
    {started : Int} (follows : c.Follows h rt opts w mine)
    (forwarding : c.stage = .forwarding lease started) :
    ∃ heard index call, mine = heard ++ [index] ∧ c.OnPath h rt opts w heard c.loop ∧
      (c.loop.attempt : Int) ≤ h.init.maxAttempts ∧ w.calls[index]? = some call ∧
      call.request = c.request ∧ call.pc = .returned (.ok lease) := by
  cases follows with
  | forwarding heard index other since last stage onPath inside call called asked returned =>
      rw [forwarding] at stage
      cases stage
      exact ⟨heard, index, call, last, onPath, inside, called, asked, returned⟩
  | looping stage | acquiring _ _ _ stage | closing _ _ _ _ stage | ended _ _ stage =>
      rw [forwarding] at stage
      cases stage

theorem Client.Follows.atClose {w : World n} {c : Client} {mine : List Nat} {lease : Nat}
    {verdict : Option Bool} {finished : Int} {next : Loop ⊕ Served}
    (follows : c.Follows h rt opts w mine)
    (closing : c.stage = .closing lease verdict finished next) :
    c.Continues h rt opts w mine next := by
  cases follows with
  | closing _ _ _ _ stage continues =>
      rw [closing] at stage
      cases stage
      exact continues
  | looping stage | acquiring _ _ _ stage | forwarding _ _ _ _ _ stage | ended _ _ stage =>
      rw [closing] at stage
      cases stage

theorem Client.Follows.atEnd {w : World n} {c : Client} {mine : List Nat} {served : Served}
    {kept : Option Nat} (follows : c.Follows h rt opts w mine)
    (isOver : c.stage = .ended served kept) : c.Continues h rt opts w mine (.inr served) := by
  cases follows with
  | ended _ _ stage alone =>
      rw [isOver] at stage
      cases stage
      exact alone
  | looping stage | acquiring _ _ _ stage | forwarding _ _ _ _ _ stage
  | closing _ _ _ _ stage =>
      rw [isOver] at stage
      cases stage

/-! ## The router moves on -/

theorem Client.Continues.step {w next : World n} {action : Action n} {c : Client}
    {mine : List Nat} {after : Loop ⊕ Served} (continues : c.Continues h rt opts w mine after)
    (stepped : Stepped rt opts w action next) : c.Continues h rt opts next mine after := by
  cases after with
  | inl loop =>
      obtain ⟨turns, told, rest⟩ := continues
      exact ⟨turns, told.step stepped, rest⟩
  | inr served =>
      obtain ⟨⟨turns, told, alone⟩, distinct⟩ := continues
      exact ⟨⟨turns, told.step stepped, alone⟩, distinct⟩

theorem Client.Follows.step {w next : World n} {action : Action n} {c : Client} {mine : List Nat}
    (follows : c.Follows h rt opts w mine) (stepped : Stepped rt opts w action next) :
    c.Follows h rt opts next mine := by
  have stays : ∀ mine after, c.Continues h rt opts w mine after →
      c.Continues h rt opts next mine after := fun _ _ continues => continues.step stepped
  cases follows with
  | looping stage onPath => exact .looping stage (stays mine (.inl c.loop) onPath)
  | acquiring heard index last stage onPath inside call called asked =>
      obtain ⟨call', called', same⟩ := stepped.callRequest called
      exact .acquiring heard index last stage (stays heard (.inl c.loop) onPath) inside call'
        called' (same.trans asked)
  | forwarding heard index lease started last stage onPath inside call called asked returned =>
      exact .forwarding heard index lease started last stage (stays heard (.inl c.loop) onPath)
        inside call (stepped.returned called returned) asked returned
  | closing lease verdict finished after stage continues =>
      exact .closing lease verdict finished after stage (stays mine after continues)
  | ended served kept stage alone =>
      exact .ended served kept stage (stays mine (.inr served) alone)

/-- What a request was told stays its own when it moves on. -/
theorem Client.Continues.moved {w : World n} {c : Client} {mine : List Nat} {after : Loop ⊕ Served}
    (continues : c.Continues h rt opts w mine after) (loop : Loop) (stage : Stage) :
    Client.Continues h rt opts w { c with loop := loop, stage := stage } mine after := by
  cases after with
  | inl next =>
      obtain ⟨turns, told, rest⟩ := continues
      exact ⟨turns, ⟨told.length, told.answered⟩, rest⟩
  | inr served =>
      obtain ⟨⟨turns, told, alone⟩, distinct⟩ := continues
      exact ⟨⟨turns, ⟨told.length, told.answered⟩, alone⟩, distinct⟩

/-! ## The request moves on -/

/-- An iteration with a turn that the router has answered. -/
theorem Client.OnPath.iterate {w : World n} {c : Client} {heard : List Nat}
    (onPath : c.OnPath h rt opts w heard c.loop)
    (inside : (c.loop.attempt : Int) ≤ h.init.maxAttempts) {index : Nat} {turn : Turn}
    (answered : c.AnsweredBy h rt opts w c.loop.exclude index turn) (router : turn.FromRouter) :
    c.Continues h rt opts w (heard ++ [index]) (c.iterate h turn) := by
  obtain ⟨turns, told, made, counted, orderly, reaches⟩ := onPath
  rw [orderly.excluded] at answered
  have same : ∀ script, script (turns.length + 1) = turn →
      c.loop.iterate h.init (c.ctx h) c.stream script = c.iterate h turn := by
    intro script now
    exact iterate_congr c.loop (by rw [counted, now])
  cases ended : c.iterate h turn with
  | inl next =>
      obtain ⟨grown, longer, later, orderly'⟩ := iterate_grown orderly router ended
      refine ⟨turns ++ [turn], told.snoc made grown answered, ?_, ?_, orderly', ?_⟩
      · rw [longer, made, List.length_append, List.length_singleton]
      · rw [later, counted, List.length_append, List.length_singleton]
      · intro script starts
        obtain ⟨before, now⟩ := starts.of_snoc
        exact (reaches script before).tail ⟨inside, (same script now).trans ended⟩
  | inr served =>
      obtain ⟨grown, distinct⟩ := iterate_ended orderly router ended
      refine ⟨⟨turns ++ [turn], told.snoc made grown answered, ?_⟩, distinct⟩
      intro script starts
      obtain ⟨before, now⟩ := starts.of_snoc
      rw [serveHTTP_accepted]
      symm
      apply Loop.run_of_reaches _ _ _ _ _ _ c.loop served _ (reaches script before) inside
        ((same script now).trans ended)
      simp only [Loop.start]
      omega

theorem Client.OnPath.exhausted {w : World n} {c : Client} {mine : List Nat}
    (onPath : c.OnPath h rt opts w mine c.loop) (spent : h.init.maxAttempts < c.loop.attempt) :
    c.Continues h rt opts w mine
      (.inr ⟨c.loop.records, allFailed h.init.maxAttempts c.loop.lastReason, none⟩) := by
  obtain ⟨turns, told, _, _, orderly, reaches⟩ := onPath
  refine ⟨⟨turns, told, ?_⟩, orderly.distinct⟩
  intro script starts
  rw [serveHTTP_accepted]
  by_cases positive : 0 ≤ h.init.maxAttempts
  · symm
    apply Loop.run_of_exhausted _ _ c.loop _ (reaches script starts) spent
    simp only [Loop.start]
    omega
  · -- without a single attempt the loop is never entered
    have none : h.init.maxAttempts.toNat = 0 := by omega
    rw [none]
    rcases Relation.ReflTransGen.cases_head (reaches script starts) with start | ⟨_, stepped, _⟩
    · rw [← start]
      rfl
    · have := stepped.1
      simp only [Loop.start] at this
      omega

theorem Client.follows_resume {w : World n} {c : Client} {mine : List Nat} {next : Loop ⊕ Served}
    (continues : c.Continues h rt opts w mine next) (kept : Option Nat) :
    (c.resume kept next).Follows h rt opts w mine := by
  cases next with
  | inl loop => exact .looping rfl (continues.moved loop .looping)
  | inr served => exact .ended served kept rfl (continues.moved c.loop (.ended served kept))

theorem Client.follows_forwarded {w : World n} {c : Client} {mine : List Nat} {lease : Nat}
    {started : Int} {node : String} {exchange : Exchange}
    (continues : c.Continues h rt opts w mine
      (c.iterate h (c.turn started (.granted node) exchange))) :
    (c.forwarded h lease started node exchange).Follows h rt opts w mine := by
  simp only [Client.forwarded]
  split
  · exact .closing lease _ _ _ rfl (continues.moved c.loop _)
  · exact Client.follows_resume continues (some lease)

/-! ## Steps -/

/-- Every call has its request, and each request is where its calls have brought
it; a call that saw a context end saw the one of its request. -/
structure Followed (h : DirectChatHandler) (rt : Runtime n) (opts : Options) (owner : List Nat)
    (g : System n) : Prop where
  owned : owner.length = g.w.calls.length
  known : ∀ k ∈ owner, k < g.clients.length
  clients : ∀ (k : Nat) (c : Client), g.clients[k]? = some c →
    c.Follows h rt opts g.w (callsOf owner k)
  causes : ∀ (index : Nat) (call : Call) (cause : Router.CtxErr) (k : Nat) (c : Client),
    g.w.calls[index]? = some call → call.pc.ctxErr = some cause → owner[index]? = some k →
    g.clients[k]? = some c → cause = (c.ctx h).cause
  answers : Answers rt opts g.w

variable {owner : List Nat} {g : System n}

theorem Followed.set (followed : Followed h rt opts owner g) {k : Nat} {c c' : Client}
    (found : g.clients[k]? = some c) (same : c'.ctx h = c.ctx h)
    (follows : c'.Follows h rt opts g.w (callsOf owner k)) :
    Followed h rt opts owner (g.setClient k c') where
  owned := followed.owned
  known := by simpa [System.setClient] using followed.known
  clients j d atJ := by
    have within := (List.getElem?_eq_some_iff.mp found).1
    by_cases here : k = j
    · subst here
      simp only [System.setClient, List.getElem?_set_self within, Option.some.injEq] at atJ
      exact atJ ▸ follows
    · simp only [System.setClient, List.getElem?_set_ne here] at atJ
      exact followed.clients j d atJ
  causes index call cause j d called ended mine atJ := by
    have within := (List.getElem?_eq_some_iff.mp found).1
    by_cases here : k = j
    · subst here
      simp only [System.setClient, List.getElem?_set_self within, Option.some.injEq] at atJ
      rw [← atJ, same]
      exact followed.causes index call cause k c called ended mine found
    · simp only [System.setClient, List.getElem?_set_ne here] at atJ
      exact followed.causes index call cause j d called ended mine atJ
  answers := followed.answers

/-- A step of the router that enters nobody, and ends the context of a call only
when the one of its request has. -/
theorem Followed.world (followed : Followed h rt opts owner g) {w : World n} {action : Action n}
    (stepped : Stepped rt opts g.w action w) (same : w.calls.length = g.w.calls.length)
    (ends : ∀ (index : Nat) (cause : Router.CtxErr) (k : Nat) (c : Client),
      action = .ctxDone index cause → owner[index]? = some k → g.clients[k]? = some c →
      cause = (c.ctx h).cause) :
    Followed h rt opts owner { g with w := w } where
  owned := followed.owned.trans same.symm
  known := followed.known
  clients k c found := (followed.clients k c found).step stepped
  causes index call cause k c called ended mine found := by
    rcases stepped.ctxErr called ended with ⟨before, was, already⟩ | isThis
    · exact followed.causes index before cause k c was already mine found
    · exact ends index cause k c isThis mine found
  answers := followed.answers.step stepped

/-- A request enters `Acquire`; the new call is its own. -/
theorem Followed.enter (followed : Followed h rt opts owner g) {k : Nat} {c : Client}
    (found : g.clients[k]? = some c) (onPath : c.OnPath h rt opts g.w (callsOf owner k) c.loop)
    (inside : (c.loop.attempt : Int) ≤ h.init.maxAttempts) :
    Followed h rt opts (owner ++ [k])
      ⟨{ g.w with calls := g.w.calls ++ [Call.enter opts c.request] },
        g.clients.set k { c with stage := .acquiring g.w.calls.length }⟩ := by
  have entered : Stepped rt opts g.w (.acquire c.request)
      { g.w with calls := g.w.calls ++ [Call.enter opts c.request] } := .acquire c.request
  have within := (List.getElem?_eq_some_iff.mp found).1
  refine ⟨by simp [followed.owned], ?_, ?_, ?_, followed.answers.step entered⟩
  · intro j member
    rw [List.length_set]
    rcases List.mem_append.mp member with old | new
    · exact followed.known j old
    · rw [List.mem_singleton.mp new]
      exact within
  · intro j d atJ
    rw [callsOf_snoc]
    by_cases here : k = j
    · subst here
      rw [List.getElem?_set_self within] at atJ
      cases atJ
      have continues : c.Continues h rt opts g.w (callsOf owner k) (.inl c.loop) := onPath
      rw [if_pos rfl, followed.owned]
      exact .acquiring _ g.w.calls.length rfl rfl
        ((continues.step entered).moved c.loop (.acquiring g.w.calls.length)) inside
        (Call.enter opts c.request) List.getElem?_concat_length rfl
    · rw [List.getElem?_set_ne here] at atJ
      rw [if_neg here, List.append_nil]
      exact (followed.clients j d atJ).step entered
  · intro index call cause j d called ended mine atJ
    rcases Router.call_of_append called with old | ⟨_, rfl⟩
    · have before := (List.getElem?_eq_some_iff.mp old).1
      rw [List.getElem?_append_left (by rw [followed.owned]; exact before)] at mine
      by_cases here : k = j
      · subst here
        rw [List.getElem?_set_self within] at atJ
        cases atJ
        exact followed.causes index call cause k c old ended mine found
      · rw [List.getElem?_set_ne here] at atJ
        exact followed.causes index call cause j d old ended mine atJ
    · cases ended

theorem Followed.owns (followed : Followed h rt opts owner g) {k : Nat} {c : Client}
    (found : g.clients[k]? = some c) {index : Nat} (acquiring : c.stage = .acquiring index) :
    owner[index]? = some k := by
  obtain ⟨heard, _, last, _⟩ := (followed.clients k c found).inAcquire acquiring
  apply (mem_callsOf owner k index).mp
  simp [last]

/-- A context that is seen to end is the one of the request that made the call. -/
theorem Followed.ends (followed : Followed h rt opts owner g) {index : Nat}
    {cause : Router.CtxErr} (permitted : g.permits h (.ctxDone index cause) = true) {k : Nat}
    {c : Client} (mine : owner[index]? = some k) (found : g.clients[k]? = some c) :
    cause = (c.ctx h).cause := by
  simp only [System.permits, List.any_eq_true] at permitted
  obtain ⟨d, member, givesUp⟩ := permitted
  obtain ⟨j, atJ⟩ := List.mem_iff_getElem?.mp member
  unfold Client.givesUp at givesUp
  cases stage : d.stage with
  | acquiring other =>
      simp only [stage, decide_eq_true_eq] at givesUp
      obtain ⟨rfl, ended⟩ := givesUp
      cases Option.some.inj ((followed.owns atJ stage).symm.trans mine)
      cases Option.some.inj (atJ.symm.trans found)
      unfold Ctx.err at ended
      split_ifs at ended
      exact (Option.some.inj ended).symm
  | looping | forwarding _ _ | closing _ _ _ _ | ended _ _ =>
      simp only [stage] at givesUp
      cases givesUp

theorem client_of_append {clients : List Client} {fresh c : Client} {k : Nat}
    (found : (clients ++ [fresh])[k]? = some c) :
    clients[k]? = some c ∨ (k = clients.length ∧ c = fresh) := by
  rcases Nat.lt_trichotomy k clients.length with before | rfl | after
  · rw [List.getElem?_append_left before] at found
    exact Or.inl found
  · rw [List.getElem?_concat_length] at found
    exact Or.inr ⟨rfl, (Option.some.inj found).symm⟩
  · rw [List.getElem?_eq_none (by simp; omega)] at found
    cases found

theorem forwarded_ctx (c : Client) (lease : Nat) (started : Int) (node : String)
    (exchange : Exchange) : (c.forwarded h lease started node exchange).ctx h = c.ctx h := by
  simp only [Client.forwarded]
  split
  · rfl
  · cases c.iterate h (c.turn started (.granted node) exchange) <;> rfl

/-- Only requests enter the router. -/
theorem calls_of_permits {action : Action n} {w : World n}
    (permitted : g.permits h action = true) (stepped : Stepped rt opts g.w action w) :
    w.calls.length = g.w.calls.length := by
  have others : Router.Shifted g.w w := by
    apply stepped.shifted
    · rintro request rfl
      cases permitted
    · rintro lease rfl
      cases permitted
  cases others with
  | kept _ length => exact length
  | granted _ _ _ _ length => exact length

theorem Followed.arrive (followed : Followed h rt opts owner g) (prefixHash target : String)
    (stream : Bool) (clientGone : Option Int) :
    Followed h rt opts owner (g.arrive prefixHash target stream clientGone) := by
  refine ⟨followed.owned, ?_, ?_, ?_, followed.answers⟩
  · intro k member
    have := followed.known k member
    simp only [System.arrive, List.length_append, List.length_singleton]
    omega
  · intro k c found
    rcases client_of_append found with old | ⟨rfl, rfl⟩
    · exact followed.clients k c old
    · -- the newcomer has not made a call
      rw [callsOf_absent owner _ fun member => lt_irrefl _ (followed.known _ member)]
      refine .looping rfl ⟨[], ⟨rfl, by simp⟩, rfl, rfl, orderly_start _, ?_⟩
      exact fun _ _ => .refl
  · intro index call cause k c called ended mine found
    rcases client_of_append found with old | ⟨rfl, rfl⟩
    · exact followed.causes index call cause k c called ended mine old
    · exact absurd (followed.known _ (List.mem_of_getElem? mine)) (lt_irrefl _)

theorem Followed.step {next : System n} {move : Move n} (followed : Followed h rt opts owner g)
    (moved : Moved h rt opts g move next) :
    Followed h rt opts (owner ++ entering g next move) next := by
  cases moved with
  | arrived prefixHash target stream clientGone =>
      simp only [entering, List.append_nil]
      exact followed.arrive prefixHash target stream clientGone
  | entered k c found looping due more =>
      have fresh : entering g ⟨{ g.w with calls := g.w.calls ++ [Call.enter opts c.request] },
          g.clients.set k { c with stage := .acquiring g.w.calls.length }⟩ (.acquire k) = [k] := by
        simp [entering]
      rw [fresh]
      exact followed.enter found ((followed.clients k c found).atHead looping) more
  | exhausted k c found looping due spent =>
      simp only [entering, System.setClient, if_true, List.append_nil]
      have onPath := (followed.clients k c found).atHead looping
      exact followed.set found rfl
        (.ended _ none rfl ((onPath.exhausted spent).moved c.loop (.ended _ none)))
  | granted k c found index acquiring call called lease returned =>
      simp only [entering, List.append_nil]
      obtain ⟨heard, call', last, onPath, inside, called', asked⟩ :=
        (followed.clients k c found).inAcquire acquiring
      cases Option.some.inj (called.symm.trans called')
      have continues : c.Continues h rt opts g.w heard (.inl c.loop) := onPath
      exact followed.set found rfl (.forwarding heard index lease g.w.clock last rfl
        (continues.moved c.loop (.forwarding lease g.w.clock)) inside call called asked returned)
  | refused k c found index acquiring call called err returned =>
      simp only [entering, List.append_nil]
      obtain ⟨heard, call', last, onPath, inside, called', asked⟩ :=
        (followed.clients k c found).inAcquire acquiring
      cases Option.some.inj (called.symm.trans called')
      have cause : ∀ cause, err = .ctx cause → cause = (c.ctx h).cause := by
        rintro cause rfl
        exact followed.causes index call cause k c called (by rw [returned]; rfl)
          (followed.owns found acquiring) found
      refine followed.set found (by cases c.iterate h _ <;> rfl) ?_
      rw [last]
      exact Client.follows_resume (onPath.iterate inside
        (answeredBy_refused called asked returned cause _ _) (fromRouter_refused c _ err _)) none
  | forwarded k c found index started forwarding lease leased exchange =>
      simp only [entering, List.append_nil]
      obtain ⟨heard, call', call, last, onPath, inside, called, asked, returned⟩ :=
        (followed.clients k c found).inAttempt forwarding
      have granted := followed.answers call' call index called returned
      rw [asked] at granted
      refine followed.set found (forwarded_ctx c _ _ _ _) ?_
      rw [last]
      exact Client.follows_forwarded (onPath.iterate inside
        (answeredBy_granted followed.answers called asked returned leased started exchange)
        (fromRouter_granted granted leased started exchange))
  | closed k c found index verdict finished after closing due lease leased reported =>
      simp only [entering, List.append_nil]
      have released : Stepped rt opts g.w (.release index) (g.w.release index lease) :=
        .release index lease leased reported
      have moved := followed.world released rfl (by simp)
      exact moved.set found (by cases after <;> rfl)
        (Client.follows_resume ((moved.clients k c found).atClose closing) none)
  | routed action permitted w stepped =>
      simp only [entering, List.append_nil]
      have kind := Router.step_stepped rt opts g.w w action stepped
      apply followed.world kind
      · exact calls_of_permits permitted kind
      · rintro index cause k c rfl mine found
        exact followed.ends permitted mine found

end

section
variable {h : DirectChatHandler} {instances : List Router.Instance} {defaultMaxConcurrent : Int}
  {opts : Options} {rt : Runtime instances.length} {clock : Int}
  {moves : List (Move instances.length)} {g : System instances.length}

theorem followed_of_reached
    (reached : Reached h instances defaultMaxConcurrent opts rt clock moves g) :
    Followed h rt opts.clamp (callers h rt opts.clamp
      ⟨Router.new instances defaultMaxConcurrent opts clock, []⟩ moves) g := by
  apply Runs.run_history (System.step h rt opts.clamp)
    (fun moves g => Followed h rt opts.clamp (callers h rt opts.clamp
      ⟨Router.new instances defaultMaxConcurrent opts clock, []⟩ moves) g) _ _ _ moves g reached
  · refine ⟨rfl, by simp [callers], by simp, by simp [callers], ?_⟩
    intro index call lease found
    simp [Router.new, World.idle] at found
  · intro moves g move next earlier followed stepped
    rw [callers_snoc earlier stepped]
    exact followed.step (step_moved h rt opts.clamp g next move stepped)

end

/-- Every call of the router was made by one of the requests.  A request that is
over, in any interleaving with others, was served as the handler serves it alone
when it hears what its own calls have returned, and each of its attempts went to
another node. -/
theorem requests_are_served (h : DirectChatHandler) (instances : List Router.Instance)
    (defaultMaxConcurrent : Int) (opts : Options) (rt : Runtime instances.length) (clock : Int)
    (moves : List (Move instances.length)) (g : System instances.length)
    (reached : Reached h instances defaultMaxConcurrent opts rt clock moves g) :
    let owner := callers h rt opts.clamp
      ⟨Router.new instances defaultMaxConcurrent opts clock, []⟩ moves
    owner.length = g.w.calls.length ∧
      ∀ (k : Nat) (c : Client) (served : Served) (kept : Option Nat),
        g.clients[k]? = some c → c.stage = .ended served kept →
        c.ServedAlone h rt opts.clamp g.w (callsOf owner k) served ∧
          (served.records.map Record.node).Nodup := by
  intro owner
  have followed : Followed h rt opts.clamp owner g := followed_of_reached reached
  refine ⟨followed.owned, ?_⟩
  intro k c served kept found isOver
  exact (followed.clients k c found).atEnd isOver

/-! The first node that the request is sent to fails, the second one answers, and
in between another request comes and goes. -/

def broken : Exchange := ⟨false, ⟨1, some ⟨500, "", ⟨readOf "", [], .eof⟩⟩, 0⟩, 0, ⟨0, false⟩⟩

def answered : Exchange := ⟨false, ⟨1, some ⟨200, "", ⟨readOf "hi", [], .eof⟩⟩, 0⟩, 0, ⟨0, false⟩⟩

def secondTry : List (Move 2) :=
  [.arrive "a" "" true none, .acquire 0, .router (.evaluate 0 []), .answer 0,
    .arrive "b" "" true none, .acquire 1, .router (.evaluate 1 []), .forward 0 broken,
    .router (.other (.tick 1000000000)), .router (.other (.report 0 (some false))), .close 0,
    .answer 1, .forward 1 answered, .router (.other (.tick 1000000000)),
    .router (.other (.report 1 (some true))), .close 1, .acquire 0, .router (.evaluate 2 []),
    .answer 0, .forward 0 answered, .router (.other (.tick 1000000000)),
    .router (.other (.report 2 (some true))), .close 0]

def Client.served (c : Client) : Option Served :=
  match c.stage with
  | .ended served _ => some served
  | _ => none

theorem stage_of_served {c : Client} {served : Served} (isServed : c.served = some served) :
    ∃ kept, c.stage = .ended served kept := by
  unfold Client.served at isServed
  cases stage : c.stage with
  | ended other kept =>
      simp only [stage, Option.some.injEq] at isServed
      exact ⟨kept, by rw [isServed]⟩
  | looping | acquiring _ | forwarding _ _ | closing _ _ _ _ =>
      simp only [stage] at isServed
      cases isServed

theorem requests_of_secondTry :
    ∃ (g : System 2) (c : Client) (served : Served),
      Reached defaultHandler Router.unevenPair 0 Router.oneSlotOptions (Runtime.exact 2) 0 secondTry
        g ∧ g.clients[0]? = some c ∧ c.served = some served ∧ served.records.length = 2 ∧
      c.ServedAlone defaultHandler (Runtime.exact 2) Router.oneSlotOptions.clamp g.w [0, 2] served ∧
      (served.records.map Record.node).Nodup := by
  have evaluated : ((Runs.run (System.step defaultHandler (Runtime.exact 2)
      Router.oneSlotOptions.clamp) ⟨Router.new Router.unevenPair 0 Router.oneSlotOptions 0, []⟩
        secondTry).bind fun g : System 2 => g.clients[0]?.bind fun c =>
          c.served.map fun served => served.records.length) = some 2 := by
    decide +kernel
  obtain ⟨g, reached, rest⟩ := Option.bind_eq_some_iff.mp evaluated
  obtain ⟨c, first, rest⟩ := Option.bind_eq_some_iff.mp rest
  obtain ⟨served, isServed, two⟩ := Option.map_eq_some_iff.mp rest
  obtain ⟨kept, isOver⟩ := stage_of_served isServed
  have mine : callsOf (callers (n := 2) defaultHandler (Runtime.exact 2)
      Router.oneSlotOptions.clamp ⟨Router.new Router.unevenPair 0 Router.oneSlotOptions 0, []⟩
      secondTry) 0 = [0, 2] := by
    decide +kernel
  obtain ⟨_, requests⟩ := requests_are_served defaultHandler Router.unevenPair 0
    Router.oneSlotOptions (Runtime.exact 2) 0 secondTry g reached
  obtain ⟨alone, distinct⟩ := requests 0 c served kept first isOver
  exact ⟨g, c, served, reached, first, isServed, two, mine ▸ alone, distinct⟩

end RadixGates.Gateway
