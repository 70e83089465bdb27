import RadixGates.Gateway.Moves
import RadixGates.Router.Grants

/-!
# What the router has told a request

Every call of the router was made by one request.  Once it is back at its caller
it does not change any more, so what it says about the nodes, or the error it
carries, is what the request hears in that turn of its loop.
-/

set_option autoImplicit false

namespace RadixGates.Gateway

open RadixGates.Handler
open RadixGates.Router (AcquireError Action Answers Call GrantedTo Lease Options Runtime Stepped
  World)

/-! ## Who has made which call -/

section
variable {n : Nat}

/-- The requests behind the calls that a move makes. -/
def entering (g next : System n) : Move n → List Nat
  | .acquire k => if next.w.calls.length = g.w.calls.length then [] else [k]
  | _ => []

/-- The requests behind the calls of a run, in the order of the calls. -/
def callers (h : DirectChatHandler) (rt : Runtime n) (opts : Options) :
    System n → List (Move n) → List Nat
  | _, [] => []
  | g, move :: rest =>
      match g.step h rt opts move with
      | some next => entering g next move ++ callers h rt opts next rest
      | none => []

theorem callers_snoc {h : DirectChatHandler} {rt : Runtime n} {opts : Options}
    {start g next : System n} {moves : List (Move n)} {move : Move n}
    (ran : Runs.run (System.step h rt opts) start moves = some g)
    (stepped : g.step h rt opts move = some next) :
    callers h rt opts start (moves ++ [move]) =
      callers h rt opts start moves ++ entering g next move := by
  induction moves generalizing start with
  | nil =>
      cases Option.some.inj ran
      simp [callers, stepped]
  | cons first rest ih =>
      obtain ⟨middle, toMiddle, rested⟩ := (Runs.run_cons_some _ _ _ _ _).mp ran
      simp only [List.cons_append, callers, toMiddle]
      rw [ih rested, List.append_assoc]

end

/-- The calls of this request, oldest first, when `owner` lists the request behind
each call. -/
def callsOf (owner : List Nat) (k : Nat) : List Nat :=
  (List.range owner.length).filter fun index => owner[index]? = some k

theorem mem_callsOf (owner : List Nat) (k index : Nat) :
    index ∈ callsOf owner k ↔ owner[index]? = some k := by
  simp only [callsOf, List.mem_filter, List.mem_range, decide_eq_true_eq]
  constructor
  · exact fun both => both.2
  · exact fun found => ⟨(List.getElem?_eq_some_iff.mp found).1, found⟩

theorem callsOf_snoc (owner : List Nat) (k j : Nat) :
    callsOf (owner ++ [k]) j = callsOf owner j ++ if k = j then [owner.length] else [] := by
  have old : (List.range owner.length).filter
      (fun index => decide ((owner ++ [k])[index]? = some j)) = callsOf owner j := by
    apply List.filter_congr
    intro index member
    rw [List.getElem?_append_left (List.mem_range.mp member)]
  simp only [callsOf, List.length_append, List.length_singleton, List.range_succ,
    List.filter_append]
  rw [old]
  by_cases here : k = j <;> simp [callsOf, here]

theorem callsOf_absent (owner : List Nat) (k : Nat) (absent : k ∉ owner) : callsOf owner k = [] := by
  apply List.filter_eq_nil_iff.mpr
  intro index _ found
  exact absent (List.mem_of_getElem? (of_decide_eq_true found))

/-! ## Answers -/

/-- The script begins with these turns; attempts are counted from one. -/
def Starts (turns : List Turn) (script : Nat → Turn) : Prop :=
  ∀ (j : Nat) (turn : Turn), turns[j]? = some turn → script (j + 1) = turn

theorem Starts.of_snoc {turns : List Turn} {turn : Turn} {script : Nat → Turn}
    (starts : Starts (turns ++ [turn]) script) :
    Starts turns script ∧ script (turns.length + 1) = turn := by
  refine ⟨?_, starts _ _ List.getElem?_concat_length⟩
  intro j other found
  apply starts j other
  rw [List.getElem?_append_left (List.getElem?_eq_some_iff.mp found).1, found]

section
variable {n : Nat} (h : DirectChatHandler) (rt : Runtime n) (opts : Options)

/-- What a call says that is back at its caller. -/
def told (w : World n) (call : Call) : Option (Except AcquireError String) :=
  match call.pc with
  | .returned (.ok lease) => w.leases[lease]?.map fun l => .ok (w.nodes l.node).name
  | .returned (.error err) => some (.error err)
  | _ => none

/-- In this turn the handler hears what the call has returned, which was made for
the request with these nodes excluded; a lease was granted to that request. -/
def Client.AnsweredBy (w : World n) (c : Client) (tried : List String) (index : Nat)
    (turn : Turn) : Prop :=
  ∃ call, w.calls[index]? = some call ∧ call.request = ⟨c.prefixHash, c.target, none, tried⟩ ∧
    (∀ now, told w call = some (Handler.acquire (c.ctx h) now (turn.acquire tried)).2) ∧
    ∀ lease, call.pc = .returned (.ok lease) → GrantedTo rt opts w call.request lease

/-- The turns are what these calls of the request have returned; each was made
with the nodes of the attempts before it excluded. -/
structure Client.Told (w : World n) (c : Client) (mine : List Nat) (turns : List Turn)
    (records : List Record) : Prop where
  length : turns.length = mine.length
  answered : ∀ j index turn, mine[j]? = some index → turns[j]? = some turn →
    c.AnsweredBy h rt opts w ((records.take j).map Record.node).reverse index turn

variable {h rt opts}

theorem told_step {w next : World n} {action : Action n} (stepped : Stepped rt opts w action next)
    {call : Call} {result : Except AcquireError String} (heard : told w call = some result) :
    told next call = some result := by
  unfold told at heard ⊢
  cases pc : call.pc with
  | returned outcome =>
      cases outcome with
      | error err =>
          rw [pc] at heard
          exact heard
      | ok lease =>
          simp only [pc] at heard ⊢
          obtain ⟨l, found, rfl⟩ := Option.map_eq_some_iff.mp heard
          obtain ⟨l', found', same⟩ := Option.map_eq_some_iff.mp
            (stepped.leaseNode lease l.node (by rw [found]; rfl))
          rw [found', Option.map_some, same, stepped.sameIdentity.name]
  | deciding | blocked _ | leaving _ =>
      rw [pc] at heard
      cases heard

/-- A call that says something is back. -/
theorem returned_of_told {w : World n} {call : Call} {result : Except AcquireError String}
    (heard : told w call = some result) : ∃ outcome, call.pc = .returned outcome := by
  unfold told at heard
  cases pc : call.pc with
  | returned outcome => exact ⟨outcome, rfl⟩
  | deciding | blocked _ | leaving _ =>
      rw [pc] at heard
      cases heard

theorem Client.AnsweredBy.step {w next : World n} {action : Action n} {c : Client}
    {tried : List String} {index : Nat} {turn : Turn}
    (answered : c.AnsweredBy h rt opts w tried index turn)
    (stepped : Stepped rt opts w action next) : c.AnsweredBy h rt opts next tried index turn := by
  obtain ⟨call, found, asked, heard, granted⟩ := answered
  obtain ⟨outcome, returned⟩ := returned_of_told (heard 0)
  exact ⟨call, stepped.returned found returned, asked, fun now => told_step stepped (heard now),
    fun lease leased => (granted lease leased).step stepped⟩

theorem Client.Told.step {w next : World n} {action : Action n} {c : Client} {mine : List Nat}
    {turns : List Turn} {records : List Record} (told : c.Told h rt opts w mine turns records)
    (stepped : Stepped rt opts w action next) : c.Told h rt opts next mine turns records where
  length := told.length
  answered j index turn atIndex atTurn := (told.answered j index turn atIndex atTurn).step stepped

/-- One more call has come back, after as many attempts as calls before it. -/
theorem Client.Told.snoc {w : World n} {c : Client} {mine : List Nat} {turns : List Turn}
    {records records' : List Record} (told : c.Told h rt opts w mine turns records)
    (made : records.length = turns.length) (grown : records <+: records') {index : Nat}
    {turn : Turn}
    (answered : c.AnsweredBy h rt opts w (records.map Record.node).reverse index turn) :
    c.Told h rt opts w (mine ++ [index]) (turns ++ [turn]) records' := by
  obtain ⟨added, rfl⟩ := grown
  have same := told.length
  refine ⟨by simp [same], ?_⟩
  intro j index' turn' atIndex atTurn
  by_cases before : j < turns.length
  · rw [List.getElem?_append_left before] at atTurn
    rw [List.getElem?_append_left (by omega)] at atIndex
    rw [List.take_append_of_le_length (by omega)]
    exact told.answered j index' turn' atIndex atTurn
  · have last : j = turns.length := by
      have := (List.getElem?_eq_some_iff.mp atTurn).1
      simp only [List.length_append, List.length_singleton] at this
      omega
    subst last
    rw [List.getElem?_concat_length] at atTurn
    rw [same, List.getElem?_concat_length] at atIndex
    cases atTurn
    cases atIndex
    rw [List.take_append_of_le_length (by omega), List.take_of_length_le (by omega)]
    exact answered

/-! ## The turns of the handler's loop -/

theorem answeredBy_granted {w : World n} {c : Client} {index lease : Nat} {call : Call}
    {l : Lease n} (answers : Answers rt opts w) (called : w.calls[index]? = some call)
    (asked : call.request = c.request) (returned : call.pc = .returned (.ok lease))
    (found : w.leases[lease]? = some l) (started : Int) (exchange : Exchange) :
    c.AnsweredBy h rt opts w c.loop.exclude index
      (c.turn started (.granted (w.nodes l.node).name) exchange) := by
  refine ⟨call, called, asked, ?_, fun other same => answers index call other called same⟩
  intro now
  simp [told, returned, found, Client.turn, Handler.acquire]

theorem fromRouter_granted {w : World n} {c : Client} {lease : Nat} {l : Lease n}
    (granted : GrantedTo rt opts w c.request lease) (found : w.leases[lease]? = some l)
    (started : Int) (exchange : Exchange) :
    (c.turn started (.granted (w.nodes l.node).name) exchange).FromRouter := by
  intro exclude node answer
  obtain ⟨i, before, call, schedule, onNode, asked, pick, leased, name⟩ := granted
  simp only [Client.turn] at answer
  split_ifs at answer with same
  cases answer
  refine ⟨n, rt, opts, before, call, schedule, lease, i, by rw [asked, same]; rfl, pick, leased, ?_⟩
  rw [found] at onNode
  cases onNode
  exact name

/-- The context error that a call carries is the one of the request's own
context. -/
theorem answeredBy_refused {w : World n} {c : Client} {index : Nat} {call : Call}
    {err : AcquireError} (called : w.calls[index]? = some call) (asked : call.request = c.request)
    (returned : call.pc = .returned (.error err))
    (cause : ∀ cause, err = .ctx cause → cause = (c.ctx h).cause) (now : Int)
    (exchange : Exchange) :
    c.AnsweredBy h rt opts w c.loop.exclude index (c.turn now (refusal err) exchange) := by
  refine ⟨call, called, asked, ?_, ?_⟩
  · intro later
    cases err with
    | ctx other =>
        rw [cause other rfl]
        simp [told, returned, Client.turn, refusal, Handler.acquire, cause other rfl]
    | noNode | queueFull | queueTimeout =>
        simp [told, returned, Client.turn, refusal, Handler.acquire]
  · intro lease leased
    rw [returned] at leased
    cases leased

theorem fromRouter_refused (c : Client) (now : Int) (err : AcquireError) (exchange : Exchange) :
    (c.turn now (refusal err) exchange).FromRouter := by
  intro exclude node answer
  simp only [Client.turn] at answer
  split_ifs at answer
  cases err <;> cases answer

end

end RadixGates.Gateway
