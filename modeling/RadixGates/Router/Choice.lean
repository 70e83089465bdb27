import RadixGates.Router.Rendezvous
import RadixGates.Router.Refusals

/-!
# Who gets the lease

The node of a granted lease is a candidate below the load limit, or the least
loaded one with a free slot.  As long as nothing is reported to a breaker
during the evaluation, a candidate that was seen available is still let
through when it is asked, so the first candidate below its bound is served.
-/

set_option autoImplicit false

namespace RadixGates.Router

open RadixGates.Breaker (Ticket)

section
variable {n : Nat}

/-! ## The grant -/

/-- The nodes a decision chooses from. -/
def World.candidates (w : World n) (call : Call) (schedule : List (List (Interference n))) :
    List (Fin n) :=
  (w.gathered call schedule).2.1.map fun c => c.node

theorem mem_candidates (rt : Runtime n) (opts : Options) (w : World n) (call : Call)
    (schedule : List (List (Interference n))) (i : Fin n) :
    i ∈ w.candidates call schedule ↔ ∃ c ∈ (w.ranked rt opts call schedule).2, c.node = i := by
  simp only [World.candidates, List.mem_map, (ranked_perm rt opts w call schedule).mem_iff]

/-- The lease was granted on this node, with no load changed before. -/
def GrantedOn (w w' : World n) (lease : Nat) (i : Fin n) : Prop :=
  ∃ middle t, SameLoad w middle ∧ lease = middle.leases.length ∧ w' = middle.grant i t

theorem GrantedOn.after {w w' w'' : World n} {lease : Nat} {i : Fin n} (first : SameLoad w w')
    (granted : GrantedOn w' w'' lease i) : GrantedOn w w'' lease i := by
  obtain ⟨middle, t, same, rest⟩ := granted
  exact ⟨middle, t, first.trans same, rest⟩

theorem GrantedOn.node {w w' : World n} {lease : Nat} {i : Fin n}
    (granted : GrantedOn w w' lease i) :
    w'.leases[lease]?.map (fun l => l.node) = some i := by
  obtain ⟨middle, t, _, rfl, rfl⟩ := granted
  simp [World.grant]

theorem GrantedOn.inflight {w w' : World n} {lease : Nat} {i : Fin n}
    (granted : GrantedOn w w' lease i) : (w'.nodes i).inflight = (w.nodes i).inflight + 1 := by
  obtain ⟨middle, t, same, _, rfl⟩ := granted
  rw [grant_nodes, if_pos rfl, ← same.inflight i]

theorem tryLeaseLocked_grantedOn (e : Eval n) (i : Fin n) (lease : Nat)
    (granted : (tryLeaseLocked e i).2 = some lease) :
    GrantedOn e.w (tryLeaseLocked e i).1.w lease i := by
  unfold tryLeaseLocked at granted ⊢
  cases answer : (e.allow i).2 with
  | none => simp [answer] at granted
  | some t =>
      simp only [answer, Option.some.injEq] at granted
      exact ⟨(e.allow i).1.w, t, (Unlocked.allow e i).sameLoad, granted.symm, by simp [answer]⟩

theorem offer_grantedOn (limit : Int) (hold : Bool) (cands : List (Scored n)) (first denied : Bool)
    (e : Eval n) (lease : Nat)
    (granted : (offer limit hold first denied cands e).2 = .inl (.granted lease)) :
    ∃ c ∈ cands, below e.w.nodes limit c = true ∧
      GrantedOn e.w (offer limit hold first denied cands e).1.w lease c.node := by
  induction cands generalizing first denied e with
  | nil => cases granted
  | cons c rest ih =>
      simp only [offer] at granted ⊢
      split at granted
      · rename_i under
        rw [if_pos under]
        cases tried : (tryLeaseLocked e c.node).2 with
        | some other =>
            simp only [tried, Sum.inl.injEq, Pick.granted.injEq] at granted
            subst granted
            exact ⟨c, List.mem_cons_self, by simp [below, under],
              tryLeaseLocked_grantedOn e c.node _ tried⟩
        | none =>
            have same := tryLeaseLocked_refused e c.node tried
            simp only [tried] at granted
            obtain ⟨d, member, isBelow, on⟩ := ih _ _ _ granted
            rw [same.below] at isBelow
            exact ⟨d, List.mem_cons_of_mem c member, isBelow, on.after same⟩
      · rename_i above
        rw [if_neg above]
        split at granted
        · cases granted
        · rename_i passes
          rw [if_neg passes]
          obtain ⟨d, member, isBelow, on⟩ := ih _ _ _ granted
          exact ⟨d, List.mem_cons_of_mem c member, isBelow, on⟩

theorem spill_grantedOn (cands : List (Scored n)) (denied : Bool) (e : Eval n) (lease : Nat)
    (granted : (spill cands denied e).2 = .granted lease) :
    ∃ best, leastLoaded e.w.nodes cands = some best ∧
      GrantedOn e.w (spill cands denied e).1.w lease best := by
  simp only [spill] at granted ⊢
  cases least : leastLoaded e.w.nodes cands with
  | none =>
      simp only [least] at granted
      split at granted <;> cases granted
  | some best =>
      simp only [least] at granted
      cases tried : (tryLeaseLocked e best).2 with
      | none => simp [tried] at granted
      | some other =>
          simp only [tried, Pick.granted.injEq] at granted
          subst granted
          refine ⟨best, rfl, ?_⟩
          simp only [tried]
          exact tryLeaseLocked_grantedOn e best _ tried

/-- One step of the fallback loop: what is at most the load of the new best is at
most the loads it was chosen from. -/
theorem lessLoaded_bound (nodes : Fin n → Node) (best : Option (Fin n)) (c : Scored n) (least : Int)
    (after : ∀ b, lessLoaded nodes best c = some b → least ≤ (nodes b).inflight) :
    (∀ b, best = some b → least ≤ (nodes b).inflight) ∧
      ((nodes c.node).inflight < (nodes c.node).maxConcurrent →
        least ≤ (nodes c.node).inflight) := by
  unfold lessLoaded at after
  split at after
  · rename_i free
    cases best with
    | none => exact ⟨by simp, fun _ => after c.node rfl⟩
    | some b =>
        dsimp only at after
        split at after
        · have := after c.node rfl
          refine ⟨?_, fun _ => this⟩
          rintro _ ⟨rfl⟩
          omega
        · have := after b rfl
          refine ⟨?_, fun _ => by omega⟩
          rintro _ ⟨rfl⟩
          exact this
  · rename_i full
    exact ⟨after, fun free => absurd free full⟩

/-- The least loaded candidate has no more in flight than any with a free slot. -/
theorem leastLoaded_least (nodes : Fin n → Node) (cands : List (Scored n)) (best : Fin n)
    (found : leastLoaded nodes cands = some best) (c : Scored n) (member : c ∈ cands)
    (free : (nodes c.node).inflight < (nodes c.node).maxConcurrent) :
    (nodes best).inflight ≤ (nodes c.node).inflight := by
  have kept : ∀ (cands : List (Scored n)) (start : Option (Fin n)),
      cands.foldl (lessLoaded nodes) start = some best →
      (∀ b, start = some b → (nodes best).inflight ≤ (nodes b).inflight) ∧
        ∀ c ∈ cands, (nodes c.node).inflight < (nodes c.node).maxConcurrent →
          (nodes best).inflight ≤ (nodes c.node).inflight := by
    intro cands
    induction cands with
    | nil =>
        intro start found
        refine ⟨?_, by simp⟩
        rintro b rfl
        cases found
        exact le_rfl
    | cons c rest ih =>
        intro start found
        obtain ⟨head, tail⟩ := ih _ found
        obtain ⟨first, here⟩ := lessLoaded_bound nodes start c _ head
        refine ⟨first, ?_⟩
        intro d member free
        rcases List.mem_cons.mp member with rfl | later
        · exact here free
        · exact tail d later free
  exact (kept cands none found).2 c member free

/-- A decision that grants nothing takes no slot. -/
theorem ungranted_sameLoad (rt : Runtime n) (opts : Options) (w : World n) (call : Call)
    (schedule : List (List (Interference n)))
    (none : ∀ lease, (w.decision rt opts call schedule).2 ≠ .granted lease) :
    SameLoad w (w.decision rt opts call schedule).1.w := by
  have load : PickLoad w (w.decision rt opts call schedule).1.w
      (w.decision rt opts call schedule).2 :=
    tryPickLocked_load rt opts _ _ _ _ _ ⟨w, schedule⟩
  cases pick : (w.decision rt opts call schedule).2 with
  | granted lease => exact absurd pick (none lease)
  | noNode | preferredBusy | atCapacity =>
      rw [pick] at load
      exact load

theorem Pick.ungranted_of_waits {pick : Pick} (waits : pick.waits = true) (lease : Nat) :
    pick ≠ .granted lease := by
  rintro rfl
  cases waits

/-! ## Evaluations without a report -/

theorem addPlaced_br (w : World n) (i j : Fin n) (delta : Int) :
    ((w.addPlaced i delta).nodes j).br = (w.nodes j).br := by
  simp only [World.addPlaced, setNode_nodes]
  split
  · rename_i same
    rw [same]
  · rfl

theorem evict_br (size : Int) (fuel : Nat) (w : World n) (j : Fin n) :
    ((World.evict size fuel w).nodes j).br = (w.nodes j).br := by
  induction fuel generalizing w with
  | zero => rfl
  | succ fuel ih =>
      simp only [World.evict]
      split
      · split
        · rfl
        · rw [ih]
          exact addPlaced_br w _ j (-1)
      · rfl

theorem setPlacementLocked_br (w : World n) (size : Int) (key : UInt64) (i j : Fin n) :
    ((w.setPlacementLocked size key i).nodes j).br = (w.nodes j).br := by
  unfold World.setPlacementLocked
  split
  · split
    · exact (addPlaced_br _ i j 1).trans (addPlaced_br w _ j (-1))
    · rfl
  · rw [evict_br]
    exact addPlaced_br w i j 1

/-- A step of a decision that asks breakers and reports nothing to them. -/
structure Harmless (e e' : Eval n) : Prop where
  quiet : e'.Quiet
  keeps : ∀ i, e.w.Serving i → e'.w.Serving i

theorem placeOnLeast_harmless (size : Int) (key : UInt64) (cands : List (Scored n)) (e : Eval n)
    (quiet : e.Quiet) : Harmless e (placeOnLeast size key cands e).1 := by
  simp only [placeOnLeast]
  split
  · refine ⟨quiet, ?_⟩
    intro i serving b present
    rw [setPlacementLocked_br] at present
    exact serving b present
  · exact ⟨quiet, fun _ serving => serving⟩

theorem placeLocked_harmless (size : Int) (key : UInt64) (cands : List (Scored n))
    (exclude : List String) (e : Eval n) (quiet : e.Quiet) :
    Harmless e (placeLocked size key cands exclude e).1 := by
  simp only [placeLocked]
  split
  · rename_i p _
    split
    · exact ⟨quiet, fun _ serving => serving⟩
    · split
      · have asked : Harmless e (e.available p.node).1 :=
          ⟨quiet.available p.node, fun _ serving => serving.available quiet p.node⟩
        split
        · exact asked
        · have placed := placeOnLeast_harmless size key cands (e.available p.node).1 asked.quiet
          exact ⟨placed.quiet, fun i serving => placed.keeps i (asked.keeps i serving)⟩
      · exact placeOnLeast_harmless size key cands e quiet
  · exact placeOnLeast_harmless size key cands e quiet

/-- Whichever of these candidates is asked lets the request through. -/
structure Ready (e : Eval n) (cands : List (Scored n)) : Prop where
  quiet : e.Quiet
  serving : ∀ c ∈ cands, e.w.Serving c.node

theorem ranked_ready (rt : Runtime n) (opts : Options) (w : World n) (call : Call)
    (schedule : List (List (Interference n))) (quiet : Eval.Quiet ⟨w, schedule⟩) :
    Ready (w.ranked rt opts call schedule).1 (w.ranked rt opts call schedule).2 := by
  have collected := collect_collected (hashString call.request.prefixHash)
    call.request.targetGroup (call.request.filter.getD entryPoint) call.request.exclude
    (List.finRange n) ⟨w, schedule⟩ quiet
  have placed : Harmless (w.gathered call schedule).1 (w.ranked rt opts call schedule).1 := by
    simp only [World.ranked, rankAndPlace]
    split
    · exact placeLocked_harmless _ _ _ _ _ collected.quiet
    · exact ⟨collected.quiet, fun _ serving => serving⟩
  refine ⟨placed.quiet, ?_⟩
  intro c member
  apply placed.keeps
  exact collected.serving c ((ranked_perm rt opts w call schedule).subset member)

/-- How the decision among candidates ends when none of them refuses. -/
inductive Served (limit : Int) (hold : Bool) (cands : List (Scored n)) (e : Eval n) : Prop where
  | held (held : heldBack e.w.nodes limit hold cands = true)
      (pick : (settle limit hold cands e).2 = .preferredBusy)
  | within (lease : Nat) (c : Scored n) (member : c ∈ cands)
      (isBelow : below e.w.nodes limit c = true)
      (pick : (settle limit hold cands e).2 = .granted lease)
      (on : GrantedOn e.w (settle limit hold cands e).1.w lease c.node)
  | spilled (lease : Nat) (best : Fin n) (nobody : belowNodes e.w.nodes limit cands = [])
      (least : leastLoaded e.w.nodes cands = some best)
      (pick : (settle limit hold cands e).2 = .granted lease)
      (on : GrantedOn e.w (settle limit hold cands e).1.w lease best)
  | full (none : leastLoaded e.w.nodes cands = none)
      (pick : (settle limit hold cands e).2 = .atCapacity)

/-- How the preference loop ends when none of the candidates refuses. -/
theorem Ready.offer {cands : List (Scored n)} {e : Eval n} (ready : Ready e cands) (limit : Int)
    (hold : Bool) :
    (heldBack e.w.nodes limit hold cands = true ∧
        Router.offer limit hold true false cands e = (e, .inl .preferredBusy)) ∨
      (∃ lease, (Router.offer limit hold true false cands e).2 = .inl (.granted lease)) ∨
      (belowNodes e.w.nodes limit cands = [] ∧
        Router.offer limit hold true false cands e = (e, .inr false)) := by
  cases held : heldBack e.w.nodes limit hold cands with
  | true => exact Or.inl ⟨rfl, offer_heldBack limit hold false cands e held⟩
  | false =>
      cases asked : belowNodes e.w.nodes limit cands with
      | nil =>
          have all : refuseAll (belowNodes e.w.nodes limit cands) e = some e := by
            rw [asked]
            rfl
          have offered := (offer_refused limit hold cands true false e e (fun _ => held) all).1
          rw [asked] at offered
          exact Or.inr (Or.inr ⟨rfl, offered⟩)
      | cons i rest =>
          have inList : i ∈ belowNodes e.w.nodes limit cands := by simp [asked]
          obtain ⟨c, member, rfl⟩ := List.mem_map.mp inList
          obtain ⟨t, allowed⟩ := allow_of_serving ready.quiet c.node
            (ready.serving c (List.mem_of_mem_filter member))
          have someone : refuseAll (belowNodes e.w.nodes limit cands) e = none := by
            simp only [asked, refuseAll, allowed]
          obtain ⟨lease, _, _, _, granted, _⟩ :=
            offer_granted limit hold cands true false e (fun _ => held) someone
          exact Or.inr (Or.inl ⟨lease, granted⟩)

/-- The least loaded candidate lets the request through. -/
theorem Ready.leased {cands : List (Scored n)} {e : Eval n} (ready : Ready e cands) (best : Fin n)
    (least : leastLoaded e.w.nodes cands = some best) :
    ∃ lease, (tryLeaseLocked e best).2 = some lease := by
  obtain ⟨c, member, rfl, _⟩ := leastLoaded_chosen e.w.nodes cands best least
  obtain ⟨t, leased⟩ := tryLeaseLocked_of_serving ready.quiet c.node (ready.serving c member)
  exact ⟨_, by rw [leased]⟩

theorem Ready.settle {cands : List (Scored n)} {e : Eval n} (ready : Ready e cands) (limit : Int)
    (hold : Bool) : Served limit hold cands e := by
  rcases ready.offer limit hold with ⟨held, offered⟩ | ⟨lease, offered⟩ | ⟨nobody, offered⟩
  · apply Served.held held
    simp only [Router.settle, offered]
  · obtain ⟨d, among, isBelow, on⟩ := offer_grantedOn limit hold cands true false e lease offered
    apply Served.within lease d among isBelow
    · simp only [Router.settle, offered]
    · simp only [Router.settle, offered]
      exact on
  · have settled : Router.settle limit hold cands e = spill cands false e := by
      simp only [Router.settle, offered]
    cases least : leastLoaded e.w.nodes cands with
    | none =>
        apply Served.full least
        simp [settled, spill, least]
    | some best =>
        obtain ⟨lease, leased⟩ := ready.leased best least
        have pick : (spill cands false e).2 = .granted lease := by
          simp only [spill, least, leased]
        obtain ⟨best, same, on⟩ := spill_grantedOn cands false e lease pick
        rw [← settled] at pick on
        exact Served.spilled lease best nobody same pick on

/-- No breaker says no. -/
theorem Ready.unrefused {cands : List (Scored n)} {e : Eval n} (ready : Ready e cands)
    (limit : Int) (hold : Bool) : settleRefusals limit hold cands e = [] := by
  have first : ∀ (rest : List (Scored n)) (first : Bool), (∀ c ∈ rest, c ∈ cands) →
      offerRefusals limit hold first rest e = [] := by
    intro rest
    induction rest with
    | nil => exact fun _ _ => rfl
    | cons c rest ih =>
        intro first among
        obtain ⟨t, leased⟩ := tryLeaseLocked_of_serving ready.quiet c.node
          (ready.serving c (among c List.mem_cons_self))
        have later := ih false fun d member => among d (List.mem_cons_of_mem c member)
        simp only [offerRefusals, leased, later]
        split
        · rfl
        · split <;> rfl
  rw [settleRefusals, first cands true fun _ => id, List.nil_append]
  rcases ready.offer limit hold with ⟨_, offered⟩ | ⟨lease, offered⟩ | ⟨_, offered⟩
  · rw [offered]
  · rw [offered]
  · rw [offered, spillRefusals]
    cases least : leastLoaded e.w.nodes cands with
    | none => rfl
    | some best =>
        obtain ⟨lease, leased⟩ := ready.leased best least
        simp only [leased]

end

end RadixGates.Router
