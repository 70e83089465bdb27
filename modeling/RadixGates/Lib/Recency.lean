import Mathlib.Data.List.Induction
import Mathlib.Data.List.Nodup

/-!
# Least recently used

A list of at most `size` elements, most recently used first.  A use moves an
element to the front, or adds it there and cuts the list.  After any history of
uses the list holds the elements that were used last, each of them once.
-/

set_option autoImplicit false

namespace RadixGates.Recency

theorem length_filter_lt_cons {α : Type} (keep : α → Bool) (a : α)
    (rest : List α) :
    (rest.filter keep).length < (a :: rest).length :=
  Nat.lt_succ_of_le (List.length_filter_le keep rest)

section
variable {α : Type} [DecidableEq α]

def touch (size : Nat) (a : α) (l : List α) : List α := (a :: l.filter (· ≠ a)).take size

/-- The distinct elements of a history, from the last one used on, cut to the
size. -/
def recent (size : Nat) (history : List α) : List α := history.reverse.eraseDups.take size

theorem eraseDups_filter (keep : α → Bool) (l : List α) :
    (l.filter keep).eraseDups = l.eraseDups.filter keep := by
  cases l with
  | nil => rfl
  | cons a rest =>
      have later := eraseDups_filter keep (rest.filter fun b => !b == a)
      rw [List.eraseDups_cons, List.filter_cons, List.filter_cons, ← later, List.filter_filter]
      cases kept : keep a with
      | true =>
          rw [if_pos rfl, if_pos rfl, List.eraseDups_cons, List.filter_filter]
          simp only [Bool.and_comm]
      | false =>
          rw [if_neg Bool.false_ne_true, if_neg Bool.false_ne_true]
          congr 1
          apply List.filter_congr
          intro b _
          by_cases same : b = a
          · simp [same, kept]
          · simp [same]
termination_by l.length
decreasing_by exact length_filter_lt_cons _ a rest

theorem eraseDups_nodup (l : List α) : l.eraseDups.Nodup := by
  cases l with
  | nil => exact List.nodup_nil
  | cons a rest =>
      rw [List.eraseDups_cons, List.nodup_cons]
      refine ⟨?_, eraseDups_nodup (rest.filter fun b => !b == a)⟩
      rw [List.mem_eraseDups]
      simp
termination_by l.length
decreasing_by exact length_filter_lt_cons _ a rest

/-- One element fewer leaves room for one more. -/
theorem take_filter_ne (a : α) (l : List α) (nodup : l.Nodup) (count : Nat) :
    ((l.take (count + 1)).filter (· ≠ a)).take count = (l.filter (· ≠ a)).take count := by
  induction l generalizing count with
  | nil => simp
  | cons b rest ih =>
      obtain ⟨absent, nodupRest⟩ := List.nodup_cons.mp nodup
      rw [List.take_succ_cons]
      by_cases same : b = a
      · subst same
        have untouched : ∀ part : List α, (∀ c ∈ part, c ∈ rest) → part.filter (· ≠ b) = part := by
          intro part within
          apply List.filter_eq_self.mpr
          intro c member
          have : c ≠ b := fun equal => absent (equal ▸ within c member)
          simpa using this
        simp only [List.filter_cons, ne_eq, not_true_eq_false, decide_false, Bool.false_eq_true,
          if_false]
        have whole := untouched rest fun c member => member
        have part := untouched (rest.take count) fun c member => List.mem_of_mem_take member
        simp only [ne_eq] at whole part
        rw [whole, part, List.take_take, Nat.min_self]
      · simp only [List.filter_cons, ne_eq, same, not_false_eq_true, decide_true, if_true]
        cases count with
        | zero => rfl
        | succ count =>
            have later := ih nodupRest count
            simp only [ne_eq] at later
            rw [List.take_succ_cons, List.take_succ_cons, later]

theorem recent_snoc (size : Nat) (history : List α) (a : α) :
    recent size (history ++ [a]) = touch size a (recent size history) := by
  have unseen : (fun b => !b == a) = fun b : α => decide (b ≠ a) := by
    funext b
    by_cases same : b = a
    · simp [same]
    · simp [same]
  simp only [recent, touch, List.reverse_append, List.reverse_cons, List.reverse_nil,
    List.nil_append, List.singleton_append]
  rw [List.eraseDups_cons, unseen, eraseDups_filter]
  cases size with
  | zero => rfl
  | succ count =>
      rw [List.take_succ_cons, List.take_succ_cons, take_filter_ne]
      exact eraseDups_nodup _

/-- Using the elements of a history one after another. -/
theorem foldl_touch (size : Nat) (history : List α) :
    history.foldl (fun l a => touch size a l) [] = recent size history := by
  induction history using List.reverseRecOn with
  | nil => simp [recent]
  | append_singleton history a ih => rw [List.foldl_append, ih, recent_snoc]; rfl

end

end RadixGates.Recency
