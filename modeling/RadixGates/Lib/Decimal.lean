import Mathlib.Algebra.Order.Ring.Nat
import Mathlib.Tactic.IntervalCases
import Mathlib.Tactic.Ring

/-!
# Decimal notation

What a list of digits stands for, and the bounds that a reader needs which
stops before its number gets too large.
-/

set_option autoImplicit false

namespace RadixGates.Decimal

def IsDigit (c : Char) : Prop := '0' ≤ c ∧ c ≤ '9'

instance (c : Char) : Decidable (IsDigit c) := inferInstanceAs (Decidable (_ ∧ _))

def digit (c : Char) : Nat := c.toNat - 48

/-- The number that is read when these digits follow the ones of `start`. -/
def value (start : Nat) (ds : List Char) : Nat := ds.foldl (fun x c => x * 10 + digit c) start

def AllDigits (ds : List Char) : Prop := ∀ c ∈ ds, IsDigit c

theorem digitChar_isDigit {d : Nat} (small : d < 10) :
    IsDigit (Nat.digitChar d) ∧ digit (Nat.digitChar d) = d := by
  interval_cases d <;> decide

theorem digit_lt {c : Char} (isDigit : IsDigit c) : digit c < 10 := by
  have below : c.toNat ≤ 57 := isDigit.2
  have above : 48 ≤ c.toNat := isDigit.1
  unfold digit
  omega

theorem value_cons (start : Nat) (c : Char) (ds : List Char) :
    value start (c :: ds) = value (start * 10 + digit c) ds := by
  rw [value, List.foldl_cons, value]

theorem value_snoc (start : Nat) (ds : List Char) (c : Char) :
    value start (ds ++ [c]) = value start ds * 10 + digit c := by
  rw [value, List.foldl_append, List.foldl_cons, List.foldl_nil, value]

theorem AllDigits.snoc {ds : List Char} {c : Char} (digits : AllDigits ds) (isDigit : IsDigit c) :
    AllDigits (ds ++ [c]) := by
  intro d member
  rcases List.mem_append.mp member with old | new
  · exact digits d old
  · rw [List.mem_singleton.mp new]
    exact isDigit

theorem le_value (start : Nat) (ds : List Char) : start ≤ value start ds := by
  induction ds generalizing start with
  | nil => exact le_rfl
  | cons c rest ih =>
      have := ih (start * 10 + digit c)
      rw [value_cons]
      omega

theorem value_eq (start : Nat) (ds : List Char) :
    value start ds = start * 10 ^ ds.length + value 0 ds := by
  induction ds generalizing start with
  | nil => simp [value]
  | cons c rest ih =>
      rw [value_cons, value_cons, ih, ih (0 * 10 + digit c), List.length_cons, pow_succ]
      ring

theorem value_lt (ds : List Char) (digits : AllDigits ds) : value 0 ds < 10 ^ ds.length := by
  induction ds with
  | nil => simp [value]
  | cons c rest ih =>
      have first := digit_lt (digits c List.mem_cons_self)
      have later := ih fun c member => digits c (List.mem_cons_of_mem _ member)
      rw [value_cons, value_eq, List.length_cons, pow_succ]
      calc (0 * 10 + digit c) * 10 ^ rest.length + value 0 rest
          < (0 * 10 + digit c) * 10 ^ rest.length + 10 ^ rest.length := by omega
        _ = (digit c + 1) * 10 ^ rest.length := by ring
        _ ≤ 10 * 10 ^ rest.length := Nat.mul_le_mul_right _ (by omega)
        _ = 10 ^ rest.length * 10 := by ring

end RadixGates.Decimal
