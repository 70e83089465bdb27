import Mathlib.Data.Int.Log
import Mathlib.Data.Rat.Floor
import Mathlib.Tactic.Linarith
import Mathlib.Tactic.NormNum
import Mathlib.Tactic.FieldSimp

/-!
# Arithmetic in double precision

A finite float is the rational it denotes.  An operation is exact and its result
is then rounded to the nearest float, where a tie goes to the even one.  Results
that are too large for a float are left to whoever rounds.
-/

set_option autoImplicit false

namespace RadixGates.Float64

/-- The nearest integer; of two, the even one. -/
def roundEven (q : ℚ) : ℤ :=
  if q - ⌊q⌋ < 1 / 2 then ⌊q⌋
  else if 1 / 2 < q - ⌊q⌋ then ⌊q⌋ + 1
  else if ⌊q⌋ % 2 = 0 then ⌊q⌋
  else ⌊q⌋ + 1

/-- The exponent of the last of the fifty-three places of a float of this size. -/
def lastPlace (q : ℚ) : ℤ := max (Int.log 2 |q| - 52) (-1074)

def round (q : ℚ) : ℚ := roundEven (q / 2 ^ lastPlace q) * 2 ^ lastPlace q

def mul (x y : ℚ) : ℚ := round (x * y)

def div (x y : ℚ) : ℚ := round (x / y)

theorem roundEven_intCast (k : ℤ) : roundEven k = k := by simp [roundEven]

theorem lastPlace_le {q : ℚ} {m : ℤ} (nonzero : q ≠ 0) (small : |q| < 2 ^ (m + 1))
    (normal : -1022 ≤ m) : lastPlace q ≤ m - 52 := by
  have log : Int.log 2 |q| < m + 1 :=
    (Int.lt_zpow_iff_log_lt (by decide) (abs_pos.mpr nonzero)).mp small
  unfold lastPlace
  omega

theorem unit_pos (q : ℚ) : (0 : ℚ) < 2 ^ lastPlace q := zpow_pos (by norm_num) _

theorem round_zero : round 0 = 0 := by
  rw [round, zero_div]
  have := roundEven_intCast 0
  rw [Int.cast_zero] at this
  rw [this, Int.cast_zero, zero_mul]

/-- Below `2 ^ 53` an integer is a whole number of units. -/
theorem units_of_natCast {q : ℚ} (nonzero : q ≠ 0) (small : |q| < 2 ^ 53) (k : ℕ) :
    ∃ units : ℤ, (k : ℚ) = units * 2 ^ lastPlace q := by
  have place : lastPlace q ≤ 0 := lastPlace_le (m := 52) nonzero small (by norm_num)
  obtain ⟨j, isPlace⟩ := Int.eq_ofNat_of_zero_le (neg_nonneg.mpr place)
  refine ⟨k * 2 ^ j, ?_⟩
  rw [show lastPlace q = -(j : ℤ) by omega, zpow_neg, zpow_natCast]
  push_cast
  field_simp

/-- Integers below `2 ^ 53` are floats. -/
theorem round_natCast {k : ℕ} (small : k < 2 ^ 53) : round k = k := by
  by_cases zero : k = 0
  · rw [zero, Nat.cast_zero, round_zero]
  · have nonzero : (k : ℚ) ≠ 0 := Nat.cast_ne_zero.mpr zero
    have bound : |(k : ℚ)| < 2 ^ 53 := by
      rw [abs_of_nonneg (Nat.cast_nonneg k)]
      exact_mod_cast small
    obtain ⟨units, isUnits⟩ := units_of_natCast nonzero bound k
    have unit := unit_pos (k : ℚ)
    have quotient : (k : ℚ) / 2 ^ lastPlace (k : ℚ) = units := by
      rw [div_eq_iff unit.ne', ← isUnits]
    rw [round, quotient, roundEven_intCast, ← isUnits]

end RadixGates.Float64
