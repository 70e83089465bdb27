import Mathlib.Logic.Function.Basic

/-!
# Bijective word mixers

The two steps that finalizers of non-cryptographic hashes are built from lose
no information: an exclusive or with a right shift of the word itself, and a
multiplication by a constant that has an inverse modulo the word size.
-/

set_option autoImplicit false

namespace RadixGates.Words

theorem eq_zero_of_eq_shift {w : Nat} (z : BitVec w) (k : Nat) (positive : 0 < k)
    (same : z = z >>> k) : z = 0#w := by
  apply BitVec.eq_of_toNat_eq
  have shifted := congrArg BitVec.toNat same
  rw [BitVec.toNat_ushiftRight, Nat.shiftRight_eq_div_pow] at shifted
  have two_le : 2 ≤ 2 ^ k := by
    calc 2 = 2 ^ 1 := rfl
      _ ≤ 2 ^ k := Nat.pow_le_pow_right (by decide) positive
  by_contra nonzero
  have smaller : z.toNat / 2 ^ k < z.toNat :=
    Nat.div_lt_self (Nat.pos_of_ne_zero (by simpa using nonzero)) two_le
  omega

theorem xorShift_injective {w : Nat} (k : Nat) (positive : 0 < k) :
    Function.Injective fun x : BitVec w => x ^^^ (x >>> k) := by
  intro x y same
  -- the shift distributes over the exclusive or, so the difference is its own shift
  have difference : x ^^^ y = (x ^^^ y) >>> k := by
    rw [BitVec.ushiftRight_xor_distrib]
    have : (x ^^^ (x >>> k)) ^^^ (y ^^^ (y >>> k)) = 0#w := by
      dsimp only at same
      rw [same, BitVec.xor_self]
    have regroup : (x ^^^ y) ^^^ ((x >>> k) ^^^ (y >>> k)) = 0#w := by
      rw [← this]
      ac_rfl
    exact BitVec.xor_eq_zero_iff.mp regroup
  exact BitVec.xor_eq_zero_iff.mp (eq_zero_of_eq_shift _ k positive difference)

theorem mul_injective_of_inverse {w : Nat} (factor inverse : BitVec w)
    (cancels : factor * inverse = 1#w) : Function.Injective fun x : BitVec w => x * factor := by
  intro x y same
  dsimp only at same
  calc x = x * (factor * inverse) := by rw [cancels, BitVec.mul_one]
    _ = x * factor * inverse := by rw [BitVec.mul_assoc]
    _ = y * factor * inverse := by rw [same]
    _ = y * (factor * inverse) := by rw [BitVec.mul_assoc]
    _ = y := by rw [cancels, BitVec.mul_one]

end RadixGates.Words
