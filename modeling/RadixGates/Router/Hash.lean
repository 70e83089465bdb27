import Mathlib.Logic.Function.Basic
import RadixGates.Lib.Words

/-!
# Rendezvous scores

`hashString`, `mix64` and `score` of `gateway-go/router/router.go`.  The score
of a node for a key is a bijective mixer applied to the exclusive or of the
two hashes, so two nodes tie only when their name hashes are equal.
-/

set_option autoImplicit false

namespace RadixGates.Router

def mix64 (x : UInt64) : UInt64 :=
  let x := x ^^^ (x >>> 30)
  let x := x * 0xbf58476d1ce4e5b9
  let x := x ^^^ (x >>> 27)
  let x := x * 0x94d049bb133111eb
  x ^^^ (x >>> 31)

/-- `fnv.New64a` over the bytes written to it. -/
def fnv64a (bytes : List UInt8) : UInt64 :=
  bytes.foldl (fun hash byte => (hash ^^^ byte.toUInt64) * 1099511628211) 14695981039346656037

def hashString (s : String) : UInt64 := mix64 (fnv64a s.toUTF8.toList)

def score (keyHash nameHash : UInt64) : UInt64 := mix64 (keyHash ^^^ nameHash)

theorem xorShift64_injective (k : UInt64) (low : 0 < k.toNat % 64) :
    Function.Injective fun x : UInt64 => x ^^^ (x >>> k) := by
  intro x y same
  have words := congrArg UInt64.toBitVec same
  simp only [UInt64.toBitVec_xor, UInt64.toBitVec_shiftRight] at words
  exact UInt64.toBitVec_inj.mp (Words.xorShift_injective (k.toNat % 64) low words)

theorem mul64_injective (factor inverse : UInt64) (cancels : factor * inverse = 1) :
    Function.Injective fun x : UInt64 => x * factor := by
  intro x y same
  have words := congrArg UInt64.toBitVec same
  simp only [UInt64.toBitVec_mul] at words
  have cancels' : factor.toBitVec * inverse.toBitVec = 1#64 := by
    rw [← UInt64.toBitVec_mul, cancels]
    rfl
  exact UInt64.toBitVec_inj.mp (Words.mul_injective_of_inverse _ _ cancels' words)

theorem mix64_injective : Function.Injective mix64 := by
  intro x y same
  have afterLast := xorShift64_injective 31 (by decide) same
  have afterSecond := mul64_injective 0x94d049bb133111eb 0x319642b2d24d8ec3 (by decide) afterLast
  have afterMiddle := xorShift64_injective 27 (by decide) afterSecond
  have afterFirst := mul64_injective 0xbf58476d1ce4e5b9 0x96de1b173f119089 (by decide) afterMiddle
  exact xorShift64_injective 30 (by decide) afterFirst

theorem score_injective (keyHash : UInt64) : Function.Injective (score keyHash) := by
  intro a b same
  have mixed := mix64_injective same
  simpa using mixed

end RadixGates.Router
