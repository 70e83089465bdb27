import RadixGates.Handler.Attempt
import RadixGates.Lib.Lines
import RadixGates.Mock.Worker

/-!
# The stream of the simulated worker

The streaming part of `chat` in `gateway-go/internal/mock/worker.go`: one event
a token, then the mark of the end.  A midstream fault hangs up before one of the
tokens.
-/

set_option autoImplicit false

namespace RadixGates.Mock

open RadixGates.EventStream (LF)
open RadixGates.Handler (bytesOf)

/-- `%d` of a number that is not negative. -/
def decimal (i : Nat) : List UInt8 := (Nat.toDigits 10 i).map fun c => UInt8.ofNat c.toNat

def tokenLine (i : Nat) : List UInt8 :=
  bytesOf "data: \x7b\"choices\":[\x7b\"index\":0,\"delta\":\x7b\"content\":\"tok" ++ decimal i ++
    bytesOf " \"\x7d\x7d]\x7d"

def frame (i : Nat) : List UInt8 := tokenLine i ++ [LF, LF]

def doneLine : List UInt8 := bytesOf "data: [DONE]"

def doneFrame : List UInt8 := doneLine ++ [LF, LF]

/-- The loop, from token `i` on with this many left; and whether it hung up. -/
def streamFrom (f : Fault) : (left i : Nat) → List UInt8 × Bool
  | 0, _ => (doneFrame, false)
  | left + 1, i =>
      if f.mode = .midstream ∧ (i : Int) = f.afterTokens then ([], true)
      else
        let later := streamFrom f left (i + 1)
        (frame i ++ later.1, later.2)

/-- `tokens`: the request's number if it has one, else the worker's. -/
def Options.tokensFor (o : Options) (req : ChatReq) : Int :=
  if 0 < req.maxTokens then req.maxTokens else o.defaults.tokens

def streamed (o : Options) (f : Fault) (req : ChatReq) : List UInt8 × Bool :=
  streamFrom f (o.tokensFor req).toNat 0

def framesFrom (i left : Nat) : List UInt8 := (List.range' i left).flatMap frame

/-- All tokens of a request. -/
def allTokens (o : Options) (req : ChatReq) : List UInt8 :=
  framesFrom 0 (o.tokensFor req).toNat

example : streamFrom ⟨.midstream, 0, 1⟩ 3 0 = (frame 0, true) := by decide +kernel

theorem tokensFor_pos (o : Options) (req : ChatReq) : 0 < o.tokensFor req := by
  simp only [Options.tokensFor, Options.defaults]
  split_ifs <;> omega

/-! ## What is sent -/

theorem framesFrom_succ (i left : Nat) :
    framesFrom i (left + 1) = frame i ++ framesFrom (i + 1) left := by
  simp [framesFrom, List.range'_succ]

/-- The stream is the whole one, or it stops before some token. -/
theorem streamFrom_cases (f : Fault) (left i : Nat) :
    streamFrom f left i = (framesFrom i left ++ doneFrame, false) ∨
      (streamFrom f left i).2 = true ∧ (streamFrom f left i).1 <+: framesFrom i left := by
  induction left generalizing i with
  | zero => exact Or.inl rfl
  | succ left ih =>
      rw [streamFrom, framesFrom_succ]
      split_ifs with hangsUp
      · exact Or.inr ⟨rfl, List.nil_prefix⟩
      · rcases ih (i + 1) with whole | ⟨hung, short⟩
        · left
          rw [whole]
          simp
        · right
          exact ⟨hung, (List.prefix_append_right_inj _).mpr short⟩

theorem streamFrom_prefix (f : Fault) (left i : Nat) :
    (streamFrom f left i).1 <+: framesFrom i left ++ doneFrame := by
  rcases streamFrom_cases f left i with whole | ⟨_, short⟩
  · rw [whole]
  · exact short.trans (List.prefix_append _ _)

/-! ## The bytes of a token -/

theorem decimal_digit (i : Nat) (b : UInt8) (member : b ∈ decimal i) : 48 ≤ b ∧ b ≤ 57 := by
  obtain ⟨c, inside, rfl⟩ := List.mem_map.mp member
  have digit := Nat.isDigit_of_mem_toDigits (by decide) (by decide) inside
  simp only [Char.isDigit, Bool.and_eq_true, decide_eq_true_eq] at digit
  obtain ⟨low, high⟩ := digit
  have low' : 48 ≤ c.toNat := UInt32.le_iff_toNat_le.mp low
  have high' : c.toNat ≤ 57 := UInt32.le_iff_toNat_le.mp high
  generalize c.toNat = code at low' high'
  have small : code % 256 = code := Nat.mod_eq_of_lt (by omega)
  constructor <;> rw [UInt8.le_iff_toNat_le, UInt8.toNat_ofNat', small] <;> assumption

theorem decimal_ne_nil (i : Nat) : decimal i ≠ [] := by
  simp [decimal, Nat.toDigits_ne_nil]

theorem tokenLine_plain (i : Nat) : LF ∉ tokenLine i := by
  have texts :
      LF ∉ bytesOf "data: \x7b\"choices\":[\x7b\"index\":0,\"delta\":\x7b\"content\":\"tok" ∧
        LF ∉ bytesOf " \"\x7d\x7d]\x7d" := by
    decide +kernel
  have digits : LF ∉ decimal i := by
    intro member
    have := (decimal_digit i LF member).1
    revert this
    decide
  simp [tokenLine, texts, digits]

end RadixGates.Mock
