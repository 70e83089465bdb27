import RadixGates.Handler.Serve

/-!
# The wait between two attempts

`backoff` doubles the base for every attempt made so far and caps the result at
one second.  It shifts first and caps afterwards, and `Validate` checks neither
the sign of the base nor the number of attempts against it.  So the wait is
right as long as the last shift still fits into 64 bits, and not longer: the
first one that does not fit leaves a negative duration.
-/

set_option autoImplicit false

namespace RadixGates.Handler

open RadixGates.Settings (Reliability)

/-- The wait without jitter, with no bound on the integers. -/
def fullBackoff (rel : Reliability) (attempt : Nat) : Int :=
  min (rel.retryBackoff * 2 ^ (attempt - 1)) second

/-- Whatever the random draw is, `backoff` comes back with at least half of the
full wait and not more than all of it. -/
def BacksOff (rel : Reliability) (attempt : Nat) : Prop :=
  ∀ jitter, ∃ d, backoff rel attempt jitter = some d ∧
    fullBackoff rel attempt / 2 ≤ d ∧ d ≤ fullBackoff rel attempt ∧ 0 ≤ d ∧ d ≤ second

theorem wrap64_eq (x : Int) :
    wrap64 x = if x % 2 ^ 64 < 2 ^ 63 then x % 2 ^ 64 else x % 2 ^ 64 - 2 ^ 64 := by
  simp only [wrap64, Int.bmod]
  split_ifs <;> omega

/-- The shifted base fits, or wraps around to a second or more. -/
def ShiftFits (base : Int) (shift : Nat) : Prop :=
  base * 2 ^ shift < 2 ^ 63 ∨
    (second ≤ base * 2 ^ shift % 2 ^ 64 ∧ base * 2 ^ shift % 2 ^ 64 < 2 ^ 63)

/-- The duration after the cap. -/
def capped (shifted : Int) : Int := if second < wrap64 shifted then second else wrap64 shifted

/-- Nothing is lost exactly if the shifted value fits or wraps around to a second
or more. -/
theorem capped_eq_iff (shifted : Int) (nonneg : 0 ≤ shifted) :
    capped shifted = min shifted second ↔
      shifted < 2 ^ 63 ∨ (second ≤ shifted % 2 ^ 64 ∧ shifted % 2 ^ 64 < 2 ^ 63) := by
  have wrapped := wrap64_eq shifted
  simp only [capped, second]
  split_ifs at wrapped ⊢ <;> omega

theorem tdiv_two_nonpos (d : Int) (negative : d < 0) : Int.tdiv d 2 ≤ 0 := by
  rw [Int.tdiv_eq_ediv]
  split
  · omega
  · have : Int.sign 2 = 1 := rfl
    omega

/-- The last line of `backoff`. -/
def jittered (d : Int) (jitter : Nat) : Option Int :=
  let half := Int.tdiv d 2
  if half + 1 ≤ 0 then none else some (half + (jitter : Int) % (half + 1))

theorem backoff_eq (rel : Reliability) (attempt jitter : Nat) :
    backoff rel attempt jitter = jittered (capped (rel.retryBackoff * 2 ^ (attempt - 1))) jitter :=
  rfl

theorem jittered_between (d : Int) (nonneg : 0 ≤ d) (jitter : Nat) :
    ∃ wait, jittered d jitter = some wait ∧ d / 2 ≤ wait ∧ wait ≤ d := by
  have drawn := Int.emod_nonneg (jitter : Int) (by omega : d / 2 + 1 ≠ 0)
  have bounded := Int.emod_lt_of_pos (jitter : Int) (by omega : 0 < d / 2 + 1)
  simp only [jittered, Int.tdiv_eq_ediv_of_nonneg nonneg]
  refine ⟨_, if_neg (by omega), ?_, ?_⟩ <;> omega

/-- Without jitter only half of the duration is waited. -/
theorem double_le_of_jittered (d wait least : Int) (positive : 0 < least)
    (returned : jittered d 0 = some wait) (low : least ≤ wait) : 2 * least ≤ d := by
  simp only [jittered] at returned
  split at returned
  · cases returned
  · have half : wait = Int.tdiv d 2 := by
      simpa using (Option.some.inj returned).symm
    have nonneg : 0 ≤ d := by
      by_contra negative
      have := tdiv_two_nonpos d (by omega)
      omega
    rw [Int.tdiv_eq_ediv_of_nonneg nonneg] at half
    omega

theorem backsOff_iff (rel : Reliability) (attempt : Nat) :
    BacksOff rel attempt ↔ 0 ≤ rel.retryBackoff ∧ ShiftFits rel.retryBackoff (attempt - 1) := by
  have scale : (0 : Int) < 2 ^ (attempt - 1) := Int.pow_pos (by decide)
  have sign : 0 ≤ rel.retryBackoff ↔ 0 ≤ rel.retryBackoff * 2 ^ (attempt - 1) :=
    (Int.mul_nonneg_iff_of_pos_right scale).symm
  rw [sign, ShiftFits]
  simp only [BacksOff, fullBackoff, backoff_eq]
  generalize rel.retryBackoff * 2 ^ (attempt - 1) = shifted
  constructor
  · intro backs
    obtain ⟨wait, returned, low, high, nonneg, _⟩ := backs 0
    have atLeast : 0 ≤ shifted := nonneg.trans (high.trans (min_le_left _ _))
    refine ⟨atLeast, ?_⟩
    by_cases small : shifted < 2 ^ 63
    · exact Or.inl small
    · apply (capped_eq_iff shifted atLeast).mp
      have all : min shifted second = second := by
        apply min_eq_right
        simp only [second]
        omega
      have atMost : capped shifted ≤ second := by
        simp only [capped]
        split <;> omega
      rw [all] at low ⊢
      have twice := double_le_of_jittered (capped shifted) wait (second / 2) (by decide) returned low
      simp only [second] at twice atMost ⊢
      omega
  · rintro ⟨nonneg, fits⟩ jitter
    have full := (capped_eq_iff shifted nonneg).mpr fits
    have atLeast : 0 ≤ min shifted second := le_min nonneg (by decide)
    have atMost : min shifted second ≤ second := min_le_right _ _
    obtain ⟨wait, returned, low, high⟩ := jittered_between _ atLeast jitter
    rw [full]
    exact ⟨wait, returned, low, high, by omega, by omega⟩

theorem init_retryBackoff (h : DirectChatHandler) (fits : h.reliability.retryBackoff < 2 ^ 63) :
    h.init.retryBackoff < 2 ^ 63 := by
  simp only [DirectChatHandler.init]
  split
  · decide
  · exact fits

/-- The first shift that does not fit leaves a negative value, so a base whose
shifts are all right fits with all of them. -/
theorem shift_lt_of_shiftFits (base : Int) (nonneg : 0 ≤ base) (small : base < 2 ^ 63) (last : Nat)
    (every : ∀ shift ≤ last, ShiftFits base shift) : base * 2 ^ last < 2 ^ 63 := by
  induction last with
  | zero => simpa using small
  | succ shift ih =>
      have before := ih fun earlier within => every earlier (by omega)
      have doubled : base * 2 ^ (shift + 1) = base * 2 ^ shift * 2 := by
        rw [Int.pow_succ, Int.mul_assoc]
      have least : 0 ≤ base * 2 ^ shift := Int.mul_nonneg nonneg (Int.pow_nonneg (by decide))
      rcases every (shift + 1) le_rfl with fits | ⟨_, wrapped⟩
      · exact fits
      · omega

/-- All waits of the retry loop are right exactly if there is none, or the base
is not negative and the last shift fits into 64 bits. -/
theorem backsOff_iff_last_shift_fits (h : DirectChatHandler)
    (fits : h.reliability.retryBackoff < 2 ^ 63) :
    (∀ attempt : Nat, 1 ≤ attempt → attempt < h.init.maxAttempts → BacksOff h.init attempt) ↔
      h.init.maxAttempts ≤ 1 ∨ (0 ≤ h.init.retryBackoff ∧
        h.init.retryBackoff * 2 ^ (h.init.maxAttempts - 2).toNat < 2 ^ 63) := by
  have small := init_retryBackoff h fits
  simp only [backsOff_iff]
  constructor
  · intro every
    by_cases single : h.init.maxAttempts ≤ 1
    · exact Or.inl single
    · have nonneg := (every 1 le_rfl (by omega)).1
      refine Or.inr ⟨nonneg, ?_⟩
      apply shift_lt_of_shiftFits _ nonneg small
      intro shift within
      exact (every (shift + 1) (by omega) (by omega)).2
  · rintro (single | ⟨nonneg, last⟩) attempt first within
    · omega
    · refine ⟨nonneg, Or.inl ?_⟩
      have grows : h.init.retryBackoff * 2 ^ (attempt - 1) ≤
          h.init.retryBackoff * 2 ^ (h.init.maxAttempts - 2).toNat := by
        apply Int.mul_le_mul_of_nonneg_left _ nonneg
        exact pow_le_pow_right₀ (by decide) (by omega)
      exact grows.trans_lt last

theorem defaults_back_off :
    let rel := (⟨0, Settings.defaultReliability⟩ : DirectChatHandler).init
    rel.maxAttempts = 3 ∧ BacksOff rel 1 ∧ BacksOff rel 2 := by
  have every := (backsOff_iff_last_shift_fits ⟨0, Settings.defaultReliability⟩ (by decide)).mpr
    (Or.inr ⟨by decide, by decide⟩)
  exact ⟨rfl, every 1 le_rfl (by decide), every 2 (by decide) (by decide)⟩

/-- A base below zero. -/
def negativeBase : Settings.Config :=
  ⟨⟨5 / 4, 4, 0, 0⟩, { Settings.defaultReliability with retryBackoff := -25 * Settings.millisecond },
    ⟨128, 10 * second⟩⟩

/-- The default base, with so many attempts that the last shift overflows. -/
def manyAttempts : Settings.Config :=
  ⟨⟨5 / 4, 4, 0, 0⟩, { Settings.defaultReliability with maxAttempts := 41 }, ⟨128, 10 * second⟩⟩

theorem valid_backoff_panics :
    (Settings.validate negativeBase = .ok () ∧
        1 < (⟨0, negativeBase.reliability⟩ : DirectChatHandler).init.maxAttempts ∧
        ¬ BacksOff (⟨0, negativeBase.reliability⟩ : DirectChatHandler).init 1) ∧
      (Settings.validate manyAttempts = .ok () ∧
        40 < (⟨0, manyAttempts.reliability⟩ : DirectChatHandler).init.maxAttempts ∧
        ¬ BacksOff (⟨0, manyAttempts.reliability⟩ : DirectChatHandler).init 40) := by
  have panics : ∀ rel attempt, backoff rel attempt 0 = none → ¬ BacksOff rel attempt := by
    intro rel attempt none backs
    obtain ⟨d, returned, _⟩ := backs 0
    rw [none] at returned
    cases returned
  refine ⟨⟨by decide +kernel, by decide, ?_⟩, by decide +kernel, by decide, ?_⟩
  · exact panics _ _ (by decide +kernel)
  · exact panics _ _ (by decide +kernel)

end RadixGates.Handler
