import LaunchCpp.RetryPolicy
import LaunchCpp.ExecuteProcess

/-! # The delay before a retry

    `RetryPolicy::calculate_delay` and `ExecuteProcess::calculate_retry_delay`
    compute the same power of a multiplier in a `double` and convert it to a
    `uint32_t` number of milliseconds.  With an integer multiplier the product
    is exact for long; what ends first is the range of the conversion
    (`delays_exact_iff`). -/

namespace LaunchCpp

open ExactDoubles

variable {W : Type*}

/-- `calculate_retry_delay`; the conversion to `uint32_t` is undefined outside
    its range. -/
def ExecuteProcess.calculateRetryDelay (self : ExecuteProcess W) (attemptNumber : Nat) :
    Option Int :=
  if attemptNumber = 0 ∨ self.options.retryBackoffMultiplier ≤ toDouble 0 then
    some self.options.retryDelay
  else
    (toUnsigned 32 (toDouble self.options.retryDelay
      * backoffLoop self.options.retryBackoffMultiplier (attemptNumber - 1) (toDouble 1))).map
        Int.ofNat

/-- The configuration with an integer backoff. -/
def RetryConfig.withBackoff (config : RetryConfig) (delay multiplier : Nat) : RetryConfig :=
  { config with initialDelay := delay, backoffMultiplier := toDouble multiplier }

/-- The action with an integer backoff. -/
def ExecuteProcess.withBackoff (self : ExecuteProcess W) (delay multiplier : Nat) :
    ExecuteProcess W :=
  { self with options :=
      { self.options with
        retryDelay := delay, retryBackoffMultiplier := toDouble multiplier } }

/-! ## The product -/

/-- The loop multiplies exactly as long as the product fits into a mantissa. -/
theorem backoffLoop_isNat {d m : Nat} (hm : 0 < m) (n : Nat) {multiplier : Float}
    (hd : IsNat multiplier d) (hlt : d * m ^ n < 2 ^ 53) :
    IsNat (backoffLoop (toDouble m) n multiplier) (d * m ^ n) := by
  induction n generalizing d multiplier with
  | zero =>
      rw [pow_zero, Nat.mul_one]
      exact hd
  | succ n ih =>
      have hpow : d * m ^ (n + 1) = d * m * m ^ n := by ring
      rw [hpow] at hlt ⊢
      have hone : 0 < m ^ n := Nat.pow_pos hm
      have hstep : d * m < 2 ^ 53 := Nat.lt_of_le_of_lt (Nat.le_mul_of_pos_right _ hone) hlt
      have hmlt : m < 2 ^ 53 := Nat.lt_of_le_of_lt (Nat.le_mul_of_pos_left _ hd.1) hstep
      exact ih (hd.mul (isNat_toDouble hm hmlt) hstep) hlt

theorem delay_isNat {d m : Nat} (hd : 0 < d) (hm : 0 < m) {n : Nat}
    (hlt : d * m ^ n < 2 ^ 53) :
    IsNat (toDouble d * backoffLoop (toDouble m) n (toDouble 1)) (d * m ^ n) := by
  have hpow : 0 < m ^ n := Nat.pow_pos hm
  have hdlt : d < 2 ^ 53 := Nat.lt_of_le_of_lt (Nat.le_mul_of_pos_right _ hpow) hlt
  have hmlt : 1 * m ^ n < 2 ^ 53 := by
    rw [Nat.one_mul]
    exact Nat.lt_of_le_of_lt (Nat.le_mul_of_pos_left _ hd) hlt
  have hone : IsNat (toDouble 1) 1 := isNat_toDouble Nat.one_pos (by decide)
  have hmultiplier := backoffLoop_isNat hm n hone hmlt
  rw [Nat.one_mul] at hmultiplier
  exact (isNat_toDouble hd hdlt).mul hmultiplier hlt

section Delays

variable (config : RetryConfig) (self : ExecuteProcess W) {d m a : Nat} (hd : 1 ≤ d)
  (hm : 1 ≤ m) (ha : 1 ≤ a) (hlt : d * m ^ (a - 1) < 2 ^ 53)

include hd hm ha hlt

theorem calculateDelay_eq :
    RetryPolicy.calculateDelay (config.withBackoff d m) a
      = if d * m ^ (a - 1) < 2 ^ 32 then some (d * m ^ (a - 1)) else none := by
  rw [RetryPolicy.calculateDelay, if_neg (by omega)]
  exact (delay_isNat hd hm hlt).toUnsigned_eq 32

theorem calculateRetryDelay_eq (hrange : d * m ^ (a - 1) < 2 ^ 32) :
    (self.withBackoff d m).calculateRetryDelay a = some ((d * m ^ (a - 1) : Nat) : Int) := by
  rw [ExecuteProcess.calculateRetryDelay]
  by_cases hzero : (self.withBackoff d m).options.retryBackoffMultiplier ≤ toDouble 0
  · -- only a multiplier that is never used can be too large for the comparison
    have hfirst : a = 1 := by
      by_contra hmore
      obtain ⟨n, rfl⟩ : ∃ n, a = n + 2 := ⟨a - 2, by omega⟩
      have hpow : m ^ (n + 1) = m * m ^ n := by ring
      have hn : 0 < m ^ n := Nat.pow_pos hm
      have hle : m ≤ d * m ^ (n + 1) := by
        rw [hpow]
        exact (Nat.le_mul_of_pos_right m hn).trans (Nat.le_mul_of_pos_left _ hd)
      have hmlt : m < 2 ^ 53 := Nat.lt_of_le_of_lt hle hlt
      exact (isNat_toDouble hm hmlt).not_le_zero hzero
    subst hfirst
    rw [if_pos (Or.inr hzero), Nat.sub_self, pow_zero, Nat.mul_one]
    rfl
  · have hscaled : ¬ (a = 0 ∨ (self.withBackoff d m).options.retryBackoffMultiplier
        ≤ toDouble 0) := by
      rintro (h | h)
      · omega
      · exact hzero h
    rw [if_neg hscaled]
    have hcast := (delay_isNat hd hm hlt).toUnsigned_eq 32
    rw [if_pos hrange] at hcast
    show (toUnsigned 32 (toDouble d * backoffLoop (toDouble m) (a - 1) (toDouble 1))).map
      Int.ofNat = _
    rw [hcast]
    rfl

end Delays

/-- Both delays of an attempt are the product, and no delay before it is
    longer. -/
def DelaysExact (config : RetryConfig) (self : ExecuteProcess W) (d m a : Nat) : Prop :=
  (RetryPolicy.calculateDelay (config.withBackoff d m) a = some (d * m ^ (a - 1))
    ∧ (self.withBackoff d m).calculateRetryDelay a = some ((d * m ^ (a - 1) : Nat) : Int))
  ∧ ∀ b, 1 ≤ b → b ≤ a →
    (∃ x ≤ d * m ^ (a - 1), RetryPolicy.calculateDelay (config.withBackoff d m) b = some x)
    ∧ ∃ x ≤ ((d * m ^ (a - 1) : Nat) : Int),
      (self.withBackoff d m).calculateRetryDelay b = some x

/-- **When the delays are exact**: as long as they have a place in a
    `uint32_t`. -/
theorem delays_exact_iff (config : RetryConfig) (self : ExecuteProcess W) (d m a : Nat)
    (hd : 1 ≤ d) (hm : 1 ≤ m) (ha : 1 ≤ a) (hlt : d * m ^ (a - 1) < 2 ^ 53) :
    DelaysExact config self d m a ↔ d * m ^ (a - 1) < 2 ^ 32 := by
  constructor
  · rintro ⟨⟨hdelay, -⟩, -⟩
    by_contra hrange
    rw [calculateDelay_eq config hd hm ha hlt, if_neg hrange] at hdelay
    cases hdelay
  · intro hrange
    have hdelay := calculateDelay_eq config hd hm ha hlt
    rw [if_pos hrange] at hdelay
    refine ⟨⟨hdelay, calculateRetryDelay_eq self hd hm ha hlt hrange⟩, ?_⟩
    intro b hb hba
    -- a smaller power of a positive multiplier
    have hle : d * m ^ (b - 1) ≤ d * m ^ (a - 1) :=
      Nat.mul_le_mul_left d (Nat.pow_le_pow_right hm (by omega))
    have hblt : d * m ^ (b - 1) < 2 ^ 53 := by omega
    have hbrange : d * m ^ (b - 1) < 2 ^ 32 := by omega
    have hbdelay := calculateDelay_eq config hd hm hb hblt
    rw [if_pos hbrange] at hbdelay
    exact ⟨⟨_, hle, hbdelay⟩, _, by exact_mod_cast hle,
      calculateRetryDelay_eq self hd hm hb hblt hbrange⟩

/-- A second, doubled twice. -/
theorem delays_exact_iff_third :
    1000 * 2 ^ (3 - 1) < 2 ^ 53
    ∧ (DelaysExact {} ({ options := {} } : ExecuteProcess Unit) 1000 2 3
      ↔ 1000 * 2 ^ (3 - 1) < 2 ^ 32) :=
  ⟨by decide, delays_exact_iff {} { options := {} } 1000 2 3 (by decide) (by decide) (by decide)
    (by decide)⟩

/-- The default delay of five seconds, doubled twenty times, has no place in a
    `uint32_t`. -/
theorem calculateDelay_out_of_range :
    5000 * 2 ^ (21 - 1) < 2 ^ 53
    ∧ RetryPolicy.calculateDelay (({} : RetryConfig).withBackoff 5000 2) 21 = none
    ∧ ¬ DelaysExact {} ({ options := {} } : ExecuteProcess Unit) 5000 2 21 := by
  have hnone : RetryPolicy.calculateDelay (({} : RetryConfig).withBackoff 5000 2) 21 = none :=
    calculateDelay_eq {} (by decide) (by decide) (by decide) (by decide)
  refine ⟨by decide, hnone, ?_⟩
  rintro ⟨⟨hdelay, -⟩, -⟩
  rw [hnone] at hdelay
  cases hdelay

end LaunchCpp
