import LaunchCpp.Basic
import LaunchCpp.Library.BoundedTries
import LaunchCpp.Library.ExactDoubles
import Mathlib.Data.Finset.Insert

/-! # `RetryPolicy` and `FixedRetryPolicy`

    Two loops that call an operation again after a failure.  The operation is
    the sequence of its results; a run records its calls and the sleeps between
    them.  Both loops are shown to go through the plan of
    `Library.BoundedTries`, with what they return at its end: `execute_eq` and
    `FixedRetryPolicy.execute_eq`.  They part where no call is allowed. -/

namespace LaunchCpp

open BoundedTries ExactDoubles

/-- `ErrorCode` of `retry_policy.hpp`, which is not that of `error_code.hpp`. -/
inductive RetryPolicy.ErrorCode where
  | success
  | forkFailed
  | execFailed
  | timeout
  | resourceExhausted
  | permissionDenied
  | configInvalid
  | maxRetriesExceeded
  | unknown
  deriving DecidableEq, Repr

/-- `RetryConfig`; times in milliseconds. -/
structure RetryConfig where
  maxAttempts : UInt32 := 3
  initialDelay : Int := 5000
  backoffMultiplier : Float := toDouble 1
  retryableErrors : Finset RetryPolicy.ErrorCode := {.forkFailed, .resourceExhausted, .timeout}

/-- `RetryConfig::is_retryable`. -/
def RetryConfig.isRetryable (config : RetryConfig) (code : RetryPolicy.ErrorCode) : Bool :=
  code ∈ config.retryableErrors

/-- `RetryableResult`; a value that nobody has set is `none`. -/
structure RetryableResult (T : Type*) where
  isSuccess : Bool := true
  errorCode : RetryPolicy.ErrorCode := .success
  errorMessage : Str := []
  value : Option T := none

/-- The constructor with an error code. -/
def RetryableResult.ofError {T : Type*} (code : RetryPolicy.ErrorCode) (message : Str) :
    RetryableResult T where
  isSuccess := false
  errorCode := code
  errorMessage := message

/-- The loop in which a multiplier is raised to a power. -/
def backoffLoop (backoffMultiplier : Float) : Nat → Float → Float
  | 0, multiplier => multiplier
  | n + 1, multiplier => backoffLoop backoffMultiplier n (multiplier * backoffMultiplier)

/-- A run of one of the policies: what it returns, and its calls and sleeps.
    `D` is how a delay is given. -/
structure RetryRun (D T : Type*) where
  result : RetryableResult T
  events : List (Event D) := []

/-- How often the operation was called. -/
def RetryRun.calls {D T : Type*} [DecidableEq D] (run : RetryRun D T) : Nat :=
  run.events.count .call

/-- The run of a loop that makes so many tries. -/
def RetryRun.ofTries {D T : Type*} (t : RetryableResult T × List (Event D)) : RetryRun D T where
  result := t.1
  events := t.2

theorem RetryRun.ofTries_elim {D T : Type*} (x : Option Nat)
    (t : RetryableResult T × List (Event D)) (f : Nat → RetryableResult T × List (Event D)) :
    RetryRun.ofTries (x.elim t f) = x.elim (.ofTries t) (fun k => .ofTries (f k)) := by
  cases x <;> rfl

variable {T : Type*}

namespace RetryPolicy

variable (config : RetryConfig) (operation : Nat → RetryableResult T)

/-- `should_retry`. -/
def shouldRetry (errorCode : ErrorCode) : Bool := config.isRetryable errorCode

/-- `calculate_delay`; the conversion to `uint32_t` is undefined outside its
    range. -/
def calculateDelay (attemptNumber : Nat) : Option Nat :=
  if attemptNumber = 0 then some 0
  else
    toUnsigned 32 (toDouble config.initialDelay
      * backoffLoop config.backoffMultiplier (attemptNumber - 1) (toDouble 1))

/-- The error both ways out of the loop lead to. -/
def maxRetriesExceeded : RetryableResult T :=
  .ofError .maxRetriesExceeded
    ("Max retry attempts (".toList ++ (toString config.maxAttempts.toNat).toList
      ++ ") exceeded".toList)

theorem toNat_succ {attempt limit : UInt32} (h : attempt < limit) :
    (attempt + 1).toNat = attempt.toNat + 1 := by
  have hlt := UInt32.lt_iff_toNat_lt.mp h
  have hlimit := limit.toNat_lt
  have hone : (1 : UInt32).toNat = 1 := rfl
  rw [UInt32.toNat_add, hone]
  exact Nat.mod_eq_of_lt (by omega)

/-- The loop of `execute`; the operation has been called `calls` times. -/
def executeLoop (attempt : UInt32) (calls : Nat) : RetryRun (Option Nat) T :=
  if h : attempt < config.maxAttempts then
    let lastResult := operation calls
    if lastResult.isSuccess then { result := lastResult, events := [.call] }
    else if ¬ shouldRetry config lastResult.errorCode then
      { result := lastResult, events := [.call] }
    else if config.maxAttempts ≤ attempt + 1 then
      { result := maxRetriesExceeded config, events := [.call] }
    else
      let rest := executeLoop (attempt + 1) (calls + 1)
      { rest with
        events := .call :: .pause (calculateDelay config (attempt + 1).toNat) :: rest.events }
  else { result := maxRetriesExceeded config }
termination_by config.maxAttempts.toNat - attempt.toNat
decreasing_by
  rw [toNat_succ h]
  have hlt := UInt32.lt_iff_toNat_lt.mp h
  omega

/-- `execute`. -/
def execute : RetryRun (Option Nat) T := executeLoop config operation 0 0

/-- A result that ends the loop: a success, or an error not to be retried. -/
def ends (result : RetryableResult T) : Bool :=
  result.isSuccess || !shouldRetry config result.errorCode

variable {config operation}

theorem ends_eq_false {result : RetryableResult T} (h : ends config result = false) :
    result.isSuccess = false ∧ shouldRetry config result.errorCode = true := by
  rw [ends] at h
  simpa using h

section Round

variable {attempt : UInt32} {calls : Nat} (h : attempt < config.maxAttempts)

include h

theorem executeLoop_of_ends (hends : ends config (operation calls) = true) :
    executeLoop config operation attempt calls
      = { result := operation calls, events := [.call] } := by
  rw [executeLoop, dif_pos h]
  rw [ends, Bool.or_eq_true] at hends
  rcases hends with hsuccess | hretry
  · simp only [hsuccess, if_true]
  · simp only
    split
    · rfl
    · rw [if_pos (by simpa using hretry)]

theorem executeLoop_of_last (hends : ends config (operation calls) = false)
    (hlast : config.maxAttempts ≤ attempt + 1) :
    executeLoop config operation attempt calls
      = { result := maxRetriesExceeded config, events := [.call] } := by
  obtain ⟨hsuccess, hretry⟩ := ends_eq_false hends
  rw [executeLoop, dif_pos h]
  simp only [hsuccess, hretry, hlast, Bool.false_eq_true, not_true_eq_false, if_false, if_true]

theorem executeLoop_of_next (hends : ends config (operation calls) = false)
    (hnext : attempt + 1 < config.maxAttempts) :
    executeLoop config operation attempt calls
      = { executeLoop config operation (attempt + 1) (calls + 1) with
          events := .call :: .pause (calculateDelay config (attempt.toNat + 1))
            :: (executeLoop config operation (attempt + 1) (calls + 1)).events } := by
  obtain ⟨hsuccess, hretry⟩ := ends_eq_false hends
  have hnot : ¬ config.maxAttempts ≤ attempt + 1 := UInt32.not_le.mpr hnext
  rw [executeLoop, dif_pos h]
  simp only [hsuccess, hretry, hnot, Bool.false_eq_true, not_true_eq_false, if_false,
    toNat_succ h]

end Round

/-- The loop makes its tries. -/
theorem executeLoop_eq {n : Nat} {attempt : UInt32}
    (hn : config.maxAttempts.toNat = attempt.toNat + (n + 1)) :
    executeLoop config operation attempt attempt.toNat
      = .ofTries (tries (ends config) operation (calculateDelay config) operation
          (maxRetriesExceeded config) attempt.toNat n) := by
  have h : attempt < config.maxAttempts := by
    rw [UInt32.lt_iff_toNat_lt]
    omega
  cases hends : ends config (operation attempt.toNat) with
  | true =>
      rw [executeLoop_of_ends h hends, tries_of_done _ _ _ hends]
      rfl
  | false =>
      cases n with
      | zero =>
          have hlast : config.maxAttempts ≤ attempt + 1 := by
            rw [UInt32.le_iff_toNat_le, toNat_succ h]
            omega
          rw [executeLoop_of_last h hends hlast, tries, if_neg (Bool.eq_false_iff.mp hends)]
          rfl
      | succ n =>
          have hnext : attempt + 1 < config.maxAttempts := by
            rw [UInt32.lt_iff_toNat_lt, toNat_succ h]
            omega
          have hfewer : config.maxAttempts.toNat = (attempt + 1).toNat + (n + 1) := by
            rw [toNat_succ h]
            omega
          have hrest := executeLoop_eq hfewer
          rw [toNat_succ h] at hrest
          rw [executeLoop_of_next h hends hnext, hrest, tries, if_neg (Bool.eq_false_iff.mp hends)]
          rfl

/-- **`execute` goes through the plan**, up to the first result that ends it. -/
theorem execute_eq (config : RetryConfig) (operation : Nat → RetryableResult T) :
    execute config operation
      = (firstDone (ends config) operation 0 config.maxAttempts.toNat).elim
        { result := maxRetriesExceeded config
          events := plan (calculateDelay config) config.maxAttempts.toNat }
        (fun k => { result := operation k, events := plan (calculateDelay config) (k + 1) }) := by
  by_cases h : 0 < config.maxAttempts
  · obtain ⟨n, hn⟩ : ∃ n, config.maxAttempts.toNat = n + 1 := by
      have hlt : 0 < config.maxAttempts.toNat := UInt32.lt_iff_toNat_lt.mp h
      exact ⟨config.maxAttempts.toNat - 1, by omega⟩
    have hzero : config.maxAttempts.toNat = (0 : UInt32).toNat + (n + 1) :=
      hn.trans (Nat.zero_add _).symm
    have hloop : executeLoop config operation 0 0 = _ := executeLoop_eq hzero
    rw [execute, hloop, hn]
    show RetryRun.ofTries (tries _ _ _ _ _ 0 n) = _
    rw [tries_eq]
    exact RetryRun.ofTries_elim _ _ _
  · have hzero : config.maxAttempts = 0 := UInt32.le_zero_iff.mp (UInt32.not_lt.mp h)
    rw [execute, executeLoop, dif_neg h, hzero]
    rfl

/-- **Calls, result and sleeps of `execute`.**  If the least result that ends
    the loop is within the limit, it is returned after as many calls as it
    takes to get it; otherwise the limit is used up and the result is an error.
    Calls number `i` and `i + 1` are `calculate_delay(i)` apart, and nothing
    follows the last one. -/
theorem execute_calls (config : RetryConfig) (operation : Nat → RetryableResult T) :
    (∀ k, IsLeast {i | ends config (operation i) = true} k → k < config.maxAttempts.toNat →
      (execute config operation).calls = k + 1
      ∧ (execute config operation).result = operation k
      ∧ (execute config operation).events = plan (calculateDelay config) (k + 1))
    ∧ ((∀ k, IsLeast {i | ends config (operation i) = true} k →
        config.maxAttempts.toNat ≤ k) →
      (execute config operation).calls = config.maxAttempts.toNat
      ∧ (execute config operation).result.isSuccess = false
      ∧ (execute config operation).result.errorCode = .maxRetriesExceeded
      ∧ (execute config operation).events
        = plan (calculateDelay config) config.maxAttempts.toNat) := by
  rw [RetryRun.calls, execute_eq]
  constructor
  · intro k hk hlt
    rw [firstDone_of_isLeast hk hlt]
    simp only [Option.elim_some]
    exact ⟨count_plan _, trivial, trivial⟩
  · intro hlate
    have hnone : ∀ i < config.maxAttempts.toNat, ends config (operation i) = false := by
      intro i hi
      by_contra hends
      -- the least such call would be within the limit too
      have hex : ∃ i, ends config (operation i) = true := ⟨i, Bool.not_eq_false _ ▸ hends⟩
      have hleast : IsLeast {i | ends config (operation i) = true} (Nat.find hex) :=
        ⟨Nat.find_spec hex, fun j hj => Nat.find_min' hex hj⟩
      have hle := hlate _ hleast
      have hfind := Nat.find_min' hex (Bool.not_eq_false _ ▸ hends)
      omega
    rw [firstDone_of_forall hnone]
    simp only [Option.elim_none]
    exact ⟨count_plan _, rfl, rfl, trivial⟩

end RetryPolicy

/-! ## A fixed number of retries -/

/-- `FixedRetryPolicy`. -/
structure FixedRetryPolicy where
  maxAttempts : UInt32
  delay : Int

namespace FixedRetryPolicy

variable (policy : FixedRetryPolicy) (operation : Nat → RetryableResult T)

/-- The loop of `execute`; the operation has been called `calls` times. -/
def executeLoop (i : UInt32) (calls : Nat) (lastResult : RetryableResult T) : RetryRun Int T :=
  if h : i < policy.maxAttempts then
    let lastResult := operation calls
    if lastResult.isSuccess then { result := lastResult, events := [.call] }
    else
      let rest := executeLoop (i + 1) (calls + 1) lastResult
      if i < policy.maxAttempts - 1 then
        { rest with events := .call :: .pause policy.delay :: rest.events }
      else { rest with events := .call :: rest.events }
  else { result := lastResult }
termination_by policy.maxAttempts.toNat - i.toNat
decreasing_by
  all_goals
    rw [RetryPolicy.toNat_succ h]
    have hlt := UInt32.lt_iff_toNat_lt.mp h
    omega

/-- `execute`; the result it begins with is a default one. -/
def execute : RetryRun Int T := executeLoop policy operation 0 0 {}

variable {policy operation}

section Round

variable {i : UInt32} {calls : Nat} {lastResult : RetryableResult T}
  (h : i < policy.maxAttempts)

include h

theorem executeLoop_of_success (hsuccess : (operation calls).isSuccess = true) :
    executeLoop policy operation i calls lastResult
      = { result := operation calls, events := [.call] } := by
  rw [executeLoop, dif_pos h]
  simp only [hsuccess, if_true]

/-- There is a sleep behind every call but the last. -/
theorem sleeps_iff : i < policy.maxAttempts - 1 ↔ i.toNat + 1 < policy.maxAttempts.toNat := by
  have hlt := UInt32.lt_iff_toNat_lt.mp h
  have hone : (1 : UInt32) ≤ policy.maxAttempts := by
    rw [UInt32.le_iff_toNat_le]
    show 1 ≤ policy.maxAttempts.toNat
    omega
  have hsub : (policy.maxAttempts - 1).toNat = policy.maxAttempts.toNat - 1 :=
    UInt32.toNat_sub_of_le _ _ hone
  rw [UInt32.lt_iff_toNat_lt, hsub]
  omega

theorem executeLoop_of_last (hsuccess : (operation calls).isSuccess = false)
    (hlast : policy.maxAttempts.toNat = i.toNat + 1) :
    executeLoop policy operation i calls lastResult
      = { result := operation calls, events := [.call] } := by
  have hstop : ¬ i < policy.maxAttempts - 1 := by
    rw [sleeps_iff h]
    omega
  have hdone : ¬ i + 1 < policy.maxAttempts := by
    rw [UInt32.lt_iff_toNat_lt, RetryPolicy.toNat_succ h]
    omega
  rw [executeLoop, dif_pos h]
  simp only [hsuccess, hstop, Bool.false_eq_true, if_false]
  rw [executeLoop, dif_neg hdone]

theorem executeLoop_of_next (hsuccess : (operation calls).isSuccess = false)
    (hnext : i.toNat + 1 < policy.maxAttempts.toNat) :
    executeLoop policy operation i calls lastResult
      = { executeLoop policy operation (i + 1) (calls + 1) (operation calls) with
          events := .call :: .pause policy.delay
            :: (executeLoop policy operation (i + 1) (calls + 1) (operation calls)).events } := by
  rw [executeLoop, dif_pos h]
  simp only [hsuccess, Bool.false_eq_true, if_false]
  rw [if_pos ((sleeps_iff h).mpr hnext)]

end Round

/-- The loop makes its tries, and returns the last result it got. -/
theorem executeLoop_eq {n : Nat} {i : UInt32} (hn : policy.maxAttempts.toNat = i.toNat + (n + 1))
    (lastResult : RetryableResult T) :
    executeLoop policy operation i i.toNat lastResult
      = .ofTries (tries RetryableResult.isSuccess operation (fun _ => policy.delay) operation
          (operation (policy.maxAttempts.toNat - 1)) i.toNat n) := by
  have h : i < policy.maxAttempts := by
    rw [UInt32.lt_iff_toNat_lt]
    omega
  cases hsuccess : (operation i.toNat).isSuccess with
  | true =>
      rw [executeLoop_of_success h hsuccess, tries_of_done _ _ _ hsuccess]
      rfl
  | false =>
      cases n with
      | zero =>
          rw [executeLoop_of_last h hsuccess hn, tries, if_neg (Bool.eq_false_iff.mp hsuccess), hn]
          rfl
      | succ n =>
          have hnext : i.toNat + 1 < policy.maxAttempts.toNat := by omega
          have hfewer : policy.maxAttempts.toNat = (i + 1).toNat + (n + 1) := by
            rw [RetryPolicy.toNat_succ h]
            omega
          have hrest := executeLoop_eq hfewer (operation i.toNat)
          rw [RetryPolicy.toNat_succ h] at hrest
          rw [executeLoop_of_next h hsuccess hnext, hrest, tries,
            if_neg (Bool.eq_false_iff.mp hsuccess)]
          rfl

/-- **`FixedRetryPolicy::execute` goes through the plan**, up to the first
    success; without a call it returns the result it began with. -/
theorem execute_eq (policy : FixedRetryPolicy) (operation : Nat → RetryableResult T) :
    execute policy operation
      = (firstDone RetryableResult.isSuccess operation 0 policy.maxAttempts.toNat).elim
        { result := if policy.maxAttempts = 0 then {}
            else operation (policy.maxAttempts.toNat - 1)
          events := plan (fun _ => policy.delay) policy.maxAttempts.toNat }
        (fun k => { result := operation k, events := plan (fun _ => policy.delay) (k + 1) }) := by
  by_cases h : 0 < policy.maxAttempts
  · obtain ⟨n, hn⟩ : ∃ n, policy.maxAttempts.toNat = n + 1 := by
      have hlt : 0 < policy.maxAttempts.toNat := UInt32.lt_iff_toNat_lt.mp h
      exact ⟨policy.maxAttempts.toNat - 1, by omega⟩
    have hne : policy.maxAttempts ≠ 0 := by
      intro hzero
      rw [hzero] at hn
      cases hn
    have hzero : policy.maxAttempts.toNat = (0 : UInt32).toNat + (n + 1) :=
      hn.trans (Nat.zero_add _).symm
    have hloop : executeLoop policy operation 0 0 {} = _ := executeLoop_eq hzero {}
    rw [execute, hloop, hn, if_neg hne]
    show RetryRun.ofTries (tries _ _ _ _ _ 0 n) = _
    rw [tries_eq]
    exact RetryRun.ofTries_elim _ _ _
  · have hzero : policy.maxAttempts = 0 := UInt32.le_zero_iff.mp (UInt32.not_lt.mp h)
    rw [execute, executeLoop, dif_neg h, hzero]
    rfl

/-- The two policies call the operation equally often and both succeed or both
    fail; a success is that of some call. -/
def AgreesWith (policy : FixedRetryPolicy) (config : RetryConfig)
    (operation : Nat → RetryableResult T) : Prop :=
  (policy.execute operation).calls = (RetryPolicy.execute config operation).calls
    ∧ (policy.execute operation).result.isSuccess
      = (RetryPolicy.execute config operation).result.isSuccess
    ∧ ((policy.execute operation).result.isSuccess = true →
      ∃ i < (policy.execute operation).calls, (operation i).isSuccess = true)

/-- If every error may be retried, only successes end the loop. -/
theorem ends_eq_isSuccess {config : RetryConfig} {operation : Nat → RetryableResult T}
    (hretryable : ∀ i, (operation i).isSuccess = false →
      (operation i).errorCode ∈ config.retryableErrors) (i n : Nat) :
    firstDone (RetryPolicy.ends config) operation i n
      = firstDone RetryableResult.isSuccess operation i n := by
  induction n generalizing i with
  | zero => rfl
  | succ n ih =>
      have hends : RetryPolicy.ends config (operation i) = (operation i).isSuccess := by
        rw [RetryPolicy.ends, RetryPolicy.shouldRetry, RetryConfig.isRetryable]
        cases hsuccess : (operation i).isSuccess with
        | true => rfl
        | false => simp [hretryable i hsuccess]
      rw [firstDone, firstDone, hends, ih]

/-- **When the two policies agree**: on every operation whose errors may be
    retried, unless no attempt is allowed. -/
theorem agreesWith_iff (config : RetryConfig) (delay : Int)
    (operation : Nat → RetryableResult T)
    (hretryable : ∀ i, (operation i).isSuccess = false →
      (operation i).errorCode ∈ config.retryableErrors) :
    AgreesWith ⟨config.maxAttempts, delay⟩ config operation ↔ config.maxAttempts ≠ 0 := by
  rw [AgreesWith, RetryRun.calls, RetryRun.calls, execute_eq, RetryPolicy.execute_eq,
    ends_eq_isSuccess hretryable]
  simp only
  cases hfirst : firstDone RetryableResult.isSuccess operation 0 config.maxAttempts.toNat with
  | some k =>
      obtain ⟨-, hlt, hk, -⟩ := firstDone_eq_some hfirst
      simp only [Option.elim_some, count_plan]
      constructor
      · intro _ hzero
        rw [hzero] at hlt
        exact absurd hlt (Nat.not_lt_zero _)
      · intro _
        exact ⟨trivial, trivial, fun _ => ⟨k, Nat.lt_succ_self k, hk⟩⟩
  | none =>
      simp only [Option.elim_none, count_plan]
      constructor
      · -- without a call one of them succeeds and the other fails
        rintro ⟨-, hsuccess, -⟩ hzero
        rw [if_pos hzero] at hsuccess
        cases hsuccess
      · intro hne
        have hpos : 0 < config.maxAttempts.toNat := by
          by_contra hzero
          have h : config.maxAttempts.toNat = 0 := by omega
          exact hne (UInt32.toNat_inj.mp h)
        have hlast := firstDone_eq_none hfirst (config.maxAttempts.toNat - 1) (Nat.zero_le _)
          (by omega)
        rw [if_neg hne, hlast]
        exact ⟨trivial, rfl, fun h => by cases h⟩

/-- A `fork` that fails the first time only. -/
def secondFork (call : Nat) : RetryableResult Unit :=
  if call = 0 then .ofError .forkFailed "Fork failed".toList else {}

theorem secondFork_retryable (i : Nat) (h : (secondFork i).isSuccess = false) :
    (secondFork i).errorCode ∈ ({ maxAttempts := 2 } : RetryConfig).retryableErrors := by
  by_cases hfirst : i = 0
  · subst hfirst
    decide
  · rw [secondFork, if_neg hfirst] at h
    cases h

/-- Two attempts are enough for it, under both policies. -/
theorem agreesWith_iff_second :
    (secondFork 0).isSuccess = false
    ∧ AgreesWith ⟨2, 100⟩ { maxAttempts := 2 } secondFork
    ∧ ((⟨2, 100⟩ : FixedRetryPolicy).execute secondFork).calls = 2 :=
  ⟨rfl, (agreesWith_iff { maxAttempts := 2 } 100 secondFork secondFork_retryable).mpr (by decide),
    by rw [RetryRun.calls, execute_eq]; rfl⟩

/-- With no attempt allowed the fixed policy reports a success that no call
    has had. -/
theorem execute_zero_succeeds :
    (execute ⟨0, 0⟩ (fun _ => .ofError .forkFailed [] : Nat → RetryableResult Unit)).result.isSuccess
      = true
    ∧ (execute ⟨0, 0⟩ (fun _ => .ofError .forkFailed [] : Nat → RetryableResult Unit)).calls = 0
    ∧ ¬ AgreesWith ⟨0, 0⟩ { maxAttempts := 0 }
      (fun _ => .ofError .forkFailed [] : Nat → RetryableResult Unit) := by
  have hrun : execute ⟨0, 0⟩ (fun _ => .ofError .forkFailed [] : Nat → RetryableResult Unit)
      = { result := {} } := by
    rw [execute_eq]
    rfl
  refine ⟨by rw [hrun], by rw [hrun]; rfl, ?_⟩
  rintro ⟨-, -, hsome⟩
  rw [hrun] at hsome
  obtain ⟨i, hi, -⟩ := hsome rfl
  exact absurd hi (Nat.not_lt_zero i)

end FixedRetryPolicy

end LaunchCpp
