import Mathlib.Order.Bounds.Defs
import Mathlib.Data.Set.Basic
import Mathlib.Data.List.Count

/-! # An operation that is tried a bounded number of times

    An operation is called again until one of its results is `done`, at most
    `limit` times, with a pause between two calls.  `firstDone` is the call
    that ends this, `plan` the sequence of calls and pauses; a loop of a
    program that retries is shown to go through such a plan. -/

namespace BoundedTries

/-- A call of the operation, or a pause. -/
inductive Event (D : Type*) where
  | call
  | pause (delay : D)
  deriving DecidableEq

variable {R D : Type*}

section FirstDone

variable (done : R → Bool) (operation : Nat → R)

/-- The first of `n` calls, from number `i` on, whose result is `done`. -/
def firstDone : Nat → Nat → Option Nat
  | _, 0 => none
  | i, n + 1 => if done (operation i) then some i else firstDone (i + 1) n

variable {done operation}

theorem firstDone_eq_some {i n k : Nat} (h : firstDone done operation i n = some k) :
    i ≤ k ∧ k < i + n ∧ done (operation k) = true
      ∧ ∀ j, i ≤ j → j < k → done (operation j) = false := by
  induction n generalizing i with
  | zero => cases h
  | succ n ih =>
      rw [firstDone] at h
      split at h
      next hdone =>
        cases h
        exact ⟨Nat.le_refl _, by omega, hdone, fun j hij hjk => by omega⟩
      next hdone =>
        obtain ⟨hle, hlt, hk, hbefore⟩ := ih h
        refine ⟨by omega, by omega, hk, ?_⟩
        intro j hij hjk
        rcases Nat.eq_or_lt_of_le hij with rfl | hij
        · exact Bool.eq_false_iff.mpr hdone
        · exact hbefore j hij hjk

theorem firstDone_eq_none {i n : Nat} (h : firstDone done operation i n = none) :
    ∀ j, i ≤ j → j < i + n → done (operation j) = false := by
  induction n generalizing i with
  | zero => exact fun j hij hj => by omega
  | succ n ih =>
      rw [firstDone] at h
      split at h
      next hdone => cases h
      next hdone =>
        intro j hij hj
        rcases Nat.eq_or_lt_of_le hij with rfl | hij
        · exact Bool.eq_false_iff.mpr hdone
        · exact ih h j hij (by omega)

/-- The call that ends the tries is the least one that is done. -/
theorem firstDone_of_isLeast {n k : Nat} (hk : IsLeast {i | done (operation i) = true} k)
    (hlt : k < n) : firstDone done operation 0 n = some k := by
  cases hfirst : firstDone done operation 0 n with
  | none =>
      have hnot := firstDone_eq_none hfirst k (Nat.zero_le _) (by omega)
      have hdone : done (operation k) = true := hk.1
      rw [hnot] at hdone
      cases hdone
  | some l =>
      obtain ⟨-, -, hl, hbefore⟩ := firstDone_eq_some hfirst
      have hle : k ≤ l := hk.2 hl
      rcases Nat.eq_or_lt_of_le hle with rfl | hlt'
      · rfl
      · have hnot := hbefore k (Nat.zero_le _) hlt'
        have hdone : done (operation k) = true := hk.1
        rw [hnot] at hdone
        cases hdone

theorem firstDone_of_forall {n : Nat} (h : ∀ i < n, done (operation i) = false) :
    firstDone done operation 0 n = none := by
  cases hfirst : firstDone done operation 0 n with
  | none => rfl
  | some k =>
      obtain ⟨-, hlt, hk, -⟩ := firstDone_eq_some hfirst
      rw [h k (by omega)] at hk
      cases hk

end FirstDone

/-! ## Calls and pauses -/

section Plan

variable (pause : Nat → D)

/-- Call number `i + 1`, and `n` more, with the pauses between them. -/
def planFrom (i : Nat) : Nat → List (Event D)
  | 0 => [.call]
  | n + 1 => .call :: .pause (pause (i + 1)) :: planFrom (i + 1) n

/-- So many calls: number `i` and number `i + 1` are `pause i` apart. -/
def plan : Nat → List (Event D)
  | 0 => []
  | n + 1 => planFrom pause 0 n

variable {pause}

theorem count_planFrom [DecidableEq D] (i n : Nat) :
    (planFrom pause i n).count .call = n + 1 := by
  induction n generalizing i with
  | zero => rfl
  | succ n ih =>
      rw [planFrom, List.count_cons_self]
      rw [List.count_cons_of_ne (by nofun), ih]

theorem count_plan [DecidableEq D] (n : Nat) : (plan pause n).count .call = n := by
  cases n with
  | zero => rfl
  | succ n => exact count_planFrom 0 n

end Plan

/-! ## The tries as a recursion -/

section Tries

variable {A : Type*} (done : R → Bool) (operation : Nat → R) (pause : Nat → D) (value : Nat → A)
  (final : A)

/-- Call number `i + 1`, and at most `n` more: the value of the call that is
    done, or a final one, and what happened. -/
def tries : Nat → Nat → A × List (Event D)
  | i, 0 => (if done (operation i) then value i else final, [.call])
  | i, n + 1 =>
      if done (operation i) then (value i, [.call])
      else
        let rest := tries (i + 1) n
        (rest.1, .call :: .pause (pause (i + 1)) :: rest.2)

variable {done operation}

theorem tries_of_done {i : Nat} (h : done (operation i) = true) (n : Nat) :
    tries done operation pause value final i n = (value i, [.call]) := by
  cases n with
  | zero => rw [tries, if_pos h]
  | succ n => rw [tries, if_pos h]

/-- The tries go through the plan, up to the first call that is done. -/
theorem tries_eq (i n : Nat) :
    tries done operation pause value final i n
      = (firstDone done operation i (n + 1)).elim (final, planFrom pause i n)
          (fun k => (value k, planFrom pause i (k - i))) := by
  induction n generalizing i with
  | zero =>
      rw [firstDone, firstDone]
      cases hdone : done (operation i) with
      | true =>
          rw [tries_of_done pause value final hdone]
          simp only [if_true, Option.elim_some, Nat.sub_self, planFrom]
      | false =>
          rw [tries, hdone]
          rfl
  | succ n ih =>
      rw [firstDone]
      cases hdone : done (operation i) with
      | true =>
          rw [tries_of_done pause value final hdone]
          simp only [if_true, Option.elim_some, Nat.sub_self, planFrom]
      | false =>
          rw [tries, hdone]
          simp only [Bool.false_eq_true, if_false, ih]
          cases hfirst : firstDone done operation (i + 1) (n + 1) with
          | none => rfl
          | some k =>
              -- one call more than from the next one on
              have hle := (firstDone_eq_some hfirst).1
              have hmore : k - i = k - (i + 1) + 1 := by omega
              simp only [Option.elim_some, hmore]
              rfl

end Tries

end BoundedTries
