import Mathlib.Order.Lattice
import Mathlib.Logic.Function.Basic

/-! # An atomic location under release and acquire

    A load need not read the latest store: it reads any that its thread does
    not know to be overwritten.  What a thread knows is its VIEW, the place it
    has come to in the modification order of the location, and what has
    happened before, an element of a join semilattice.  A release store carries
    what its thread knows; an acquire load takes that over, a relaxed one does
    not.  Where a mutex is unlocked the view stays with it, and who locks it
    next joins it to its own.

    The rules are coherence (a view never goes back, `Load.le`) and message
    passing (who acquires a store knows what its thread knew,
    `Load.acquired`). -/

namespace ReleaseAcquire

variable {β κ : Type*}

/-- What a thread knows. -/
structure View (κ : Type*) where
  stamp : Nat
  known : κ

/-- A store, with what its thread knew. -/
structure Message (β κ : Type*) where
  value : β
  known : κ

/-- The stores of a location, each at its place in the modification order. -/
abbrev Location (β κ : Type*) := Nat → Option (Message β κ)

/-- `std::memory_order`, of a load. -/
inductive MemoryOrder where
  | relaxed
  | acquire
  deriving DecidableEq

variable [SemilatticeSup κ]

/-- Both views together. -/
def View.join (v u : View κ) : View κ := ⟨max v.stamp u.stamp, v.known ⊔ u.known⟩

/-- The view after a store has been read. -/
def View.read (v : View κ) (order : MemoryOrder) (t : Nat) (m : Message β κ) : View κ :=
  match order with
  | .relaxed => ⟨t, v.known⟩
  | .acquire => ⟨t, v.known ⊔ m.known⟩

/-- A load reads a store that is not behind the view. -/
inductive Load (location : Location β κ) (order : MemoryOrder) (v : View κ) :
    β → View κ → Prop where
  | read {t : Nat} {m : Message β κ} (hstamp : v.stamp ≤ t) (hstore : location t = some m) :
      Load location order v m.value (v.read order t m)

omit [SemilatticeSup κ] in
/-- A release store takes a free place beyond the view. -/
inductive StoreRelease (location : Location β κ) (v : View κ) (value : β) :
    Location β κ → View κ → Prop where
  | write {t : Nat} (hstamp : v.stamp < t) (hfree : location t = none) :
      StoreRelease location v value (Function.update location t (some ⟨value, v.known⟩))
        ⟨t, v.known⟩

section Rules

variable {location location' : Location β κ} {order : MemoryOrder} {v v' : View κ} {value : β}

/-- Coherence. -/
theorem Load.le (h : Load location order v value v') :
    v.stamp ≤ v'.stamp ∧ v.known ≤ v'.known := by
  cases h with
  | read hstamp hstore =>
      cases order with
      | relaxed => exact ⟨hstamp, le_rfl⟩
      | acquire => exact ⟨hstamp, le_sup_left⟩

/-- What is read stands at the place the view has come to. -/
theorem Load.stored (h : Load location order v value v') :
    ∃ m, location v'.stamp = some m ∧ m.value = value := by
  cases h with
  | read hstamp hstore => cases order <;> exact ⟨_, hstore, rfl⟩

/-- A relaxed load learns nothing but its place. -/
theorem Load.relaxed_known (h : Load location .relaxed v value v') : v'.known = v.known := by
  cases h with
  | read hstamp hstore => rfl

/-- An acquire load learns what the store knew, and no more. -/
theorem Load.acquire_known (h : Load location .acquire v value v') :
    ∃ m, location v'.stamp = some m ∧ m.value = value ∧ v'.known = v.known ⊔ m.known := by
  cases h with
  | read hstamp hstore => exact ⟨_, hstore, rfl, rfl⟩

/-- Message passing: where all stores of a kind of value know something, so
    does who acquires one. -/
theorem Load.acquired {P : β → Prop} {k : κ}
    (hpublished : ∀ t m, location t = some m → P m.value → k ≤ m.known)
    (h : Load location .acquire v value v') (hvalue : P value) : k ≤ v'.known := by
  obtain ⟨m, hstore, rfl, hknown⟩ := h.acquire_known
  rw [hknown]
  exact (hpublished _ _ hstore hvalue).trans le_sup_right

/-- There is always something to read for who knows a store. -/
theorem exists_load {m : Message β κ} (h : location v.stamp = some m) (order : MemoryOrder) :
    ∃ value v', Load location order v value v' := ⟨_, _, .read le_rfl h⟩

omit [SemilatticeSup κ] in
/-- A store stays. -/
theorem StoreRelease.keeps {t : Nat} {m : Message β κ} (h : StoreRelease location v value location' v')
    (hstore : location t = some m) : location' t = some m := by
  cases h with
  | @write t' hstamp hfree =>
      have hne : t ≠ t' := by
        rintro rfl
        rw [hfree] at hstore
        cases hstore
      rw [Function.update_of_ne hne]
      exact hstore

omit [SemilatticeSup κ] in
/-- And only the one is new. -/
theorem StoreRelease.cases {t : Nat} {m : Message β κ} (h : StoreRelease location v value location' v')
    (hstore : location' t = some m) :
    location t = some m ∨ (v.stamp < t ∧ t = v'.stamp ∧ m = ⟨value, v.known⟩) := by
  cases h with
  | @write t' hstamp hfree =>
      by_cases ht : t = t'
      · subst ht
        rw [Function.update_self] at hstore
        exact Or.inr ⟨hstamp, rfl, (Option.some.inj hstore).symm⟩
      · rw [Function.update_of_ne ht] at hstore
        exact Or.inl hstore

omit [SemilatticeSup κ] in
theorem StoreRelease.stored (h : StoreRelease location v value location' v') :
    location' v'.stamp = some ⟨value, v.known⟩ ∧ v'.known = v.known ∧ v.stamp < v'.stamp := by
  cases h with
  | write hstamp hfree => exact ⟨Function.update_self _ _ _, rfl, hstamp⟩

end Rules

end ReleaseAcquire
