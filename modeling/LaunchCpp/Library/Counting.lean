import Mathlib.Data.List.Count
import Mathlib.Data.List.Nodup
import Mathlib.Data.List.Perm.Subperm
import Mathlib.Algebra.BigOperators.Group.Finset.Piecewise
import Mathlib.Algebra.Order.BigOperators.Group.Finset
import Mathlib.Data.Fintype.Basic

/-! # Counting in lists and over threads

    What loop measures and counters of processed elements need: a count that
    drops when an element stops counting, how many entries of a list a
    duplicate-free list has already met, and a total over finitely many
    threads when one of them moves. -/

namespace Counting

variable {α : Type*}

/-- A count drops when a counted member stops counting and none starts. -/
theorem countP_lt_countP {p q : α → Bool} {l : List α}
    (h : ∀ x ∈ l, p x = true → q x = true) {a : α} (ha : a ∈ l)
    (hq : q a = true) (hp : p a = false) : l.countP p < l.countP q := by
  obtain ⟨l₁, l₂, rfl⟩ := List.append_of_mem ha
  have h₁ : l₁.countP p ≤ l₁.countP q :=
    List.countP_mono_left (fun x hx => h x (List.mem_append_left _ hx))
  have h₂ : l₂.countP p ≤ l₂.countP q :=
    List.countP_mono_left (fun x hx =>
      h x (List.mem_append_right _ (List.mem_cons_of_mem _ hx)))
  simp only [List.countP_append, List.countP_cons, hq, hp]
  simp
  omega

variable {l ds : List α} [DecidablePred (· ∈ ds)]

/-- A duplicate-free list meets a list at most as often as that is long. -/
theorem length_filter_mem_le (hl : l.Nodup) :
    (l.filter (· ∈ ds)).length ≤ ds.length := by
  refine (List.subperm_of_subset (hl.filter _) ?_).length_le
  intro x hx
  simpa using (List.mem_filter.mp hx).2

/-- When it has met as many entries as there are, it has met all. -/
theorem mem_of_length_le_filter (hl : l.Nodup)
    (h : ds.length ≤ (l.filter (· ∈ ds)).length) : ∀ d ∈ ds, d ∈ l := by
  have hsub : (l.filter (· ∈ ds)).Subperm ds := by
    refine List.subperm_of_subset (hl.filter _) ?_
    intro x hx
    simpa using (List.mem_filter.mp hx).2
  intro d hd
  have hperm := hsub.perm_of_length_le h
  exact (List.mem_filter.mp (hperm.mem_iff.mpr hd)).1

/-- A list without repeated entries that is wholly met is met entry by
    entry. -/
theorem length_le_length_filter (hds : ds.Nodup)
    (h : ∀ d ∈ ds, d ∈ l) : ds.length ≤ (l.filter (· ∈ ds)).length := by
  refine (List.subperm_of_subset hds ?_).length_le
  intro d hd
  exact List.mem_filter.mpr ⟨h d hd, by simpa using hd⟩

/-- Lists that count the entries of a third alike meet it alike. -/
theorem countP_mem_congr [BEq α] [LawfulBEq α] {l' : List α}
    (h : ∀ d ∈ ds, l.count d = l'.count d) : l.countP (· ∈ ds) = l'.countP (· ∈ ds) := by
  have hperm : (l.filter (· ∈ ds)).Perm (l'.filter (· ∈ ds)) := by
    rw [List.perm_iff_count]
    intro d
    by_cases hd : d ∈ ds
    · rw [List.count_filter (by simpa using hd), List.count_filter (by simpa using hd), h d hd]
    · rw [List.count_eq_zero_of_not_mem (by simp [hd]), List.count_eq_zero_of_not_mem (by simp [hd])]
  rw [List.countP_eq_length_filter, List.countP_eq_length_filter, hperm.length_eq]

/-- Where only one entry has a property, two that have it are the same. -/
theorem eq_of_countP_eq_one {p : α → Bool} (h : l.countP p = 1) {a b : α} (ha : a ∈ l)
    (hpa : p a = true) (hb : b ∈ l) (hpb : p b = true) : a = b := by
  rw [List.countP_eq_length_filter] at h
  obtain ⟨x, hx⟩ := List.length_eq_one_iff.mp h
  have hax : a ∈ [x] := hx ▸ List.mem_filter.mpr ⟨ha, hpa⟩
  have hbx : b ∈ [x] := hx ▸ List.mem_filter.mpr ⟨hb, hpb⟩
  rw [List.mem_singleton.mp hax, List.mem_singleton.mp hbx]

/-! ## First occurrences -/

section FirstOccurrences

variable {β : Type*} [BEq β] [LawfulBEq β]

/-- What `eraseDups` leaves has no repeated entry. -/
theorem nodup_eraseDups (l : List β) : l.eraseDups.Nodup := by
  induction hlen : l.length using Nat.strong_induction_on generalizing l with
  | _ k ih =>
      cases l with
      | nil => exact List.nodup_nil
      | cons a l =>
          rw [List.eraseDups_cons, List.nodup_cons, List.mem_eraseDups]
          refine ⟨by simp, ih _ ?_ _ rfl⟩
          have := List.length_filter_le (fun b => !b == a) l
          rw [← hlen, List.length_cons]
          omega

/-- A list without repeated entries is left as it is. -/
theorem eraseDups_eq_self {l : List β} (h : l.Nodup) : l.eraseDups = l := by
  induction l with
  | nil => rfl
  | cons a l ih =>
      obtain ⟨ha, hl⟩ := List.nodup_cons.mp h
      have hkeep : l.filter (fun b => !b == a) = l := by
        refine List.filter_eq_self.mpr (fun b hb => ?_)
        have hba : b ≠ a := fun heq => ha (heq ▸ hb)
        simpa using hba
      rw [List.eraseDups_cons, hkeep, ih hl]

end FirstOccurrences

/-! ## Totals -/

/-- One thread moves: the total changes by what that thread counts for. -/
theorem sum_update {ι σ : Type*} [Fintype ι] [DecidableEq ι] (count : σ → Nat) (g : ι → σ)
    (i : ι) (x : σ) :
    (∑ j, count (Function.update g i x j)) + count (g i) = (∑ j, count (g j)) + count x := by
  have hmoved : (∑ j, count (Function.update g i x j))
      = count x + ∑ j ∈ Finset.univ \ {i}, count (g j) := by
    rw [← Finset.sum_update_of_mem (Finset.mem_univ i) (fun j => count (g j)) (count x)]
    refine Finset.sum_congr rfl (fun j _ => ?_)
    by_cases hj : j = i
    · subst hj
      rw [Function.update_self, Function.update_self]
    · rw [Function.update_of_ne hj, Function.update_of_ne hj]
  have hbefore : (∑ j, count (g j))
      = count (g i) + ∑ j ∈ Finset.univ \ {i}, count (g j) := by
    rw [← Finset.sum_update_of_mem (Finset.mem_univ i) (fun j => count (g j)) (count (g i))]
    rw [Function.update_eq_self]
  omega

/-- The same over those of a finite set, one of which moves. -/
theorem sum_update_of_mem {ι σ : Type*} [DecidableEq ι] (count : σ → Nat) (g : ι → σ)
    {F : Finset ι} {i : ι} (hi : i ∈ F) (x : σ) :
    (∑ j ∈ F, count (Function.update g i x j)) + count (g i) = (∑ j ∈ F, count (g j)) + count x := by
  have hmoved : (∑ j ∈ F, count (Function.update g i x j))
      = count x + ∑ j ∈ F.erase i, count (g j) := by
    rw [← Finset.add_sum_erase F _ hi, Function.update_self]
    refine congrArg _ (Finset.sum_congr rfl (fun j hj => ?_))
    rw [Function.update_of_ne (Finset.ne_of_mem_erase hj)]
  have hbefore := Finset.add_sum_erase F (fun j => count (g j)) hi
  omega

/-- A sum notices when one of its terms changes. -/
theorem sum_update_ne {ι M : Type*} [Fintype ι] [DecidableEq ι] [AddCommGroup M] (f : ι → M)
    {i : ι} {x : M} (hx : x ≠ f i) : ∑ j, Function.update f i x j ≠ ∑ j, f j := by
  intro h
  have hupdated := Finset.sum_update_of_mem (Finset.mem_univ i) f x
  have hbefore := Finset.sum_update_of_mem (Finset.mem_univ i) f (f i)
  rw [Function.update_eq_self] at hbefore
  rw [hupdated, hbefore] at h
  exact hx (add_right_cancel h)

/-! ## At least so many -/

/-- At least `n` elements have a property. -/
def AtLeast (n : Nat) (P : α → Prop) : Prop :=
  ∃ F : Finset α, n ≤ F.card ∧ ∀ a ∈ F, P a

namespace AtLeast

variable {n : Nat} {P Q : α → Prop}

theorem zero : AtLeast 0 P := ⟨∅, le_rfl, fun a ha => absurd ha (Finset.notMem_empty a)⟩

theorem mono (h : AtLeast n P) (hPQ : ∀ a, P a → Q a) : AtLeast n Q := by
  obtain ⟨F, hcard, hF⟩ := h
  exact ⟨F, hcard, fun a ha => hPQ a (hF a ha)⟩

variable [DecidableEq α]

/-- One element may lose the property: one less has it. -/
theorem lose {a : α} (h : AtLeast (n + 1) P) (hPQ : ∀ b, b ≠ a → P b → Q b) : AtLeast n Q := by
  obtain ⟨F, hcard, hF⟩ := h
  refine ⟨F.erase a, ?_, fun b hb => ?_⟩
  · have := Finset.pred_card_le_card_erase (s := F) (a := a)
    omega
  · obtain ⟨hba, hb⟩ := Finset.mem_erase.mp hb
    exact hPQ b hba (hF b hb)

/-- One element gets the property: one more has it. -/
theorem gain {a : α} (h : AtLeast n P) (ha : ¬ P a) (hPQ : ∀ b, P b → Q b) (hQ : Q a) :
    AtLeast (n + 1) Q := by
  obtain ⟨F, hcard, hF⟩ := h
  have hmem : a ∉ F := fun hmem => ha (hF a hmem)
  refine ⟨insert a F, ?_, fun b hb => ?_⟩
  · rw [Finset.card_insert_of_notMem hmem]
    exact Nat.succ_le_succ hcard
  · rcases Finset.mem_insert.mp hb with rfl | hb
    · exact hQ
    · exact hPQ b (hF b hb)

end AtLeast

end Counting
