import Mathlib.Logic.Relation
import Mathlib.Data.List.Nodup
import Mathlib.Data.List.Infix
import Mathlib.Data.List.Chain

/-! # Dependency orders over an arbitrary relation

    `dep a b` reads "`a` depends on `b`".  A list is a DEPENDENCY ORDER when
    every element stands behind everything it depends on.  The file has the
    facts a scheduler is verified with:

    * such lists are built at the back (`Ordered.concat`);
    * a list that is one rules out every cycle through its elements
      (`Ordered.acc`, `not_transGen_self_of_acc`);
    * positions in it follow the relation (`Ordered.idxOf_lt`);
    * below an accessible element there is one to begin with
      (`exists_source`). -/

namespace DependencyOrder

open Relation

variable {α : Type*} {dep : α → α → Prop}

/-- Every element of the list is preceded by all it depends on. -/
def Ordered (dep : α → α → Prop) (order : List α) : Prop :=
  ∀ l₁ a l₂, order = l₁ ++ a :: l₂ → ∀ b, dep a b → b ∈ l₁

/-- The relation has a cycle, self-dependency included. -/
def Cyclic (dep : α → α → Prop) : Prop := ∃ a, TransGen dep a a

theorem Ordered.nil : Ordered dep [] := by
  intro l₁ a l₂ h
  simp at h

/-- An order grows at the back by an element whose dependencies it has. -/
theorem Ordered.concat {l : List α} {v : α} (h : Ordered dep l)
    (hv : ∀ b, dep v b → b ∈ l) : Ordered dep (l ++ [v]) := by
  intro l₁ a l₂ heq b hab
  rcases List.eq_nil_or_concat l₂ with rfl | ⟨l₂', z, rfl⟩
  · obtain ⟨h1, h2⟩ := List.append_inj' heq rfl
    have hva : v = a := by simpa using h2
    subst hva
    exact h1 ▸ hv b hab
  · have heq' : l ++ [v] = (l₁ ++ a :: l₂') ++ [z] := by simpa using heq
    obtain ⟨h1, -⟩ := List.append_inj' heq' rfl
    exact h l₁ a l₂' h1 b hab

theorem Ordered.of_append {l r : List α} (h : Ordered dep (l ++ r)) :
    Ordered dep l := by
  intro l₁ a l₂ heq b hab
  exact h l₁ a (l₂ ++ r) (by rw [heq]; simp) b hab

theorem Ordered.of_prefix {l l' : List α} (h : Ordered dep l') (h' : l <+: l') :
    Ordered dep l := by
  obtain ⟨r, rfl⟩ := h'
  exact h.of_append

/-- A dependency stands at a smaller index. -/
theorem Ordered.idxOf_lt [BEq α] [LawfulBEq α] {l : List α} (h : Ordered dep l)
    {a b : α} (ha : a ∈ l) (hab : dep a b) : l.idxOf b < l.idxOf a := by
  obtain ⟨l₁, l₂, rfl, hnot⟩ := List.eq_append_cons_of_mem ha
  have hb : b ∈ l₁ := h l₁ a l₂ rfl b hab
  rw [List.idxOf_append_of_mem hb, List.idxOf_append_of_notMem hnot]
  have := List.idxOf_lt_length_of_mem hb
  omega

/-- Every element of a dependency order is accessible along the relation. -/
theorem Ordered.acc {l : List α} (h : Ordered dep l) :
    ∀ a ∈ l, Acc (fun b a => dep a b) a := by
  induction l using List.reverseRecOn with
  | nil => intro a ha; cases ha
  | append_singleton l v ih =>
      have hl := ih h.of_append
      intro a ha
      rcases List.mem_append.mp ha with hal | hav
      · exact hl a hal
      · rw [List.mem_singleton.mp hav]
        refine Acc.intro v (fun b hb => hl b ?_)
        exact h l v [] rfl b hb

/-- An accessible element lies on no cycle. -/
theorem not_transGen_self_of_acc {a : α}
    (h : Acc (fun b a => dep a b) a) : ¬ TransGen dep a a := by
  induction h with
  | intro a _ ih =>
      intro hcyc
      rcases TransGen.head'_iff.mp hcyc with ⟨b, hab, hba⟩
      exact ih b hab (TransGen.tail' hba hab)

/-- If every element that depends on anything is accessible, there is no
    cycle at all. -/
theorem not_cyclic_of_acc
    (h : ∀ a b, dep a b → Acc (fun b a => dep a b) a) : ¬ Cyclic dep := by
  rintro ⟨a, ha⟩
  obtain ⟨b, hab, -⟩ := TransGen.head'_iff.mp ha
  exact not_transGen_self_of_acc (h a b hab) ha

/-- Descent from an accessible element to one that depends on none of its
    kind. -/
theorem exists_source {p : α → Prop} {a : α} (h : Acc (fun b a => dep a b) a) (ha : p a) :
    ∃ c, p c ∧ ∀ b, dep c b → ¬ p b := by
  induction h with
  | intro a _ ih =>
      by_cases hdep : ∃ b, dep a b ∧ p b
      · obtain ⟨b, hab, hb⟩ := hdep
        exact ih b hab hb
      · exact ⟨a, ha, fun b hab hb => hdep ⟨b, hab, hb⟩⟩

/-- A chain from `b` to `a`, closed by `a` depending on `b`, is a cycle. -/
theorem transGen_of_isChain {l : List α} {a b : α}
    (hchain : List.IsChain dep (b :: l))
    (hlast : (b :: l).getLast (List.cons_ne_nil b l) = a) (hab : dep a b) :
    TransGen dep b b :=
  TransGen.tail' (List.relationReflTransGen_of_exists_isChain_cons l hchain hlast) hab

end DependencyOrder
