import Mathlib.Logic.Relation
import Mathlib.Logic.Function.Basic

/-! # Labelled transition systems

    Several threads on shared state are a relation `step s a t`, "thread `a`
    takes one step from `s` to `t`"; an interleaving is a path of it.  The
    rules say what holds along a path, and what holds along a path all of
    whose steps meet a condition.

    When a step touches the shared state and its own thread only, a property
    of one thread needs two facts: its own steps preserve it, and no step of
    another thread breaks it (`Steps.thread`). -/

namespace TransitionSystems

variable {σ α : Type*}

/-- An interleaving leads from one state to another. -/
abbrev Steps (step : σ → α → σ → Prop) : σ → σ → Prop :=
  Relation.ReflTransGen (fun s t => ∃ a, step s a t)

/-- The steps that are taken under a condition. -/
def Under (condition : σ → α → Prop) (step : σ → α → σ → Prop) (s : σ) (a : α) (t : σ) :
    Prop :=
  condition s a ∧ step s a t

namespace Steps

variable {step : σ → α → σ → Prop} {condition : σ → α → Prop} {s t u : σ}

theorem single {a : α} (h : step s a t) : Steps step s t :=
  Relation.ReflTransGen.single ⟨a, h⟩

theorem next {a : α} (h : Steps step s t) (hstep : step t a u) : Steps step s u :=
  h.tail ⟨a, hstep⟩

/-- What every step preserves holds at the end of a path. -/
theorem invariant {P : σ → Prop} (hstep : ∀ {s a t}, P s → step s a t → P t) (hs : P s)
    (h : Steps step s t) : P t := by
  induction h with
  | refl => exact hs
  | tail _ hlast ih =>
      obtain ⟨a, hlast⟩ := hlast
      exact hstep ih hlast

/-- A step may use what is known to hold along the path. -/
theorem invariant_with {P Q : σ → Prop} (hQ : ∀ {t}, Steps step s t → Q t)
    (hstep : ∀ {s a t}, Q s → P s → step s a t → P t) (hs : P s) (h : Steps step s t) :
    P t := by
  induction h with
  | refl => exact hs
  | tail hpath hlast ih =>
      obtain ⟨a, hlast⟩ := hlast
      exact hstep (hQ hpath) ih hlast

theorem of_under (h : Steps (Under condition step) s t) : Steps step s t :=
  Relation.ReflTransGen.mono (fun _ _ ⟨a, _, hstep⟩ => ⟨a, hstep⟩) _ _ h

end Steps

/-! ## Paths that end

    A relation each step of which lowers a number has no endless path, and a
    path of it that cannot be continued ends where nothing is left to do. -/

/-- A path of a given number of steps. -/
inductive StepsIn (step : σ → α → σ → Prop) (s : σ) : Nat → σ → Prop
  | refl : StepsIn step s 0 s
  | next {k : Nat} {t u : σ} {a : α} (h : StepsIn step s k t) (hstep : step t a u) :
      StepsIn step s (k + 1) u

namespace StepsIn

variable {step : σ → α → σ → Prop} {s t : σ} {k : Nat}

theorem steps (h : StepsIn step s k t) : Steps step s t := by
  induction h with
  | refl => exact Relation.ReflTransGen.refl
  | next _ hstep ih => exact ih.next hstep

/-- What is left bounds how many steps are taken. -/
theorem bounded {P : σ → Prop} (left : σ → Nat) (hP : ∀ {s a t}, P s → step s a t → P t)
    (hleft : ∀ {s a t}, P s → step s a t → left t < left s) (hs : P s)
    (h : StepsIn step s k t) : k + left t ≤ left s := by
  induction h with
  | refl => exact Nat.le_of_eq (Nat.zero_add _)
  | next hpath hstep ih =>
      have hmid := Steps.invariant (P := P) (fun hs hstep => hP hs hstep) hs hpath.steps
      have := hleft hmid hstep
      omega

end StepsIn

/-! ## Threads on a shared state -/

/-- A shared state, and what each thread keeps to itself. -/
structure Threads (σ ι τ : Type*) where
  shared : σ
  threads : ι → τ

section Interleaving

variable {ι τ : Type*} [DecidableEq ι]

/-- One thread takes a step on the shared state and its own. -/
inductive Interleaved (step : ι → σ → τ → σ → τ → Prop) (s : Threads σ ι τ) :
    ι → Threads σ ι τ → Prop
  | step {c : ι} {shared : σ} {thread : τ} (h : step c s.shared (s.threads c) shared thread) :
      Interleaved step s c ⟨shared, Function.update s.threads c thread⟩

variable {step : ι → σ → τ → σ → τ → Prop} {s t : Threads σ ι τ}

namespace Interleaved

variable {c d : ι}

theorem own_step (h : Interleaved step s c t) :
    step c s.shared (s.threads c) t.shared (t.threads c) := by
  cases h with
  | @step _ a h =>
      have hown : Function.update s.threads c a c = a := Function.update_self _ _ _
      show step c _ _ _ (Function.update s.threads c a c)
      rw [hown]
      exact h

/-- The other threads stay where they are. -/
theorem other (h : Interleaved step s c t) (hd : d ≠ c) : t.threads d = s.threads d := by
  cases h with
  | step h => exact Function.update_of_ne hd _ _

end Interleaved

/-- What every thread preserves of the shared state. -/
theorem Steps.shared {P : σ → Prop}
    (hstep : ∀ {c x a x' a'}, step c x a x' a' → P x → P x')
    (h : Steps (Interleaved step) s t) (hs : P s.shared) : P t.shared := by
  exact h.invariant (P := fun t => P t.shared) (fun hP hlast => hstep hlast.own_step hP) hs

/-- What a thread preserves by its own steps, and the others do not break. -/
theorem Steps.thread {c : ι} {P : σ → τ → Prop}
    (hown : ∀ {x a x' a'}, step c x a x' a' → P x a → P x' a')
    (hother : ∀ {d x b x' b' a}, step d x b x' b' → P x a → P x' a)
    (h : Steps (Interleaved step) s t) (hs : P s.shared (s.threads c)) :
    P t.shared (t.threads c) := by
  refine h.invariant (P := fun t => P t.shared (t.threads c)) (fun {s d t} hP hlast => ?_) hs
  by_cases hd : c = d
  · subst hd
    exact hown hlast.own_step hP
  · rw [hlast.other hd]
    exact hother hlast.own_step hP

/-- A property of a thread's own state needs its own steps only. -/
theorem Steps.own {c : ι} {P : τ → Prop}
    (hown : ∀ {x a x' a'}, step c x a x' a' → P a → P a')
    (h : Steps (Interleaved step) s t) (hs : P (s.threads c)) : P (t.threads c) :=
  h.thread (P := fun _ a => P a) hown (fun _ hP => hP) hs

/-- **One winner.**  A thread takes a token only while it is free, and from
    then on it is never free again: two threads never both have it. -/
theorem Steps.unique (free : σ → Prop) (taken : τ → Prop)
    (htake : ∀ {c x a x' a'}, step c x a x' a' → taken a' → taken a ∨ (free x ∧ ¬ free x'))
    (hfree : ∀ {c x a x' a'}, step c x a x' a' → free x' → free x)
    (h : Steps (Interleaved step) s t) (hs : ∀ c, ¬ taken (s.threads c)) :
    ∀ c d, taken (t.threads c) → taken (t.threads d) → c = d := by
  have hbusy : ∀ {u}, Steps (Interleaved step) s u → ∀ c, taken (u.threads c) → ¬ free u.shared := by
    intro u hu c
    refine hu.thread (P := fun x a => taken a → ¬ free x) ?_ ?_ (fun htaken => absurd htaken (hs c))
    · intro x a x' a' hstep hP htaken hfree'
      rcases htake hstep htaken with hbefore | ⟨-, hnow⟩
      · exact hP hbefore (hfree hstep hfree')
      · exact hnow hfree'
    · intro d x b x' b' a hstep hP htaken hfree'
      exact hP htaken (hfree hstep hfree')
  refine h.invariant_with (Q := fun u => ∀ c, taken (u.threads c) → ¬ free u.shared)
    (P := fun u => ∀ c d, taken (u.threads c) → taken (u.threads d) → c = d)
    hbusy ?_ (fun c _ htaken => absurd htaken (hs c))
  intro u e v hbusy hP hstep
  -- either nobody had it before, or nobody has got it now
  have hcases : (∀ c, taken (v.threads c) → c = e)
      ∨ (∀ c, taken (v.threads c) → taken (u.threads c)) := by
    by_cases hfresh : taken (v.threads e) ∧ ¬ taken (u.threads e)
    · refine Or.inl (fun c hc => ?_)
      by_contra hce
      rw [hstep.other hce] at hc
      rcases htake hstep.own_step hfresh.1 with hbefore | ⟨hfree, -⟩
      · exact hfresh.2 hbefore
      · exact hbusy c hc hfree
    · refine Or.inr (fun c hc => ?_)
      by_cases hce : c = e
      · subst hce
        by_contra hnot
        exact hfresh ⟨hc, hnot⟩
      · rw [hstep.other hce] at hc
        exact hc
  intro c d hc hd
  rcases hcases with hnew | hold
  · rw [hnew c hc, hnew d hd]
  · exact hP c d (hold c hc) (hold d hd)

end Interleaving

end TransitionSystems
