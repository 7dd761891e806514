import LaunchCpp.Library.DependencyOrder
import LaunchCpp.Library.TransitionSystem
import Mathlib.Data.Finset.SDiff
import Mathlib.Data.Finset.Card
import Mathlib.Order.OrderIsoNat

/-! # Starting what is ready, in any order

    Some elements wait, the others have been started; a step starts any
    nonempty set of waiting elements all of whose dependencies are started.
    Nothing is said about which set, so a statement about every run is one
    about every scheduler.

    * `Startup.run_ends`: every step starts something, so a run ends;
    * `Startup.stuck_iff`: where no step is possible any more, everything has
      been started exactly if the elements are accessible and depend on each
      other only.  So the end does not depend on the choices made. -/

namespace StartupRuns

open DependencyOrder TransitionSystems

variable {α : Type*} [DecidableEq α] {dep : α → α → Prop}

/-- What waits and what has been started. -/
structure Startup (α : Type*) where
  remaining : Finset α
  started : Finset α

namespace Startup

/-- Everything waits. -/
def init (all : Finset α) : Startup α := ⟨all, ∅⟩

/-- Start a set of elements. -/
def move (s : Startup α) (wave : Finset α) : Startup α :=
  ⟨s.remaining \ wave, s.started ∪ wave⟩

/-- A waiting element whose dependencies have been started. -/
def Ready (dep : α → α → Prop) (s : Startup α) (v : α) : Prop :=
  v ∈ s.remaining ∧ ∀ b, dep v b → b ∈ s.started

/-- A step starts a nonempty set of ready elements. -/
def Moves (dep : α → α → Prop) (s : Startup α) (wave : Finset α) (t : Startup α) : Prop :=
  wave.Nonempty ∧ (∀ v ∈ wave, Ready dep s v) ∧ t = s.move wave

/-- What every run keeps. -/
structure Inv (dep : α → α → Prop) (all : Finset α) (s : Startup α) : Prop where
  cover : s.remaining ∪ s.started = all
  closed : ∀ v ∈ s.started, ∀ b, dep v b → b ∈ s.started
  acc : ∀ v ∈ s.started, Acc (fun b a => dep a b) v

variable {all : Finset α} {s t : Startup α} {wave : Finset α}

theorem Inv.init : Inv dep all (init all) where
  cover := Finset.union_empty all
  closed := fun v hv => absurd hv (Finset.notMem_empty v)
  acc := fun v hv => absurd hv (Finset.notMem_empty v)

theorem Inv.step (h : Inv dep all s) (hstep : Moves dep s wave t) : Inv dep all t := by
  obtain ⟨-, hready, rfl⟩ := hstep
  have hsub : wave ⊆ s.remaining := fun v hv => (hready v hv).1
  refine ⟨?_, ?_, ?_⟩
  · show s.remaining \ wave ∪ (s.started ∪ wave) = all
    rw [Finset.union_comm s.started wave, ← Finset.union_assoc,
      Finset.sdiff_union_of_subset hsub, h.cover]
  · intro v hv b hb
    rcases Finset.mem_union.mp hv with hv | hv
    · exact Finset.mem_union_left _ (h.closed v hv b hb)
    · exact Finset.mem_union_left _ ((hready v hv).2 b hb)
  · intro v hv
    rcases Finset.mem_union.mp hv with hv | hv
    · exact h.acc v hv
    · exact Acc.intro v (fun b hb => h.acc b ((hready v hv).2 b hb))

theorem inv_of_steps (hrun : Steps (Moves dep) (Startup.init all) s) : Inv dep all s :=
  hrun.invariant (fun h hstep => h.step hstep) Inv.init

theorem card_lt_of_moves (hstep : Moves dep s wave t) :
    t.remaining.card < s.remaining.card := by
  obtain ⟨⟨v, hv⟩, hready, rfl⟩ := hstep
  refine Finset.card_lt_card (Finset.ssubset_iff_subset_ne.mpr
    ⟨Finset.sdiff_subset, ?_⟩)
  intro heq
  have hsame : s.remaining \ wave = s.remaining := heq
  have hmem : v ∈ s.remaining \ wave := by
    rw [hsame]
    exact (hready v hv).1
  exact (Finset.mem_sdiff.mp hmem).2 hv

/-- **No run goes on for ever.** -/
theorem run_ends (run : ℕ → Startup α) : ¬ ∀ n, ∃ wave, Moves dep (run n) wave (run (n + 1)) := by
  intro hrun
  have hdescend : ∀ n, (run (n + 1)).remaining.card < (run n).remaining.card := by
    intro n
    obtain ⟨wave, hstep⟩ := hrun n
    exact card_lt_of_moves hstep
  exact not_strictAnti_of_wellFoundedLT (fun n => (run n).remaining.card)
    (strictAnti_nat_of_succ_lt hdescend)

/-- **Progress**: among accessible elements that depend on each other only,
    one is ready as long as any waits. -/
theorem Inv.exists_ready (h : Inv dep all s) (hacc : ∀ v ∈ all, Acc (fun b a => dep a b) v)
    (hclosed : ∀ v ∈ all, ∀ b, dep v b → b ∈ all) {v : α} (hv : v ∈ s.remaining) :
    ∃ c, Ready dep s c := by
  have hmem : ∀ {a}, a ∈ s.remaining → a ∈ all := fun ha => h.cover ▸ Finset.mem_union_left _ ha
  obtain ⟨c, hc, hsource⟩ := exists_source (p := (· ∈ s.remaining)) (hacc v (hmem hv)) hv
  refine ⟨c, hc, ?_⟩
  intro b hb
  have hball : b ∈ s.remaining ∪ s.started := h.cover ▸ hclosed c (hmem hc) b hb
  exact (Finset.mem_union.mp hball).resolve_left (hsource b hb)

/-- **Where a run ends**: with everything started, exactly if it was possible
    at all. -/
theorem Inv.stuck_iff (h : Inv dep all s) (hstuck : ∀ v, ¬ Ready dep s v) :
    s.remaining = ∅ ↔ (∀ v ∈ all, Acc (fun b a => dep a b) v)
      ∧ ∀ v ∈ all, ∀ b, dep v b → b ∈ all := by
  constructor
  · intro hempty
    have hall : s.started = all := by
      rw [← h.cover, hempty, Finset.empty_union]
    exact ⟨fun v hv => h.acc v (hall ▸ hv), fun v hv b hb => hall ▸ h.closed v (hall ▸ hv) b hb⟩
  · rintro ⟨hacc, hclosed⟩
    refine Finset.eq_empty_of_forall_notMem ?_
    intro v hv
    obtain ⟨c, hc⟩ := h.exists_ready hacc hclosed hv
    exact hstuck c hc

end Startup

end StartupRuns
