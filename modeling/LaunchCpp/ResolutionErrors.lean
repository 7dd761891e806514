import LaunchCpp.DependencyManager
import LaunchCpp.RepeatedEntries

/-! # The code `execute_all` reports a failed resolution with

    `resolve` fails for three reasons: a name nobody registered, a cycle, and
    a count that does not come out because a list repeats an entry.  Its
    caller sees one flag and knows one code for it.  This file says which
    reason is behind `K_CYCLIC_DEPENDENCY`, and when that code is deserved. -/

namespace LaunchCpp

open OrderedMaps UnorderedMaps DependencyOrder DependencyResolver

/-- Over distinct names `resolve` fails for one of three reasons. -/
theorem DependencyResolver.resolve_success_iff_of_nodup {nodes : List NodeConfig}
    (hnames : (nodes.map NodeConfig.name).Nodup) :
    (resolve nodes).success = true
      ↔ (∀ a b, DependsOn nodes a b → b ∈ nodes.map NodeConfig.name)
        ∧ ¬ Cyclic (DependsOn nodes) ∧ ∀ n ∈ nodes, n.dependencies.Nodup := by
  constructor
  · intro h
    obtain ⟨hmiss, hcyc, -, -⟩ := resolve_success_cases h
    refine ⟨getMissingDependencies_eq_nil_iff.mp hmiss,
      (getCircularPath_eq_nil_iff hnames).mp hcyc, ?_⟩
    exact nodup_of_entriesFit hnames ((resolve_success_iff nodes).mp h).2.2
  · rintro ⟨hexist, hcyc, hdeps⟩
    exact resolve_complete hnames hdeps hexist hcyc

namespace DependencyManager

variable {P W : Type*}

/-- Every name that is depended on has a registered process. -/
def DependenciesRegistered (m : DependencyManager P) : Prop :=
  ∀ a b, m.Needs a b → b ∈ m.processes.keys

/-- No dependency list names a process twice. -/
def ListsNodup (m : DependencyManager P) : Prop :=
  ∀ name deps, m.dependencies.find name = some deps → deps.Nodup

/-- No registered process fails with `K_CYCLIC_DEPENDENCY` of its own. -/
def NoCyclicFailure (m : DependencyManager P) (exec : P → W → Error × W) : Prop :=
  ∀ name action, m.processes.find name = some action →
    ∀ w, (exec action w).1.code ≠ .cyclicDependency

/-! ## The resolver's reasons, on the manager's maps -/

section Resolution

variable {m : DependencyManager P} (it : m.dependencies.Iteration)

theorem mem_names_nodes {k : Str} :
    k ∈ (nodes it).map NodeConfig.name ↔ k ∈ m.dependencies.keys := by
  rw [map_name_nodes]
  exact (it.property.map Prod.fst).mem_iff

theorem nodup_nodes_iff :
    (∀ n ∈ nodes it, n.dependencies.Nodup) ↔ m.ListsNodup := by
  constructor
  · intro h name deps hfind
    have he := it.property.mem_iff.mpr (UnorderedMap.find_eq_some_iff.mp hfind)
    exact h ⟨name, deps⟩ (List.mem_map.mpr ⟨(name, deps), he, rfl⟩)
  · intro h n hn
    obtain ⟨e, he, rfl⟩ := List.mem_map.mp hn
    exact h e.1 e.2 (UnorderedMap.find_eq_some_iff.mpr (it.property.mem_iff.mp he))

theorem resolveDependencies_success_iff (hkeys : m.SameKeys) :
    (m.resolveDependencies it).success = true
      ↔ m.DependenciesRegistered ∧ ¬ Cyclic m.Needs ∧ m.ListsNodup := by
  have hdep : DependsOn (nodes it) = m.Needs := by
    ext a b
    exact dependsOn_nodes_iff it
  rw [resolveDependencies, resolve_success_iff_of_nodup (nodup_names it), hdep,
    nodup_nodes_iff it]
  refine and_congr_left (fun _ => forall_congr' (fun a => forall_congr' (fun b => ?_)))
  rw [mem_names_nodes it, hkeys b]

end Resolution

/-- `K_CYCLIC_DEPENDENCY` stands for a failed resolution, whatever failed. -/
theorem executeAll_code_iff {exec : P → W → Error × W} {m : DependencyManager P}
    (hkeys : m.SameKeys) (hexec : m.NoCyclicFailure exec) (it : m.dependencies.Iteration)
    (w : W) :
    (m.executeAll exec it w).exit.error.code = .cyclicDependency
      ↔ (m.resolveDependencies it).success = false := by
  rcases (executeAll_cases it hkeys w :
      (_ ∧ ∃ message, m.executeAll exec it w = ⟨.resolveFailed message, [], w⟩) ∨ _) with
    ⟨hfail, message, hrun⟩ | ⟨hsucc, -, -, hstops⟩
  · rw [hrun]
    exact iff_of_true rfl hfail
  · refine iff_of_false ?_ (by simp [hsucc])
    rcases hstops with ⟨hexit, -⟩ | ⟨before, name, e, hexit, -, hlog, -⟩
    · rw [hexit]
      show ErrorCode.success ≠ .cyclicDependency
      decide
    · rw [hexit]
      show e.code ≠ .cyclicDependency
      obtain ⟨action, w', hfind, he⟩ :=
        (executeAll_executes exec m it w).returned (name, e) (by rw [hlog]; simp)
      rw [show e = (exec action w').1 from he]
      exact hexec name action hfind w'

/-! ## When the code is deserved -/

/-- **`K_CYCLIC_DEPENDENCY`** means a cycle among registered processes
    exactly where no dependency is missing and, without a cycle, no list
    repeats an entry: every other failure of `resolve` has the same code. -/
theorem executeAll_cyclic_iff (exec : P → W → Error × W) {m : DependencyManager P}
    (h : Reachable m) (hexec : m.NoCyclicFailure exec) (it : m.dependencies.Iteration)
    (w : W) :
    (((m.executeAll exec it w).exit.error.code = .cyclicDependency
          ↔ m.DependenciesRegistered ∧ Cyclic m.Needs)
        ∧ ((m.resolveDependencies it).success = false →
            ¬ (m.DependenciesRegistered ∧ Cyclic m.Needs) →
            (m.executeAll exec it w).exit.error.code ≠ .cyclicDependency))
      ↔ m.DependenciesRegistered ∧ (Cyclic m.Needs ∨ m.ListsNodup) := by
  have hcode := executeAll_code_iff h.sameKeys hexec it w
  have hsucc := resolveDependencies_success_iff it h.sameKeys
  have hfail : (m.resolveDependencies it).success = false
      ↔ ¬ (m.DependenciesRegistered ∧ ¬ Cyclic m.Needs ∧ m.ListsNodup) := by
    rw [← hsucc, Bool.not_eq_true]
  rw [ne_eq, hcode, hfail]
  constructor
  · rintro ⟨hiff, -⟩
    by_contra hno
    -- resolution fails here, and not because of a cycle among registered names
    have hbad : ¬ (m.DependenciesRegistered ∧ ¬ Cyclic m.Needs ∧ m.ListsNodup) := by
      rintro ⟨hreg, -, hnodup⟩
      exact hno ⟨hreg, Or.inr hnodup⟩
    obtain ⟨hreg, hcyc⟩ := hiff.mp hbad
    exact hno ⟨hreg, Or.inl hcyc⟩
  · rintro ⟨hreg, hcyc | hnodup⟩
    · have hbad : ¬ (m.DependenciesRegistered ∧ ¬ Cyclic m.Needs ∧ m.ListsNodup) :=
        fun hall => hall.2.1 hcyc
      exact ⟨iff_of_true hbad ⟨hreg, hcyc⟩, fun _ hno => absurd ⟨hreg, hcyc⟩ hno⟩
    · have hiff : ¬ (m.DependenciesRegistered ∧ ¬ Cyclic m.Needs ∧ m.ListsNodup)
          ↔ m.DependenciesRegistered ∧ Cyclic m.Needs := by
        constructor
        · intro hbad
          exact ⟨hreg, by_contra (fun hcyc => hbad ⟨hreg, hcyc, hnodup⟩)⟩
        · rintro ⟨-, hcyc⟩ hall
          exact hall.2.1 hcyc
      exact ⟨hiff, fun hbad hno => absurd (hiff.mp hbad) hno⟩

/-- `listener` behind `talker`, both registered. -/
theorem executeAll_cyclic_iff_two_processes :
    ((executeAll (fun n w => (Error.ok, w + n))
          (m := ((init.addProcess "listener".toList (some 1) ["talker".toList]).2.addProcess
            "talker".toList (some 2) []).2) ⟨_, List.Perm.refl _⟩ 0).exit.error.code
        = .cyclicDependency
      ↔ DependenciesRegistered ((init.addProcess "listener".toList (some 1)
            ["talker".toList]).2.addProcess "talker".toList (some 2) []).2
        ∧ Cyclic (Needs ((init.addProcess "listener".toList (some 1)
            ["talker".toList]).2.addProcess "talker".toList (some 2) []).2)) :=
  have hreach := (Reachable.init.addProcess "listener".toList (some 1)
    ["talker".toList]).addProcess "talker".toList (some 2) []
  have hall := (resolveDependencies_success_iff ⟨_, List.Perm.refl _⟩ hreach.sameKeys).mp
    (by decide +kernel)
  ((executeAll_cyclic_iff (fun n w => (Error.ok, w + n)) hreach
    (fun _ _ _ _ => nofun) ⟨_, List.Perm.refl _⟩ 0).mpr
      ⟨hall.1, Or.inr hall.2.2⟩).1

/-- `listener` alone: its `talker` is missing, and there is no cycle. -/
theorem executeAll_cyclic_missing_talker :
    Reachable (init.addProcess "listener".toList (some 1) ["talker".toList]).2
    ∧ NoCyclicFailure (init.addProcess "listener".toList (some 1) ["talker".toList]).2
        (fun n w => (Error.ok, w + n))
    ∧ ¬ ((executeAll (fun n w => (Error.ok, w + n))
            (m := (init.addProcess "listener".toList (some 1) ["talker".toList]).2)
            ⟨_, List.Perm.refl _⟩ 0).exit.error.code = .cyclicDependency
          ↔ DependenciesRegistered
              (init.addProcess "listener".toList (some 1) ["talker".toList]).2
            ∧ Cyclic
                (Needs (init.addProcess "listener".toList (some 1) ["talker".toList]).2)) := by
  refine ⟨Reachable.init.addProcess _ _ _, fun _ _ _ _ => nofun, fun hiff => ?_⟩
  obtain ⟨hreg, -⟩ := hiff.mp (by decide +kernel)
  have hkey := hreg "listener".toList "talker".toList
    ⟨["talker".toList], by decide, List.mem_singleton.mpr rfl⟩
  exact absurd hkey (by decide)

end DependencyManager

end LaunchCpp
