import LaunchCpp.KahnOrder

/-! # What `resolve` promises

    The three checks of `resolve` against the dependency relation.  Over
    distinct names a successful answer is always a dependency order of all
    nodes.  If moreover no node lists a name twice, the two algorithms agree:
    a graph without missing names that passes the depth-first search is
    drained by Kahn's loop. -/

namespace LaunchCpp.DependencyResolver

open OrderedMaps DependencyOrder

variable {nodes : List NodeConfig}

theorem getMissingDependencies_eq_nil_iff :
    getMissingDependencies nodes = []
      ↔ ∀ a b, DependsOn nodes a b → b ∈ nodes.map NodeConfig.name := by
  rw [getMissingDependencies]
  rw [List.flatMap_eq_nil_iff]
  constructor
  · rintro h a b ⟨n, hn, -, hb⟩
    have hfilter := List.filter_eq_nil_iff.mp (h n hn) b hb
    simpa using hfilter
  · intro h n hn
    refine List.filter_eq_nil_iff.mpr (fun b hb => ?_)
    simpa using h n.name b ⟨n, hn, rfl, hb⟩

theorem cyclic_edge_iff (hnames : (nodes.map NodeConfig.name).Nodup) :
    Cyclic (Edge (buildAdjacencyList nodes)) ↔ Cyclic (DependsOn nodes) := by
  have heq : Edge (buildAdjacencyList nodes) = DependsOn nodes := by
    funext a b
    exact propext (edge_buildAdjacencyList_iff hnames)
  rw [heq]

theorem getCircularPath_eq_nil_iff (hnames : (nodes.map NodeConfig.name).Nodup) :
    getCircularPath nodes = [] ↔ ¬ Cyclic (DependsOn nodes) := by
  rw [getCircularPath]
  rw [detectCycleDfs_eq_nil_iff, cyclic_edge_iff hnames]

/-! ## The branches of `resolve` -/

theorem resolve_of_missing (h : getMissingDependencies nodes ≠ []) :
    (resolve nodes).success = false ∧ (resolve nodes).order = []
      ∧ (resolve nodes).circularPath = [] := by
  rw [resolve]
  rw [if_pos h]
  exact ⟨rfl, rfl, rfl⟩

theorem resolve_of_cycle (h : getMissingDependencies nodes = [])
    (hcyc : getCircularPath nodes ≠ []) :
    (resolve nodes).success = false ∧ (resolve nodes).order = []
      ∧ (resolve nodes).circularPath = getCircularPath nodes := by
  have hhas : hasCircularDependency nodes = true := by
    simpa [hasCircularDependency] using hcyc
  rw [resolve]
  rw [if_neg (not_not.mpr h), if_pos hhas]
  exact ⟨rfl, rfl, rfl⟩

theorem resolve_of_no_cycle (h : getMissingDependencies nodes = [])
    (hcyc : getCircularPath nodes = []) :
    resolve nodes
      = if (kahn nodes).order.length ≠ nodes.length then
          ⟨false, [], "Failed to resolve all dependencies".toList, []⟩
        else ⟨true, (kahn nodes).order, [], []⟩ := by
  have hhas : ¬ hasCircularDependency nodes = true := by
    simpa [hasCircularDependency] using hcyc
  rw [resolve]
  rw [if_neg (not_not.mpr h), if_neg hhas]

/-- A successful answer went through all three checks. -/
theorem resolve_success_cases (h : (resolve nodes).success = true) :
    getMissingDependencies nodes = [] ∧ getCircularPath nodes = []
      ∧ (kahn nodes).order.length = nodes.length
      ∧ resolve nodes = ⟨true, (kahn nodes).order, [], []⟩ := by
  by_cases hmiss : getMissingDependencies nodes = []
  · by_cases hcyc : getCircularPath nodes = []
    · rw [resolve_of_no_cycle hmiss hcyc] at h ⊢
      by_cases hlen : (kahn nodes).order.length = nodes.length
      · exact ⟨hmiss, hcyc, hlen, if_neg (not_not.mpr hlen)⟩
      · rw [if_pos hlen] at h
        cases h
    · exact absurd h (by rw [(resolve_of_cycle hmiss hcyc).1]; simp)
  · exact absurd h (by rw [(resolve_of_missing hmiss).1]; simp)

/-- A failed answer names no order. -/
theorem resolve_order_of_failure (h : (resolve nodes).success = false) :
    (resolve nodes).order = [] := by
  by_cases hmiss : getMissingDependencies nodes = []
  · by_cases hcyc : getCircularPath nodes = []
    · rw [resolve_of_no_cycle hmiss hcyc] at h ⊢
      by_cases hlen : (kahn nodes).order.length = nodes.length
      · rw [if_neg (not_not.mpr hlen)] at h
        cases h
      · rw [if_pos hlen]
    · exact (resolve_of_cycle hmiss hcyc).2.1
  · exact (resolve_of_missing hmiss).2.1

/-! ## Soundness and completeness -/

/-- **A successful answer is a dependency order of all nodes**, also when a
    node lists a name more than once. -/
theorem resolve_sound (hnames : (nodes.map NodeConfig.name).Nodup)
    (h : (resolve nodes).success = true) :
    ((resolve nodes).order).Perm (nodes.map NodeConfig.name)
      ∧ Ordered (DependsOn nodes) (resolve nodes).order := by
  obtain ⟨-, -, hlen, heq⟩ := resolve_success_cases h
  obtain ⟨hinv, -⟩ := kahn_inv hnames
  have hsub : (kahn nodes).order.Subperm (nodes.map NodeConfig.name) := by
    refine List.subperm_of_subset (List.nodup_append.mp hinv.nodup).1 (fun v hv => ?_)
    have hkey := hinv.mem_keys v (List.mem_append_left _ hv)
    exact (keys_buildAdjacencyList_perm hnames).mem_iff.mp hkey
  rw [heq]
  refine ⟨hsub.perm_of_length_le (by simp [hlen]), ?_⟩
  intro l₁ a l₂ horder b hab
  exact hinv.ordered l₁ a l₂ horder b ((edge_buildAdjacencyList_iff hnames).mpr hab)

/-- Without a cycle the search has made every node accessible. -/
theorem acc_of_not_cyclic (hnames : (nodes.map NodeConfig.name).Nodup)
    (hcyc : ¬ Cyclic (DependsOn nodes)) {v : Str} (hv : v ∈ nodes.map NodeConfig.name) :
    Acc (fun b a => Edge (buildAdjacencyList nodes) a b) v := by
  rcases detectCycleDfs_spec (buildAdjacencyList nodes) with h | ⟨-, hacc⟩
  · exact absurd ((cyclic_edge_iff hnames).mp h.cyclic) hcyc
  · exact hacc v ((keys_buildAdjacencyList_perm hnames).mem_iff.mpr hv)

/-- Kahn's loop drains what the depth-first search lets through. -/
theorem length_kahn_order (hnames : (nodes.map NodeConfig.name).Nodup)
    (hdeps : ∀ n ∈ nodes, n.dependencies.Nodup)
    (hexist : ∀ a b, DependsOn nodes a b → b ∈ nodes.map NodeConfig.name)
    (hcyc : ¬ Cyclic (DependsOn nodes)) :
    (kahn nodes).order.length = nodes.length := by
  obtain ⟨hinv, -⟩ := kahn_inv hnames
  have hperm : (kahn nodes).order.Perm (nodes.map NodeConfig.name) := by
    refine (List.perm_ext_iff_of_nodup (List.nodup_append.mp hinv.nodup).1 hnames).mpr
      (fun v => ⟨fun hv => ?_, fun hv => ?_⟩)
    · have hkey := hinv.mem_keys v (List.mem_append_left _ hv)
      exact (keys_buildAdjacencyList_perm hnames).mem_iff.mp hkey
    · exact mem_kahn_order hnames hdeps hexist (acc_of_not_cyclic hnames hcyc hv) hv
  rw [hperm.length_eq, List.length_map]

theorem resolve_complete (hnames : (nodes.map NodeConfig.name).Nodup)
    (hdeps : ∀ n ∈ nodes, n.dependencies.Nodup)
    (hexist : ∀ a b, DependsOn nodes a b → b ∈ nodes.map NodeConfig.name)
    (hcyc : ¬ Cyclic (DependsOn nodes)) : (resolve nodes).success = true := by
  rw [resolve_of_no_cycle (getMissingDependencies_eq_nil_iff.mpr hexist)
    ((getCircularPath_eq_nil_iff hnames).mpr hcyc),
    if_neg (not_not.mpr (length_kahn_order hnames hdeps hexist hcyc))]

/-- The answer of `resolve` on nodes without repeated entries: success is
    acyclicity over existing names, the order is a dependency order of all
    nodes, and a failure shows a cycle unless a name is missing. -/
theorem resolve_correct (nodes : List NodeConfig)
    (hnames : (nodes.map NodeConfig.name).Nodup)
    (hdeps : ∀ n ∈ nodes, n.dependencies.Nodup) :
    ((resolve nodes).success = true
        ↔ (∀ n ∈ nodes, ∀ d ∈ n.dependencies, d ∈ nodes.map NodeConfig.name)
          ∧ ¬ Cyclic (DependsOn nodes))
    ∧ ((resolve nodes).success = true →
        ((resolve nodes).order).Perm (nodes.map NodeConfig.name)
        ∧ (∀ a b, DependsOn nodes a b →
            (resolve nodes).order.idxOf b < (resolve nodes).order.idxOf a)
        ∧ (resolve nodes).errorMessage = [] ∧ (resolve nodes).circularPath = [])
    ∧ ((resolve nodes).success = false →
        (resolve nodes).order = []
        ∧ ((resolve nodes).circularPath ≠ []
            ↔ ∀ n ∈ nodes, ∀ d ∈ n.dependencies, d ∈ nodes.map NodeConfig.name)) := by
  have hexist : (∀ n ∈ nodes, ∀ d ∈ n.dependencies, d ∈ nodes.map NodeConfig.name)
      ↔ getMissingDependencies nodes = [] := by
    rw [getMissingDependencies_eq_nil_iff]
    constructor
    · rintro h a b ⟨n, hn, -, hb⟩
      exact h n hn b hb
    · intro h n hn d hd
      exact h n.name d ⟨n, hn, rfl, hd⟩
  refine ⟨⟨fun h => ?_, fun h => ?_⟩, fun h => ?_, fun h => ?_⟩
  · obtain ⟨hmiss, hcyc, -, -⟩ := resolve_success_cases h
    exact ⟨hexist.mpr hmiss, (getCircularPath_eq_nil_iff hnames).mp hcyc⟩
  · have hmiss := getMissingDependencies_eq_nil_iff.mp (hexist.mp h.1)
    exact resolve_complete hnames hdeps hmiss h.2
  · obtain ⟨hperm, hord⟩ := resolve_sound hnames h
    obtain ⟨-, -, -, heq⟩ := resolve_success_cases h
    refine ⟨hperm, fun a b hab => ?_, by rw [heq], by rw [heq]⟩
    obtain ⟨n, hn, hna, -⟩ := id hab
    have ha : a ∈ nodes.map NodeConfig.name := hna ▸ List.mem_map_of_mem hn
    exact hord.idxOf_lt (hperm.mem_iff.mpr ha) hab
  · refine ⟨resolve_order_of_failure h, ?_⟩
    rw [hexist]
    by_cases hmiss : getMissingDependencies nodes = []
    · have hcyc : getCircularPath nodes ≠ [] := by
        intro hnil
        have hsucc := resolve_complete hnames hdeps
          (getMissingDependencies_eq_nil_iff.mp hmiss)
          ((getCircularPath_eq_nil_iff hnames).mp hnil)
        rw [hsucc] at h
        cases h
      rw [(resolve_of_cycle hmiss hcyc).2.2]
      exact iff_of_true hcyc hmiss
    · rw [(resolve_of_missing hmiss).2.2]
      exact iff_of_false (not_not_intro rfl) hmiss

theorem resolve_correct_two_nodes :
    (resolve [⟨"listener".toList, ["talker".toList]⟩, ⟨"talker".toList, []⟩]).success
      = true :=
  (resolve_correct [⟨"listener".toList, ["talker".toList]⟩, ⟨"talker".toList, []⟩]
    (by decide) (by decide)).1.mpr ⟨by decide,
      (getCircularPath_eq_nil_iff (by decide)).mp (by decide)⟩

end LaunchCpp.DependencyResolver
