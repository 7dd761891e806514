import LaunchCpp.CycleSearch

/-! # Repeated names in the maps of the resolver

    `graph[node.name] = …` over a list in which a name occurs more than once
    keeps the LAST node of that name.  This file reads both maps that way,
    over arbitrary lists, and with it the answer of `get_circular_path`. -/

namespace LaunchCpp.DependencyResolver

open OrderedMaps DependencyOrder

variable {nodes : List NodeConfig} {k : Str} {n m : NodeConfig}

/-- The last node of a name, the one a map keyed by names holds. -/
def LastOf (nodes : List NodeConfig) (k : Str) (n : NodeConfig) : Prop :=
  ∃ before after, nodes = before ++ n :: after ∧ n.name = k ∧ ∀ m ∈ after, m.name ≠ k

theorem LastOf.mem (h : LastOf nodes k n) : n ∈ nodes := by
  obtain ⟨before, after, rfl, -, -⟩ := h
  simp

theorem LastOf.name_eq (h : LastOf nodes k n) : n.name = k := by
  obtain ⟨-, -, -, hname, -⟩ := h
  exact hname

theorem lastOf_concat_self : LastOf (nodes ++ [n]) n.name m ↔ m = n := by
  constructor
  · rintro ⟨before, after, heq, hname, hafter⟩
    rcases List.eq_nil_or_concat after with rfl | ⟨after, z, rfl⟩
    · obtain ⟨-, hlast⟩ := List.append_inj' heq rfl
      exact (List.singleton_inj.mp hlast).symm
    · have heq' : nodes ++ [n] = (before ++ m :: after) ++ [z] := by simpa using heq
      obtain ⟨-, hlast⟩ := List.append_inj' heq' rfl
      exact absurd (congrArg NodeConfig.name (List.singleton_inj.mp hlast)).symm
        (hafter z (by simp))
  · rintro rfl
    exact ⟨nodes, [], rfl, rfl, by simp⟩

theorem lastOf_concat_of_ne (h : k ≠ n.name) :
    LastOf (nodes ++ [n]) k m ↔ LastOf nodes k m := by
  constructor
  · rintro ⟨before, after, heq, hname, hafter⟩
    rcases List.eq_nil_or_concat after with rfl | ⟨after, z, rfl⟩
    · obtain ⟨-, hlast⟩ := List.append_inj' heq rfl
      rw [List.singleton_inj.mp hlast] at h
      exact absurd hname.symm h
    · have heq' : nodes ++ [n] = (before ++ m :: after) ++ [z] := by simpa using heq
      obtain ⟨hfront, -⟩ := List.append_inj' heq' rfl
      exact ⟨before, after, hfront, hname, fun x hx => hafter x (by simp [hx])⟩
  · rintro ⟨before, after, rfl, hname, hafter⟩
    refine ⟨before, after ++ [n], by simp, hname, ?_⟩
    intro x hx
    rcases List.mem_append.mp hx with hx | hx
    · exact hafter x hx
    · rw [List.mem_singleton.mp hx]
      exact h.symm

/-- **`build_node_map` holds the last node of each name.** -/
theorem find_buildNodeMap : (buildNodeMap nodes).find k = some m ↔ LastOf nodes k m := by
  induction nodes using List.reverseRecOn with
  | nil =>
      constructor
      · intro h
        cases h
      · rintro ⟨before, after, heq, -⟩
        simp at heq
  | append_singleton nodes n ih =>
      have hconcat : buildNodeMap (nodes ++ [n]) = (buildNodeMap nodes).insert n.name n := by
        simp [buildNodeMap]
      rw [hconcat, OrderedMap.find_insert]
      by_cases hk : k = n.name
      · subst hk
        rw [if_pos rfl, lastOf_concat_self, Option.some.injEq, eq_comm]
      · rw [if_neg hk, lastOf_concat_of_ne hk, ih]

/-- The graph keeps what the node map does. -/
theorem find_buildAdjacencyList_eq : (buildAdjacencyList nodes).find k
    = ((buildNodeMap nodes).find k).map NodeConfig.dependencies := by
  induction nodes using List.reverseRecOn with
  | nil => rfl
  | append_singleton nodes n ih =>
      have hnodes : buildNodeMap (nodes ++ [n]) = (buildNodeMap nodes).insert n.name n := by
        simp [buildNodeMap]
      have hgraph : buildAdjacencyList (nodes ++ [n])
          = (buildAdjacencyList nodes).insert n.name n.dependencies := by
        simp [buildAdjacencyList]
      rw [hnodes, hgraph, OrderedMap.find_insert, OrderedMap.find_insert]
      by_cases hk : k = n.name
      · rw [if_pos hk, if_pos hk, Option.map_some]
      · rw [if_neg hk, if_neg hk, ih]

theorem find_buildAdjacencyList_iff {ds : List Str} :
    (buildAdjacencyList nodes).find k = some ds
      ↔ ∃ n, LastOf nodes k n ∧ n.dependencies = ds := by
  rw [find_buildAdjacencyList_eq, Option.map_eq_some_iff]
  constructor
  · rintro ⟨n, hfind, hds⟩
    exact ⟨n, find_buildNodeMap.mp hfind, hds⟩
  · rintro ⟨n, hlast, hds⟩
    exact ⟨n, find_buildNodeMap.mpr hlast, hds⟩

/-- Every name that occurs has a last node. -/
theorem exists_lastOf (h : k ∈ nodes.map NodeConfig.name) : ∃ n, LastOf nodes k n := by
  induction nodes using List.reverseRecOn with
  | nil => cases h
  | append_singleton nodes n ih =>
      by_cases hk : k = n.name
      · subst hk
        exact ⟨n, lastOf_concat_self.mpr rfl⟩
      · have hinit : k ∈ nodes.map NodeConfig.name := by simpa [hk] using h
        obtain ⟨m, hm⟩ := ih hinit
        exact ⟨m, (lastOf_concat_of_ne hk).mpr hm⟩

theorem mem_keys_buildAdjacencyList :
    k ∈ (buildAdjacencyList nodes).keys ↔ k ∈ nodes.map NodeConfig.name := by
  rw [OrderedMap.mem_keys_iff]
  constructor
  · rintro ⟨ds, hfind⟩
    obtain ⟨n, hlast, -⟩ := find_buildAdjacencyList_iff.mp hfind
    exact List.mem_map.mpr ⟨n, hlast.mem, hlast.name_eq⟩
  · intro h
    obtain ⟨n, hlast⟩ := exists_lastOf h
    exact ⟨n.dependencies, find_buildAdjacencyList_iff.mpr ⟨n, hlast, rfl⟩⟩

/-- A node of distinct names is the last of its name. -/
theorem lastOf_iff_mem (hnames : (nodes.map NodeConfig.name).Nodup) :
    LastOf nodes k n ↔ n ∈ nodes ∧ n.name = k := by
  constructor
  · intro h
    exact ⟨h.mem, h.name_eq⟩
  · rintro ⟨hn, rfl⟩
    obtain ⟨m, hm⟩ := exists_lastOf (List.mem_map_of_mem hn)
    have hmn : m = n := List.inj_on_of_nodup_map hnames hm.mem hn hm.name_eq
    exact hmn ▸ hm

/-! ## The circular path -/

/-- `a` depends on `b` in the graph of the resolver. -/
def LastDependsOn (nodes : List NodeConfig) (a b : Str) : Prop :=
  ∃ n, LastOf nodes a n ∧ b ∈ n.dependencies

theorem edge_iff_lastDependsOn {a b : Str} :
    Edge (buildAdjacencyList nodes) a b ↔ LastDependsOn nodes a b := by
  constructor
  · intro h
    obtain ⟨ds, hfind⟩ := OrderedMap.mem_keys_iff.mp h.mem_keys
    obtain ⟨n, hlast, rfl⟩ := find_buildAdjacencyList_iff.mp hfind
    rw [Edge, hfind] at h
    exact ⟨n, hlast, h⟩
  · rintro ⟨n, hlast, hb⟩
    have hfind := find_buildAdjacencyList_iff.mpr ⟨n, hlast, rfl⟩
    rw [Edge, hfind]
    exact hb

theorem edge_eq_lastDependsOn : Edge (buildAdjacencyList nodes) = LastDependsOn nodes := by
  ext a b
  exact edge_iff_lastDependsOn

/-! Once a call has ended, more fuel does not change what it returns. -/

theorem dfsNeighbors_mono {visit visit' : Str → DfsState → Option (Bool × DfsState)}
    (hvisit : ∀ node s r, visit node s = some r → visit' node s = some r) :
    ∀ (rest : List Str) (s : DfsState) (r : Bool × DfsState),
      dfsNeighbors visit rest s = some r → dfsNeighbors visit' rest s = some r := by
  intro rest
  induction rest with
  | nil => intro s r h; exact h
  | cons neighbor rest ih =>
      intro s r h
      rw [dfsNeighbors] at h ⊢
      cases hc : s.color neighbor with
      | gray => simpa only [hc] using h
      | black =>
          simp only [hc] at h ⊢
          exact ih s r h
      | white =>
          simp only [hc] at h ⊢
          cases hv : visit neighbor s with
          | none => rw [hv] at h; cases h
          | some found =>
              obtain ⟨b, s'⟩ := found
              rw [hv] at h
              rw [hvisit neighbor s _ hv]
              cases b with
              | true => exact h
              | false => exact ih s' r h

theorem dfsVisit_succ {graph : OrderedMap Str (List Str)} :
    ∀ (fuel : Nat) (node : Str) (s : DfsState) (r : Bool × DfsState),
      dfsVisit graph fuel node s = some r → dfsVisit graph (fuel + 1) node s = some r := by
  intro fuel
  induction fuel with
  | zero => intro node s r h; cases h
  | succ fuel ih =>
      intro node s r h
      rw [dfsVisit] at h ⊢
      cases hn : dfsNeighbors (dfsVisit graph fuel) ((graph.find node).getD [])
          (s.enter node) with
      | none => rw [hn] at h; cases h
      | some found =>
          rw [hn] at h
          rw [dfsNeighbors_mono ih _ _ _ hn]
          exact h

/-- A call ends from any state, with one result for all fuel beyond the
    white names. -/
theorem dfsVisit_returns (graph : OrderedMap Str (List Str)) (node : Str) (s : DfsState) :
    ∃ r, ∀ fuel, whites graph s < fuel → dfsVisit graph fuel node s = some r := by
  have hends : ∃ r, dfsVisit graph (whites graph s + 1) node s = some r := by
    obtain ⟨b, s', hr, -⟩ := dfsNeighbors_ends
      (dfsVisit_ends (whites graph s))
      ((graph.find node).getD []) (s.enter node)
      (fun v hv => dependencies_mem_graphNames hv) (whites_le (Fades.enter s node))
    rw [dfsVisit, hr]
    cases b with
    | true => exact ⟨_, rfl⟩
    | false => exact ⟨_, rfl⟩
  obtain ⟨r, hr⟩ := hends
  refine ⟨r, ?_⟩
  intro fuel hlt
  induction fuel, hlt using Nat.le_induction with
  | base => exact hr
  | succ fuel _ ih => exact dfsVisit_succ fuel node s r ih

/-- **`get_circular_path`** on any list of nodes: the recursion behind it
    ends, it finds a path exactly when there is a cycle, and the path goes
    from a name back to it along dependencies, through distinct names. -/
theorem getCircularPath_correct (nodes : List NodeConfig) :
    (∀ node s, ∃ r, ∀ fuel, whites (buildAdjacencyList nodes) s < fuel →
      dfsVisit (buildAdjacencyList nodes) fuel node s = some r)
    ∧ (getCircularPath nodes ≠ [] ↔ Cyclic (LastDependsOn nodes))
    ∧ (getCircularPath nodes ≠ [] →
        ∃ v l, getCircularPath nodes = (v :: l) ++ [v] ∧ (v :: l).Nodup
          ∧ List.IsChain (LastDependsOn nodes) (getCircularPath nodes)) := by
  refine ⟨dfsVisit_returns _, ?_, ?_⟩
  · rw [getCircularPath, Ne, detectCycleDfs_eq_nil_iff, not_not, edge_eq_lastDependsOn]
  · intro hne
    rcases detectCycleDfs_spec (buildAdjacencyList nodes) with h | ⟨hnil, -⟩
    · rw [IsCycle, edge_eq_lastDependsOn] at h
      exact h
    · exact absurd hnil hne

end LaunchCpp.DependencyResolver
