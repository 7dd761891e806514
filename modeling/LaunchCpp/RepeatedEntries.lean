import LaunchCpp.ResolverSpec

/-! # `resolve` on arbitrary lists of nodes

    Nothing keeps a caller from repeating a name, or an entry of a dependency
    list.  The parts of `resolve` then see different things: the graph holds
    the last node of a name, the counter adds up all that is listed under it,
    the queue starts with every node that lists nothing, and the last check
    counts nodes.  This file counts how often a name comes out of the loop in
    terms of the input, and with it says exactly when `resolve` succeeds. -/

namespace LaunchCpp.DependencyResolver

open OrderedMaps DependencyOrder

variable {nodes : List NodeConfig} {v : Str}

/-- The nodes of a name that list nothing, each of which is queued at once. -/
def emptyEntries (nodes : List NodeConfig) (v : Str) : Nat :=
  nodes.countP (fun n => n.name = v ∧ n.dependencies = [])

/-- The nodes of a name that list something. -/
def listingEntries (nodes : List NodeConfig) (v : Str) : Nat :=
  nodes.countP (fun n => n.name = v ∧ n.dependencies ≠ [])

theorem count_names (nodes : List NodeConfig) (v : Str) : (nodes.map NodeConfig.name).count v
    = emptyEntries nodes v + listingEntries nodes v := by
  rw [emptyEntries, listingEntries]
  induction nodes with
  | nil => rfl
  | cons n nodes ih =>
      rw [List.map_cons, List.count_cons, List.countP_cons, List.countP_cons, ih]
      by_cases hname : n.name = v
      · by_cases hds : n.dependencies = []
        · simp [hname, hds]; omega
        · simp [hname, hds]; omega
      · simp [hname]

/-! ## The counters -/

/-- Only the nodes that list something add to a counter. -/
theorem buildInDegreeMap_listing (nodes : List NodeConfig) (v : Str) :
    buildInDegreeMap nodes v
      = ((nodes.filter (fun n => n.name = v ∧ n.dependencies ≠ [])).map
          (fun n => (n.dependencies.length : Int))).sum := by
  rw [buildInDegreeMap_apply]
  induction nodes with
  | nil => rfl
  | cons n nodes ih =>
      by_cases hname : n.name = v
      · by_cases hds : n.dependencies = []
        · simp only [List.filter_cons, hname, hds, decide_true, if_true, List.map_cons,
            List.sum_cons, List.length_nil, ih]
          simp
        · simp only [List.filter_cons, hname, decide_true, if_true, List.map_cons,
            List.sum_cons, ih]
          simp [hds]
      · simpa [List.filter_cons, hname] using ih

theorem buildInDegreeMap_pos_iff (nodes : List NodeConfig) (v : Str) :
    0 < buildInDegreeMap nodes v ↔ 0 < listingEntries nodes v := by
  rw [buildInDegreeMap_listing, listingEntries, List.countP_eq_length_filter]
  have hlisted : ∀ n ∈ nodes.filter (fun n => n.name = v ∧ n.dependencies ≠ []),
      0 < (n.dependencies.length : Int) := by
    intro n hn
    have hne : n.dependencies ≠ [] := by
      have hcond : n.name = v ∧ n.dependencies ≠ [] := by
        simpa using (List.mem_filter.mp hn).2
      exact hcond.2
    have := List.length_pos_iff.mpr hne
    omega
  generalize nodes.filter (fun n => n.name = v ∧ n.dependencies ≠ []) = l at hlisted ⊢
  induction l with
  | nil => simp
  | cons n l ih =>
      have hn := hlisted n List.mem_cons_self
      have hl : 0 ≤ (l.map (fun n => (n.dependencies.length : Int))).sum :=
        List.sum_nonneg (by simp)
      simp only [List.map_cons, List.sum_cons, List.length_cons]
      exact iff_of_true (by omega) (by omega)

/-- A counter that one node feeds. -/
theorem buildInDegreeMap_single {n : NodeConfig} (hn : n ∈ nodes)
    (hne : n.dependencies ≠ []) (hone : listingEntries nodes n.name = 1) :
    buildInDegreeMap nodes n.name = n.dependencies.length := by
  rw [listingEntries, List.countP_eq_length_filter] at hone
  obtain ⟨m, hm⟩ := List.length_eq_one_iff.mp hone
  have hmem : n ∈ nodes.filter (fun m => m.name = n.name ∧ m.dependencies ≠ []) :=
    List.mem_filter.mpr ⟨hn, by simp [hne]⟩
  rw [hm] at hmem
  rw [buildInDegreeMap_listing, hm, ← List.mem_singleton.mp hmem]
  simp

/-! ## How often a name is processed -/

/-- Every name is queued once for each of its nodes that list nothing, and
    once more when its counter comes down to zero. -/
structure EntriesInv (nodes : List NodeConfig) (s : KahnState) : Prop where
  degree : ∀ v ds, (buildAdjacencyList nodes).find v = some ds →
    s.inDegree v = buildInDegreeMap nodes v - s.order.countP (· ∈ ds)
  count : ∀ v, (s.order ++ s.queue).count v = emptyEntries nodes v
    + if 0 < buildInDegreeMap nodes v ∧ s.inDegree v ≤ 0 then 1 else 0

theorem EntriesInv.init (nodes : List NodeConfig) : EntriesInv nodes (kahnInit nodes) where
  degree := fun v ds _ => by simp [kahnInit]
  count := fun v => by
    have hno : ¬ (0 < buildInDegreeMap nodes v ∧ (kahnInit nodes).inDegree v ≤ 0) := by
      rintro ⟨hpos, hle⟩
      exact absurd hpos (not_lt.mpr hle)
    have hcount : (kahnInit nodes).queue.count v = emptyEntries nodes v := by
      rw [kahnInit, emptyEntries]
      rw [List.count, List.countP_map, List.countP_filter]
      refine List.countP_congr ?_
      intro n _
      simp
    rw [if_neg hno, ← hcount]
    rfl

/-- What is not a name is never queued by a counter. -/
theorem buildInDegreeMap_of_find_none (h : (buildAdjacencyList nodes).find v = none) :
    ¬ 0 < buildInDegreeMap nodes v := by
  rw [buildInDegreeMap_pos_iff, listingEntries, List.countP_pos_iff]
  rintro ⟨n, hn, hcond⟩
  have hname : n.name = v := by
    have hcond' : n.name = v ∧ n.dependencies ≠ [] := by simpa using hcond
    exact hcond'.1
  obtain ⟨ds, hfind⟩ := OrderedMap.mem_keys_iff.mp
    (mem_keys_buildAdjacencyList.mpr (List.mem_map.mpr ⟨n, hn, hname⟩))
  rw [hfind] at h
  cases h

theorem EntriesInv.step {s : KahnState} {c : Str} {rest : List Str}
    (h : EntriesInv nodes s) (hq : s.queue = c :: rest) :
    EntriesInv nodes (kahnStep (buildAdjacencyList nodes) c { s with queue := rest }) := by
  obtain ⟨horder, hdeg, freed, hlist, hfreed, hmem⟩ :=
    kahnStep_pop (buildAdjacencyList nodes) hq
  constructor
  · intro v ds hfind
    have hd := h.degree v ds hfind
    rw [hdeg v ds hfind, horder, List.countP_append]
    by_cases hc : c ∈ ds
    · rw [if_pos hc]
      simp only [List.countP_singleton, hc, decide_true, if_true]
      push_cast
      omega
    · rw [if_neg hc]
      simpa [hc] using hd
  · intro v
    rw [hlist, List.count_append, h.count v]
    cases hfind : (buildAdjacencyList nodes).find v with
    | none =>
        have hnot : v ∉ freed := by
          intro hv
          obtain ⟨ds, hds, -⟩ := (hmem v).mp hv
          rw [hfind] at hds
          cases hds
        have hno := buildInDegreeMap_of_find_none hfind
        rw [List.count_eq_zero_of_not_mem hnot, if_neg (fun h => hno h.1),
          if_neg (fun h => hno h.1)]
    | some ds =>
        have hd := h.degree v ds hfind
        have hpush : v ∈ freed ↔ c ∈ ds ∧ s.inDegree v = 1 := freed_iff hmem hfind
        rw [hdeg v ds hfind]
        show _ + freed.count v = emptyEntries nodes v + if 0 < buildInDegreeMap nodes v
          ∧ (if c ∈ ds then s.inDegree v - 1 else s.inDegree v) ≤ 0 then 1 else 0
        by_cases hc : c ∈ ds
        · rw [if_pos hc]
          by_cases h1 : s.inDegree v = 1
          -- the counter reaches zero in this pass
          · rw [List.count_eq_one_of_mem hfreed (hpush.mpr ⟨hc, h1⟩), if_neg (by omega),
              if_pos (by omega)]
          · rw [List.count_eq_zero_of_not_mem (fun hv => h1 (hpush.mp hv).2)]
            by_cases hle : s.inDegree v ≤ 0
            · simp [hle, show s.inDegree v ≤ 1 by omega]
            · simp [hle, show ¬ s.inDegree v ≤ 1 by omega]
        · rw [if_neg hc, List.count_eq_zero_of_not_mem (fun hv => hc (hpush.mp hv).1)]
          rfl

/-- **How often a name comes out of the loop.** -/
theorem count_kahn_order (nodes : List NodeConfig) (v : Str) {ds : List Str}
    (hfind : (buildAdjacencyList nodes).find v = some ds) :
    (kahn nodes).order.count v = emptyEntries nodes v
      + if 0 < buildInDegreeMap nodes v
          ∧ buildInDegreeMap nodes v ≤ (kahn nodes).order.countP (· ∈ ds) then 1 else 0 := by
  obtain ⟨hinv, hempty⟩ := kahnLoop_invariant (fun hq hinv => hinv.step hq) _
    (kahnInit nodes) (kahn nodes) (Option.some_get _).symm (EntriesInv.init nodes)
  have hcount := hinv.count v
  rw [hempty, List.append_nil, hinv.degree v ds hfind] at hcount
  simpa only [sub_nonpos] using hcount

/-! ## When `resolve` succeeds -/

/-- The entries of every name fit together: at most one node of a name lists
    anything, it is the last one, and it lists no more entries than there are
    nodes under the names it lists. -/
def EntriesFit (nodes : List NodeConfig) : Prop :=
  ∀ n ∈ nodes, n.dependencies ≠ [] →
    LastOf nodes n.name n ∧ listingEntries nodes n.name = 1
      ∧ n.dependencies.length ≤ (nodes.map NodeConfig.name).countP (· ∈ n.dependencies)

theorem find_of_mem_names (hv : v ∈ nodes.map NodeConfig.name) :
    ∃ n, LastOf nodes v n ∧ (buildAdjacencyList nodes).find v = some n.dependencies := by
  obtain ⟨n, hlast⟩ := exists_lastOf hv
  exact ⟨n, hlast, find_buildAdjacencyList_iff.mpr ⟨n, hlast, rfl⟩⟩

theorem mem_names_of_mem_kahn_order (hv : v ∈ (kahn nodes).order) :
    v ∈ nodes.map NodeConfig.name := by
  cases hfind : (buildAdjacencyList nodes).find v with
  | some ds =>
      exact mem_keys_buildAdjacencyList.mp (OrderedMap.mem_keys_iff.mpr ⟨ds, hfind⟩)
  | none =>
      obtain ⟨hinv, hempty⟩ := kahnLoop_invariant (fun hq hinv => hinv.step hq) _
        (kahnInit nodes) (kahn nodes) (Option.some_get _).symm (EntriesInv.init nodes)
      have hcount := hinv.count v
      rw [hempty, List.append_nil,
        if_neg (fun h => buildInDegreeMap_of_find_none hfind h.1)] at hcount
      have hnames := count_names nodes v
      refine List.count_pos_iff.mp ?_
      have := List.count_pos_iff.mpr hv
      omega

/-- No name comes out more often than it went in. -/
theorem count_kahn_order_le (nodes : List NodeConfig) (v : Str) :
    (kahn nodes).order.count v ≤ (nodes.map NodeConfig.name).count v := by
  by_cases hv : v ∈ (kahn nodes).order
  · obtain ⟨n, -, hfind⟩ := find_of_mem_names (mem_names_of_mem_kahn_order hv)
    rw [count_kahn_order nodes v hfind, count_names]
    have hpos := buildInDegreeMap_pos_iff nodes v
    by_cases hd : 0 < buildInDegreeMap nodes v
    · have := hpos.mp hd
      by_cases hle : buildInDegreeMap nodes v ≤ (kahn nodes).order.countP (· ∈ n.dependencies)
      · rw [if_pos ⟨hd, hle⟩]
        omega
      · rw [if_neg (fun h => hle h.2)]
        omega
    · rw [if_neg (fun h => hd h.1)]
      omega
  · rw [List.count_eq_zero_of_not_mem hv]
    exact Nat.zero_le _

/-- The last check of `resolve` passes only for a complete order. -/
theorem kahn_order_length_iff : (kahn nodes).order.length = nodes.length
    ↔ (kahn nodes).order.Perm (nodes.map NodeConfig.name) := by
  constructor
  · intro hlen
    have hsub : (kahn nodes).order.Subperm (nodes.map NodeConfig.name) :=
      List.subperm_ext_iff.mpr (fun v _ => count_kahn_order_le nodes v)
    exact hsub.perm_of_length_le (by simp [hlen])
  · intro hperm
    rw [hperm.length_eq, List.length_map]

/-- In a complete order every counter has come down to zero. -/
theorem entriesFit_of_perm (hperm : (kahn nodes).order.Perm (nodes.map NodeConfig.name)) :
    EntriesFit nodes := by
  intro n hn hne
  have hv : n.name ∈ nodes.map NodeConfig.name := List.mem_map_of_mem hn
  obtain ⟨m, hlast, hfind⟩ := find_of_mem_names hv
  have hlisting : 0 < listingEntries nodes n.name :=
    List.countP_pos_iff.mpr ⟨n, hn, by simp [hne]⟩
  have hcount := count_kahn_order nodes n.name hfind
  rw [hperm.count_eq, count_names] at hcount
  have hdone : 0 < buildInDegreeMap nodes n.name ∧ buildInDegreeMap nodes n.name
      ≤ (kahn nodes).order.countP (· ∈ m.dependencies) := by
    by_contra hno
    rw [if_neg hno] at hcount
    omega
  rw [if_pos hdone] at hcount
  have hone : listingEntries nodes n.name = 1 := by omega
  have hmne : m.dependencies ≠ [] := by
    intro hnil
    have hnone : (kahn nodes).order.countP (· ∈ m.dependencies) = 0 :=
      List.countP_eq_zero.mpr (by simp [hnil])
    omega
  -- so the last node of the name is the one that lists something
  have hmn : m = n := Counting.eq_of_countP_eq_one hone hlast.mem
    (by simp [hlast.name_eq, hmne]) hn (by simp [hne])
  subst hmn
  refine ⟨hlast, hone, ?_⟩
  have hle := hdone.2
  rw [buildInDegreeMap_single hn hne hone, hperm.countP_eq] at hle
  exact Int.ofNat_le.mp hle

/-- **Completeness of the loop on fitting entries**, along the graph. -/
theorem count_kahn_order_eq (hfit : EntriesFit nodes)
    (hexist : ∀ a b, DependsOn nodes a b → b ∈ nodes.map NodeConfig.name)
    (hacc : Acc (fun b a => Edge (buildAdjacencyList nodes) a b) v)
    (hv : v ∈ nodes.map NodeConfig.name) :
    (kahn nodes).order.count v = (nodes.map NodeConfig.name).count v := by
  induction hacc with
  | intro v _ ih =>
      obtain ⟨m, hlast, hfind⟩ := find_of_mem_names hv
      rw [count_kahn_order nodes v hfind, count_names]
      by_cases hlisting : 0 < listingEntries nodes v
      · obtain ⟨n, hn, hcond⟩ := List.countP_pos_iff.mp hlisting
        obtain ⟨rfl, hne⟩ : n.name = v ∧ n.dependencies ≠ [] := by simpa using hcond
        obtain ⟨hlast', hone, hle⟩ := hfit n hn hne
        have hmn : n = m := by
          have hsame := find_buildNodeMap.mpr hlast'
          rw [find_buildNodeMap.mpr hlast] at hsame
          exact (Option.some.inj hsame).symm
        subst hmn
        -- everything listed has been processed as often as it occurs
        have hmeet : (kahn nodes).order.countP (· ∈ n.dependencies)
            = (nodes.map NodeConfig.name).countP (· ∈ n.dependencies) := by
          refine Counting.countP_mem_congr ?_
          intro d hd
          have hedge : Edge (buildAdjacencyList nodes) n.name d :=
            edge_iff_lastDependsOn.mpr ⟨n, hlast, hd⟩
          exact ih d hedge (hexist n.name d ⟨n, hn, rfl, hd⟩)
        rw [buildInDegreeMap_single hn hne hone, hmeet, hone, if_pos]
        have := List.length_pos_iff.mpr hne
        exact ⟨by omega, by omega⟩
      · rw [if_neg (fun h => hlisting ((buildInDegreeMap_pos_iff nodes v).mp h.1))]
        omega

/-- **When `resolve` succeeds**, on any list of nodes. -/
theorem resolve_success_iff (nodes : List NodeConfig) :
    (resolve nodes).success = true
      ↔ getMissingDependencies nodes = [] ∧ hasCircularDependency nodes = false
        ∧ EntriesFit nodes := by
  have hhas : hasCircularDependency nodes = false ↔ getCircularPath nodes = [] := by
    simp [hasCircularDependency]
  rw [hhas]
  constructor
  · intro h
    obtain ⟨hmiss, hcyc, hlen, -⟩ := resolve_success_cases h
    exact ⟨hmiss, hcyc, entriesFit_of_perm (kahn_order_length_iff.mp hlen)⟩
  · rintro ⟨hmiss, hcyc, hfit⟩
    have hexist := getMissingDependencies_eq_nil_iff.mp hmiss
    have hperm : (kahn nodes).order.Perm (nodes.map NodeConfig.name) := by
      rw [List.perm_iff_count]
      intro v
      by_cases hv : v ∈ nodes.map NodeConfig.name
      · rcases detectCycleDfs_spec (buildAdjacencyList nodes) with hpath | ⟨-, hacc⟩
        · obtain ⟨w, l, hshape, -⟩ := hpath
          rw [getCircularPath, hshape] at hcyc
          cases hcyc
        · exact count_kahn_order_eq hfit hexist (hacc v (mem_keys_buildAdjacencyList.mpr hv)) hv
      · rw [List.count_eq_zero_of_not_mem hv,
          List.count_eq_zero_of_not_mem (fun h => hv (mem_names_of_mem_kahn_order h))]
    rw [resolve_of_no_cycle hmiss hcyc, if_neg (not_not.mpr (kahn_order_length_iff.mpr hperm))]

theorem resolve_order_perm (h : (resolve nodes).success = true) :
    (resolve nodes).order.Perm (nodes.map NodeConfig.name) := by
  obtain ⟨-, -, hlen, heq⟩ := resolve_success_cases h
  rw [heq]
  exact kahn_order_length_iff.mp hlen

/-! ## Repeated entries of a dependency list -/

/-- The node with every repeated entry of its dependency list removed. -/
def withoutRepeats (n : NodeConfig) : NodeConfig :=
  { n with dependencies := n.dependencies.eraseDups }

theorem map_withoutRepeats_eq_self (h : ∀ n ∈ nodes, n.dependencies.Nodup) :
    nodes.map withoutRepeats = nodes := by
  have hself : nodes.map withoutRepeats = nodes.map id := by
    refine List.map_congr_left ?_
    intro n hn
    rw [withoutRepeats, Counting.eraseDups_eq_self (h n hn), id]
  rw [hself, List.map_id]

theorem map_name_withoutRepeats :
    (nodes.map withoutRepeats).map NodeConfig.name = nodes.map NodeConfig.name := by
  rw [List.map_map]
  rfl

theorem dependsOn_withoutRepeats_iff {a b : Str} :
    DependsOn (nodes.map withoutRepeats) a b ↔ DependsOn nodes a b := by
  constructor
  · rintro ⟨m, hm, hname, hb⟩
    obtain ⟨n, hn, rfl⟩ := List.mem_map.mp hm
    exact ⟨n, hn, hname, List.mem_eraseDups.mp hb⟩
  · rintro ⟨n, hn, hname, hb⟩
    exact ⟨withoutRepeats n, List.mem_map_of_mem hn, hname, List.mem_eraseDups.mpr hb⟩

/-- Without repeats the two checks decide alone. -/
theorem resolve_withoutRepeats_success_iff (hnames : (nodes.map NodeConfig.name).Nodup) :
    (resolve (nodes.map withoutRepeats)).success = true
      ↔ getMissingDependencies nodes = [] ∧ getCircularPath nodes = [] := by
  have hnames' : ((nodes.map withoutRepeats).map NodeConfig.name).Nodup := by
    rw [map_name_withoutRepeats]
    exact hnames
  have hdeps : DependsOn (nodes.map withoutRepeats) = DependsOn nodes := by
    ext a b
    exact dependsOn_withoutRepeats_iff
  have hmiss : getMissingDependencies (nodes.map withoutRepeats) = []
      ↔ getMissingDependencies nodes = [] := by
    rw [getMissingDependencies_eq_nil_iff, getMissingDependencies_eq_nil_iff, hdeps,
      map_name_withoutRepeats]
  have hcyc : getCircularPath (nodes.map withoutRepeats) = [] ↔ getCircularPath nodes = [] := by
    rw [getCircularPath_eq_nil_iff hnames', getCircularPath_eq_nil_iff hnames, hdeps]
  rw [← hmiss, ← hcyc]
  constructor
  · intro h
    obtain ⟨hm, hc, -, -⟩ := resolve_success_cases h
    exact ⟨hm, hc⟩
  · rintro ⟨hm, hc⟩
    refine resolve_complete hnames' ?_
      (getMissingDependencies_eq_nil_iff.mp hm) ((getCircularPath_eq_nil_iff hnames').mp hc)
    intro m hm
    obtain ⟨n, -, rfl⟩ := List.mem_map.mp hm
    exact Counting.nodup_eraseDups n.dependencies

/-- Over distinct names, entries fit only if none is repeated. -/
theorem nodup_of_entriesFit (hnames : (nodes.map NodeConfig.name).Nodup)
    (hfit : EntriesFit nodes) : ∀ n ∈ nodes, n.dependencies.Nodup := by
  intro n hn
  by_cases hne : n.dependencies = []
  · rw [hne]
    exact List.nodup_nil
  · obtain ⟨-, -, hle⟩ := hfit n hn hne
    rw [List.countP_eq_length_filter] at hle
    have hnodup : ((nodes.map NodeConfig.name).filter (· ∈ n.dependencies)).Nodup :=
      hnames.filter _
    have hsub : ((nodes.map NodeConfig.name).filter (· ∈ n.dependencies)).Subperm
        n.dependencies := by
      refine List.subperm_of_subset hnodup ?_
      intro d hd
      simpa using (List.mem_filter.mp hd).2
    exact (hsub.perm_of_length_le hle).nodup_iff.mp hnodup

/-- **Listing a dependency twice** makes no difference exactly where nothing
    is listed twice, or where `resolve` gives up before it counts. -/
theorem resolve_repeats_iff (nodes : List NodeConfig)
    (hnames : (nodes.map NodeConfig.name).Nodup) :
    (((resolve nodes).success = true
          ↔ (resolve (nodes.map withoutRepeats)).success = true)
        ∧ ((resolve nodes).success = true →
            (resolve (nodes.map withoutRepeats)).order = (resolve nodes).order))
      ↔ (∀ n ∈ nodes, n.dependencies.Nodup) ∨ getMissingDependencies nodes ≠ []
          ∨ hasCircularDependency nodes = true := by
  have hhas : hasCircularDependency nodes = true ↔ getCircularPath nodes ≠ [] := by
    simp [hasCircularDependency]
  rw [hhas]
  constructor
  · rintro ⟨hsame, -⟩
    by_contra hno
    simp only [not_or, not_not] at hno
    obtain ⟨hrepeat, hmiss, hcyc⟩ := hno
    have hsucc := hsame.mpr ((resolve_withoutRepeats_success_iff hnames).mpr ⟨hmiss, hcyc⟩)
    exact hrepeat (nodup_of_entriesFit hnames ((resolve_success_iff nodes).mp hsucc).2.2)
  · rintro (hnodup | hfail)
    · rw [map_withoutRepeats_eq_self hnodup]
      exact ⟨Iff.rfl, fun _ => rfl⟩
    · have hbad : ¬ (getMissingDependencies nodes = [] ∧ getCircularPath nodes = []) := by
        rintro ⟨hmiss, hcyc⟩
        rcases hfail with h | h
        · exact h hmiss
        · exact h hcyc
      have hnot : ¬ (resolve nodes).success = true := by
        intro h
        obtain ⟨hmiss, hcyc, -, -⟩ := resolve_success_cases h
        exact hbad ⟨hmiss, hcyc⟩
      have hnot' : ¬ (resolve (nodes.map withoutRepeats)).success = true := by
        rw [resolve_withoutRepeats_success_iff hnames]
        exact hbad
      exact ⟨iff_of_false hnot hnot', fun h => absurd h hnot⟩

/-- `talker` is listed twice and is not there: removing the repeat does not
    help. -/
theorem resolve_repeats_iff_talker :
    [⟨"listener".toList, ["talker".toList, "talker".toList]⟩].map withoutRepeats
        = [⟨"listener".toList, ["talker".toList]⟩]
      ∧ ((resolve [⟨"listener".toList, ["talker".toList, "talker".toList]⟩]).success = true
        ↔ (resolve ([⟨"listener".toList, ["talker".toList, "talker".toList]⟩].map
            withoutRepeats)).success = true)
      ∧ ((resolve [⟨"listener".toList, ["talker".toList, "talker".toList]⟩]).success = true →
          (resolve ([⟨"listener".toList, ["talker".toList, "talker".toList]⟩].map
              withoutRepeats)).order
            = (resolve [⟨"listener".toList, ["talker".toList, "talker".toList]⟩]).order) :=
  ⟨rfl, (resolve_repeats_iff [⟨"listener".toList, ["talker".toList, "talker".toList]⟩]
    (by decide)).mpr (Or.inr (Or.inl (by decide)))⟩

/-- Where it makes one: `listener` names `talker` twice. -/
theorem resolve_repeats_listener :
    ¬ (((resolve [⟨"listener".toList, ["talker".toList, "talker".toList]⟩,
            ⟨"talker".toList, []⟩]).success = true
          ↔ (resolve ([⟨"listener".toList, ["talker".toList, "talker".toList]⟩,
              ⟨"talker".toList, []⟩].map withoutRepeats)).success = true)
        ∧ ((resolve [⟨"listener".toList, ["talker".toList, "talker".toList]⟩,
              ⟨"talker".toList, []⟩]).success = true →
            (resolve ([⟨"listener".toList, ["talker".toList, "talker".toList]⟩,
                ⟨"talker".toList, []⟩].map withoutRepeats)).order
              = (resolve [⟨"listener".toList, ["talker".toList, "talker".toList]⟩,
                  ⟨"talker".toList, []⟩]).order)) := by
  decide +kernel

/-! ## Repeated names -/

/-- **A name that occurs more than once** comes out more than once: a list
    with such a name is ordered only where it is rejected. -/
theorem resolve_repeated_names_iff (nodes : List NodeConfig)
    (hrepeat : ¬ (nodes.map NodeConfig.name).Nodup) :
    ((resolve nodes).success = true →
        (∀ k ∈ nodes.map NodeConfig.name, (resolve nodes).order.count k = 1)
        ∧ ∀ n ∈ nodes, ∀ d ∈ n.dependencies,
            (resolve nodes).order.idxOf d < (resolve nodes).order.idxOf n.name)
      ↔ getMissingDependencies nodes ≠ [] ∨ hasCircularDependency nodes = true
          ∨ ¬ EntriesFit nodes := by
  have hfail : (getMissingDependencies nodes ≠ [] ∨ hasCircularDependency nodes = true
      ∨ ¬ EntriesFit nodes) ↔ ¬ (resolve nodes).success = true := by
    rw [resolve_success_iff, not_and_or, not_and_or, Bool.not_eq_false]
  rw [hfail]
  constructor
  · intro hprop h
    have hperm := resolve_order_perm h
    refine hrepeat (List.nodup_iff_count_eq_one.mpr ?_)
    intro k hk
    rw [← hperm.count_eq]
    exact (hprop h).1 k hk
  · intro hnot h
    exact absurd h hnot

theorem resolve_repeated_names_iff_clock :
    getMissingDependencies [⟨"talker".toList, ["clock".toList]⟩, ⟨"talker".toList, []⟩] ≠ []
      ∨ hasCircularDependency [⟨"talker".toList, ["clock".toList]⟩, ⟨"talker".toList, []⟩]
          = true
      ∨ ¬ EntriesFit [⟨"talker".toList, ["clock".toList]⟩, ⟨"talker".toList, []⟩] :=
  (resolve_repeated_names_iff [⟨"talker".toList, ["clock".toList]⟩, ⟨"talker".toList, []⟩]
    (by decide)).mp (fun h => absurd h (by decide))

/-- Two nodes of one name, neither of which lists anything. -/
theorem resolve_repeated_names_talker :
    ¬ (¬ ["talker".toList, "talker".toList].Nodup →
      (resolve [⟨"talker".toList, []⟩, ⟨"talker".toList, []⟩]).success = true →
      (∀ k ∈ ["talker".toList, "talker".toList],
        (resolve [⟨"talker".toList, []⟩, ⟨"talker".toList, []⟩]).order.count k = 1)
      ∧ ∀ n ∈ ([⟨"talker".toList, []⟩, ⟨"talker".toList, []⟩] : List NodeConfig),
        ∀ d ∈ n.dependencies,
          (resolve [⟨"talker".toList, []⟩, ⟨"talker".toList, []⟩]).order.idxOf d
            < (resolve [⟨"talker".toList, []⟩, ⟨"talker".toList, []⟩]).order.idxOf n.name) := by
  decide +kernel

end LaunchCpp.DependencyResolver
