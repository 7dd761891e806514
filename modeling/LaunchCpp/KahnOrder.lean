import LaunchCpp.NodeMaps

/-! # Kahn's loop against the dependency relation

    The invariant of the loop ties every counter to the processed names: the
    in-degree of a node is the length of its dependency list less the
    processed names that occur in it.  So a counter stands at zero exactly
    for the names processed or queued, and then every dependency has been
    processed.  When the queue runs empty the order is a dependency order;
    it is complete if no node lists a name twice, every name exists and every
    node is accessible. -/

namespace LaunchCpp.DependencyResolver

open OrderedMaps DependencyOrder

/-! ## The maps of distinct nodes -/

/-- With distinct names the graph holds each node's own list. -/
theorem find_buildAdjacencyList {nodes : List NodeConfig}
    (hnames : (nodes.map NodeConfig.name).Nodup) {k : Str} {ds : List Str} :
    (buildAdjacencyList nodes).find k = some ds
      ↔ ∃ n ∈ nodes, n.name = k ∧ n.dependencies = ds := by
  rw [find_buildAdjacencyList_iff]
  constructor
  · rintro ⟨n, hlast, hds⟩
    exact ⟨n, hlast.mem, hlast.name_eq, hds⟩
  · rintro ⟨n, hn, hname, hds⟩
    exact ⟨n, (lastOf_iff_mem hnames).mpr ⟨hn, hname⟩, hds⟩

theorem edge_buildAdjacencyList_iff {nodes : List NodeConfig}
    (hnames : (nodes.map NodeConfig.name).Nodup) {a b : Str} :
    Edge (buildAdjacencyList nodes) a b ↔ DependsOn nodes a b := by
  rw [edge_iff_lastDependsOn]
  constructor
  · rintro ⟨n, hlast, hb⟩
    exact ⟨n, hlast.mem, hlast.name_eq, hb⟩
  · rintro ⟨n, hn, hname, hb⟩
    exact ⟨n, (lastOf_iff_mem hnames).mpr ⟨hn, hname⟩, hb⟩

theorem keys_buildAdjacencyList_perm {nodes : List NodeConfig}
    (hnames : (nodes.map NodeConfig.name).Nodup) :
    (buildAdjacencyList nodes).keys.Perm (nodes.map NodeConfig.name) :=
  (List.perm_ext_iff_of_nodup (OrderedMap.keys_nodup _) hnames).mpr
    (fun _ => mem_keys_buildAdjacencyList)

private theorem count_dependencies (a : Str) (ds : List Str) (f : Str → Int) :
    ds.foldl (fun f _ => Function.update f a (f a + 1)) f
      = Function.update f a (f a + ds.length) := by
  induction ds generalizing f with
  | nil => simp
  | cons d ds ih =>
      rw [List.foldl_cons, ih]
      funext v
      by_cases hv : v = a
      · subst hv
        simp only [Function.update_self, List.length_cons]
        push_cast
        omega
      · simp [Function.update_of_ne hv]

private theorem count_nodes (nodes : List NodeConfig) (f : Str → Int) (k : Str) :
    nodes.foldl (fun inDegree node =>
        node.dependencies.foldl (fun inDegree _ =>
          Function.update inDegree node.name (inDegree node.name + 1)) inDegree) f k
      = f k + ((nodes.filter (fun n => n.name = k)).map
          (fun n => (n.dependencies.length : Int))).sum := by
  induction nodes generalizing f with
  | nil => simp
  | cons n nodes ih =>
      rw [List.foldl_cons, count_dependencies, ih]
      by_cases hk : n.name = k
      · subst hk
        simp only [Function.update_self, decide_true, List.filter_cons_of_pos,
          List.map_cons, List.sum_cons]
        omega
      · have hk' : k ≠ n.name := fun h => hk h.symm
        simp [Function.update_of_ne hk', hk]

private theorem count_zero (nodes : List NodeConfig) (f : Str → Int) (hf : ∀ k, f k = 0) :
    ∀ k, nodes.foldl (fun inDegree node => Function.update inDegree node.name 0) f k = 0 := by
  induction nodes generalizing f with
  | nil => exact hf
  | cons n nodes ih =>
      rw [List.foldl_cons]
      refine ih _ ?_
      intro k
      by_cases hk : k = n.name
      · subst hk; simp
      · rw [Function.update_of_ne hk]; exact hf k

/-- The counter of a name starts at all that is listed under it. -/
theorem buildInDegreeMap_apply (nodes : List NodeConfig) (k : Str) :
    buildInDegreeMap nodes k = ((nodes.filter (fun n => n.name = k)).map
      (fun n => (n.dependencies.length : Int))).sum := by
  rw [buildInDegreeMap, count_nodes, count_zero nodes _ (fun _ => rfl), Int.zero_add]

/-- With distinct names it starts at the number of listed dependencies. -/
theorem buildInDegreeMap_eq {nodes : List NodeConfig}
    (hnames : (nodes.map NodeConfig.name).Nodup) {n : NodeConfig} (hn : n ∈ nodes) :
    buildInDegreeMap nodes n.name = n.dependencies.length := by
  have honly : nodes.filter (fun m => m.name = n.name) = [n] := by
    have hnodup : (nodes.filter (fun m => m.name = n.name)).Nodup :=
      (List.Nodup.of_map _ hnames).filter _
    refine List.perm_singleton.mp
      ((List.perm_ext_iff_of_nodup hnodup (List.nodup_singleton n)).mpr (fun m => ?_))
    rw [List.mem_filter, List.mem_singleton]
    constructor
    · rintro ⟨hm, hname⟩
      exact List.inj_on_of_nodup_map hnames hm hn (by simpa using hname)
    · rintro rfl
      exact ⟨hn, by simp⟩
  rw [buildInDegreeMap_apply, honly]
  simp

/-! ## One pass over the graph -/

variable {graph : OrderedMap Str (List Str)}

theorem relax_order (c : Str) (s : KahnState) (e : Str × List Str) :
    (relax c s e).order = s.order := by
  rw [relax]
  by_cases hc : c ∈ e.2
  · rw [if_pos hc]
  · rw [if_neg hc]

theorem relax_inDegree (c : Str) (s : KahnState) (e : Str × List Str) (v : Str) :
    (relax c s e).inDegree v
      = if v = e.1 ∧ c ∈ e.2 then s.inDegree v - 1 else s.inDegree v := by
  rw [relax]
  by_cases hc : c ∈ e.2
  · rw [if_pos hc]
    by_cases hv : v = e.1
    · subst hv; simp [hc]
    · simp [hv]
  · simp [hc]

theorem relax_queue (c : Str) (s : KahnState) (e : Str × List Str) :
    (relax c s e).queue
      = s.queue ++ (if c ∈ e.2 ∧ s.inDegree e.1 = 1 then [e.1] else []) := by
  rw [relax]
  by_cases hc : c ∈ e.2
  · rw [if_pos hc]
    by_cases h1 : s.inDegree e.1 = 1
    · simp [hc, h1]
    · have h0 : s.inDegree e.1 - 1 ≠ 0 := by omega
      simp [h0, h1]
  · simp [hc]

/-- The inner loop does not touch the order. -/
theorem foldl_relax_order (c : Str) (es : List (Str × List Str)) (s : KahnState) :
    (es.foldl (relax c) s).order = s.order := by
  induction es generalizing s with
  | nil => rfl
  | cons e es ih =>
      rw [List.foldl_cons, ih, relax_order]

/-- It takes one off the counters of the names that list the processed one,
    and no counter of a name that is not among the entries. -/
theorem foldl_relax_inDegree (c : Str) (es : List (Str × List Str)) (s : KahnState)
    (hnodup : (es.map Prod.fst).Nodup) (v : Str) :
    (es.foldl (relax c) s).inDegree v
      = if ∃ e ∈ es, e.1 = v ∧ c ∈ e.2 then s.inDegree v - 1 else s.inDegree v := by
  induction es generalizing s with
  | nil => simp
  | cons e es ih =>
      obtain ⟨hnot, hes⟩ := List.nodup_cons.mp hnodup
      rw [List.foldl_cons, ih (relax c s e) hes, relax_inDegree]
      simp only [List.exists_mem_cons_iff]
      by_cases hv : v = e.1
      · subst hv
        -- the entry just relaxed does not occur again
        have hno : ¬ ∃ x ∈ es, x.1 = e.1 ∧ c ∈ x.2 := by
          rintro ⟨x, hx, hxe, -⟩
          exact hnot (List.mem_map.mpr ⟨x, hx, hxe⟩)
        simp only [hno, true_and, or_false, if_false]
      · have hne : ¬ e.1 = v := fun heq => hv heq.symm
        simp only [hv, hne, false_and, false_or, if_false]

/-- It queues the names whose counter was at one. -/
theorem foldl_relax_queue (c : Str) (es : List (Str × List Str)) (s : KahnState)
    (hnodup : (es.map Prod.fst).Nodup) :
    (es.foldl (relax c) s).queue
      = s.queue ++ (es.filter (fun e => c ∈ e.2 ∧ s.inDegree e.1 = 1)).map Prod.fst := by
  induction es generalizing s with
  | nil => simp
  | cons e es ih =>
      obtain ⟨hnot, hes⟩ := List.nodup_cons.mp hnodup
      have hkeep : ∀ x ∈ es, (relax c s e).inDegree x.1 = s.inDegree x.1 := by
        intro x hx
        have hother : x.1 ≠ e.1 := fun heq => hnot (List.mem_map.mpr ⟨x, hx, heq⟩)
        rw [relax_inDegree, if_neg (fun h => hother h.1)]
      have hfilter : es.filter (fun x => c ∈ x.2 ∧ (relax c s e).inDegree x.1 = 1)
          = es.filter (fun x => c ∈ x.2 ∧ s.inDegree x.1 = 1) :=
        List.filter_congr (fun x hx => by rw [hkeep x hx])
      rw [List.foldl_cons, ih (relax c s e) hes, hfilter, relax_queue, List.filter_cons]
      by_cases hpush : c ∈ e.2 ∧ s.inDegree e.1 = 1
      · simp [hpush]
      · simp [hpush]

/-- **What one pass does**, told by the graph: the counters of the nodes that
    list `c` go down by one, and those that reach zero are queued. -/
theorem kahnStep_spec (graph : OrderedMap Str (List Str)) (c : Str) (s : KahnState) :
    (kahnStep graph c s).order = s.order ++ [c]
    ∧ (∀ v ds, graph.find v = some ds → (kahnStep graph c s).inDegree v
        = if c ∈ ds then s.inDegree v - 1 else s.inDegree v)
    ∧ ∃ freed : List Str, (kahnStep graph c s).queue = s.queue ++ freed ∧ freed.Nodup
        ∧ ∀ v, v ∈ freed ↔ ∃ ds, graph.find v = some ds ∧ c ∈ ds ∧ s.inDegree v = 1 := by
  have horder := foldl_relax_order c graph.entries { s with order := s.order ++ [c] }
  have hdeg := foldl_relax_inDegree c graph.entries { s with order := s.order ++ [c] }
    graph.keys_nodup
  have hqueue := foldl_relax_queue c graph.entries { s with order := s.order ++ [c] }
    graph.keys_nodup
  refine ⟨horder, ?_, _, hqueue, graph.keys_nodup.sublist (List.filter_sublist.map _), ?_⟩
  · intro v ds hfind
    have hentry : (∃ e ∈ graph.entries, e.1 = v ∧ c ∈ e.2) ↔ c ∈ ds := by
      constructor
      · rintro ⟨e, he, rfl, hc⟩
        have hfe : graph.find e.1 = some e.2 := OrderedMap.find_eq_some_iff.mpr he
        rw [hfind] at hfe
        exact Option.some.inj hfe ▸ hc
      · intro hc
        exact ⟨(v, ds), OrderedMap.find_eq_some_iff.mp hfind, rfl, hc⟩
    exact (hdeg v).trans (if_congr hentry rfl rfl)
  · intro v
    constructor
    · intro hv
      obtain ⟨e, he, rfl⟩ := List.mem_map.mp hv
      obtain ⟨hmem, hcond⟩ := List.mem_filter.mp he
      have hcond' : c ∈ e.2 ∧ s.inDegree e.1 = 1 := by simpa using hcond
      exact ⟨e.2, OrderedMap.find_eq_some_iff.mpr hmem, hcond'⟩
    · rintro ⟨ds, hfind, hc, h1⟩
      refine List.mem_map.mpr ⟨(v, ds), List.mem_filter.mpr
        ⟨OrderedMap.find_eq_some_iff.mp hfind, ?_⟩, rfl⟩
      simpa using ⟨hc, h1⟩

/-- The same of the pass that takes the front of the queue: processed or queued
    names keep their places, the freed ones come behind. -/
theorem kahnStep_pop (graph : OrderedMap Str (List Str)) {s : KahnState} {c : Str}
    {rest : List Str} (hq : s.queue = c :: rest) :
    (kahnStep graph c { s with queue := rest }).order = s.order ++ [c]
    ∧ (∀ v ds, graph.find v = some ds → (kahnStep graph c { s with queue := rest }).inDegree v
        = if c ∈ ds then s.inDegree v - 1 else s.inDegree v)
    ∧ ∃ freed : List Str, (kahnStep graph c { s with queue := rest }).order
          ++ (kahnStep graph c { s with queue := rest }).queue = (s.order ++ s.queue) ++ freed
        ∧ freed.Nodup
        ∧ ∀ v, v ∈ freed ↔ ∃ ds, graph.find v = some ds ∧ c ∈ ds ∧ s.inDegree v = 1 := by
  obtain ⟨horder, hdeg, freed, hqueue, hfreed, hmem⟩ :=
    kahnStep_spec graph c { s with queue := rest }
  refine ⟨horder, hdeg, freed, ?_, hfreed, hmem⟩
  rw [horder, hqueue, hq]
  simp

/-- Of a name in the graph: it is freed when only the processed one was missing. -/
theorem freed_iff {graph : OrderedMap Str (List Str)} {freed ds : List Str} {c v : Str}
    {inDegree : Str → Int}
    (hmem : ∀ v, v ∈ freed ↔ ∃ ds, graph.find v = some ds ∧ c ∈ ds ∧ inDegree v = 1)
    (hfind : graph.find v = some ds) : v ∈ freed ↔ c ∈ ds ∧ inDegree v = 1 := by
  rw [hmem v]
  constructor
  · rintro ⟨ds', hds', hc, h1⟩
    rw [hfind] at hds'
    exact ⟨Option.some.inj hds' ▸ hc, h1⟩
  · rintro ⟨hc, h1⟩
    exact ⟨ds, hfind, hc, h1⟩

/-! ## The invariant of the loop -/

/-- Counters, queue and order agree with the graph. -/
structure KahnInv (graph : OrderedMap Str (List Str)) (s : KahnState) : Prop where
  nodup : (s.order ++ s.queue).Nodup
  mem_keys : ∀ v ∈ s.order ++ s.queue, v ∈ graph.keys
  degree : ∀ v ds, graph.find v = some ds →
    s.inDegree v = ds.length - (s.order.filter (· ∈ ds)).length
  zero_iff : ∀ v ds, graph.find v = some ds →
    (s.inDegree v = 0 ↔ v ∈ s.order ++ s.queue)
  ordered : Ordered (Edge graph) s.order

/-- A counter at zero means that every dependency was processed. -/
theorem KahnInv.processed_of_zero {s : KahnState} (h : KahnInv graph s) {v : Str}
    {ds : List Str} (hfind : graph.find v = some ds) (hzero : s.inDegree v = 0) :
    ∀ d ∈ ds, d ∈ s.order := by
  have hdeg := h.degree v ds hfind
  refine Counting.mem_of_length_le_filter (List.nodup_append.mp h.nodup).1 ?_
  omega

/-- A node that lists the name at the front of the queue is not there yet. -/
theorem KahnInv.not_mem_of_waiting {s : KahnState} {c : Str} {rest : List Str}
    (h : KahnInv graph s) (hq : s.queue = c :: rest) {v : Str} {ds : List Str}
    (hfind : graph.find v = some ds) (hc : c ∈ ds) : v ∉ s.order ++ s.queue := by
  intro hv
  have hnodup := h.nodup
  rw [hq] at hnodup
  refine (List.nodup_append.mp hnodup).2.2 c ?_ c List.mem_cons_self rfl
  exact h.processed_of_zero hfind ((h.zero_iff v ds hfind).mpr hv) c hc

theorem KahnInv.step {s : KahnState} {c : Str} {rest : List Str}
    (h : KahnInv graph s) (hq : s.queue = c :: rest) :
    KahnInv graph (kahnStep graph c { s with queue := rest }) := by
  obtain ⟨horder, hdeg, freed, hlist, hfreed, hmem⟩ := kahnStep_pop graph hq
  have hcmem : c ∈ s.order ++ s.queue := by
    rw [hq]
    exact List.mem_append_right _ List.mem_cons_self
  constructor
  · rw [hlist]
    refine List.nodup_append.mpr ⟨h.nodup, hfreed, ?_⟩
    rintro a ha b hb rfl
    obtain ⟨ds, hfind, hc, -⟩ := (hmem a).mp hb
    exact h.not_mem_of_waiting hq hfind hc ha
  · intro v hv
    rw [hlist] at hv
    rcases List.mem_append.mp hv with hv | hv
    · exact h.mem_keys v hv
    · obtain ⟨ds, hfind, -⟩ := (hmem v).mp hv
      exact OrderedMap.mem_keys_iff.mpr ⟨ds, hfind⟩
  · intro v ds hfind
    have hd := h.degree v ds hfind
    rw [hdeg v ds hfind, horder, List.filter_append, List.length_append]
    by_cases hc : c ∈ ds
    · rw [if_pos hc]
      simp only [hc, decide_true, List.filter_cons_of_pos, List.filter_nil,
        List.length_singleton]
      push_cast
      omega
    · rw [if_neg hc]
      simpa [hc] using hd
  · intro v ds hfind
    have hz := h.zero_iff v ds hfind
    rw [hlist, List.mem_append, freed_iff hmem hfind, hdeg v ds hfind]
    by_cases hc : c ∈ ds
    · have hnot := h.not_mem_of_waiting hq hfind hc
      rw [if_pos hc]
      constructor
      · intro h0
        exact Or.inr ⟨hc, by omega⟩
      · rintro (hv | ⟨-, h1⟩)
        · exact absurd hv hnot
        · omega
    · rw [if_neg hc]
      constructor
      · intro h0
        exact Or.inl (hz.mp h0)
      · rintro (hv | ⟨hc', -⟩)
        · exact hz.mpr hv
        · exact absurd hc' hc
  · rw [horder]
    refine h.ordered.concat ?_
    intro d hd
    obtain ⟨ds, hfind⟩ := OrderedMap.mem_keys_iff.mp hd.mem_keys
    have hdds : d ∈ ds := by
      rw [Edge, hfind] at hd
      exact hd
    exact h.processed_of_zero hfind ((h.zero_iff c ds hfind).mpr hcmem) d hdds

/-- What every pass keeps holds when the loop is left, with an empty queue. -/
theorem kahnLoop_invariant {P : KahnState → Prop}
    (hstep : ∀ {s c rest}, s.queue = c :: rest → P s →
      P (kahnStep graph c { s with queue := rest })) :
    ∀ (fuel : Nat) (s s' : KahnState), kahnLoop graph fuel s = some s' → P s →
      P s' ∧ s'.queue = [] := by
  intro fuel
  induction fuel with
  | zero =>
      intro s s' hrun hs
      unfold kahnLoop at hrun
      cases hq : s.queue with
      | nil =>
          simp only [hq, Option.some.injEq] at hrun
          exact ⟨hrun ▸ hs, hrun ▸ hq⟩
      | cons c rest => simp [hq] at hrun
  | succ fuel ih =>
      intro s s' hrun hs
      unfold kahnLoop at hrun
      cases hq : s.queue with
      | nil =>
          simp only [hq, Option.some.injEq] at hrun
          exact ⟨hrun ▸ hs, hrun ▸ hq⟩
      | cons c rest =>
          simp only [hq] at hrun
          exact ih _ s' hrun (hstep hq hs)

/-- The loop starts in its invariant. -/
theorem kahnInit_inv {nodes : List NodeConfig}
    (hnames : (nodes.map NodeConfig.name).Nodup) :
    KahnInv (buildAdjacencyList nodes) (kahnInit nodes) := by
  have hqueue : ∀ v, v ∈ (kahnInit nodes).queue
      ↔ ∃ n ∈ nodes, n.dependencies = [] ∧ n.name = v := by
    intro v
    simp [kahnInit, and_assoc]
  have hdegree : ∀ v ds, (buildAdjacencyList nodes).find v = some ds →
      (kahnInit nodes).inDegree v = ds.length := by
    intro v ds hfind
    obtain ⟨n, hn, rfl, rfl⟩ := (find_buildAdjacencyList hnames).mp hfind
    exact buildInDegreeMap_eq hnames hn
  refine ⟨?_, ?_, ?_, ?_, Ordered.nil⟩
  · show ([] ++ (kahnInit nodes).queue).Nodup
    exact hnames.sublist (List.filter_sublist.map _)
  · intro v hv
    obtain ⟨n, hn, -, rfl⟩ := (hqueue v).mp hv
    exact OrderedMap.mem_keys_iff.mpr
      ⟨n.dependencies, (find_buildAdjacencyList hnames).mpr ⟨n, hn, rfl, rfl⟩⟩
  · intro v ds hfind
    rw [hdegree v ds hfind]
    simp [kahnInit]
  · intro v ds hfind
    rw [hdegree v ds hfind]
    show (ds.length : Int) = 0 ↔ v ∈ [] ++ (kahnInit nodes).queue
    rw [List.nil_append, hqueue]
    obtain ⟨n, hn, hnv, hnds⟩ := (find_buildAdjacencyList hnames).mp hfind
    constructor
    · intro h0
      have hds : ds = [] := List.eq_nil_of_length_eq_zero (by omega)
      exact ⟨n, hn, hnds.trans hds, hnv⟩
    · rintro ⟨m, hm, hmd, hmv⟩
      have hmn : m = n := List.inj_on_of_nodup_map hnames hm hn (hmv.trans hnv.symm)
      rw [← hnds, ← hmn, hmd]
      rfl

/-- **What the loop of `resolve` ends with.** -/
theorem kahn_inv {nodes : List NodeConfig}
    (hnames : (nodes.map NodeConfig.name).Nodup) :
    KahnInv (buildAdjacencyList nodes) (kahn nodes) ∧ (kahn nodes).queue = [] :=
  kahnLoop_invariant (fun hq hinv => hinv.step hq) _ (kahnInit nodes) (kahn nodes)
    (Option.some_get _).symm (kahnInit_inv hnames)

/-- **Completeness of the loop.** Without repeated entries and missing names,
    every accessible node is processed. -/
theorem mem_kahn_order {nodes : List NodeConfig}
    (hnames : (nodes.map NodeConfig.name).Nodup)
    (hdeps : ∀ n ∈ nodes, n.dependencies.Nodup)
    (hexist : ∀ a b, DependsOn nodes a b → b ∈ nodes.map NodeConfig.name) {v : Str}
    (hacc : Acc (fun b a => Edge (buildAdjacencyList nodes) a b) v)
    (hv : v ∈ nodes.map NodeConfig.name) : v ∈ (kahn nodes).order := by
  obtain ⟨hinv, hempty⟩ := kahn_inv hnames
  induction hacc with
  | intro v _ ih =>
      obtain ⟨n, hn, rfl⟩ := List.mem_map.mp hv
      have hfind := (find_buildAdjacencyList hnames).mpr ⟨n, hn, rfl, rfl⟩
      have hall : ∀ d ∈ n.dependencies, d ∈ (kahn nodes).order := by
        intro d hd
        have hdep : DependsOn nodes n.name d := ⟨n, hn, rfl, hd⟩
        exact ih d ((edge_buildAdjacencyList_iff hnames).mpr hdep) (hexist _ _ hdep)
      -- every dependency was processed, each once: the counter has come down to zero
      have hlow := Counting.length_le_length_filter (hdeps n hn) hall
      have hhigh : ((kahn nodes).order.filter (fun x => x ∈ n.dependencies)).length
          ≤ n.dependencies.length :=
        Counting.length_filter_mem_le (List.nodup_append.mp hinv.nodup).1
      have hzero : (kahn nodes).inDegree n.name = 0 := by
        rw [hinv.degree _ _ hfind]
        omega
      have hmem := (hinv.zero_iff _ _ hfind).mp hzero
      rwa [hempty, List.append_nil] at hmem

end LaunchCpp.DependencyResolver
