import LaunchCpp.ResolverSpec
import LaunchCpp.Library.StartupRuns

/-! # Parallel startup against the resolver

    `get_ready_nodes` is asked over and over while nodes are started: a
    scheduler of sets, which shares no code with the queue of `resolve`.  Two
    results tie the two together.  However the ready nodes are taken, the
    startup ends complete exactly when both checks of `resolve` pass; and if
    all ready nodes are taken at once, the waves are the order of `resolve`,
    cut into pieces.  For the latter the queue is read wave by wave: once the
    loop has processed all that was queued, the names queued since are the
    ready nodes again. -/

namespace LaunchCpp.DependencyResolver

open OrderedMaps DependencyOrder TransitionSystems StartupRuns

variable {nodes : List NodeConfig}

/-- The names of the nodes. -/
def nodeNames (nodes : List NodeConfig) : Finset Str := (nodes.map NodeConfig.name).toFinset

theorem mem_nodeNames {v : Str} : v ∈ nodeNames nodes ↔ v ∈ nodes.map NodeConfig.name :=
  List.mem_toFinset

theorem canStartNode_iff {v : Str} {started : Finset Str} :
    canStartNode v started (buildNodeMap nodes) = true
      ↔ ∃ n, LastOf nodes v n ∧ ∀ d ∈ n.dependencies, d ∈ started := by
  rw [canStartNode]
  cases hfind : (buildNodeMap nodes).find v with
  | none =>
      constructor
      · intro h
        cases h
      · rintro ⟨n, hlast, -⟩
        rw [find_buildNodeMap.mpr hlast] at hfind
        cases hfind
  | some n =>
      have hlast := find_buildNodeMap.mp hfind
      simp only [List.all_eq_true, decide_eq_true_eq]
      constructor
      · intro h
        exact ⟨n, hlast, h⟩
      · rintro ⟨m, hm, hdeps⟩
        rw [find_buildNodeMap.mpr hm] at hfind
        exact Option.some.inj hfind ▸ hdeps

/-- **What is ready**: a waiting node all of whose dependencies are started. -/
theorem mem_getReadyNodes_iff (hnames : (nodes.map NodeConfig.name).Nodup) {v : Str}
    {remaining started : Finset Str} :
    v ∈ getReadyNodes remaining started (buildNodeMap nodes)
      ↔ v ∈ nodeNames nodes ∧ v ∈ remaining ∧ ∀ d, DependsOn nodes v d → d ∈ started := by
  rw [getReadyNodes, List.mem_filter, Finset.mem_sort, canStartNode_iff]
  constructor
  · rintro ⟨hv, n, hlast, hdeps⟩
    refine ⟨mem_nodeNames.mpr (List.mem_map.mpr ⟨n, hlast.mem, hlast.name_eq⟩), hv, ?_⟩
    rintro d ⟨m, hm, hmv, hd⟩
    have hmn : m = n := List.inj_on_of_nodup_map hnames hm hlast.mem
      (hmv.trans hlast.name_eq.symm)
    exact hdeps d (hmn ▸ hd)
  · rintro ⟨hv, hrem, hdeps⟩
    obtain ⟨n, hn, hname⟩ := List.mem_map.mp (mem_nodeNames.mp hv)
    exact ⟨hrem, n, (lastOf_iff_mem hnames).mpr ⟨hn, hname⟩,
      fun d hd => hdeps d ⟨n, hn, hname, hd⟩⟩

theorem nodup_getReadyNodes (remaining started : Finset Str)
    (allNodes : OrderedMap Str NodeConfig) :
    (getReadyNodes remaining started allNodes).Nodup :=
  (Finset.sort_nodup _ _).filter _

/-! ## Any choice of ready nodes -/

/-- One step of a parallel startup: some of the ready nodes are started. -/
def Starts (nodes : List NodeConfig) (s : Startup Str) (wave : Finset Str)
    (t : Startup Str) : Prop :=
  wave.Nonempty
    ∧ (∀ v ∈ wave, v ∈ getReadyNodes s.remaining s.started (buildNodeMap nodes))
    ∧ t = s.move wave

theorem Starts.moves (hnames : (nodes.map NodeConfig.name).Nodup) {s t : Startup Str}
    {wave : Finset Str} (h : Starts nodes s wave t) :
    Startup.Moves (DependsOn nodes) s wave t := by
  obtain ⟨hne, hready, ht⟩ := h
  exact ⟨hne, fun v hv => ((mem_getReadyNodes_iff hnames).mp (hready v hv)).2, ht⟩

theorem inv_of_starts (hnames : (nodes.map NodeConfig.name).Nodup) {s : Startup Str}
    (hrun : Steps (Starts nodes) (Startup.init (nodeNames nodes)) s) :
    Startup.Inv (DependsOn nodes) (nodeNames nodes) s :=
  hrun.invariant (fun h hstep => h.step (hstep.moves hnames)) Startup.Inv.init

/-- Both checks of `resolve`, told by the dependency relation. -/
theorem checks_pass_iff (hnames : (nodes.map NodeConfig.name).Nodup) :
    getMissingDependencies nodes = [] ∧ hasCircularDependency nodes = false
      ↔ (∀ v ∈ nodeNames nodes, Acc (fun b a => DependsOn nodes a b) v)
        ∧ ∀ v ∈ nodeNames nodes, ∀ b, DependsOn nodes v b → b ∈ nodeNames nodes := by
  have hhas : hasCircularDependency nodes = false ↔ ¬ Cyclic (DependsOn nodes) := by
    rw [← getCircularPath_eq_nil_iff hnames, hasCircularDependency]
    simp
  have hname : ∀ {a b}, DependsOn nodes a b → a ∈ nodeNames nodes := by
    rintro a b ⟨n, hn, rfl, -⟩
    exact mem_nodeNames.mpr (List.mem_map_of_mem hn)
  rw [getMissingDependencies_eq_nil_iff, hhas]
  constructor
  · rintro ⟨hexist, hcyc⟩
    refine ⟨?_, fun v _ b hb => mem_nodeNames.mpr (hexist v b hb)⟩
    intro v hv
    have hacc := acc_of_not_cyclic hnames hcyc (mem_nodeNames.mp hv)
    exact Subrelation.accessible (fun h => (edge_buildAdjacencyList_iff hnames).mpr h) hacc
  · rintro ⟨hacc, hclosed⟩
    exact ⟨fun a b hab => mem_nodeNames.mp (hclosed a (hname hab) b hab),
      not_cyclic_of_acc (fun a b hab => hacc a (hname hab))⟩

/-- **Parallel startup**, however the ready nodes are picked: nothing is
    started before its dependencies, no run goes on for ever, and the one
    that is left without ready nodes has started everything exactly if no
    name is missing and there is no cycle. -/
theorem parallel_startup (nodes : List NodeConfig)
    (hnames : (nodes.map NodeConfig.name).Nodup) :
    (∀ s, Steps (Starts nodes) (Startup.init (nodeNames nodes)) s →
      (∀ wave t, Starts nodes s wave t →
        ∀ v ∈ wave, ∀ d, DependsOn nodes v d → d ∈ s.started)
      ∧ (getReadyNodes s.remaining s.started (buildNodeMap nodes) = [] →
          (s.remaining = ∅
            ↔ getMissingDependencies nodes = [] ∧ hasCircularDependency nodes = false)))
    ∧ ∀ run : ℕ → Startup Str, ¬ ∀ n, ∃ wave, Starts nodes (run n) wave (run (n + 1)) := by
  refine ⟨fun s hrun => ⟨?_, ?_⟩, ?_⟩
  · intro wave t hstep v hv
    exact ((hstep.moves hnames).2.1 v hv).2
  · intro hnone
    have hinv := inv_of_starts hnames hrun
    have hstuck : ∀ v, ¬ Startup.Ready (DependsOn nodes) s v := by
      rintro v ⟨hv, hdeps⟩
      have hall : v ∈ nodeNames nodes := hinv.cover ▸ Finset.mem_union_left _ hv
      have hmem := (mem_getReadyNodes_iff hnames).mpr ⟨hall, hv, hdeps⟩
      rw [hnone] at hmem
      cases hmem
    rw [checks_pass_iff hnames]
    exact hinv.stuck_iff hstuck
  · intro run hrun
    have hmoves : ∀ n, ∃ wave, Startup.Moves (DependsOn nodes) (run n) wave (run (n + 1)) := by
      intro n
      obtain ⟨wave, hstep⟩ := hrun n
      exact ⟨wave, hstep.moves hnames⟩
    exact Startup.run_ends run hmoves

theorem parallel_startup_two_nodes :
    (∀ s, Steps (Starts [⟨"listener".toList, ["talker".toList]⟩, ⟨"talker".toList, []⟩])
        (Startup.init
          (nodeNames [⟨"listener".toList, ["talker".toList]⟩, ⟨"talker".toList, []⟩])) s →
      getReadyNodes s.remaining s.started
          (buildNodeMap [⟨"listener".toList, ["talker".toList]⟩, ⟨"talker".toList, []⟩]) = [] →
        s.remaining = ∅)
    ∧ ∀ run : ℕ → Startup Str, ¬ ∀ n, ∃ wave,
        Starts [⟨"listener".toList, ["talker".toList]⟩, ⟨"talker".toList, []⟩]
          (run n) wave (run (n + 1)) := by
  obtain ⟨hruns, hends⟩ := parallel_startup
    [⟨"listener".toList, ["talker".toList]⟩, ⟨"talker".toList, []⟩] (by decide)
  refine ⟨?_, hends⟩
  intro s hrun hnone
  exact ((hruns s hrun).2 hnone).mpr ⟨by decide, by decide⟩

/-! ## All ready nodes at once -/

/-- The waves of a startup that always takes every ready node. -/
inductive Waves (allNodes : OrderedMap Str NodeConfig) :
    Startup Str → List (List Str) → Prop where
  | done {s : Startup Str} (hnone : s.remaining = ∅) : Waves allNodes s []
  | wave {s : Startup Str} {ws : List (List Str)} (hsome : s.remaining ≠ ∅)
      (hrest : Waves allNodes
        (s.move (getReadyNodes s.remaining s.started allNodes).toFinset) ws) :
      Waves allNodes s (getReadyNodes s.remaining s.started allNodes :: ws)

theorem Waves.unique {allNodes : OrderedMap Str NodeConfig} {s : Startup Str}
    {ws ws' : List (List Str)} (h : Waves allNodes s ws) (h' : Waves allNodes s ws') :
    ws' = ws := by
  induction h generalizing ws' with
  | done hnone =>
      cases h' with
      | done _ => rfl
      | wave hsome _ => exact absurd hnone hsome
  | wave hsome _ ih =>
      cases h' with
      | done hnone => exact absurd hnone hsome
      | wave _ hrest => rw [ih hrest]

/-- The startup a state of Kahn's loop stands for: what is processed is
    started. -/
def startupOf (nodes : List NodeConfig) (s : KahnState) : Startup Str :=
  ⟨nodeNames nodes \ s.order.toFinset, s.order.toFinset⟩

variable {s : KahnState}

/-- **The queue is the ready set**, in every state of the loop. -/
theorem mem_queue_iff (hnames : (nodes.map NodeConfig.name).Nodup)
    (hdeps : ∀ n ∈ nodes, n.dependencies.Nodup)
    (hinv : KahnInv (buildAdjacencyList nodes) s) {v : Str} :
    v ∈ s.queue ↔ v ∈ getReadyNodes (startupOf nodes s).remaining
      (startupOf nodes s).started (buildNodeMap nodes) := by
  rw [mem_getReadyNodes_iff hnames]
  simp only [startupOf, Finset.mem_sdiff, List.mem_toFinset]
  constructor
  · intro hv
    have hmem : v ∈ s.order ++ s.queue := List.mem_append_right _ hv
    obtain ⟨ds, hfind⟩ := OrderedMap.mem_keys_iff.mp (hinv.mem_keys v hmem)
    have hall : v ∈ nodeNames nodes :=
      mem_nodeNames.mpr (mem_keys_buildAdjacencyList.mp (hinv.mem_keys v hmem))
    refine ⟨hall, ⟨hall, ?_⟩, ?_⟩
    · intro ho
      exact (List.nodup_append.mp hinv.nodup).2.2 v ho v hv rfl
    · intro d hd
      have hdds := (edge_buildAdjacencyList_iff hnames).mpr hd
      rw [Edge, hfind] at hdds
      exact hinv.processed_of_zero hfind ((hinv.zero_iff v ds hfind).mpr hmem) d hdds
  · rintro ⟨hall, ⟨-, hnot⟩, hready⟩
    obtain ⟨n, hn, rfl⟩ := List.mem_map.mp (mem_nodeNames.mp hall)
    have hfind := (find_buildAdjacencyList hnames).mpr ⟨n, hn, rfl, rfl⟩
    -- all dependencies are processed, each is listed once: the counter is at zero
    have hlow := Counting.length_le_length_filter (hdeps n hn)
      (fun d hd => hready d ⟨n, hn, rfl, hd⟩)
    have hhigh : (s.order.filter (fun x => x ∈ n.dependencies)).length
        ≤ n.dependencies.length :=
      Counting.length_filter_mem_le (List.nodup_append.mp hinv.nodup).1
    have hzero : s.inDegree n.name = 0 := by
      rw [hinv.degree _ _ hfind]
      omega
    have hmem := (hinv.zero_iff _ _ hfind).mp hzero
    exact (List.mem_append.mp hmem).resolve_left hnot

theorem queue_perm_ready (hnames : (nodes.map NodeConfig.name).Nodup)
    (hdeps : ∀ n ∈ nodes, n.dependencies.Nodup)
    (hinv : KahnInv (buildAdjacencyList nodes) s) :
    s.queue.Perm (getReadyNodes (startupOf nodes s).remaining
      (startupOf nodes s).started (buildNodeMap nodes)) :=
  (List.perm_ext_iff_of_nodup (List.nodup_append.mp hinv.nodup).2.1
    (nodup_getReadyNodes _ _ _)).mpr (fun _ => mem_queue_iff hnames hdeps hinv)

/-- The startup behind a state of the loop is one a run can reach. -/
theorem inv_startupOf (hnames : (nodes.map NodeConfig.name).Nodup)
    (hinv : KahnInv (buildAdjacencyList nodes) s) :
    Startup.Inv (DependsOn nodes) (nodeNames nodes) (startupOf nodes s) := by
  have hedge : Edge (buildAdjacencyList nodes) = DependsOn nodes := by
    ext a b
    exact edge_buildAdjacencyList_iff hnames
  have hord : Ordered (DependsOn nodes) s.order := hedge ▸ hinv.ordered
  refine ⟨Finset.sdiff_union_of_subset ?_, ?_, ?_⟩
  · intro v hv
    have hkey := hinv.mem_keys v (List.mem_append_left _ (List.mem_toFinset.mp hv))
    exact mem_nodeNames.mpr (mem_keys_buildAdjacencyList.mp hkey)
  · intro v hv b hb
    obtain ⟨l₁, l₂, hsplit⟩ := List.append_of_mem (List.mem_toFinset.mp hv)
    have hmem := hord l₁ v l₂ hsplit b hb
    refine List.mem_toFinset.mpr ?_
    rw [hsplit]
    exact List.mem_append_left _ hmem
  · intro v hv
    exact hord.acc v (List.mem_toFinset.mp hv)

/-- Running the loop until a first part of the queue is processed. -/
theorem kahnLoop_drain {graph : OrderedMap Str (List Str)} {s' : KahnState} :
    ∀ (q r : List Str) (s : KahnState) (fuel : Nat), s.queue = q ++ r →
      KahnInv graph s → kahnLoop graph fuel s = some s' →
      ∃ fuel' t freed, kahnLoop graph fuel' t = some s' ∧ KahnInv graph t
        ∧ t.order = s.order ++ q ∧ t.queue = r ++ freed := by
  intro q
  induction q with
  | nil =>
      intro r s fuel hq hinv hrun
      exact ⟨fuel, s, [], hrun, hinv, (List.append_nil _).symm, by simpa using hq⟩
  | cons c q ih =>
      intro r s fuel hq hinv hrun
      rw [List.cons_append] at hq
      cases fuel with
      | zero =>
          unfold kahnLoop at hrun
          simp [hq] at hrun
      | succ fuel =>
          unfold kahnLoop at hrun
          simp only [hq] at hrun
          obtain ⟨horder, -, freed, hqueue, -, -⟩ :=
            kahnStep_spec graph c { s with queue := q ++ r }
          obtain ⟨fuel', t, freed', hrun', hinv', horder', hqueue'⟩ :=
            ih (r ++ freed) _ fuel (by rw [hqueue, List.append_assoc])
              (hinv.step hq) hrun
          refine ⟨fuel', t, freed ++ freed', hrun', hinv', ?_, ?_⟩
          · rw [horder', horder, List.append_assoc, List.singleton_append]
          · rw [hqueue', List.append_assoc]

/-- With nothing left to start the loop ends where it is. -/
theorem kahnLoop_of_remaining (hnames : (nodes.map NodeConfig.name).Nodup)
    (hdeps : ∀ n ∈ nodes, n.dependencies.Nodup) {s' : KahnState} {fuel : Nat}
    (hempty : (startupOf nodes s).remaining = ∅)
    (hinv : KahnInv (buildAdjacencyList nodes) s)
    (hrun : kahnLoop (buildAdjacencyList nodes) fuel s = some s') : s = s' := by
  have hqueue : s.queue = [] := by
    refine List.eq_nil_iff_forall_not_mem.mpr ?_
    intro v hv
    have hready := (mem_queue_iff hnames hdeps hinv).mp hv
    have hrem := ((mem_getReadyNodes_iff hnames).mp hready).2.1
    rw [hempty] at hrem
    exact Finset.notMem_empty v hrem
  unfold kahnLoop at hrun
  simpa [hqueue] using hrun

/-- Starting the queue is a move: acyclicity gives a ready node, so it takes
    something away. -/
theorem moves_queue (hnames : (nodes.map NodeConfig.name).Nodup)
    (hdeps : ∀ n ∈ nodes, n.dependencies.Nodup)
    (hacc : ∀ v ∈ nodeNames nodes, Acc (fun b a => DependsOn nodes a b) v)
    (hclosed : ∀ v ∈ nodeNames nodes, ∀ b, DependsOn nodes v b → b ∈ nodeNames nodes)
    (hinv : KahnInv (buildAdjacencyList nodes) s)
    (hnonempty : (startupOf nodes s).remaining ≠ ∅) :
    Startup.Moves (DependsOn nodes) (startupOf nodes s) s.queue.toFinset
      ((startupOf nodes s).move s.queue.toFinset) := by
  have hperm := queue_perm_ready hnames hdeps hinv
  have hsinv := inv_startupOf hnames hinv
  obtain ⟨v, hv⟩ := Finset.nonempty_iff_ne_empty.mpr hnonempty
  obtain ⟨c, hc, hcdeps⟩ := hsinv.exists_ready hacc hclosed hv
  have hcall : c ∈ nodeNames nodes := hsinv.cover ▸ Finset.mem_union_left _ hc
  have hcready := (mem_getReadyNodes_iff hnames).mpr ⟨hcall, hc, hcdeps⟩
  refine ⟨⟨c, List.mem_toFinset.mpr (hperm.mem_iff.mpr hcready)⟩, ?_, rfl⟩
  intro v hv
  exact ((mem_getReadyNodes_iff hnames).mp (hperm.mem_iff.mp (List.mem_toFinset.mp hv))).2

/-- **The loop, wave by wave**, from any state in its invariant. -/
theorem waves_of_kahnLoop (hnames : (nodes.map NodeConfig.name).Nodup)
    (hdeps : ∀ n ∈ nodes, n.dependencies.Nodup)
    (hacc : ∀ v ∈ nodeNames nodes, Acc (fun b a => DependsOn nodes a b) v)
    (hclosed : ∀ v ∈ nodeNames nodes, ∀ b, DependsOn nodes v b → b ∈ nodeNames nodes)
    {s' : KahnState} :
    ∀ (k : Nat) (s : KahnState) (fuel : Nat), (startupOf nodes s).remaining.card ≤ k →
      KahnInv (buildAdjacencyList nodes) s →
      kahnLoop (buildAdjacencyList nodes) fuel s = some s' →
      ∃ ws blocks, Waves (buildNodeMap nodes) (startupOf nodes s) ws
        ∧ s'.order = s.order ++ blocks.flatten ∧ List.Forall₂ List.Perm blocks ws := by
  intro k
  induction k with
  | zero =>
      intro s fuel hk hinv hrun
      have hempty := Finset.card_eq_zero.mp (Nat.le_zero.mp hk)
      have hs := kahnLoop_of_remaining hnames hdeps hempty hinv hrun
      exact ⟨[], [], Waves.done hempty, by simp [hs], List.Forall₂.nil⟩
  | succ k ih =>
      intro s fuel hk hinv hrun
      by_cases hempty : (startupOf nodes s).remaining = ∅
      · have hs := kahnLoop_of_remaining hnames hdeps hempty hinv hrun
        exact ⟨[], [], Waves.done hempty, by simp [hs], List.Forall₂.nil⟩
      · obtain ⟨fuel', t, freed, hrun', hinv', horder, -⟩ :=
          kahnLoop_drain s.queue [] s fuel (List.append_nil _).symm hinv hrun
        have hperm := queue_perm_ready hnames hdeps hinv
        have hwave : s.queue.toFinset = (getReadyNodes (startupOf nodes s).remaining
            (startupOf nodes s).started (buildNodeMap nodes)).toFinset :=
          List.toFinset_eq_of_perm _ _ hperm
        have hmove : startupOf nodes t = (startupOf nodes s).move s.queue.toFinset := by
          rw [startupOf, horder, List.toFinset_append, ← Finset.sup_eq_union, ← sdiff_sdiff]
          rfl
        have hlt := Startup.card_lt_of_moves
          (moves_queue hnames hdeps hacc hclosed hinv hempty)
        rw [← hmove] at hlt
        obtain ⟨ws, blocks, hws, hflat, hblocks⟩ := ih t fuel' (by omega) hinv' hrun'
        rw [hmove, hwave] at hws
        refine ⟨_, s.queue :: blocks, Waves.wave hempty hws, ?_, List.Forall₂.cons hperm hblocks⟩
        rw [hflat, horder, List.flatten_cons, List.append_assoc]

/-- **The order of `resolve` is the waves of a parallel startup**, each wave
    in some order of its own. -/
theorem resolve_order_waves (nodes : List NodeConfig)
    (hnames : (nodes.map NodeConfig.name).Nodup)
    (hdeps : ∀ n ∈ nodes, n.dependencies.Nodup)
    (hexist : ∀ n ∈ nodes, ∀ d ∈ n.dependencies, d ∈ nodes.map NodeConfig.name)
    (hcyc : ¬ Cyclic (DependsOn nodes)) :
    ∃ ws, (∀ ws', Waves (buildNodeMap nodes) (Startup.init (nodeNames nodes)) ws' ↔ ws' = ws)
      ∧ ∃ blocks, (resolve nodes).order = blocks.flatten
        ∧ List.Forall₂ List.Perm blocks ws := by
  have hmiss : getMissingDependencies nodes = [] := by
    refine getMissingDependencies_eq_nil_iff.mpr ?_
    rintro a b ⟨n, hn, -, hb⟩
    exact hexist n hn b hb
  have hpath := (getCircularPath_eq_nil_iff hnames).mpr hcyc
  have hpass := (checks_pass_iff hnames).mp ⟨hmiss, by simp [hasCircularDependency, hpath]⟩
  obtain ⟨ws, blocks, hws, horder, hblocks⟩ := waves_of_kahnLoop hnames hdeps hpass.1 hpass.2
    _ (kahnInit nodes) _ le_rfl (kahnInit_inv hnames) (Option.some_get _).symm
  have hinit : startupOf nodes (kahnInit nodes) = Startup.init (nodeNames nodes) := by
    simp [startupOf, kahnInit, Startup.init]
  rw [hinit] at hws
  refine ⟨ws, fun ws' => ⟨hws.unique, fun h => h ▸ hws⟩, blocks, ?_, hblocks⟩
  have hlen := length_kahn_order hnames hdeps
    (getMissingDependencies_eq_nil_iff.mp hmiss) hcyc
  rw [resolve_of_no_cycle hmiss hpath, if_neg (not_not.mpr hlen)]
  exact horder

theorem resolve_order_waves_two_nodes :
    ∃ ws, (∀ ws', Waves
        (buildNodeMap [⟨"listener".toList, ["talker".toList]⟩, ⟨"talker".toList, []⟩])
        (Startup.init
          (nodeNames [⟨"listener".toList, ["talker".toList]⟩, ⟨"talker".toList, []⟩])) ws'
          ↔ ws' = ws)
      ∧ ∃ blocks,
        (resolve [⟨"listener".toList, ["talker".toList]⟩, ⟨"talker".toList, []⟩]).order
          = blocks.flatten ∧ List.Forall₂ List.Perm blocks ws :=
  resolve_order_waves [⟨"listener".toList, ["talker".toList]⟩, ⟨"talker".toList, []⟩]
    (by decide) (by decide) (by decide)
    ((getCircularPath_eq_nil_iff (by decide)).mp (by decide))

end LaunchCpp.DependencyResolver
