import LaunchCpp.Basic
import LaunchCpp.Library.DependencyOrder
import LaunchCpp.Library.OrderedMap
import LaunchCpp.Library.Counting
import Mathlib.Logic.Function.Basic
import Mathlib.Data.List.Count
import Mathlib.Data.Finset.Sort

/-! # `DependencyResolver`

    The resolver of `safety/dependency_resolver.hpp`: a check for missing
    names, a depth-first search for a cycle, and Kahn's algorithm with
    in-degree counters.  The two loops that are not structural carry a fuel
    argument here and answer `none` when it runs out; `detectCycleDfs` and
    `kahn` then take the value out with the proof that it never does.

    Maps that are only read and written by key (`color`, `in_degree`) are
    functions, since `operator[]` reads a missing key as zero; `graph` is
    iterated, so it is an ordered map.  A `std::set` is a finite set, iterated
    in increasing order. -/

namespace LaunchCpp

open OrderedMaps

/-- A node and the names it depends on. -/
structure NodeConfig where
  name : Str
  dependencies : List Str
  deriving DecidableEq, Repr

/-- `ResolutionResult`. -/
structure ResolutionResult where
  success : Bool
  order : List Str
  errorMessage : Str
  circularPath : List Str
  deriving DecidableEq, Repr

namespace DependencyResolver

/-- The dependency relation a list of nodes describes. -/
def DependsOn (nodes : List NodeConfig) (a b : Str) : Prop :=
  ∃ n ∈ nodes, n.name = a ∧ b ∈ n.dependencies

/-- `get_missing_dependencies`. -/
def getMissingDependencies (nodes : List NodeConfig) : List Str :=
  nodes.flatMap (fun node =>
    node.dependencies.filter (fun dep => dep ∉ nodes.map NodeConfig.name))

/-- `build_adjacency_list`: a later node replaces an earlier one of its
    name. -/
def buildAdjacencyList (nodes : List NodeConfig) : OrderedMap Str (List Str) :=
  nodes.foldl (fun graph node => graph.insert node.name node.dependencies)
    OrderedMap.empty

/-- `build_in_degree_map`: zero for every name, then one per listed
    dependency. -/
def buildInDegreeMap (nodes : List NodeConfig) : Str → Int :=
  nodes.foldl (fun inDegree node =>
      node.dependencies.foldl (fun inDegree _ =>
        Function.update inDegree node.name (inDegree node.name + 1)) inDegree)
    (nodes.foldl (fun inDegree node => Function.update inDegree node.name 0)
      (fun _ => 0))

/-- `build_node_map`: here too the later node wins. -/
def buildNodeMap (nodes : List NodeConfig) : OrderedMap Str NodeConfig :=
  nodes.foldl (fun nodeMap node => nodeMap.insert node.name node) OrderedMap.empty

/-- `can_start_node`. -/
def canStartNode (nodeName : Str) (startedNodes : Finset Str)
    (allNodes : OrderedMap Str NodeConfig) : Bool :=
  match allNodes.find nodeName with
  | none => false
  | some node => node.dependencies.all (fun dep => dep ∈ startedNodes)

/-- `get_ready_nodes`. -/
def getReadyNodes (remainingNodes startedNodes : Finset Str)
    (allNodes : OrderedMap Str NodeConfig) : List Str :=
  remainingNodes.sort.filter (fun nodeName => canStartNode nodeName startedNodes allNodes)

/-! ## The depth-first search -/

/-- `color`: 0 white, 1 gray, 2 black. -/
inductive Color where
  | white
  | gray
  | black
  deriving DecidableEq, Repr

/-- What `dfs_visit` passes by reference. -/
structure DfsState where
  color : Str → Color
  path : List Str
  cycle : List Str

/-- The part of the path a back edge to `neighbor` closes, walked backwards. -/
def takeThrough (neighbor : Str) : List Str → List Str
  | [] => []
  | x :: xs => if x = neighbor then [x] else x :: takeThrough neighbor xs

/-- The loop of `dfs_visit` over the neighbors of a node; `visit` is the
    recursive call. -/
def dfsNeighbors (visit : Str → DfsState → Option (Bool × DfsState)) :
    List Str → DfsState → Option (Bool × DfsState)
  | [], s => some (false, s)
  | neighbor :: rest, s =>
      match s.color neighbor with
      | .gray =>
          -- the path is pushed backwards up to `neighbor`, then reversed as a whole
          some (true, { s with
            cycle := (s.cycle ++ neighbor
              :: takeThrough neighbor s.path.reverse).reverse })
      | .white =>
          match visit neighbor s with
          | none => none
          | some (true, s') => some (true, s')
          | some (false, s') => dfsNeighbors visit rest s'
      | .black => dfsNeighbors visit rest s

/-- Gray the node and put it on the path. -/
def DfsState.enter (s : DfsState) (node : Str) : DfsState :=
  { s with color := Function.update s.color node .gray, path := s.path ++ [node] }

/-- Blacken the node and take it off the path. -/
def DfsState.leave (s : DfsState) (node : Str) : DfsState :=
  { s with color := Function.update s.color node .black, path := s.path.dropLast }

/-- `dfs_visit`. -/
def dfsVisit (graph : OrderedMap Str (List Str)) :
    Nat → Str → DfsState → Option (Bool × DfsState)
  | 0, _, _ => none
  | fuel + 1, node, s =>
      match dfsNeighbors (dfsVisit graph fuel) ((graph.find node).getD [])
          (s.enter node) with
      | none => none
      | some (true, s') => some (true, s')
      | some (false, s') => some (false, s'.leave node)

/-- The outer loop of `detect_cycle_dfs` over the nodes of the graph. -/
def dfsRoots (visit : Str → DfsState → Option (Bool × DfsState)) :
    List Str → DfsState → Option (List Str)
  | [], s => some s.cycle
  | node :: rest, s =>
      match s.color node with
      | .white =>
          match visit node s with
          | none => none
          | some (true, s') => some s'.cycle
          | some (false, s') => dfsRoots visit rest s'
      -- already reached from an earlier root
      | _ => dfsRoots visit rest s

/-- The names that occur in a graph, as nodes or as dependencies. -/
def graphNames (graph : OrderedMap Str (List Str)) : List Str :=
  graph.entries.flatMap (fun e => e.1 :: e.2)

/-- All nodes white, nothing on the path. -/
def DfsState.init : DfsState := ⟨fun _ => .white, [], []⟩

/-- The names of the graph not visited yet. -/
def whites (graph : OrderedMap Str (List Str)) (s : DfsState) : Nat :=
  (graphNames graph).countP (fun v => s.color v = .white)

/-! Each call of `dfs_visit` grays a white name, and no color ever turns
    white again, so the number of white names bounds the depth. -/

/-- No name of the graph turns white between two states. -/
def Fades (s s' : DfsState) : Prop := ∀ v, s'.color v = .white → s.color v = .white

theorem Fades.refl (s : DfsState) : Fades s s := fun _ h => h

theorem Fades.trans {s₁ s₂ s₃ : DfsState} (h : Fades s₁ s₂) (h' : Fades s₂ s₃) :
    Fades s₁ s₃ := fun v hv => h v (h' v hv)

theorem Fades.enter (s : DfsState) (node : Str) : Fades s (s.enter node) := by
  intro v hv
  by_cases h : v = node
  · subst h
    simp [DfsState.enter] at hv
  · simpa [DfsState.enter, Function.update_of_ne h] using hv

theorem Fades.leave (s : DfsState) (node : Str) : Fades s (s.leave node) := by
  intro v hv
  by_cases h : v = node
  · subst h
    simp [DfsState.leave] at hv
  · simpa [DfsState.leave, Function.update_of_ne h] using hv

theorem whites_le {graph : OrderedMap Str (List Str)} {s s' : DfsState}
    (h : Fades s s') : whites graph s' ≤ whites graph s := by
  refine List.countP_mono_left (fun v _ hv => ?_)
  simp only [decide_eq_true_eq] at hv ⊢
  exact h v hv

/-- Entering a white name of the graph leaves fewer white ones. -/
theorem whites_enter_lt {graph : OrderedMap Str (List Str)} {s : DfsState}
    {node : Str} (hmem : node ∈ graphNames graph) (hwhite : s.color node = .white) :
    whites graph (s.enter node) < whites graph s := by
  refine Counting.countP_lt_countP (fun v _ hv => ?_) hmem (by simpa using hwhite)
    (by simp [DfsState.enter])
  simp only [decide_eq_true_eq] at hv ⊢
  exact Fades.enter s node v hv

/-- The loop over neighbors ends when the calls it makes do. -/
theorem dfsNeighbors_ends {graph : OrderedMap Str (List Str)} {n : Nat}
    {visit : Str → DfsState → Option (Bool × DfsState)}
    (hvisit : ∀ node s, s.color node = .white → node ∈ graphNames graph →
      whites graph s ≤ n → ∃ b s', visit node s = some (b, s') ∧ Fades s s') :
    ∀ (rest : List Str) (s : DfsState), (∀ v ∈ rest, v ∈ graphNames graph) →
      whites graph s ≤ n →
      ∃ b s', dfsNeighbors visit rest s = some (b, s') ∧ Fades s s' := by
  intro rest
  induction rest with
  | nil => intro s _ _; exact ⟨false, s, rfl, Fades.refl s⟩
  | cons neighbor rest ih =>
      intro s hmem hn
      have hrest : ∀ v ∈ rest, v ∈ graphNames graph :=
        fun v hv => hmem v (List.mem_cons_of_mem _ hv)
      rw [dfsNeighbors]
      cases hc : s.color neighbor with
      | gray => exact ⟨true, _, rfl, Fades.refl s⟩
      | black => exact ih s hrest hn
      | white =>
          obtain ⟨b, s', hv, hf⟩ := hvisit neighbor s hc (hmem _ List.mem_cons_self) hn
          simp only [hv]
          cases b with
          | true => exact ⟨true, s', rfl, hf⟩
          | false =>
              obtain ⟨b, s'', hr, hf'⟩ := ih s' hrest (le_trans (whites_le hf) hn)
              exact ⟨b, s'', hr, hf.trans hf'⟩

/-- Names a node of the graph depends on are names of the graph. -/
theorem dependencies_mem_graphNames {graph : OrderedMap Str (List Str)}
    {node v : Str} (hv : v ∈ (graph.find node).getD []) : v ∈ graphNames graph := by
  cases hfind : graph.find node with
  | none => simp [hfind] at hv
  | some ds =>
      have hv' : v ∈ ds := by simpa [hfind] using hv
      exact List.mem_flatMap.mpr
        ⟨(node, ds), OrderedMap.find_eq_some_iff.mp hfind, List.mem_cons_of_mem _ hv'⟩

theorem keys_subset_graphNames {graph : OrderedMap Str (List Str)} {v : Str}
    (hv : v ∈ graph.keys) : v ∈ graphNames graph := by
  obtain ⟨e, he, rfl⟩ := List.mem_map.mp hv
  exact List.mem_flatMap.mpr ⟨e, he, List.mem_cons_self⟩

/-- **`dfs_visit` terminates**: fuel for every white name is enough. -/
theorem dfsVisit_ends {graph : OrderedMap Str (List Str)} :
    ∀ (fuel : Nat) (node : Str) (s : DfsState), s.color node = .white →
      node ∈ graphNames graph → whites graph s ≤ fuel →
      ∃ b s', dfsVisit graph fuel node s = some (b, s') ∧ Fades s s' := by
  intro fuel
  induction fuel with
  | zero =>
      intro node s hwhite hmem hle
      -- `node` itself is white, so no fuel means no white name: impossible
      have := whites_enter_lt hmem hwhite
      omega
  | succ fuel ih =>
      intro node s hwhite hmem hle
      have hlt := whites_enter_lt hmem hwhite
      obtain ⟨b, s', hr, hf⟩ := dfsNeighbors_ends ih ((graph.find node).getD [])
        (s.enter node) (fun v hv => dependencies_mem_graphNames hv) (by omega)
      have hf' := (Fades.enter s node).trans hf
      rw [dfsVisit]
      simp only [hr]
      cases b with
      | true => exact ⟨true, s', rfl, hf'⟩
      | false => exact ⟨false, s'.leave node, rfl, hf'.trans (Fades.leave s' node)⟩

/-- The search from all roots terminates. -/
theorem dfsRoots_ends {graph : OrderedMap Str (List Str)} {fuel : Nat} :
    ∀ (roots : List Str) (s : DfsState), (∀ v ∈ roots, v ∈ graphNames graph) →
      whites graph s ≤ fuel → (dfsRoots (dfsVisit graph fuel) roots s).isSome := by
  intro roots
  induction roots with
  | nil => intro s _ _; rfl
  | cons node rest ih =>
      intro s hmem hle
      have hrest : ∀ v ∈ rest, v ∈ graphNames graph :=
        fun v hv => hmem v (List.mem_cons_of_mem _ hv)
      rw [dfsRoots]
      cases hc : s.color node with
      | gray => exact ih s hrest hle
      | black => exact ih s hrest hle
      | white =>
          obtain ⟨b, s', hv, hf⟩ :=
            dfsVisit_ends fuel node s hc (hmem _ List.mem_cons_self) hle
          simp only [hv]
          cases b with
          | true => rfl
          | false => exact ih s' hrest (le_trans (whites_le hf) hle)

theorem detectCycleDfs_ends (graph : OrderedMap Str (List Str)) :
    (dfsRoots (dfsVisit graph (graphNames graph).length) graph.keys
      DfsState.init).isSome :=
  dfsRoots_ends _ _ (fun _ hv => keys_subset_graphNames hv) List.countP_le_length

/-- `detect_cycle_dfs`. -/
def detectCycleDfs (graph : OrderedMap Str (List Str)) : List Str :=
  (dfsRoots (dfsVisit graph (graphNames graph).length) graph.keys
    DfsState.init).get (detectCycleDfs_ends graph)

/-- `get_circular_path`. -/
def getCircularPath (nodes : List NodeConfig) : List Str :=
  detectCycleDfs (buildAdjacencyList nodes)

/-- `has_circular_dependency`. -/
def hasCircularDependency (nodes : List NodeConfig) : Bool :=
  getCircularPath nodes ≠ []

/-! ## Kahn's algorithm -/

/-- The variables of the loop of `resolve`. -/
structure KahnState where
  queue : List Str
  order : List Str
  inDegree : Str → Int

/-- The body of the inner loop: one entry of the graph after `current` was
    processed. -/
def relax (current : Str) (s : KahnState) (entry : Str × List Str) : KahnState :=
  if current ∈ entry.2 then
    let degree := s.inDegree entry.1 - 1
    { s with
      inDegree := Function.update s.inDegree entry.1 degree
      queue := if degree = 0 then s.queue ++ [entry.1] else s.queue }
  else s

/-- Process `current`, which is already off the queue. -/
def kahnStep (graph : OrderedMap Str (List Str)) (current : Str) (s : KahnState) :
    KahnState :=
  graph.entries.foldl (relax current) { s with order := s.order ++ [current] }

/-- `while (!queue.empty())`. -/
def kahnLoop (graph : OrderedMap Str (List Str)) : Nat → KahnState → Option KahnState
  | fuel, s =>
      match s.queue, fuel with
      | [], _ => some s
      | _ :: _, 0 => none
      | current :: rest, fuel + 1 =>
          kahnLoop graph fuel (kahnStep graph current { s with queue := rest })

/-- What is left to do: queued names, and nodes that may still be queued. -/
def pending (graph : OrderedMap Str (List Str)) (s : KahnState) : Nat :=
  s.queue.length + graph.keys.countP (fun k => 0 < s.inDegree k)

/-- Pushing a node uses up its last counter step. -/
theorem pending_relax_le {graph : OrderedMap Str (List Str)} (current : Str)
    (s : KahnState) {entry : Str × List Str} (hmem : entry.1 ∈ graph.keys) :
    pending graph (relax current s entry) ≤ pending graph s := by
  rw [relax]
  by_cases hc : current ∈ entry.2
  · rw [if_pos hc]
    have hmono : ∀ k, 0 < Function.update s.inDegree entry.1 (s.inDegree entry.1 - 1) k →
        0 < s.inDegree k := by
      intro k hk
      by_cases h : k = entry.1
      · subst h
        rw [Function.update_self] at hk
        omega
      · rwa [Function.update_of_ne h] at hk
    unfold pending
    by_cases h0 : s.inDegree entry.1 - 1 = 0
    -- the push adds one to the queue and takes one off the positive counters
    · have hlt : graph.keys.countP (fun k =>
            0 < Function.update s.inDegree entry.1 (s.inDegree entry.1 - 1) k)
          < graph.keys.countP (fun k => 0 < s.inDegree k) := by
        refine Counting.countP_lt_countP (fun k _ hk => ?_) hmem ?_ ?_
        · simpa using hmono k (by simpa using hk)
        · simp; omega
        · simp [h0]
      simp only [if_pos h0, List.length_append, List.length_singleton]
      omega
    · have hle : graph.keys.countP (fun k =>
            0 < Function.update s.inDegree entry.1 (s.inDegree entry.1 - 1) k)
          ≤ graph.keys.countP (fun k => 0 < s.inDegree k) := by
        refine List.countP_mono_left (fun k _ hk => ?_)
        simpa using hmono k (by simpa using hk)
      simp only [if_neg h0]
      omega
  · rw [if_neg hc]

theorem pending_kahnStep_le (graph : OrderedMap Str (List Str)) (current : Str)
    (s : KahnState) : pending graph (kahnStep graph current s) ≤ pending graph s := by
  have key : ∀ (es : List (Str × List Str)) (t : KahnState),
      (∀ e ∈ es, e.1 ∈ graph.keys) →
      pending graph (es.foldl (relax current) t) ≤ pending graph t := by
    intro es
    induction es with
    | nil => intro t _; exact le_rfl
    | cons e es ih =>
        intro t hmem
        rw [List.foldl_cons]
        refine le_trans (ih _ (fun x hx => hmem x (List.mem_cons_of_mem _ hx))) ?_
        exact pending_relax_le current t (hmem e List.mem_cons_self)
  exact key graph.entries _ (fun e he => List.mem_map_of_mem he)

/-- **Kahn's loop terminates** on every graph and every counter map. -/
theorem kahnLoop_ends (graph : OrderedMap Str (List Str)) :
    ∀ (fuel : Nat) (s : KahnState), pending graph s ≤ fuel →
      (kahnLoop graph fuel s).isSome := by
  intro fuel
  induction fuel with
  | zero =>
      intro s h
      -- nothing is pending, so the queue is empty and the loop is left
      have hq : s.queue = [] := by
        rw [pending] at h
        exact List.eq_nil_of_length_eq_zero (by omega)
      unfold kahnLoop
      simp [hq]
  | succ fuel ih =>
      intro s h
      cases hq : s.queue with
      | nil => unfold kahnLoop; simp [hq]
      | cons current rest =>
          have hlt : pending graph { s with queue := rest } < pending graph s := by
            unfold pending
            simp only [hq, List.length_cons]
            omega
          have hle := pending_kahnStep_le graph current { s with queue := rest }
          unfold kahnLoop
          simp only [hq]
          exact ih _ (by omega)

/-- Steps 3 and 4 of `resolve`. -/
def kahnInit (nodes : List NodeConfig) : KahnState :=
  { queue := (nodes.filter (fun node => node.dependencies = [])).map NodeConfig.name
    order := []
    inDegree := buildInDegreeMap nodes }

/-- Steps 3 to 5 of `resolve`: the state in which the loop leaves its
    variables. -/
def kahn (nodes : List NodeConfig) : KahnState :=
  (kahnLoop (buildAdjacencyList nodes)
      (pending (buildAdjacencyList nodes) (kahnInit nodes)) (kahnInit nodes)).get
    (kahnLoop_ends _ _ _ le_rfl)

/-- `resolve`. -/
def resolve (nodes : List NodeConfig) : ResolutionResult :=
  let missing := getMissingDependencies nodes
  if missing ≠ [] then
    ⟨false, [], "Missing dependencies: ".toList
      ++ (missing.intersperse ", ".toList).flatten, []⟩
  else if hasCircularDependency nodes then
    ⟨false, [], "Circular dependency detected".toList, getCircularPath nodes⟩
  else
    let order := (kahn nodes).order
    if order.length ≠ nodes.length then
      ⟨false, [], "Failed to resolve all dependencies".toList, []⟩
    else ⟨true, order, [], []⟩

example : (resolve [⟨"B".toList, ["A".toList]⟩, ⟨"A".toList, []⟩]).order
    = ["A".toList, "B".toList] := by decide

end DependencyResolver

end LaunchCpp
