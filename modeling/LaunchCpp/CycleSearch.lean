import LaunchCpp.DependencyResolver

/-! # The cycle search finds exactly the cycles

    The invariant of `dfs_visit`: the gray names are the path, the path is a
    chain of dependencies without repetition, and every black name is
    ACCESSIBLE along the dependency relation, which no name on a cycle is.  A
    back edge closes the tail of the path into a cycle; a search that comes
    back without one has blackened every node of the graph. -/

namespace LaunchCpp.DependencyResolver

open OrderedMaps DependencyOrder Relation

variable {graph : OrderedMap Str (List Str)}

/-- The dependency relation the search walks. -/
def Edge (graph : OrderedMap Str (List Str)) (a b : Str) : Prop :=
  b ∈ (graph.find a).getD []

/-- A reported cycle: first and last name are equal, the others differ, and
    each name depends on the next. -/
def IsCycle (graph : OrderedMap Str (List Str)) (c : List Str) : Prop :=
  ∃ v l, c = (v :: l) ++ [v] ∧ (v :: l).Nodup ∧ List.IsChain (Edge graph) c

/-- The invariant of the search. -/
structure DfsInv (graph : OrderedMap Str (List Str)) (s : DfsState) : Prop where
  nodup : s.path.Nodup
  gray_iff : ∀ v, s.color v = .gray ↔ v ∈ s.path
  chain : List.IsChain (Edge graph) s.path
  black_acc : ∀ v, s.color v = .black → Acc (fun b a => Edge graph a b) v
  cycle_nil : s.cycle = []

theorem DfsInv.init : DfsInv graph DfsState.init where
  nodup := List.nodup_nil
  gray_iff := fun v => by simp [DfsState.init]
  chain := List.IsChain.nil
  black_acc := fun v hv => by simp [DfsState.init] at hv
  cycle_nil := rfl

/-- What a call leaves behind: a cycle, or the same path with more black
    names. -/
structure Explored (graph : OrderedMap Str (List Str)) (s s' : DfsState) : Prop where
  inv : DfsInv graph s'
  path_eq : s'.path = s.path
  black_mono : ∀ v, s.color v = .black → s'.color v = .black

theorem Explored.refl {s : DfsState} (h : DfsInv graph s) : Explored graph s s :=
  ⟨h, rfl, fun _ hv => hv⟩

theorem Explored.trans {s₁ s₂ s₃ : DfsState} (h : Explored graph s₁ s₂)
    (h' : Explored graph s₂ s₃) : Explored graph s₁ s₃ :=
  ⟨h'.inv, h'.path_eq.trans h.path_eq, fun v hv => h'.black_mono v (h.black_mono v hv)⟩

/-- Walking the path backwards to the target of a back edge. -/
theorem takeThrough_append (neighbor : Str) (xs ys : List Str) (h : neighbor ∉ xs) :
    takeThrough neighbor (xs ++ neighbor :: ys) = xs ++ [neighbor] := by
  induction xs with
  | nil => simp [takeThrough]
  | cons x xs ih =>
      have hx : x ≠ neighbor := fun heq => h (heq ▸ List.mem_cons_self)
      have hxs : neighbor ∉ xs := fun hm => h (List.mem_cons_of_mem _ hm)
      rw [List.cons_append, takeThrough, if_neg hx, ih hxs, List.cons_append]

/-- **A back edge closes a cycle**, and the vector built from the path is it. -/
theorem isCycle_of_back_edge {s : DfsState} (h : DfsInv graph s) {node neighbor : Str}
    (hlast : s.path.getLast? = some node) (hedge : Edge graph node neighbor)
    (hgray : s.color neighbor = .gray) :
    IsCycle graph (s.cycle ++ neighbor
      :: takeThrough neighbor s.path.reverse).reverse := by
  -- a gray name is on the path, once: the cycle is the path from there on
  obtain ⟨pre, suf, hpath⟩ := List.append_of_mem ((h.gray_iff neighbor).mp hgray)
  have hnodup : (pre ++ neighbor :: suf).Nodup := hpath ▸ h.nodup
  have htail : (neighbor :: suf).Nodup := (List.nodup_append.mp hnodup).2.1
  have hsuf : neighbor ∉ suf.reverse := by
    simpa using (List.nodup_cons.mp htail).1
  have hbuilt : (s.cycle ++ neighbor :: takeThrough neighbor s.path.reverse).reverse
      = (neighbor :: suf) ++ [neighbor] := by
    rw [h.cycle_nil, hpath]
    have : (pre ++ neighbor :: suf).reverse = suf.reverse ++ neighbor :: pre.reverse := by
      simp
    rw [this, takeThrough_append neighbor _ _ hsuf]
    simp
  rw [hbuilt]
  refine ⟨neighbor, suf, rfl, htail, ?_⟩
  have hchain : List.IsChain (Edge graph) (neighbor :: suf) := by
    have hc := h.chain
    rw [hpath] at hc
    exact hc.right_of_append
  have hnode : (neighbor :: suf).getLast? = some node := by
    rw [hpath, List.getLast?_append] at hlast
    simpa using hlast
  refine List.isChain_append.mpr ⟨hchain, List.IsChain.singleton _, ?_⟩
  intro x hx y hy
  -- the one new link is the back edge, from the end of the path
  have hxn : x = node := by
    rw [hnode] at hx
    exact (Option.some.inj hx).symm
  have hyn : y = neighbor := by simpa using hy.symm
  rw [hxn, hyn]
  exact hedge

/-- Entering a white node below the end of the path keeps the invariant. -/
theorem DfsInv.enter {s : DfsState} (h : DfsInv graph s) {node : Str}
    (hwhite : s.color node = .white)
    (hedge : ∀ last, s.path.getLast? = some last → Edge graph last node) :
    DfsInv graph (s.enter node) where
  nodup := by
    have hnot : node ∉ s.path := by
      intro hm
      rw [(h.gray_iff node).mpr hm] at hwhite
      exact Color.noConfusion hwhite
    refine List.nodup_append.mpr ⟨h.nodup, List.nodup_singleton _, ?_⟩
    intro a ha b hb heq
    rw [List.mem_singleton.mp hb] at heq
    exact hnot (heq ▸ ha)
  gray_iff := by
    intro v
    by_cases hv : v = node
    · subst hv
      simp [DfsState.enter]
    · simpa [DfsState.enter, Function.update_of_ne hv, hv] using h.gray_iff v
  chain := by
    refine List.isChain_append.mpr ⟨h.chain, List.IsChain.singleton _, ?_⟩
    intro x hx y hy
    have hyn : y = node := by simpa using hy.symm
    rw [hyn]
    exact hedge x hx
  black_acc := by
    intro v hv
    by_cases hn : v = node
    · subst hn
      simp [DfsState.enter] at hv
    · exact h.black_acc v (by simpa [DfsState.enter, Function.update_of_ne hn] using hv)
  cycle_nil := h.cycle_nil

/-- Leaving a node all of whose dependencies are black keeps the invariant:
    the node is accessible because they are. -/
theorem DfsInv.leave {s : DfsState} (h : DfsInv graph s) {path : List Str} {node : Str}
    (hpath : s.path = path ++ [node])
    (hblack : ∀ v, Edge graph node v → s.color v = .black) :
    DfsInv graph (s.leave node) where
  nodup := by
    show s.path.dropLast.Nodup
    exact h.nodup.sublist (List.dropLast_sublist _)
  gray_iff := by
    intro v
    have hdrop : (s.leave node).path = path := by simp [DfsState.leave, hpath]
    have hnot : node ∉ path := by
      have hn := h.nodup
      rw [hpath] at hn
      intro hm
      exact (List.nodup_append.mp hn).2.2 node hm node (by simp) rfl
    rw [hdrop]
    by_cases hv : v = node
    · subst hv
      simp [DfsState.leave, hnot]
    · have := h.gray_iff v
      rw [hpath] at this
      simpa [DfsState.leave, Function.update_of_ne hv, hv] using this
  chain := by
    have hc := h.chain
    rw [hpath] at hc
    have hdrop : (s.leave node).path = path := by simp [DfsState.leave, hpath]
    rw [hdrop]
    exact hc.left_of_append
  black_acc := by
    intro v hv
    by_cases hn : v = node
    · subst hn
      exact Acc.intro v (fun b hb => h.black_acc b (hblack b hb))
    · exact h.black_acc v (by simpa [DfsState.leave, Function.update_of_ne hn] using hv)
  cycle_nil := h.cycle_nil

/-- What a recursive call on a white node does. -/
def VisitSpec (graph : OrderedMap Str (List Str))
    (visit : Str → DfsState → Option (Bool × DfsState)) : Prop :=
  ∀ node s b s', visit node s = some (b, s') → DfsInv graph s →
    s.color node = .white →
    (∀ last, s.path.getLast? = some last → Edge graph last node) →
    (b = true → IsCycle graph s'.cycle) ∧
    (b = false → Explored graph s s' ∧ s'.color node = .black)

/-- A neighbor that is black before the rest of the loop: no color leaves
    black. -/
theorem searched_cons {neighbor : Str} {rest : List Str} {s s₁ s' : DfsState} {b : Bool}
    (hexp₁ : Explored graph s s₁) (hblack : s₁.color neighbor = .black)
    (h : (b = true → IsCycle graph s'.cycle) ∧
      (b = false → Explored graph s₁ s' ∧ ∀ v ∈ rest, s'.color v = .black)) :
    (b = true → IsCycle graph s'.cycle) ∧
      (b = false → Explored graph s s' ∧ ∀ v ∈ neighbor :: rest, s'.color v = .black) := by
  refine ⟨h.1, fun hb => ?_⟩
  obtain ⟨hexp, hall⟩ := h.2 hb
  exact ⟨hexp₁.trans hexp, List.forall_mem_cons.mpr ⟨hexp.black_mono _ hblack, hall⟩⟩

/-- **The loop over neighbors** finds a cycle or blackens all of them. -/
theorem dfsNeighbors_spec {visit : Str → DfsState → Option (Bool × DfsState)}
    (hvisit : VisitSpec graph visit) {node : Str} :
    ∀ (rest : List Str) (s : DfsState) (b : Bool) (s' : DfsState),
      dfsNeighbors visit rest s = some (b, s') → DfsInv graph s →
      s.path.getLast? = some node → (∀ v ∈ rest, Edge graph node v) →
      (b = true → IsCycle graph s'.cycle) ∧
      (b = false → Explored graph s s' ∧ ∀ v ∈ rest, s'.color v = .black) := by
  intro rest
  induction rest with
  | nil =>
      intro s b s' hrun hinv _ _
      obtain ⟨rfl, rfl⟩ : false = b ∧ s = s' := by simpa [dfsNeighbors] using hrun
      exact ⟨fun hb => Bool.noConfusion hb,
        fun _ => ⟨Explored.refl hinv, List.forall_mem_nil _⟩⟩
  | cons neighbor rest ih =>
      intro s b s' hrun hinv hlast hedges
      have hedge := hedges neighbor List.mem_cons_self
      have hrest : ∀ v ∈ rest, Edge graph node v :=
        fun v hv => hedges v (List.mem_cons_of_mem _ hv)
      rw [dfsNeighbors] at hrun
      cases hc : s.color neighbor with
      | gray =>
          simp only [hc, Option.some.injEq, Prod.mk.injEq] at hrun
          obtain ⟨rfl, rfl⟩ := hrun
          exact ⟨fun _ => isCycle_of_back_edge hinv hlast hedge hc,
            fun hb => Bool.noConfusion hb⟩
      | black =>
          simp only [hc] at hrun
          exact searched_cons (Explored.refl hinv) hc (ih s b s' hrun hinv hlast hrest)
      | white =>
          simp only [hc] at hrun
          have hbelow : ∀ last, s.path.getLast? = some last → Edge graph last neighbor := by
            intro last hl
            rw [hlast] at hl
            exact Option.some.inj hl ▸ hedge
          cases hv : visit neighbor s with
          | none => simp [hv] at hrun
          | some r =>
              obtain ⟨b₁, s₁⟩ := r
              obtain ⟨htrue₁, hfalse₁⟩ := hvisit neighbor s b₁ s₁ hv hinv hc hbelow
              cases b₁ with
              | true =>
                  simp only [hv, Option.some.injEq, Prod.mk.injEq] at hrun
                  obtain ⟨rfl, rfl⟩ := hrun
                  exact ⟨fun _ => htrue₁ rfl, fun hb => Bool.noConfusion hb⟩
              | false =>
                  simp only [hv] at hrun
                  obtain ⟨hexp₁, hblack₁⟩ := hfalse₁ rfl
                  have hlast₁ : s₁.path.getLast? = some node := by
                    rw [hexp₁.path_eq]; exact hlast
                  exact searched_cons hexp₁ hblack₁ (ih s₁ b s' hrun hexp₁.inv hlast₁ hrest)

/-- **`dfs_visit`** finds a cycle or blackens its node. -/
theorem dfsVisit_spec : ∀ fuel, VisitSpec graph (dfsVisit graph fuel) := by
  intro fuel
  induction fuel with
  | zero => intro node s b s' hrun; cases hrun
  | succ fuel ih =>
      intro node s b s' hrun hinv hwhite hedge
      rw [dfsVisit] at hrun
      have hinv₁ := hinv.enter hwhite hedge
      have hlast₁ : (s.enter node).path.getLast? = some node := by
        simp [DfsState.enter]
      cases hr : dfsNeighbors (dfsVisit graph fuel) ((graph.find node).getD [])
          (s.enter node) with
      | none => simp [hr] at hrun
      | some r =>
          obtain ⟨b₁, s₁⟩ := r
          obtain ⟨htrue, hfalse⟩ :=
            dfsNeighbors_spec ih _ _ b₁ s₁ hr hinv₁ hlast₁ (fun v hv => hv)
          cases b₁ with
          | true =>
              simp only [hr, Option.some.injEq, Prod.mk.injEq] at hrun
              obtain ⟨rfl, rfl⟩ := hrun
              exact ⟨fun _ => htrue rfl, fun hb => Bool.noConfusion hb⟩
          | false =>
              simp only [hr, Option.some.injEq, Prod.mk.injEq] at hrun
              obtain ⟨rfl, rfl⟩ := hrun
              obtain ⟨hexp, hall⟩ := hfalse rfl
              -- no neighbor closed a cycle: all are black, and the path is as entered
              have hpath : s₁.path = s.path ++ [node] := hexp.path_eq
              refine ⟨fun hb => Bool.noConfusion hb, fun _ => ⟨⟨?_, ?_, ?_⟩, ?_⟩⟩
              · exact hexp.inv.leave hpath hall
              · simp [DfsState.leave, hpath]
              · intro v hv
                by_cases hn : v = node
                · subst hn
                  simp [DfsState.leave]
                · have hv₁ : (s.enter node).color v = .black := by
                    simpa [DfsState.enter, Function.update_of_ne hn] using hv
                  simpa [DfsState.leave, Function.update_of_ne hn]
                    using hexp.black_mono v hv₁
              · simp [DfsState.leave]

/-- **The search from all roots** finds a cycle or makes every root
    accessible. -/
theorem dfsRoots_spec {fuel : Nat} : ∀ (roots : List Str) (s : DfsState) (c : List Str),
    dfsRoots (dfsVisit graph fuel) roots s = some c → DfsInv graph s → s.path = [] →
    IsCycle graph c ∨
      (c = [] ∧ ∀ v ∈ roots, Acc (fun b a => Edge graph a b) v) := by
  intro roots
  induction roots with
  | nil =>
      intro s c hrun hinv _
      have hc : s.cycle = c := by simpa [dfsRoots] using hrun
      exact Or.inr ⟨hc ▸ hinv.cycle_nil, List.forall_mem_nil _⟩
  | cons node rest ih =>
      intro s c hrun hinv hpath
      rw [dfsRoots] at hrun
      cases hc : s.color node with
      | gray =>
          -- between two roots the path is empty, so nothing is gray
          have hm := (hinv.gray_iff node).mp hc
          rw [hpath] at hm
          cases hm
      | black =>
          simp only [hc] at hrun
          rcases ih s c hrun hinv hpath with h | ⟨hnil, hacc⟩
          · exact Or.inl h
          · refine Or.inr ⟨hnil, fun v hv => ?_⟩
            rcases List.mem_cons.mp hv with rfl | hv
            · exact hinv.black_acc _ hc
            · exact hacc v hv
      | white =>
          simp only [hc] at hrun
          have hbelow : ∀ last, s.path.getLast? = some last → Edge graph last node := by
            intro last hl
            simp [hpath] at hl
          cases hv : dfsVisit graph fuel node s with
          | none => simp [hv] at hrun
          | some r =>
              obtain ⟨b₁, s₁⟩ := r
              obtain ⟨htrue, hfalse⟩ := dfsVisit_spec fuel node s b₁ s₁ hv hinv hc hbelow
              cases b₁ with
              | true =>
                  simp only [hv, Option.some.injEq] at hrun
                  exact Or.inl (hrun ▸ htrue rfl)
              | false =>
                  simp only [hv] at hrun
                  obtain ⟨hexp, hblack⟩ := hfalse rfl
                  have hpath₁ : s₁.path = [] := hexp.path_eq.trans hpath
                  rcases ih s₁ c hrun hexp.inv hpath₁ with h | ⟨hnil, hacc⟩
                  · exact Or.inl h
                  · refine Or.inr ⟨hnil, fun v hvm => ?_⟩
                    rcases List.mem_cons.mp hvm with rfl | hvm
                    · exact hexp.inv.black_acc _ hblack
                    · exact hacc v hvm

/-- A reported cycle is a cycle of the relation. -/
theorem IsCycle.cyclic {c : List Str} (h : IsCycle graph c) : Cyclic (Edge graph) := by
  obtain ⟨v, l, rfl, -, hchain⟩ := h
  obtain ⟨hfront, -, hclose⟩ := List.isChain_append.mp hchain
  refine ⟨v, transGen_of_isChain hfront rfl ?_⟩
  exact hclose _ (List.getLast?_eq_some_getLast (List.cons_ne_nil v l)) v rfl

/-- What depends on anything is a node of the graph. -/
theorem Edge.mem_keys {a b : Str} (h : Edge graph a b) : a ∈ graph.keys := by
  rw [Edge] at h
  cases hf : graph.find a with
  | none => simp [hf] at h
  | some ds => exact OrderedMap.mem_keys_iff.mpr ⟨ds, hf⟩

/-- **`detect_cycle_dfs`** returns a cycle of the graph, or the empty vector
    when every node is accessible. -/
theorem detectCycleDfs_spec (graph : OrderedMap Str (List Str)) :
    IsCycle graph (detectCycleDfs graph) ∨
      (detectCycleDfs graph = [] ∧
        ∀ v ∈ graph.keys, Acc (fun b a => Edge graph a b) v) :=
  dfsRoots_spec graph.keys DfsState.init (detectCycleDfs graph)
    (Option.some_get _).symm DfsInv.init rfl

/-- The search answers the question it is asked. -/
theorem detectCycleDfs_eq_nil_iff (graph : OrderedMap Str (List Str)) :
    detectCycleDfs graph = [] ↔ ¬ Cyclic (Edge graph) := by
  rcases detectCycleDfs_spec graph with h | ⟨hnil, hacc⟩
  · constructor
    · intro hnil
      obtain ⟨v, l, heq, -, -⟩ := h
      rw [hnil] at heq
      cases heq
    · intro hno
      exact absurd h.cyclic hno
  · exact ⟨fun _ => not_cyclic_of_acc (fun a b hab => hacc a hab.mem_keys),
      fun _ => hnil⟩

end LaunchCpp.DependencyResolver
