import LaunchCpp.ResolverSpec
import LaunchCpp.Library.UnorderedMap

/-! # `DependencyManager`

    The manager of `dependency_manager.cpp`: two maps filled side by side,
    and `execute_all`, which runs the registered actions in resolver order.
    An action is a value of any type `P` whose `execute` may read and change
    a world of any type `W` (the launch context, the action objects and the
    system) and may fail as it likes.

    A run is RECORDED: `executed` lists the processes whose `execute` was
    called, with the error each call returned, and `exit` says through which
    `return` the function left. -/

namespace LaunchCpp

open OrderedMaps UnorderedMaps DependencyOrder DependencyResolver

/-- The members of `DependencyManager`. -/
structure DependencyManager (P : Type*) where
  processes : UnorderedMap Str P
  dependencies : UnorderedMap Str (List Str)

namespace DependencyManager

variable {P W : Type*}

/-- A manager just constructed. -/
def init : DependencyManager P := ⟨UnorderedMap.empty, UnorderedMap.empty⟩

/-- `add_process`; a null pointer is `none`. -/
def addProcess (m : DependencyManager P) (name : Str) (action : Option P)
    (dependencies : List Str) : Error × DependencyManager P :=
  if name = [] then
    (⟨.invalidArgument, "Process name cannot be empty".toList⟩, m)
  else
    match action with
    | none => (⟨.invalidArgument, "Process action cannot be null".toList⟩, m)
    | some action =>
        if (m.processes.find name).isSome then
          (⟨.invalidConfiguration,
            "Process '".toList ++ name ++ "' already exists".toList⟩, m)
        else
          (Error.ok, ⟨m.processes.insert name action,
            m.dependencies.insert name dependencies⟩)

/-- `clear`. -/
def clear (_ : DependencyManager P) : DependencyManager P := init

/-- The states a sequence of calls can lead to. -/
inductive Reachable : DependencyManager P → Prop where
  | init : Reachable init
  | addProcess {m : DependencyManager P} (name : Str) (action : Option P)
      (dependencies : List Str) :
      Reachable m → Reachable (m.addProcess name action dependencies).2
  | clear {m : DependencyManager P} : Reachable m → Reachable m.clear

/-- The nodes `resolve_dependencies` builds in one order of iteration. -/
def nodes {m : DependencyManager P} (it : m.dependencies.Iteration) :
    List NodeConfig :=
  it.val.map (fun e => ⟨e.1, e.2⟩)

/-- `resolve_dependencies`. -/
def resolveDependencies (m : DependencyManager P) (it : m.dependencies.Iteration) :
    ResolutionResult :=
  resolve (nodes it)

/-- `is_ready`. -/
def isReady (m : DependencyManager P) (name : Str) (completed : List Str) : Bool :=
  match m.dependencies.find name with
  | none => false
  | some deps => deps.all (fun dep => dep ∈ completed)

/-- The `return` statements of `execute_all`. -/
inductive Exit where
  | resolveFailed (message : Str)
  | notFound (name : Str)
  | notReady (name : Str)
  | failed (e : Error)
  | done

/-- The error a `return` hands to the caller. -/
def Exit.error : Exit → Error
  | .resolveFailed message => ⟨.cyclicDependency, message⟩
  | .notFound name =>
      ⟨.processNotFound, "Process '".toList ++ name ++ "' not found".toList⟩
  | .notReady name =>
      ⟨.cyclicDependency,
        "Dependencies not satisfied for '".toList ++ name ++ "'".toList⟩
  | .failed e => e
  | .done => Error.ok

/-- A recorded run. -/
structure Run (W : Type*) where
  exit : Exit
  executed : List (Str × Error)
  world : W

/-- The names whose processes were executed, in order. -/
def Run.names (r : Run W) : List Str := r.executed.map Prod.fst

/-- Put one successful execution in front of a recorded run. -/
def Run.after (name : Str) (e : Error) (r : Run W) : Run W :=
  { r with executed := (name, e) :: r.executed }

variable (exec : P → W → Error × W)

/-- The loop of `execute_all` over what is left of the order. -/
def executeLoop (m : DependencyManager P) :
    List Str → List Str → W → Run W
  | [], _, w => ⟨.done, [], w⟩
  | name :: rest, completed, w =>
      match m.processes.find name with
      | none => ⟨.notFound name, [], w⟩
      | some action =>
          if ¬ m.isReady name completed then ⟨.notReady name, [], w⟩
          else
            let r := exec action w
            if r.1.isError then ⟨.failed r.1, [(name, r.1)], r.2⟩
            else (executeLoop m rest (name :: completed) r.2).after name r.1

/-- `execute_all`. -/
def executeAll (m : DependencyManager P) (it : m.dependencies.Iteration) (w : W) :
    Run W :=
  let result := m.resolveDependencies it
  if ¬ result.success then ⟨.resolveFailed result.errorMessage, [], w⟩
  else m.executeLoop exec result.order [] w

/-! ## The two maps -/

/-- The two maps have the same keys. -/
def SameKeys (m : DependencyManager P) : Prop :=
  ∀ k, k ∈ m.processes.keys ↔ k ∈ m.dependencies.keys

/-- A call of `add_process` leaves the manager alone or adds one key to both
    maps. -/
theorem addProcess_cases (m : DependencyManager P) (name : Str) (action : Option P)
    (dependencies : List Str) :
    (m.addProcess name action dependencies).2 = m ∨
      ∃ a, action = some a ∧ (m.addProcess name action dependencies).2
        = ⟨m.processes.insert name a, m.dependencies.insert name dependencies⟩ := by
  unfold addProcess
  by_cases hname : name = []
  · rw [if_pos hname]
    exact Or.inl rfl
  · rw [if_neg hname]
    cases action with
    | none => exact Or.inl rfl
    | some a =>
        by_cases hdup : (m.processes.find name).isSome
        · simp only [if_pos hdup]
          exact Or.inl trivial
        · simp only [if_neg hdup]
          exact Or.inr ⟨a, rfl, rfl⟩

theorem SameKeys.addProcess {m : DependencyManager P} (h : m.SameKeys) (name : Str)
    (action : Option P) (dependencies : List Str) :
    (m.addProcess name action dependencies).2.SameKeys := by
  rcases addProcess_cases m name action dependencies with heq | ⟨a, -, heq⟩
  · rw [heq]; exact h
  · rw [heq]
    intro k
    rw [UnorderedMap.mem_keys_insert, UnorderedMap.mem_keys_insert, h k]

/-- **Every reachable manager** has its two maps in step. -/
theorem Reachable.sameKeys {m : DependencyManager P} (h : Reachable m) :
    m.SameKeys := by
  induction h with
  | init => exact fun _ => Iff.rfl
  | addProcess name action dependencies _ ih =>
      exact ih.addProcess name action dependencies
  | clear _ _ => exact fun _ => Iff.rfl

/-! ## The loop -/

/-- The name depends on another one, by the map the resolver was given. -/
def Needs (m : DependencyManager P) (name dep : Str) : Prop :=
  ∃ deps, m.dependencies.find name = some deps ∧ dep ∈ deps

theorem isReady_iff {m : DependencyManager P} {name : Str} {completed : List Str}
    (hname : name ∈ m.dependencies.keys) :
    m.isReady name completed = true ↔ ∀ dep, m.Needs name dep → dep ∈ completed := by
  obtain ⟨deps, hdeps⟩ := Option.isSome_iff_exists.mp
    (UnorderedMap.find_isSome_iff.mpr hname)
  unfold isReady Needs
  simp [hdeps]

/-- How far a recorded run came along an order: to its end with every call a
    success, or to the first call that failed. -/
def Stops (order : List Str) (r : Run W) : Prop :=
  (r.exit = .done ∧ r.names = order ∧ ∀ x ∈ r.executed, x.2.isSuccess = true) ∨
  ∃ before name e, r.exit = .failed e ∧ e.isError = true
    ∧ r.executed = before ++ [(name, e)] ∧ (∀ x ∈ before, x.2.isSuccess = true)
    ∧ r.names <+: order

/-- The calls of a log, made one after another from a world: each one is of the
    action registered under its name, in the world the ones before it left, and
    is recorded with what it returned.  The last world is what they leave. -/
inductive Executes (m : DependencyManager P) (exec : P → W → Error × W) :
    W → List (Str × Error) → W → Prop where
  | nil (w : W) : Executes m exec w [] w
  | cons {w w' : W} {name : Str} {action : P} {log : List (Str × Error)}
      (hfind : m.processes.find name = some action)
      (hrest : Executes m exec (exec action w).2 log w') :
      Executes m exec w ((name, (exec action w).1) :: log) w'

/-- The call behind an entry of the log, in the world in front of it. -/
theorem Executes.returned {m : DependencyManager P} {exec : P → W → Error × W} {w w' : W}
    {log : List (Str × Error)} (h : m.Executes exec w log w') :
    ∀ x ∈ log, ∃ action v, m.processes.find x.1 = some action ∧ x.2 = (exec action v).1 := by
  induction h with
  | nil w =>
      intro x hx
      cases hx
  | @cons w w' name action log hfind _ ih =>
      intro x hx
      rcases List.mem_cons.mp hx with rfl | hx
      · exact ⟨action, w, hfind, rfl⟩
      · exact ih x hx

/-- A success in front of a run takes it one name further along the order. -/
theorem Stops.after {rest : List Str} {r : Run W} (h : Stops rest r) (name : Str)
    {e : Error} (he : e.isSuccess = true) : Stops (name :: rest) (r.after name e) := by
  rcases h with ⟨hexit, hnames, hall⟩ | ⟨before, name', e', hexit, he', hlog, hall, hpre⟩
  · refine Or.inl ⟨hexit, ?_, ?_⟩
    · show name :: r.names = name :: rest
      rw [hnames]
    · intro x hx
      rcases List.mem_cons.mp hx with rfl | hx
      · exact he
      · exact hall x hx
  · refine Or.inr ⟨(name, e) :: before, name', e', hexit, he', ?_, ?_, ?_⟩
    · show (name, e) :: r.executed = _
      rw [hlog, List.cons_append]
    · intro x hx
      rcases List.mem_cons.mp hx with rfl | hx
      · exact he
      · exact hall x hx
    · exact List.cons_prefix_cons.mpr ⟨rfl, hpre⟩

variable {exec}

/-- **The loop**, over a rest of the order whose names are registered and
    come after everything they need: neither guard fires. -/
theorem executeLoop_stops {m : DependencyManager P} (hkeys : m.SameKeys) :
    ∀ (order completed : List Str) (w : W),
      (∀ name ∈ order, name ∈ m.processes.keys) →
      (∀ l₁ a l₂, order = l₁ ++ a :: l₂ → ∀ d, m.Needs a d → d ∈ completed ∨ d ∈ l₁) →
      Stops order (m.executeLoop exec order completed w) := by
  intro order
  induction order with
  | nil =>
      intro completed w _ _
      exact Or.inl ⟨rfl, rfl, List.forall_mem_nil _⟩
  | cons name rest ih =>
      intro completed w hreg hneeds
      have hname := hreg name List.mem_cons_self
      obtain ⟨action, hfind⟩ := Option.isSome_iff_exists.mp
        (UnorderedMap.find_isSome_iff.mpr hname)
      have hready : m.isReady name completed = true := by
        refine (isReady_iff ((hkeys name).mp hname)).mpr (fun d hd => ?_)
        rcases hneeds [] name rest rfl d hd with h | h
        · exact h
        · cases h
      rw [executeLoop]
      simp only [hfind, hready, not_true_eq_false, if_false]
      by_cases herr : (exec action w).1.isError = true
      · rw [if_pos herr]
        exact Or.inr ⟨[], name, _, rfl, herr, rfl, List.forall_mem_nil _,
          List.cons_prefix_cons.mpr ⟨rfl, List.nil_prefix⟩⟩
      · rw [if_neg herr]
        refine Stops.after (ih _ _ (fun x hx => hreg x (List.mem_cons_of_mem _ hx)) ?_)
          name (by simpa [Error.isError_eq_not_isSuccess] using herr)
        intro l₁ a l₂ hsplit d hd
        -- what the rest needs is completed, in the rest, or the name just completed
        rcases hneeds (name :: l₁) a l₂ (by rw [hsplit, List.cons_append]) d hd with h | h
        · exact Or.inl (List.mem_cons_of_mem _ h)
        · rcases List.mem_cons.mp h with rfl | h
          · exact Or.inl List.mem_cons_self
          · exact Or.inr h

/-- What the loop records is what it calls. -/
theorem executeLoop_executes (exec : P → W → Error × W) (m : DependencyManager P) :
    ∀ (order completed : List Str) (w : W),
      m.Executes exec w (m.executeLoop exec order completed w).executed
        (m.executeLoop exec order completed w).world := by
  intro order
  induction order with
  | nil => exact fun _ w => .nil w
  | cons name rest ih =>
      intro completed w
      rw [executeLoop]
      cases hfind : m.processes.find name with
      | none => exact .nil w
      | some action =>
          by_cases hready : m.isReady name completed = true
          · simp only [hready, not_true_eq_false, if_false]
            by_cases herr : (exec action w).1.isError = true
            · rw [if_pos herr]
              exact .cons hfind (.nil _)
            · rw [if_neg herr]
              exact .cons hfind (ih (name :: completed) (exec action w).2)
          · simp only [hready]
            exact .nil w

/-- What `execute_all` records is what it calls. -/
theorem executeAll_executes (exec : P → W → Error × W) (m : DependencyManager P)
    (it : m.dependencies.Iteration) (w : W) :
    m.Executes exec w (m.executeAll exec it w).executed (m.executeAll exec it w).world := by
  rw [executeAll]
  by_cases h : (m.resolveDependencies it).success = true
  · rw [if_neg (not_not.mpr h)]
    exact executeLoop_executes exec m _ _ w
  · rw [if_pos h]
    exact .nil w

/-! ## The resolver on the manager's nodes -/

variable {m : DependencyManager P} (it : m.dependencies.Iteration)

theorem map_name_nodes : (nodes it).map NodeConfig.name = it.val.map Prod.fst := by
  simp [nodes, Function.comp_def]

theorem nodup_names : ((nodes it).map NodeConfig.name).Nodup := by
  rw [map_name_nodes]
  exact (it.property.map Prod.fst).nodup_iff.mpr m.dependencies.nodup

theorem dependsOn_nodes_iff {a b : Str} : DependsOn (nodes it) a b ↔ m.Needs a b := by
  constructor
  · rintro ⟨n, hn, rfl, hb⟩
    obtain ⟨e, he, rfl⟩ := List.mem_map.mp hn
    exact ⟨e.2, UnorderedMap.find_eq_some_iff.mpr (it.property.mem_iff.mp he), hb⟩
  · rintro ⟨deps, hfind, hb⟩
    have he := it.property.mem_iff.mpr (UnorderedMap.find_eq_some_iff.mp hfind)
    exact ⟨⟨a, deps⟩, List.mem_map.mpr ⟨(a, deps), he, rfl⟩, rfl, hb⟩

/-- A successful resolution orders the registered names. -/
theorem resolveDependencies_sound (h : (m.resolveDependencies it).success = true) :
    (m.resolveDependencies it).order.Perm m.dependencies.keys
      ∧ Ordered m.Needs (m.resolveDependencies it).order := by
  obtain ⟨hperm, hord⟩ := resolve_sound (nodup_names it) h
  refine ⟨?_, ?_⟩
  · rw [map_name_nodes] at hperm
    exact hperm.trans (it.property.map Prod.fst)
  · intro l₁ a l₂ hsplit b hab
    exact hord l₁ a l₂ hsplit b ((dependsOn_nodes_iff it).mpr hab)

/-- Without processes the resolution succeeds. -/
theorem resolveDependencies_of_keys_nil (h : m.dependencies.keys = []) :
    (m.resolveDependencies it).success = true := by
  have hnil : it.val = [] := by
    have hentries : m.dependencies.entries = [] := List.map_eq_nil_iff.mp h
    exact List.perm_nil.mp (hentries ▸ it.property)
  rw [resolveDependencies, nodes]
  rw [hnil]
  decide

/-- A run of `execute_all` fails to resolve, or runs along a dependency order
    of the registered names. -/
theorem executeAll_cases (hkeys : m.SameKeys) (w : W) :
    ((m.resolveDependencies it).success = false
      ∧ ∃ message, m.executeAll exec it w = ⟨.resolveFailed message, [], w⟩) ∨
    (m.resolveDependencies it).success = true
      ∧ (m.resolveDependencies it).order.Perm m.dependencies.keys
      ∧ Ordered m.Needs (m.resolveDependencies it).order
      ∧ Stops (m.resolveDependencies it).order (m.executeAll exec it w) := by
  by_cases h : (m.resolveDependencies it).success = true
  · obtain ⟨hperm, hord⟩ := resolveDependencies_sound it h
    refine Or.inr ⟨h, hperm, hord, ?_⟩
    rw [executeAll]
    rw [if_neg (not_not.mpr h)]
    refine executeLoop_stops hkeys _ _ w (fun name hn => ?_) (fun l₁ a l₂ hs d hd => ?_)
    · exact (hkeys name).mpr (hperm.mem_iff.mp hn)
    · exact Or.inr (hord l₁ a l₂ hs d hd)
  · have hf : (m.resolveDependencies it).success = false := by simpa using h
    refine Or.inl ⟨hf, (m.resolveDependencies it).errorMessage, ?_⟩
    rw [executeAll]
    rw [if_pos (by simp [hf])]

/-- Whatever is executed is a beginning of the order. -/
theorem Stops.names_prefix {order : List Str} {r : Run W} (h : Stops order r) :
    r.names <+: order := by
  rcases h with ⟨-, hnames, -⟩ | ⟨_, _, _, -, -, -, -, hpre⟩
  · rw [hnames]
  · exact hpre

/-- Everything executed before another execution succeeded. -/
theorem Stops.success_before {order : List Str} {r : Run W} (h : Stops order r)
    {l₁ l₂ : List (Str × Error)} {x : Str × Error} (hsplit : r.executed = l₁ ++ x :: l₂) :
    ∀ y ∈ l₁, y.2.isSuccess = true := by
  intro y hy
  rcases h with ⟨-, -, hall⟩ | ⟨before, name, e, -, -, hlog, hall, -⟩
  · exact hall y (hsplit ▸ List.mem_append_left _ hy)
  · rcases List.eq_nil_or_concat l₂ with rfl | ⟨l₂', z, rfl⟩
    · obtain ⟨h1, -⟩ := List.append_inj' (hlog.symm.trans hsplit) rfl
      exact hall y (h1 ▸ hy)
    · have heq : before ++ [(name, e)] = (l₁ ++ x :: l₂') ++ [z] := by
        rw [← hlog, hsplit]; simp
      obtain ⟨h1, -⟩ := List.append_inj' heq rfl
      exact hall y (h1 ▸ List.mem_append_left _ hy)

/-- A failing execution is the last one, and its error is returned. -/
theorem Stops.failed_last {order : List Str} {r : Run W} (h : Stops order r)
    {l₁ l₂ : List (Str × Error)} {x : Str × Error} (hsplit : r.executed = l₁ ++ x :: l₂)
    (herr : x.2.isError = true) : l₂ = [] ∧ r.exit.error = x.2 := by
  have hno : ¬ x.2.isSuccess = true := by
    simpa [Error.isError_eq_not_isSuccess] using herr
  rcases h with ⟨-, -, hall⟩ | ⟨before, name, e, hexit, -, hlog, hall, -⟩
  · exact absurd (hall x (by rw [hsplit]; simp)) hno
  · rcases List.eq_nil_or_concat l₂ with rfl | ⟨l₂', z, rfl⟩
    · obtain ⟨-, h2⟩ := List.append_inj' (hlog.symm.trans hsplit) rfl
      have hx : (name, e) = x := by simpa using h2
      refine ⟨rfl, ?_⟩
      rw [hexit, ← hx]
      rfl
    · have heq : before ++ [(name, e)] = (l₁ ++ x :: l₂') ++ [z] := by
        rw [← hlog, hsplit]; simp
      obtain ⟨h1, -⟩ := List.append_inj' heq rfl
      exact absurd (hall x (h1 ▸ by simp)) hno

/-- Success is returned exactly when every name of the order was executed
    successfully. -/
theorem Stops.success_iff {order : List Str} (hnodup : order.Nodup) {r : Run W}
    (h : Stops order r) :
    r.exit.error.isSuccess = true
      ↔ ∀ k ∈ order, ∃ e, (k, e) ∈ r.executed ∧ e.isSuccess = true := by
  rcases h with ⟨hexit, hnames, hall⟩ | ⟨before, name, e, hexit, herr, hlog, -, hpre⟩
  · rw [hexit]
    refine iff_of_true rfl (fun k hk => ?_)
    obtain ⟨x, hx, rfl⟩ := List.mem_map.mp (hnames ▸ hk : k ∈ r.names)
    exact ⟨x.2, hx, hall x hx⟩
  · have hno : ¬ e.isSuccess = true := by
      simpa [Error.isError_eq_not_isSuccess] using herr
    rw [hexit]
    refine iff_of_false hno (fun hall => ?_)
    have hlast : (name, e) ∈ r.executed := by rw [hlog]; simp
    obtain ⟨e', he', hs⟩ := hall name (hpre.subset (List.mem_map_of_mem hlast))
    -- names are executed at most once, so the two entries are one
    have hnd : r.names.Nodup := hnodup.sublist hpre.sublist
    have heq := List.inj_on_of_nodup_map hnd hlast he' rfl
    exact hno ((Prod.mk.inj heq).2 ▸ hs)

/-- What an executed process needs was executed before it, with success. -/
theorem Stops.needs_before {dep : Str → Str → Prop} {order : List Str} {r : Run W}
    (h : Stops order r) (hord : Ordered dep order) {l₁ l₂ : List (Str × Error)}
    {x : Str × Error} (hsplit : r.executed = l₁ ++ x :: l₂) {d : Str} (hd : dep x.1 d) :
    ∃ e, (d, e) ∈ l₁ ∧ e.isSuccess = true := by
  obtain ⟨rest, hrest⟩ := h.names_prefix
  have hnames : r.names = l₁.map Prod.fst ++ x.1 :: l₂.map Prod.fst := by
    rw [Run.names, hsplit, List.map_append, List.map_cons]
  have hdone := hord (l₁.map Prod.fst) x.1 (l₂.map Prod.fst ++ rest)
    (by rw [← hrest, hnames]; simp) d hd
  obtain ⟨y, hy, rfl⟩ := List.mem_map.mp hdone
  exact ⟨y.2, hy, h.success_before hsplit y hy⟩

/-- A run over an order does not leave through the checks of the loop. -/
theorem Stops.exit_cases {order : List Str} {r : Run W} (h : Stops order r) :
    r.exit = .done ∨ ∃ e, r.exit = .failed e := by
  rcases h with ⟨hexit, -⟩ | ⟨_, _, e, hexit, -⟩
  · exact Or.inl hexit
  · exact Or.inr ⟨e, hexit⟩

/-- **`execute_all`** on every reachable manager, for every order of
    iteration and whatever the actions do: what is recorded is what was called
    and what it left, and a run that resolves goes along the order, to its end
    or to the first failure. -/
theorem executeAll_correct (exec : P → W → Error × W) {m : DependencyManager P}
    (h : Reachable m) (it : m.dependencies.Iteration) (w : W) :
    (∀ k, k ∈ m.processes.keys ↔ k ∈ m.dependencies.keys)
    ∧ m.Executes exec w (m.executeAll exec it w).executed (m.executeAll exec it w).world
    ∧ ((m.resolveDependencies it).success = false →
        (m.executeAll exec it w).executed = []
        ∧ (m.executeAll exec it w).exit.error.isError = true)
    ∧ ((m.resolveDependencies it).success = true →
        Stops (m.resolveDependencies it).order (m.executeAll exec it w))
    ∧ (m.executeAll exec it w).names.Nodup
    ∧ (∀ name ∈ (m.executeAll exec it w).names, name ∈ m.processes.keys)
    ∧ (∀ l₁ x l₂, (m.executeAll exec it w).executed = l₁ ++ x :: l₂ →
        (∀ dep, m.Needs x.1 dep → ∃ e, (dep, e) ∈ l₁ ∧ e.isSuccess = true)
        ∧ (x.2.isError = true →
            l₂ = [] ∧ (m.executeAll exec it w).exit.error = x.2))
    ∧ ((m.executeAll exec it w).exit.error.isSuccess = true
        ↔ ∀ k ∈ m.processes.keys,
            ∃ e, (k, e) ∈ (m.executeAll exec it w).executed ∧ e.isSuccess = true)
    ∧ (∀ name, (m.executeAll exec it w).exit ≠ .notFound name)
    ∧ (∀ name, (m.executeAll exec it w).exit ≠ .notReady name) := by
  have hkeys := h.sameKeys
  refine ⟨hkeys, executeAll_executes exec m it w, ?_⟩
  rcases (executeAll_cases it hkeys w :
      (_ ∧ ∃ message, m.executeAll exec it w = ⟨.resolveFailed message, [], w⟩) ∨ _) with
    ⟨hfail, message, hrun⟩ | ⟨hsucc, hperm, hord, hstops⟩
  · rw [hrun]
    refine ⟨fun _ => ⟨rfl, rfl⟩, fun hs => absurd hs (by simp [hfail]), List.nodup_nil,
      List.forall_mem_nil _, ?_, ?_, ?_, ?_⟩
    · intro l₁ x l₂ hsplit
      exact absurd hsplit.symm (by simp)
    · refine iff_of_false (by simp [Exit.error, Error.isSuccess]) (fun hall => ?_)
      -- nothing ran, so all succeeded only without processes, which resolve
      have hnil : m.dependencies.keys = [] := by
        refine List.eq_nil_iff_forall_not_mem.mpr (fun k hk => ?_)
        obtain ⟨e, he, -⟩ := hall k ((hkeys k).mpr hk)
        cases he
      rw [resolveDependencies_of_keys_nil it hnil] at hfail
      cases hfail
    · intro name hn
      cases hn
    · intro name hn
      cases hn
  · have hnodup := hperm.nodup_iff.mpr m.dependencies.nodup
    have hpre := hstops.names_prefix
    refine ⟨fun hf => ?_, fun _ => hstops, hnodup.sublist hpre.sublist, fun name hn => ?_,
      ?_, ?_, ?_, ?_⟩
    · rw [hsucc] at hf
      cases hf
    · exact (hkeys name).mpr (hperm.mem_iff.mp (hpre.subset hn))
    · intro l₁ x l₂ hsplit
      exact ⟨fun dep hdep => hstops.needs_before hord hsplit hdep, hstops.failed_last hsplit⟩
    · rw [hstops.success_iff hnodup]
      constructor
      · intro hall k hk
        exact hall k (hperm.mem_iff.mpr ((hkeys k).mp hk))
      · intro hall k hk
        exact hall k ((hkeys k).mpr (hperm.mem_iff.mp hk))
    · intro name hn
      rcases hstops.exit_cases with hexit | ⟨e, hexit⟩ <;> rw [hexit] at hn <;> cases hn
    · intro name hn
      rcases hstops.exit_cases with hexit | ⟨e, hexit⟩ <;> rw [hexit] at hn <;> cases hn

/-- `b`, which depends on `a`, is registered first. -/
def twoProcesses : DependencyManager Nat :=
  ((init.addProcess "b".toList (some 1) ["a".toList]).2.addProcess "a".toList (some 2) []).2

theorem reachable_twoProcesses : Reachable twoProcesses :=
  (Reachable.init.addProcess "b".toList (some 1) ["a".toList]).addProcess "a".toList (some 2) []

/-- A call under which `a` fails; the world counts what was called. -/
def failingFirst (n w : Nat) : Error × Nat :=
  (if n = 2 then ⟨.processSpawnFailed, []⟩ else Error.ok, w + n)

/-- `b` is not executed, and the world is the one the call of `a` left. -/
theorem executeAll_correct_two_processes :
    (twoProcesses.executeAll failingFirst ⟨_, List.Perm.refl _⟩ 0).executed
        = [("a".toList, ⟨.processSpawnFailed, []⟩)]
      ∧ (twoProcesses.executeAll failingFirst ⟨_, List.Perm.refl _⟩ 0).world = 2 := by
  obtain ⟨-, hexec, -, hstops, -, -, hlog, -, -, -⟩ := executeAll_correct failingFirst
    reachable_twoProcesses ⟨_, List.Perm.refl _⟩ 0
  have hstops := hstops (by decide)
  rw [show (twoProcesses.resolveDependencies ⟨_, List.Perm.refl _⟩).order
    = ["a".toList, "b".toList] from by decide] at hstops
  obtain ⟨run, hrun⟩ : ∃ run,
    twoProcesses.executeAll failingFirst ⟨_, List.Perm.refl _⟩ 0 = run := ⟨_, rfl⟩
  rw [hrun] at hexec hstops hlog ⊢
  obtain ⟨exit, executed, world⟩ := run
  cases hexec with
  | nil =>
      rcases hstops with ⟨-, hnames, -⟩ | ⟨before, name, e, -, -, hempty, -⟩
      · cases hnames
      · exact absurd hempty.symm (by simp)
  | @cons _ _ name action log hfind hrest =>
      -- the first call is that of `a`, which fails, so that it is the last one
      obtain ⟨rfl, -⟩ := List.cons_prefix_cons.mp hstops.names_prefix
      obtain rfl : (2 : Nat) = action := Option.some.inj ((by decide :
        twoProcesses.processes.find "a".toList = some 2).symm.trans hfind)
      obtain ⟨rfl, -⟩ := (hlog [] _ log rfl).2 rfl
      cases hrest
      exact ⟨rfl, rfl⟩

end DependencyManager

end LaunchCpp
