import LaunchCpp.Yaml.Builder
import LaunchCpp.Library.DependencyOrder

/-! # `LaunchDescription::visit` and `LaunchService::run`

    A service visits its descriptions, and a description its entities, in the
    order they were added, up to the first error.  What an entity does is up
    to a `Behaviour` on a world of any type `W`; a run records in `executed`
    the options of every `ExecuteProcess` whose `execute` is called.  The main
    result is `run_ordered_iff`: no run executes a process before one it
    depends on if and only if the list itself is in dependency order. -/

namespace LaunchCpp

open DependencyOrder

/-- What the entities of a description do. -/
structure Behaviour (O W : Type) where
  executeProcess : ExecuteProcess.Options → W → Result Unit × W
  declareLaunchArgument : DeclareLaunchArgument.Options → W → Result Unit × W
  visitOther : O → W → Result (List (Option (LaunchDescriptionEntity O))) × W

/-- The end of a call: its result, the world it leaves and the processes it
    executed. -/
structure Visited (α W : Type) where
  result : α
  world : W
  executed : List ExecuteProcess.Options := []

section Visit

variable {O W : Type}

/-- `Action::visit`. -/
def actionVisit (condition : Option (W → Bool)) (execute : W → Visited (Result Unit) W)
    (w : W) : Visited (Result (List (Option (LaunchDescriptionEntity O)))) W :=
  if condition.all (fun evaluate => evaluate w) then
    let executed := execute w
    { executed with result := executed.result.map (fun _ => []) }
  else { result := .ok [], world := w }

/-- `visit` of an entity.  The two actions are constructed without a
    condition. -/
def entityVisit (b : Behaviour O W) : LaunchDescriptionEntity O → W →
    Visited (Result (List (Option (LaunchDescriptionEntity O)))) W
  | .executeProcess options =>
      actionVisit none (fun w =>
        let r := b.executeProcess options w
        { result := r.1, world := r.2, executed := [options] })
  | .declareLaunchArgument options =>
      actionVisit none (fun w =>
        let r := b.declareLaunchArgument options w
        { result := r.1, world := r.2 })
  | .other entity => fun w =>
      let r := b.visitOther entity w
      { result := r.1, world := r.2 }

namespace LaunchDescription

/-- The loop of `visit`. -/
def visitLoop (b : Behaviour O W) : List (Option (LaunchDescriptionEntity O)) →
    List (Option (LaunchDescriptionEntity O)) → W →
    Visited (Result (List (Option (LaunchDescriptionEntity O)))) W
  | [], result, w => { result := .ok result, world := w }
  | none :: rest, result, w => visitLoop b rest result w
  | some entity :: rest, result, w =>
      let visited := entityVisit b entity w
      match visited.result with
      | .error _ => visited
      | .ok childEntities =>
          let next := visitLoop b rest (result ++ childEntities.filter Option.isSome)
            visited.world
          { next with executed := visited.executed ++ next.executed }

/-- `visit`. -/
def visit (d : LaunchDescription (LaunchDescriptionEntity O)) (b : Behaviour O W) (w : W) :
    Visited (Result (List (Option (LaunchDescriptionEntity O)))) W :=
  visitLoop b d.entities [] w

end LaunchDescription

end Visit

/-- `LaunchServiceStatus`. -/
inductive LaunchServiceStatus where
  | idle
  | running
  | shuttingDown
  | stopped
  deriving DecidableEq, Repr

/-- The members of `LaunchService`; a null pointer is `none`. -/
structure LaunchService (O : Type) where
  status : LaunchServiceStatus := .idle
  descriptions : List (Option (LaunchDescription (LaunchDescriptionEntity O))) := []
  shutdownRequested : Bool := false

namespace LaunchService

variable {O W : Type}

/-- `include_launch_description`. -/
def includeLaunchDescription (s : LaunchService O)
    (description : Option (LaunchDescription (LaunchDescriptionEntity O))) :
    Error × LaunchService O :=
  match description with
  | none => (⟨.invalidArgument, "Null launch description".toList⟩, s)
  | some _ => (Error.ok, { s with descriptions := s.descriptions ++ [description] })

/-- `shutdown`. -/
def shutdown (s : LaunchService O) : Error × LaunchService O :=
  if s.status ≠ .running then (Error.ok, s)
  else (Error.ok, { s with status := .stopped, shutdownRequested := true })

/-- A recorded run: each executed process with the index of its description. -/
structure Run (O W : Type) where
  exitCode : Int
  service : LaunchService O
  world : W
  executed : List (Nat × ExecuteProcess.Options) := []

/-- The loop of `run` over the descriptions from index `i` on: whether it got
    through, the world, and what was executed. -/
def runLoop (b : Behaviour O W) : Nat →
    List (Option (LaunchDescription (LaunchDescriptionEntity O))) → W →
    Bool × W × List (Nat × ExecuteProcess.Options)
  | _, [], w => (true, w, [])
  | i, none :: rest, w => runLoop b (i + 1) rest w
  | i, some desc :: rest, w =>
      let visited := desc.visit b w
      let executed := visited.executed.map (fun options => (i, options))
      match visited.result with
      | .error _ => (false, visited.world, executed)
      | .ok _ =>
          let next := runLoop b (i + 1) rest visited.world
          (next.1, next.2.1, executed ++ next.2.2)

/-- `run`. -/
def run (s : LaunchService O) (b : Behaviour O W) (shutdownWhenIdle : Bool) (w : W) :
    Run O W :=
  if s.status ≠ .idle then { exitCode := 1, service := s, world := w }
  else
    let s := { s with status := .running }
    match runLoop b 0 s.descriptions w with
    | (false, w, executed) => { exitCode := 1, service := s, world := w, executed }
    | (true, w, executed) =>
        { exitCode := 0
          service := if shutdownWhenIdle then s.shutdown.2 else s
          world := w
          executed }

/-- What was executed of the description with index `i`, in order. -/
def executedAt (i : Nat) (executed : List (Nat × ExecuteProcess.Options)) :
    List ExecuteProcess.Options :=
  (executed.filter (fun e => e.1 = i)).map Prod.snd

end LaunchService

/-! ## Processes and their dependencies -/

section Processes

variable {O : Type}

/-- An `ExecuteProcess` among the entities. -/
def LaunchDescriptionEntity.process? : LaunchDescriptionEntity O → Option ExecuteProcess.Options
  | .executeProcess options => some options
  | _ => none

/-- The processes of a list of entities, in order. -/
def processesOf (entities : List (Option (LaunchDescriptionEntity O))) :
    List ExecuteProcess.Options :=
  entities.filterMap (fun entity => entity.bind LaunchDescriptionEntity.process?)

/-- The name of a process, resolved in a context. -/
def nameOf (context : LaunchContext) (options : ExecuteProcess.Options) : Str :=
  (options.name.map (·.perform context)).getD []

/-- What the `depends_on` lists say about names. -/
def DependsOn (context : LaunchContext) (processes : List ExecuteProcess.Options)
    (name dependency : Str) : Prop :=
  ∃ options ∈ processes, nameOf context options = name ∧ dependency ∈ options.dependsOn

end Processes

/-! ## What is executed -/

section Executed

variable {O W : Type} (b : Behaviour O W)

/-- A visit of an entity executes the process it is, if it is one. -/
theorem executed_entityVisit (entity : LaunchDescriptionEntity O) (w : W) :
    (entityVisit b entity w).executed = entity.process?.toList := by
  cases entity <;> rfl

/-- A visit executes the processes in the order of the list, and all of them
    when no entity fails. -/
theorem executed_visitLoop (entities result : List (Option (LaunchDescriptionEntity O)))
    (w : W) :
    (LaunchDescription.visitLoop b entities result w).executed <+: processesOf entities
      ∧ ((LaunchDescription.visitLoop b entities result w).result.isOk = true →
        (LaunchDescription.visitLoop b entities result w).executed = processesOf entities) := by
  induction entities generalizing result w with
  | nil => exact ⟨List.prefix_refl _, fun _ => rfl⟩
  | cons entity rest ih =>
      cases entity with
      | none => exact ih result w
      | some entity =>
          have hprocesses : processesOf (some entity :: rest)
              = entity.process?.toList ++ processesOf rest := by
            rw [processesOf]
            rw [List.filterMap_cons, Option.bind_some]
            cases entity.process? <;> rfl
          rw [LaunchDescription.visitLoop]
          rw [hprocesses]
          simp only
          cases hresult : (entityVisit b entity w).result with
          | error e =>
              simp only [executed_entityVisit, hresult]
              refine ⟨List.prefix_append _ _, fun hok => ?_⟩
              cases hok
          | ok children =>
              -- children are collected, not visited: they execute nothing
              simp only [executed_entityVisit]
              obtain ⟨hfirst, hall⟩ := ih (result ++ children.filter Option.isSome)
                (entityVisit b entity w).world
              exact ⟨List.prefix_append_right_inj _ |>.mpr hfirst,
                fun hok => congrArg _ (hall hok)⟩

/-- Later descriptions have larger indices. -/
theorem le_of_mem_runLoop (i : Nat)
    (descriptions : List (Option (LaunchDescription (LaunchDescriptionEntity O)))) (w : W) :
    ∀ e ∈ (LaunchService.runLoop b i descriptions w).2.2, i ≤ e.1 := by
  induction descriptions generalizing i w with
  | nil => exact List.forall_mem_nil _
  | cons desc rest ih =>
      cases desc with
      | none => exact fun e he => Nat.le_of_succ_le (ih (i + 1) w e he)
      | some desc =>
          have hfirst : ∀ e ∈ (desc.visit b w).executed.map (fun options => (i, options)),
              i ≤ e.1 := by
            intro e he
            obtain ⟨options, -, rfl⟩ := List.mem_map.mp he
            exact le_rfl
          rw [LaunchService.runLoop]
          simp only
          cases (desc.visit b w).result with
          | error _ => exact hfirst
          | ok _ =>
              exact List.forall_mem_append.mpr ⟨hfirst,
                fun e he => Nat.le_of_succ_le (ih (i + 1) _ e he)⟩

namespace LaunchService

theorem executedAt_append (i : Nat) (l r : List (Nat × ExecuteProcess.Options)) :
    executedAt i (l ++ r) = executedAt i l ++ executedAt i r := by
  unfold executedAt
  rw [List.filter_append, List.map_append]

theorem executedAt_self (i : Nat) (l : List ExecuteProcess.Options) :
    executedAt i (l.map (fun options => (i, options))) = l := by
  rw [executedAt]
  rw [List.filter_eq_self.mpr (by simp), List.map_map]
  exact List.map_id'' (fun _ => rfl) l

theorem executedAt_of_lt {i : Nat} {l : List (Nat × ExecuteProcess.Options)}
    (h : ∀ e ∈ l, i < e.1) : executedAt i l = [] := by
  rw [executedAt]
  rw [List.filter_eq_nil_iff.mpr (fun e he => by simpa using (h e he).ne'), List.map_nil]

theorem executedAt_of_index {i j : Nat} (h : j ≠ i) (l : List ExecuteProcess.Options) :
    executedAt i (l.map (fun options => (j, options))) = [] := by
  rw [executedAt]
  rw [List.filter_eq_nil_iff.mpr (by simp [h]), List.map_nil]

/-- Of each description a run executes a first part, and everything when no
    visit fails. -/
theorem executed_runLoop (i : Nat)
    (descriptions : List (Option (LaunchDescription (LaunchDescriptionEntity O)))) (w : W)
    {j : Nat} {desc : LaunchDescription (LaunchDescriptionEntity O)}
    (hdesc : descriptions[j]? = some (some desc)) :
    executedAt (i + j) (runLoop b i descriptions w).2.2 <+: processesOf desc.entities
      ∧ ((∀ (d : LaunchDescription (LaunchDescriptionEntity O)) (w : W),
          (d.visit b w).result.isOk = true) →
        executedAt (i + j) (runLoop b i descriptions w).2.2 = processesOf desc.entities) := by
  induction descriptions generalizing i w j with
  | nil => cases hdesc
  | cons first rest ih =>
      cases first with
      | none =>
          -- a null description takes an index and executes nothing
          obtain ⟨j, rfl⟩ : ∃ k, j = k + 1 := by
            cases j with
            | zero => cases hdesc
            | succ k => exact ⟨k, rfl⟩
          rw [show i + (j + 1) = i + 1 + j by omega]
          exact ih (i + 1) w hdesc
      | some first =>
          have hnext : ∀ w, executedAt i (runLoop b (i + 1) rest w).2.2 = [] := fun w =>
            executedAt_of_lt (fun e he => le_of_mem_runLoop b (i + 1) rest w e he)
          rw [runLoop]
          simp only
          cases j with
          | zero =>
              -- this description: what comes later has another index
              obtain rfl : first = desc := Option.some.inj (Option.some.inj hdesc)
              obtain ⟨hfirst, hall⟩ := executed_visitLoop b first.entities [] w
              cases hresult : (first.visit b w).result with
              | error e =>
                  simp only [Nat.add_zero, executedAt_self]
                  refine ⟨hfirst, fun hok => ?_⟩
                  have := hok first w
                  rw [hresult] at this
                  cases this
              | ok _ =>
                  simp only [Nat.add_zero, executedAt_append, executedAt_self, hnext,
                    List.append_nil]
                  exact ⟨hfirst, fun hok => hall (hok first w)⟩
          | succ j =>
              have hindex : i ≠ i + (j + 1) := by omega
              cases hresult : (first.visit b w).result with
              | error e =>
                  simp only [executedAt_of_index hindex]
                  refine ⟨List.nil_prefix, fun hok => ?_⟩
                  have := hok first w
                  rw [hresult] at this
                  cases this
              | ok _ =>
                  simp only [executedAt_append, executedAt_of_index hindex, List.nil_append]
                  rw [show i + (j + 1) = i + 1 + j by omega]
                  exact ih (i + 1) _ hdesc

theorem executed_run {s : LaunchService O} (hidle : s.status = .idle) (shutdownWhenIdle : Bool)
    (w : W) : (s.run b shutdownWhenIdle w).executed = (runLoop b 0 s.descriptions w).2.2 := by
  rw [run]
  rw [if_neg (not_not_intro hidle)]
  simp only
  rcases runLoop b 0 s.descriptions w with ⟨_ | _, w, executed⟩ <;> rfl

end LaunchService

end Executed

/-! ## Dependencies and the order of the list -/

/-- Entities that all succeed. -/
def succeeding (O : Type) : Behaviour O Unit where
  executeProcess _ w := (.ok (), w)
  declareLaunchArgument _ w := (.ok (), w)
  visitOther _ w := (.ok [], w)

theorem visitLoop_succeeding {O : Type}
    (entities result : List (Option (LaunchDescriptionEntity O))) (w : Unit) :
    (LaunchDescription.visitLoop (succeeding O) entities result w).result.isOk = true := by
  induction entities generalizing result w with
  | nil => rfl
  | cons entity rest ih =>
      cases entity with
      | none => exact ih result w
      | some entity => cases entity <;> exact ih _ _

namespace LaunchService

variable {O : Type}

/-- **When a run keeps to `depends_on`.**  Whatever the entities do, and
    wherever a run ends, every process of a description is executed after all
    processes it depends on, if and only if the description lists it after
    them: `run` goes by the order of the list, and `depends_on` is not
    looked at. -/
theorem run_ordered_iff {s : LaunchService O} (hidle : s.status = .idle)
    (shutdownWhenIdle : Bool) (context : LaunchContext) {i : Nat}
    {desc : LaunchDescription (LaunchDescriptionEntity O)}
    (hdesc : s.descriptions[i]? = some (some desc)) :
    (∀ (W : Type) (b : Behaviour O W) (w : W),
      Ordered (DependsOn context (processesOf desc.entities))
        ((executedAt i (s.run b shutdownWhenIdle w).executed).map (nameOf context)))
    ↔ Ordered (DependsOn context (processesOf desc.entities))
        ((processesOf desc.entities).map (nameOf context)) := by
  constructor
  · intro h
    have hrun := h Unit (succeeding O) ()
    have hall := (executed_runLoop (succeeding O) 0 s.descriptions () hdesc).2
      (fun d w => visitLoop_succeeding d.entities [] w)
    rw [executed_run _ hidle, ← Nat.zero_add i, hall] at hrun
    exact hrun
  · intro h W b w
    rw [executed_run _ hidle, ← Nat.zero_add i]
    exact h.of_prefix ((executed_runLoop b 0 s.descriptions w hdesc).1.map _)

/-- A listener, and behind it the talker it depends on. -/
def listenerFirst : LaunchDescription (LaunchDescriptionEntity Unit) where
  entities :=
    [some (.executeProcess
        { name := some (textSubstitution "listener".toList)
          dependsOn := ["talker".toList] }),
      some (.executeProcess { name := some (textSubstitution "talker".toList) })]

/-- The same two processes, the talker first. -/
def talkerFirst : LaunchDescription (LaunchDescriptionEntity Unit) where
  entities := listenerFirst.entities.reverse

/-- In either order only the listener depends on anything, and only on the
    talker. -/
theorem dependsOn_listenerFirst {processes : List ExecuteProcess.Options}
    (hprocesses : processes ⊆ processesOf listenerFirst.entities) {name dependency : Str}
    (h : DependsOn LaunchContext.empty processes name dependency) :
    name = "listener".toList ∧ dependency = "talker".toList := by
  obtain ⟨options, hmem, hname, hdep⟩ := h
  rcases List.mem_cons.mp (hprocesses hmem) with rfl | hmem
  · exact ⟨hname.symm, List.mem_singleton.mp hdep⟩
  · obtain rfl := List.mem_singleton.mp hmem
    cases hdep

/-- The talker before the listener is a dependency order. -/
theorem ordered_talker_listener {processes : List ExecuteProcess.Options}
    (hprocesses : processes ⊆ processesOf listenerFirst.entities) :
    Ordered (DependsOn LaunchContext.empty processes) ["talker".toList, "listener".toList] := by
  refine Ordered.concat (l := ["talker".toList]) (Ordered.nil.concat ?_) ?_
  · intro dependency h
    exact absurd (dependsOn_listenerFirst hprocesses h).1 (by decide)
  · intro dependency h
    rw [(dependsOn_listenerFirst hprocesses h).2]
    exact List.mem_singleton_self _

/-- Listed behind the talker it depends on, the listener is executed behind it
    in every run. -/
theorem run_ordered_iff_talker :
    DependsOn LaunchContext.empty (processesOf talkerFirst.entities)
        "listener".toList "talker".toList
    ∧ ∀ (W : Type) (b : Behaviour Unit W) (w : W),
      Ordered (DependsOn LaunchContext.empty (processesOf talkerFirst.entities))
        ((executedAt 0 (({ descriptions := [some talkerFirst] } : LaunchService Unit).run
          b true w).executed).map (nameOf LaunchContext.empty)) := by
  refine ⟨⟨_, List.mem_cons_of_mem _ List.mem_cons_self, rfl, List.mem_singleton_self _⟩, ?_⟩
  refine (run_ordered_iff (s := { descriptions := [some talkerFirst] }) rfl true
    LaunchContext.empty (i := 0) rfl).mpr ?_
  exact ordered_talker_listener (fun _ h => List.mem_reverse.mp h)

/-- The listener is executed first, though names are distinct, every
    dependency is there, and there is no cycle. -/
theorem run_ordered_iff_listener :
    ((processesOf listenerFirst.entities).map (nameOf LaunchContext.empty)).Nodup
    ∧ (∀ options ∈ processesOf listenerFirst.entities, ∀ dependency ∈ options.dependsOn,
        dependency ∈ (processesOf listenerFirst.entities).map (nameOf LaunchContext.empty))
    ∧ ¬ Cyclic (DependsOn LaunchContext.empty (processesOf listenerFirst.entities))
    ∧ ¬ Ordered (DependsOn LaunchContext.empty (processesOf listenerFirst.entities))
        ((executedAt 0 (({ descriptions := [some listenerFirst] } : LaunchService Unit).run
          (succeeding Unit) true ()).executed).map (nameOf LaunchContext.empty)) := by
  refine ⟨by decide, by decide, ?_, fun h => ?_⟩
  · have hordered := ordered_talker_listener
      (List.Subset.refl (processesOf listenerFirst.entities))
    refine not_cyclic_of_acc (fun name dependency h => hordered.acc name ?_)
    rw [(dependsOn_listenerFirst (List.Subset.refl _) h).1]
    decide
  · refine absurd (h [] "listener".toList ["talker".toList] rfl "talker".toList ?_)
      List.not_mem_nil
    exact ⟨_, List.mem_cons_self, rfl, List.mem_singleton_self _⟩

end LaunchService

/-! ## Launch files -/

namespace Yaml.YamlLaunchBuilder

/-- An entity of a launch file becomes a process when it says it is one. -/
theorem process?_built {D O : Type} (stod : Str → Option D) (e : FileEntity) :
    (built stod O e).bind (fun p => p.2.process?)
      = if typeOf e = some "execute_process".toList then
          some (executeProcessOptions (fileValue stod e)) else none := by
  rw [built]
  by_cases hprocess : typeOf e = some "execute_process".toList
  · rw [buildAction_executeProcess stod hprocess, if_pos hprocess]
    rfl
  · rw [if_neg hprocess]
    by_cases hargument : typeOf e = some "declare_launch_argument".toList
    · rw [buildAction_declareLaunchArgument stod hargument]
      rfl
    · obtain ⟨error, herror⟩ := buildAction_unknown (O := O) (e := e) stod
        (Bool.or_eq_false_iff.mpr ⟨decide_eq_false hprocess, decide_eq_false hargument⟩)
      rw [herror]
      rfl

/-- **The way of `depends_on` through the builder**: the processes of a launch
    file are added in the order of the file. -/
theorem processesOf_addActions {D O : Type} (stod : Str → Option D) (es : List FileEntity) :
    processesOf (addActions (O := O) (es.map (fileValue stod)) {}).entities
      = (es.filter (fun e => typeOf e = some "execute_process".toList)).map
          (fun e => executeProcessOptions (fileValue stod e)) := by
  rw [addActions_fileValue]
  show processesOf ((es.filterMap (built stod O)).map (fun p => some p.2)) = _
  rw [processesOf]
  rw [List.filterMap_map, List.filterMap_filterMap]
  refine (congrArg (List.filterMap · es) (funext (process?_built (O := O) stod))).trans ?_
  induction es with
  | nil => rfl
  | cons e es ih =>
      rw [List.filterMap_cons, List.filter_cons]
      by_cases hprocess : typeOf e = some "execute_process".toList
      · rw [if_pos hprocess, if_pos (decide_eq_true hprocess), List.map_cons, ← ih]
      · rw [if_neg hprocess, if_neg (fun h => hprocess (of_decide_eq_true h)), ← ih]

end Yaml.YamlLaunchBuilder

end LaunchCpp
