import LaunchCpp.ActionTree
import LaunchCpp.LaunchFiles
import Mathlib.Data.Set.Basic

/-! # Conditions

    `IfCondition`, `UnlessCondition` and `LaunchConfigurationEquals`, on the
    trees of actions they guard.  A condition is evaluated when its turn comes,
    in the context the actions before it have made.  `selected_when_launched`
    says when that makes no difference: what is performed can then be read off
    the tree and the context it is launched in. -/

namespace LaunchCpp

open GuardedPrograms

/-! ## The three conditions -/

/-- `IfCondition::evaluate`. -/
def IfCondition.evaluate (expression : Option Substitution) (context : LaunchContext) : Bool :=
  match expression with
  | none => false
  | some expression =>
      let result := expression.perform context
      if result = [] then false
      else if result = "false".toList ∨ result = "0".toList then false
      else true

/-- `UnlessCondition::evaluate`. -/
def UnlessCondition.evaluate (expression : Option Substitution) (context : LaunchContext) :
    Bool :=
  match expression with
  | none => true
  | some expression =>
      let result := expression.perform context
      if result = [] then true
      else if result = "false".toList ∨ result = "0".toList then true
      else false

/-- `LaunchConfigurationEquals::evaluate`. -/
def LaunchConfigurationEquals.evaluate (name : Str) (expected : Option Substitution)
    (context : LaunchContext) : Bool :=
  match context.getLaunchConfiguration name with
  | .error _ => false
  | .ok actual =>
      match expected with
      | none => false
      | some expected => actual = expected.perform context

/-- `Condition`; the pointers a condition holds may be null. -/
inductive Condition where
  | ifCondition (expression : Option Substitution)
  | unlessCondition (expression : Option Substitution)
  | launchConfigurationEquals (name : Str) (expected : Option Substitution)

namespace Condition

def evaluate : Condition → LaunchContext → Bool
  | ifCondition expression => IfCondition.evaluate expression
  | unlessCondition expression => UnlessCondition.evaluate expression
  | launchConfigurationEquals name expected => LaunchConfigurationEquals.evaluate name expected

/-- The two are opposites, without an expression too. -/
theorem evaluate_unless (expression : Option Substitution) (context : LaunchContext) :
    (unlessCondition expression).evaluate context
      = !(ifCondition expression).evaluate context := by
  cases expression with
  | none => rfl
  | some expression =>
      simp only [evaluate, UnlessCondition.evaluate, IfCondition.evaluate]
      split_ifs <;> rfl

end Condition

/-! ## What a condition reads and an action leaves alone -/

/-- Two contexts with the same environment and the same configurations in
    `K`. -/
structure LaunchContext.AgreeOn (K : Set Str) (context context' : LaunchContext) : Prop where
  getenv : context.getenv = context'.getenv
  find : ∀ k ∈ K, context.configurations.find k = context'.configurations.find k

namespace LaunchContext.AgreeOn

variable {K : Set Str} {context context' : LaunchContext}

/-- A context agrees with itself. -/
theorem refl (context : LaunchContext) : context.AgreeOn K context := ⟨rfl, fun _ _ => rfl⟩

/-- Contexts that agree have the same configurations there. -/
theorem getLaunchConfiguration (h : context.AgreeOn K context') {k : Str} (hk : k ∈ K) :
    context.getLaunchConfiguration k = context'.getLaunchConfiguration k := by
  rw [LaunchContext.getLaunchConfiguration, LaunchContext.getLaunchConfiguration, h.find k hk]

end LaunchContext.AgreeOn

/-- A substitution that reads nothing but the environment and `K`. -/
def Substitution.ReadsOnly (K : Set Str) (s : Substitution) : Prop :=
  ∀ context context', LaunchContext.AgreeOn K context context' →
    s.perform context = s.perform context'

/-- A text reads nothing. -/
theorem textSubstitution_readsOnly (K : Set Str) (text : Str) :
    (textSubstitution text).ReadsOnly K :=
  fun _ _ _ => rfl

/-- A variable reads its name. -/
theorem variableSubstitution_readsOnly {K : Set Str} {name : Str} (h : name ∈ K)
    (defaultValue : Str) : (variableSubstitution name defaultValue).ReadsOnly K := by
  intro context context' hagree
  rw [perform_variableSubstitution, perform_variableSubstitution, hagree.getLaunchConfiguration h]

/-- So does a launch configuration. -/
theorem launchConfiguration_readsOnly {K : Set Str} {name : Str} (h : name ∈ K) :
    (launchConfiguration name).ReadsOnly K :=
  variableSubstitution_readsOnly h []

/-- The environment is no configuration. -/
theorem environmentVariable_readsOnly (K : Set Str) (name defaultValue : Str) :
    (environmentVariable name defaultValue).ReadsOnly K := by
  intro context context' hagree
  rw [perform_environmentVariable, perform_environmentVariable,
    LaunchContext.getEnvironmentVariable, LaunchContext.getEnvironmentVariable, hagree.getenv]

/-- The configurations a condition rests on are in `K`. -/
def Condition.ReadsOnly (K : Set Str) : Condition → Prop
  | ifCondition expression => ∀ e, expression = some e → e.ReadsOnly K
  | unlessCondition expression => ∀ e, expression = some e → e.ReadsOnly K
  | launchConfigurationEquals name expected =>
      name ∈ K ∧ ∀ e, expected = some e → e.ReadsOnly K

/-- **A condition sees only what it reads.** -/
theorem Condition.ReadsOnly.evaluate_eq {K : Set Str} {c : Condition} (h : c.ReadsOnly K)
    {context context' : LaunchContext} (hagree : context.AgreeOn K context') :
    c.evaluate context = c.evaluate context' := by
  have hif : ∀ expression : Option Substitution, (∀ e, expression = some e → e.ReadsOnly K) →
      (ifCondition expression).evaluate context = (ifCondition expression).evaluate context' := by
    intro expression hreads
    show IfCondition.evaluate _ _ = IfCondition.evaluate _ _
    cases expression with
    | none => rfl
    | some e => rw [IfCondition.evaluate, IfCondition.evaluate, hreads e rfl _ _ hagree]
  cases c with
  | ifCondition expression => exact hif expression h
  | unlessCondition expression =>
      rw [evaluate_unless, evaluate_unless, hif expression h]
  | launchConfigurationEquals name expected =>
      obtain ⟨hname, hreads⟩ := h
      show LaunchConfigurationEquals.evaluate _ _ _ = LaunchConfigurationEquals.evaluate _ _ _
      rw [LaunchConfigurationEquals.evaluate, LaunchConfigurationEquals.evaluate,
        hagree.getLaunchConfiguration hname]
      cases expected with
      | none => rfl
      | some e => simp only [hreads e rfl _ _ hagree]

/-- The actions that are neither groups nor timers; `O` holds those that have
    no model of their own in a tree. -/
inductive SingleAction (O : Type) where
  | executeProcess (options : ExecuteProcess.Options)
  | declareLaunchArgument (options : DeclareLaunchArgument.Options)
  | setLaunchConfiguration (options : SetLaunchConfiguration.Options)
  | other (action : O)

section Launch

variable {O V : Type} (machine : Machine V) (fuel : Nat)
  (executeOther : O → LaunchState V → Result Unit × LaunchState V)

/-- `execute` of a single action. -/
def SingleAction.execute : SingleAction O → LaunchState V → Result Unit × LaunchState V
  | executeProcess options =>
      (launching machine fuel (fun (o : Empty) _ => o.elim)).executeProcess options
  | declareLaunchArgument options =>
      (launching machine fuel (fun (o : Empty) _ => o.elim)).declareLaunchArgument options
  | setLaunchConfiguration options => fun w =>
      ((SetLaunchConfiguration.execute options w.context).1,
        { w with context := (SetLaunchConfiguration.execute options w.context).2 })
  | other action => executeOther action

/-- A tree of single actions under the three conditions. -/
def launchTree : TreeBehaviour (SingleAction O) Condition (LaunchState V) where
  execute := SingleAction.execute machine fuel executeOther
  evaluate c w := c.evaluate w.context

/-- The action does not change what `K` is in a context: a declaration has no
    default, or one for what is set, or for something else. -/
def SingleAction.LeavesAlone (K : Set Str) (context : LaunchContext) : SingleAction O → Prop
  | executeProcess _ => True
  | declareLaunchArgument options =>
      options.defaultValue = none ∨ options.name ∉ K
        ∨ context.configurations.find options.name ≠ none
  | setLaunchConfiguration options => options.name ∉ K
  | other action => ∀ w, LaunchContext.AgreeOn K (executeOther action w).2.context w.context

end Launch

/-- Setting another configuration goes unseen. -/
theorem LaunchContext.AgreeOn.setLaunchConfiguration {K : Set Str}
    {context context' : LaunchContext} (h : context.AgreeOn K context') {name : Str}
    (hname : name ∉ K) (value : Str) :
    (context.setLaunchConfiguration name value).AgreeOn K context' := by
  refine ⟨h.getenv, fun k hk => ?_⟩
  have hne : k ≠ name := by
    rintro rfl
    exact hname hk
  rw [context.find_setLaunchConfiguration_of_ne hne, h.find k hk]

/-- So does declaring one that is set, or another one. -/
theorem LaunchContext.AgreeOn.declareLaunchArgument {K : Set Str}
    {context context' : LaunchContext} (h : context.AgreeOn K context')
    {options : DeclareLaunchArgument.Options}
    (halone : options.defaultValue = none ∨ options.name ∉ K
      ∨ context'.configurations.find options.name ≠ none) :
    (DeclareLaunchArgument.execute options context).2.AgreeOn K context' := by
  rw [DeclareLaunchArgument.execute]
  by_cases hhas : context.hasLaunchConfiguration options.name = true
  · rw [if_pos hhas]
    exact h
  · rw [if_neg hhas]
    cases hdefault : options.defaultValue with
    | none => exact h
    | some defaultValue =>
        refine h.setLaunchConfiguration ?_ _
        intro hname
        rcases halone with hnone | hout | hset
        · rw [hdefault] at hnone
          cases hnone
        · exact hout hname
        · -- it is set, in both contexts
          rw [LaunchContext.hasLaunchConfiguration, h.find _ hname] at hhas
          exact hhas (Option.isSome_iff_ne_none.mpr hset)

section Launch

variable {O V : Type} {machine : Machine V} {fuel : Nat}
  {executeOther : O → LaunchState V → Result Unit × LaunchState V} {K : Set Str}

/-- Where an action leaves the configurations of `K` alone, they stay what they
    were at launch. -/
theorem SingleAction.LeavesAlone.agreeOn {context : LaunchContext} {action : SingleAction O}
    (h : action.LeavesAlone executeOther K context) {w : LaunchState V}
    (hagree : w.context.AgreeOn K context) :
    (action.execute machine fuel executeOther w).2.context.AgreeOn K context := by
  cases action with
  | executeProcess options => exact hagree
  | declareLaunchArgument options => exact hagree.declareLaunchArgument h
  | setLaunchConfiguration options =>
      show (SetLaunchConfiguration.execute options w.context).2.AgreeOn K context
      rw [SetLaunchConfiguration.execute_eq]
      exact hagree.setLaunchConfiguration h _
  | other action =>
      obtain ⟨hgetenv, hfind⟩ := h w
      exact ⟨hgetenv.trans hagree.getenv, fun k hk => (hfind k hk).trans (hagree.find k hk)⟩

end Launch

/-! ## What a tree selects -/

section Selected

variable {ι γ : Type} (holds : γ → Bool)

mutual

/-- The leaves all of whose conditions hold, in order.  Inside a group or a
    timer the condition of a leaf does not count. -/
def Action.selected : Action ι γ → List (Leaf ι γ)
  | .leaf l => [l]
  | .group actions condition => if condition.all holds then selectedActions actions else []
  | .timer actions => selectedActions actions

def selectedActions : List (Option (Action ι γ)) → List (Leaf ι γ)
  | [] => []
  | none :: rest => selectedActions rest
  | some action :: rest => action.selected ++ selectedActions rest

end

mutual

def Entity.selected : Entity ι γ → List (Leaf ι γ)
  | .action action => if action.condition.all holds then action.selected holds else []
  | .description entities => selectedEntities entities

def selectedEntities : List (Option (Entity ι γ)) → List (Leaf ι γ)
  | [] => []
  | none :: rest => selectedEntities rest
  | some entity :: rest => entity.selected ++ selectedEntities rest

end

/-- A condition decides over what it guards, and nothing behind that. -/
theorem decided_guarded {α : Type} (condition : Option γ) (body rest : List (Instruction α γ)) :
    decided holds 0 (guarded condition body ++ rest)
      = if condition.all holds then decided holds 0 (body ++ rest) else decided holds 0 rest := by
  cases condition with
  | none => rfl
  | some c =>
      show decided holds (if holds c then 0 else body.length) (body ++ rest) = if holds c then _ else _
      by_cases hc : holds c = true
      · rw [if_pos hc, if_pos hc]
      · rw [if_neg hc, if_neg hc, ← decided_drop, List.drop_left]

mutual

/-- **The leaves of an action that are decided on** are those it selects. -/
theorem Action.decided_turns : (action : Action ι γ) → (contained : Bool) →
    (rest : List (Instruction (Turn ι γ) γ)) →
    (decided holds 0 (action.turns contained ++ rest)).map Turn.leaf
      = action.selected holds ++ (decided holds 0 rest).map Turn.leaf
  | .leaf l, contained, rest => rfl
  | .group actions condition, contained, rest => by
      rw [Action.turns, decided_guarded, Action.selected]
      split_ifs
      · exact decided_turnsOfActions actions rest
      · rfl
  | .timer actions, contained, rest => decided_turnsOfActions actions rest

/-- Those of a list of actions. -/
theorem decided_turnsOfActions : (actions : List (Option (Action ι γ))) →
    (rest : List (Instruction (Turn ι γ) γ)) →
    (decided holds 0 (turnsOfActions actions ++ rest)).map Turn.leaf
      = selectedActions holds actions ++ (decided holds 0 rest).map Turn.leaf
  | [], rest => rfl
  | none :: actions, rest => decided_turnsOfActions actions rest
  | some action :: actions, rest => by
      rw [turnsOfActions, selectedActions, List.append_assoc, Action.decided_turns action true,
        decided_turnsOfActions actions rest, List.append_assoc]

end

mutual

/-- Those of an entity. -/
theorem Entity.decided_turns : (entity : Entity ι γ) →
    (rest : List (Instruction (Turn ι γ) γ)) →
    (decided holds 0 (entity.turns ++ rest)).map Turn.leaf
      = entity.selected holds ++ (decided holds 0 rest).map Turn.leaf
  | .action action, rest => by
      rw [Entity.turns, decided_guarded, Entity.selected]
      split_ifs
      · exact Action.decided_turns holds action false rest
      · rfl
  | .description entities, rest => decided_turnsOfEntities entities rest

/-- Those of a list of entities. -/
theorem decided_turnsOfEntities : (entities : List (Option (Entity ι γ))) →
    (rest : List (Instruction (Turn ι γ) γ)) →
    (decided holds 0 (turnsOfEntities entities ++ rest)).map Turn.leaf
      = selectedEntities holds entities ++ (decided holds 0 rest).map Turn.leaf
  | [], rest => rfl
  | none :: entities, rest => decided_turnsOfEntities entities rest
  | some entity :: entities, rest => by
      rw [turnsOfEntities, selectedEntities, List.append_assoc, Entity.decided_turns entity,
        decided_turnsOfEntities entities rest, List.append_assoc]

end

/-- What is decided of the program of an entity is what the entity selects. -/
theorem Entity.decided_depthFirst (entity : Entity ι γ) :
    decided holds 0 entity.depthFirst = entity.selected holds := by
  have hturns := Entity.decided_turns holds entity []
  rw [List.append_nil] at hturns
  rw [Entity.depthFirst, decided_map, hturns]
  exact List.append_nil _

end Selected

/-! ## Trees whose conditions are decided at launch -/

section Launch

variable {O V : Type} {machine : Machine V} {fuel : Nat}
  {executeOther : O → LaunchState V → Result Unit × LaunchState V} {K : Set Str}

variable (machine fuel) in
/-- **What is performed is decided at launch**, where the conditions of a tree
    read configurations that no selected action changes: the walk executes the
    actions selected by the conditions in the context it starts in, in order,
    and stops at the first that fails. -/
theorem selected_when_launched {entity : Entity (SingleAction O) Condition} {w : LaunchState V}
    (hconditions : ∀ c skip, .test c skip ∈ entity.depthFirst → c.ReadsOnly K)
    (hactions : ∀ leaf ∈ entity.selected (·.evaluate w.context),
      leaf.name.LeavesAlone executeOther K w.context) :
    ∃ performed left, entity.selected (·.evaluate w.context) = performed ++ left
      ∧ (entity.visit (launchTree machine fuel executeOther) w).log.filterMap Event.action?
        = performed
      ∧ (∀ children,
          (entity.visit (launchTree machine fuel executeOther) w).result = .ok children →
          left = [])
      ∧ ∀ error, (entity.visit (launchTree machine fuel executeOther) w).result = .error error →
        ∃ earlier leaf w', performed = earlier ++ [leaf]
          ∧ leaf.name.execute machine fuel executeOther w'
            = (.error error, (entity.visit (launchTree machine fuel executeOther) w).context) := by
  have hperforms := (Entity.visit_depth_first (launchTree machine fuel executeOther) entity w).1
  have hdecided := hperforms.decided (fun w' => w'.context.AgreeOn K w.context)
    (LaunchContext.AgreeOn.refl _)
    (fun c skip hc w' hagree => (hconditions c skip hc).evaluate_eq hagree)
    (by
      rw [Entity.decided_depthFirst]
      intro leaf hleaf w' hagree
      exact (hactions leaf hleaf).agreeOn hagree)
  rw [Entity.decided_depthFirst] at hdecided
  obtain ⟨performed, left, hselected, hlog, hleft⟩ := hdecided.of_runs
  rw [filterMap_filter_isRan] at hlog
  refine ⟨performed, left, hselected, hlog, ?_, ?_⟩
  · intro children hresult
    exact hleft (by rw [hresult]; rfl)
  · intro error hresult
    obtain ⟨earlier, leaf, w', hlast, hfailed, -⟩ := hdecided.last_failed (by rw [hresult]; rfl)
    refine ⟨earlier.filterMap Event.action?, leaf, w', ?_, hfailed⟩
    rw [← hlog, ← filterMap_filter_isRan, hlast, List.filterMap_append]
    rfl

end Launch

/-- An argument that a condition reads, and two groups of which one is
    selected. -/
def declareSim : Leaf (SingleAction Empty) Condition :=
  ⟨.declareLaunchArgument
    { name := "sim".toList, defaultValue := some (textSubstitution "false".toList) }, none⟩

def setClock (value : Str) : Leaf (SingleAction Empty) Condition :=
  ⟨.setLaunchConfiguration
    { name := "clock".toList, value := some (textSubstitution value) }, none⟩

def simTree : Entity (SingleAction Empty) Condition :=
  .description [some (.action (.leaf declareSim)),
    some (.action (.group [some (.leaf (setClock "sim".toList))]
      (some (.ifCondition (some (launchConfiguration "sim".toList)))))),
    some (.action (.group [some (.leaf (setClock "wall".toList))]
      (some (.unlessCondition (some (launchConfiguration "sim".toList))))))]

def withSim : LaunchState Unit :=
  ⟨LaunchContext.empty.setLaunchConfiguration "sim".toList "true".toList, (), []⟩

def noOther (o : Empty) (_ : LaunchState Unit) : Result Unit × LaunchState Unit := o.elim

/-- With simulation on, the declaration and the clock are executed. -/
theorem selected_when_launched_sim :
    (simTree.visit (launchTree IncludeLaunchDescription.robotMachine 0 noOther)
        withSim).log.filterMap Event.action?
      = [declareSim, setClock "sim".toList] := by
  have hsim : (launchConfiguration "sim".toList).ReadsOnly {"sim".toList} :=
    launchConfiguration_readsOnly rfl
  have hconditions : ∀ c skip, .test c skip ∈ simTree.depthFirst →
      c.ReadsOnly {"sim".toList} := by
    intro c skip hc
    rcases List.mem_cons.mp hc with hc | hc
    · cases hc
    rcases List.mem_cons.mp hc with hc | hc
    · cases hc
      intro e he
      cases he
      exact hsim
    rcases List.mem_cons.mp hc with hc | hc
    · cases hc
    rcases List.mem_cons.mp hc with hc | hc
    · cases hc
      intro e he
      cases he
      exact hsim
    · cases List.mem_singleton.mp hc
  have hselected : simTree.selected (·.evaluate withSim.context)
      = [declareSim, setClock "sim".toList] := rfl
  have hactions : ∀ leaf ∈ simTree.selected (·.evaluate withSim.context),
      leaf.name.LeavesAlone noOther {"sim".toList} withSim.context := by
    rw [hselected]
    intro leaf hleaf
    rcases List.mem_cons.mp hleaf with rfl | hleaf
    · exact Or.inr (Or.inr (by decide))
    · cases List.mem_singleton.mp hleaf
      show "clock".toList ∉ ({"sim".toList} : Set Str)
      intro hclock
      exact absurd (Set.mem_singleton_iff.mp hclock) (by decide)
  obtain ⟨performed, left, hall, hlog, hleft, -⟩ :=
    selected_when_launched IncludeLaunchDescription.robotMachine 0 hconditions hactions
  have hnil : left = [] := hleft [] rfl
  rw [hlog, ← hselected, hall, hnil, List.append_nil]

end LaunchCpp
