import LaunchCpp.LaunchService

/-! # `DeclareLaunchArgument` and `SetLaunchConfiguration`

    One action sets a configuration, the other gives it a default.  Values
    are substitutions, performed in the context of that moment, so that an
    action may read what the actions before it have set.  `final_configuration`
    says for every key what a sequence of such actions leaves. -/

namespace LaunchCpp

open UnorderedMaps

/-! ## The actions -/

/-- `DeclareLaunchArgument::execute`. -/
def DeclareLaunchArgument.execute (options : DeclareLaunchArgument.Options)
    (context : LaunchContext) : Result Unit × LaunchContext :=
  if context.hasLaunchConfiguration options.name then (.ok (), context)
  else
    match options.defaultValue with
    | some defaultValue =>
        (.ok (), context.setLaunchConfiguration options.name (defaultValue.perform context))
    | none => (.ok (), context)

/-- `SetLaunchConfiguration::execute`. -/
def SetLaunchConfiguration.execute (options : SetLaunchConfiguration.Options)
    (context : LaunchContext) : Result Unit × LaunchContext :=
  match options.value with
  | some value => (.ok (), context.setLaunchConfiguration options.name (value.perform context))
  | none => (.ok (), context.setLaunchConfiguration options.name [])

/-- One of the two. -/
inductive ConfigurationAction where
  | declareLaunchArgument (options : DeclareLaunchArgument.Options)
  | setLaunchConfiguration (options : SetLaunchConfiguration.Options)

namespace ConfigurationAction

def execute : ConfigurationAction → LaunchContext → Result Unit × LaunchContext
  | declareLaunchArgument options => DeclareLaunchArgument.execute options
  | setLaunchConfiguration options => SetLaunchConfiguration.execute options

/-- The action sets the configuration `k`. -/
def Sets (k : Str) : ConfigurationAction → Prop
  | declareLaunchArgument _ => False
  | setLaunchConfiguration options => options.name = k

/-- The action has a default for the configuration `k`. -/
def HasDefault (k : Str) : ConfigurationAction → Prop
  | declareLaunchArgument options => options.name = k ∧ options.defaultValue ≠ none
  | setLaunchConfiguration _ => False

end ConfigurationAction

/-- The context after a sequence of actions. -/
def contextAfter (actions : List ConfigurationAction) (context : LaunchContext) :
    LaunchContext :=
  actions.foldl (fun context action => (action.execute context).2) context

/-! ## One action -/

theorem LaunchContext.find_setLaunchConfiguration_self (context : LaunchContext)
    (key value : Str) :
    (context.setLaunchConfiguration key value).configurations.find key = some value :=
  (UnorderedMap.find_insert _ _ _ _).trans (if_pos rfl)

theorem LaunchContext.find_setLaunchConfiguration_of_ne (context : LaunchContext) {key k : Str}
    (h : k ≠ key) (value : Str) :
    (context.setLaunchConfiguration key value).configurations.find k
      = context.configurations.find k :=
  (UnorderedMap.find_insert _ _ _ _).trans (if_neg h)

/-- What `SetLaunchConfiguration` sets its configuration to. -/
def SetLaunchConfiguration.Options.performed (options : SetLaunchConfiguration.Options)
    (context : LaunchContext) : Str :=
  options.value.elim [] (·.perform context)

theorem SetLaunchConfiguration.execute_eq (options : SetLaunchConfiguration.Options)
    (context : LaunchContext) :
    SetLaunchConfiguration.execute options context
      = (.ok (), context.setLaunchConfiguration options.name (options.performed context)) := by
  rw [SetLaunchConfiguration.execute, Options.performed]
  cases options.value <;> rfl

namespace ConfigurationAction

variable {k : Str} {action : ConfigurationAction} {context : LaunchContext}

theorem execute_ok (action : ConfigurationAction) (context : LaunchContext) :
    (action.execute context).1 = .ok () := by
  cases action with
  | declareLaunchArgument options =>
      show (DeclareLaunchArgument.execute options context).1 = .ok ()
      rw [DeclareLaunchArgument.execute]
      by_cases hset : context.hasLaunchConfiguration options.name = true
      · rw [if_pos hset]
      · rw [if_neg hset]
        cases options.defaultValue <;> rfl
  | setLaunchConfiguration options =>
      show (SetLaunchConfiguration.execute options context).1 = .ok ()
      rw [SetLaunchConfiguration.execute_eq]

/-- Only an action that names a configuration, and does not leave it as it is,
    changes it. -/
theorem find_execute_of_not (hset : ¬ action.Sets k) (hdefault : ¬ action.HasDefault k) :
    (action.execute context).2.configurations.find k = context.configurations.find k := by
  cases action with
  | declareLaunchArgument options =>
      show (DeclareLaunchArgument.execute options context).2.configurations.find k = _
      rw [DeclareLaunchArgument.execute]
      by_cases hhas : context.hasLaunchConfiguration options.name = true
      · rw [if_pos hhas]
      · rw [if_neg hhas]
        cases hvalue : options.defaultValue with
        | none => rfl
        | some defaultValue =>
            have hother : k ≠ options.name := by
              rintro rfl
              refine hdefault ⟨rfl, ?_⟩
              rw [hvalue]
              exact Option.some_ne_none _
            exact context.find_setLaunchConfiguration_of_ne hother _
  | setLaunchConfiguration options =>
      show (SetLaunchConfiguration.execute options context).2.configurations.find k = _
      rw [SetLaunchConfiguration.execute_eq]
      exact context.find_setLaunchConfiguration_of_ne (fun hk => hset hk.symm) _

/-- A default is not used for what is set. -/
theorem find_execute_of_set {v : Str} (hset : ¬ action.Sets k)
    (hfind : context.configurations.find k = some v) :
    (action.execute context).2.configurations.find k = some v := by
  cases action with
  | declareLaunchArgument options =>
      show (DeclareLaunchArgument.execute options context).2.configurations.find k = _
      rw [DeclareLaunchArgument.execute]
      by_cases hhas : context.hasLaunchConfiguration options.name = true
      · rw [if_pos hhas]
        exact hfind
      · rw [if_neg hhas]
        cases options.defaultValue with
        | none => exact hfind
        | some defaultValue =>
            have hother : k ≠ options.name := by
              rintro rfl
              refine hhas ?_
              rw [LaunchContext.hasLaunchConfiguration, hfind]
              rfl
            exact (context.find_setLaunchConfiguration_of_ne hother _).trans hfind
  | setLaunchConfiguration options =>
      rw [find_execute_of_not hset id]
      exact hfind

theorem find_execute_set (options : SetLaunchConfiguration.Options) (context : LaunchContext) :
    ((setLaunchConfiguration options).execute context).2.configurations.find options.name
      = some (options.performed context) := by
  show (SetLaunchConfiguration.execute options context).2.configurations.find _ = _
  rw [SetLaunchConfiguration.execute_eq]
  exact context.find_setLaunchConfiguration_self _ _

/-- A default is used for what is not set. -/
theorem find_execute_default {options : DeclareLaunchArgument.Options} {defaultValue : Substitution}
    (hdefault : options.defaultValue = some defaultValue)
    (hfind : context.configurations.find options.name = none) :
    ((declareLaunchArgument options).execute context).2.configurations.find options.name
      = some (defaultValue.perform context) := by
  have hhas : ¬ context.hasLaunchConfiguration options.name = true := by
    rw [LaunchContext.hasLaunchConfiguration, hfind]
    exact Bool.false_ne_true
  show (DeclareLaunchArgument.execute options context).2.configurations.find _ = _
  rw [DeclareLaunchArgument.execute]
  rw [if_neg hhas, hdefault]
  exact context.find_setLaunchConfiguration_self _ _

end ConfigurationAction

/-! ## Sequences of actions -/

section Sequences

variable {k : Str}

theorem contextAfter_append (before after : List ConfigurationAction) (context : LaunchContext) :
    contextAfter (before ++ after) context = contextAfter after (contextAfter before context) :=
  List.foldl_append

theorem contextAfter_cons (action : ConfigurationAction) (rest : List ConfigurationAction)
    (context : LaunchContext) :
    contextAfter (action :: rest) context = contextAfter rest (action.execute context).2 := rfl

/-- What is set stays as it is until it is set again. -/
theorem find_contextAfter_of_set {actions : List ConfigurationAction} {context : LaunchContext}
    {v : Str} (hset : ∀ action ∈ actions, ¬ action.Sets k)
    (hfind : context.configurations.find k = some v) :
    (contextAfter actions context).configurations.find k = some v := by
  induction actions generalizing context with
  | nil => exact hfind
  | cons action rest ih =>
      obtain ⟨haction, hrest⟩ := List.forall_mem_cons.mp hset
      rw [contextAfter_cons]
      exact ih hrest (ConfigurationAction.find_execute_of_set haction hfind)

theorem find_contextAfter_of_not {actions : List ConfigurationAction} {context : LaunchContext}
    (hset : ∀ action ∈ actions, ¬ action.Sets k)
    (hdefault : ∀ action ∈ actions, ¬ action.HasDefault k) :
    (contextAfter actions context).configurations.find k = context.configurations.find k := by
  induction actions generalizing context with
  | nil => rfl
  | cons action rest ih =>
      obtain ⟨haction, hrest⟩ := List.forall_mem_cons.mp hset
      obtain ⟨haction', hrest'⟩ := List.forall_mem_cons.mp hdefault
      rw [contextAfter_cons, ih hrest hrest']
      exact ConfigurationAction.find_execute_of_not haction haction'

/-- The last action that sets a configuration decides. -/
theorem find_contextAfter_last_set (before : List ConfigurationAction)
    (options : SetLaunchConfiguration.Options) {after : List ConfigurationAction}
    (context : LaunchContext) (hafter : ∀ action ∈ after, ¬ action.Sets options.name) :
    (contextAfter (before ++ .setLaunchConfiguration options :: after)
        context).configurations.find options.name
      = some (options.performed (contextAfter before context)) := by
  rw [contextAfter_append, contextAfter_cons]
  exact find_contextAfter_of_set hafter (ConfigurationAction.find_execute_set options _)

/-- The first default is used for what is not set. -/
theorem find_contextAfter_first_default {before after : List ConfigurationAction}
    {options : DeclareLaunchArgument.Options} {defaultValue : Substitution}
    {context : LaunchContext} (hvalue : options.defaultValue = some defaultValue)
    (hunset : context.configurations.find options.name = none)
    (hset : ∀ action ∈ before ++ .declareLaunchArgument options :: after,
      ¬ action.Sets options.name)
    (hbefore : ∀ action ∈ before, ¬ action.HasDefault options.name) :
    (contextAfter (before ++ .declareLaunchArgument options :: after)
        context).configurations.find options.name
      = some (defaultValue.perform (contextAfter before context)) := by
  obtain ⟨hset, hset'⟩ := List.forall_mem_append.mp hset
  have hunset' : (contextAfter before context).configurations.find options.name = none :=
    (find_contextAfter_of_not hset hbefore).trans hunset
  rw [contextAfter_append, contextAfter_cons]
  exact find_contextAfter_of_set (List.forall_mem_cons.mp hset').2
    (ConfigurationAction.find_execute_default hvalue hunset')

/-- There is a last action that sets `k`, or none. -/
theorem exists_last_set (actions : List ConfigurationAction) (k : Str) :
    (∀ action ∈ actions, ¬ action.Sets k)
      ∨ ∃ before options after, actions = before ++ .setLaunchConfiguration options :: after
        ∧ options.name = k ∧ ∀ action ∈ after, ¬ action.Sets k := by
  induction actions with
  | nil => exact Or.inl (List.forall_mem_nil _)
  | cons action rest ih =>
      rcases ih with hnone | ⟨before, options, after, rfl, hname, hafter⟩
      · cases action with
        | declareLaunchArgument options =>
            exact Or.inl (List.forall_mem_cons.mpr ⟨id, hnone⟩)
        | setLaunchConfiguration options =>
            by_cases hname : options.name = k
            · exact Or.inr ⟨[], options, rest, rfl, hname, hnone⟩
            · exact Or.inl (List.forall_mem_cons.mpr ⟨hname, hnone⟩)
      · exact Or.inr ⟨action :: before, options, after, rfl, hname, hafter⟩

/-- There is a first default for `k`, or none. -/
theorem exists_first_default (actions : List ConfigurationAction) (k : Str) :
    (∀ action ∈ actions, ¬ action.HasDefault k)
      ∨ ∃ before options after defaultValue,
        actions = before ++ .declareLaunchArgument options :: after ∧ options.name = k
        ∧ options.defaultValue = some defaultValue ∧ ∀ action ∈ before, ¬ action.HasDefault k := by
  induction actions with
  | nil => exact Or.inl (List.forall_mem_nil _)
  | cons action rest ih =>
      by_cases haction : action.HasDefault k
      · cases action with
        | declareLaunchArgument options =>
            obtain ⟨hname, hvalue⟩ := haction
            obtain ⟨defaultValue, hdefault⟩ := Option.ne_none_iff_exists'.mp hvalue
            exact Or.inr ⟨[], options, rest, defaultValue, rfl, hname, hdefault,
              List.forall_mem_nil _⟩
        | setLaunchConfiguration options => exact False.elim haction
      · rcases ih with hnone | ⟨before, options, after, defaultValue, rfl, hname, hdefault, hbefore⟩
        · exact Or.inl (List.forall_mem_cons.mpr ⟨haction, hnone⟩)
        · exact Or.inr ⟨action :: before, options, after, defaultValue, rfl, hname, hdefault,
            List.forall_mem_cons.mpr ⟨haction, hbefore⟩⟩

/-- **The final value of every configuration.**  The last action that sets it
    decides; where none does, what was set initially stays; where nothing was,
    the first default is used; and where there is none either, it stays unset.
    A value is what its substitution performed to in the context just before
    its action. -/
theorem final_configuration (actions : List ConfigurationAction) (context : LaunchContext)
    (k : Str) :
    (∃ before options after, actions = before ++ .setLaunchConfiguration options :: after
        ∧ options.name = k ∧ (∀ action ∈ after, ¬ action.Sets k)
        ∧ (contextAfter actions context).configurations.find k
          = some (options.performed (contextAfter before context)))
      ∨ ((∀ action ∈ actions, ¬ action.Sets k)
        ∧ ((∃ v, context.configurations.find k = some v
            ∧ (contextAfter actions context).configurations.find k = some v)
          ∨ (context.configurations.find k = none
            ∧ ((∃ before options after defaultValue,
                actions = before ++ .declareLaunchArgument options :: after ∧ options.name = k
                ∧ options.defaultValue = some defaultValue
                ∧ (∀ action ∈ before, ¬ action.HasDefault k)
                ∧ (contextAfter actions context).configurations.find k
                  = some (defaultValue.perform (contextAfter before context)))
              ∨ ((∀ action ∈ actions, ¬ action.HasDefault k)
                ∧ (contextAfter actions context).configurations.find k = none))))) := by
  rcases exists_last_set actions k with hset | ⟨before, options, after, rfl, rfl, hafter⟩
  · refine Or.inr ⟨hset, ?_⟩
    cases hfind : context.configurations.find k with
    | some v => exact Or.inl ⟨v, rfl, find_contextAfter_of_set hset hfind⟩
    | none =>
        refine Or.inr ⟨rfl, ?_⟩
        rcases exists_first_default actions k with hdefault |
          ⟨before, options, after, defaultValue, rfl, rfl, hvalue, hbefore⟩
        · exact Or.inr ⟨hdefault, (find_contextAfter_of_not hset hdefault).trans hfind⟩
        · exact Or.inl ⟨before, options, after, defaultValue, rfl, rfl, hvalue, hbefore,
            find_contextAfter_first_default hvalue hfind hset hbefore⟩
  · exact Or.inl ⟨before, options, after, rfl, rfl, hafter,
      find_contextAfter_last_set before options context hafter⟩

-- `b` reads `a` before `a` is set again, and `a` keeps its first default
example :
    (contextAfter
        [.declareLaunchArgument
          { name := "a".toList, defaultValue := some (textSubstitution "1".toList) },
          .setLaunchConfiguration
            { name := "b".toList, value := some (launchConfiguration "a".toList) },
          .declareLaunchArgument
            { name := "a".toList, defaultValue := some (variableSubstitution "c".toList [])}]
        LaunchContext.empty).configurations.entries
      = [("b".toList, "1".toList), ("a".toList, "1".toList)] := by decide

end Sequences

/-! ## In a launch description -/

section Description

/-- The entity of a launch description. -/
def ConfigurationAction.entity :
    ConfigurationAction → LaunchDescriptionEntity SetLaunchConfiguration.Options
  | declareLaunchArgument options => .declareLaunchArgument options
  | setLaunchConfiguration options => .other options

/-- The entities on a launch context. -/
def configuring (executeProcess : ExecuteProcess.Options → LaunchContext →
    Result Unit × LaunchContext) : Behaviour SetLaunchConfiguration.Options LaunchContext where
  executeProcess := executeProcess
  declareLaunchArgument := DeclareLaunchArgument.execute
  visitOther options context :=
    let executed := SetLaunchConfiguration.execute options context
    (executed.1.map (fun _ => []), executed.2)

theorem ConfigurationAction.entityVisit_eq (action : ConfigurationAction)
    (executeProcess : ExecuteProcess.Options → LaunchContext → Result Unit × LaunchContext)
    (context : LaunchContext) :
    (entityVisit (configuring executeProcess) action.entity context).result = .ok []
      ∧ (entityVisit (configuring executeProcess) action.entity context).world
        = (action.execute context).2 := by
  have hok := action.execute_ok context
  cases action with
  | declareLaunchArgument options =>
      refine ⟨?_, rfl⟩
      show (DeclareLaunchArgument.execute options context).1.map _ = _
      rw [show (DeclareLaunchArgument.execute options context).1 = .ok () from hok]
      rfl
  | setLaunchConfiguration options =>
      refine ⟨?_, rfl⟩
      show (SetLaunchConfiguration.execute options context).1.map _ = _
      rw [show (SetLaunchConfiguration.execute options context).1 = .ok () from hok]
      rfl

/-- A launch description of such actions executes them all. -/
theorem visit_configurationActions (actions : List ConfigurationAction)
    (executeProcess : ExecuteProcess.Options → LaunchContext → Result Unit × LaunchContext)
    (context : LaunchContext) :
    (LaunchDescription.visit { entities := actions.map (fun action => some action.entity) }
        (configuring executeProcess) context).result = .ok []
      ∧ (LaunchDescription.visit { entities := actions.map (fun action => some action.entity) }
          (configuring executeProcess) context).world
        = contextAfter actions context := by
  induction actions generalizing context with
  | nil => exact ⟨rfl, rfl⟩
  | cons action rest ih =>
      obtain ⟨hresult, hworld⟩ := action.entityVisit_eq executeProcess context
      obtain ⟨hok, hcontext⟩ := ih (action.execute context).2
      rw [List.map_cons, LaunchDescription.visit, LaunchDescription.visitLoop]
      simp only [hresult, hworld]
      exact ⟨hok, hcontext⟩

end Description

end LaunchCpp
