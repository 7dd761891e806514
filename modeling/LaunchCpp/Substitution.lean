import LaunchCpp.Basic
import LaunchCpp.Library.UnorderedMap

/-! # Substitutions

    The configurations and the environment of a launch context, and the
    substitutions that read them.  A `Substitution` is what its `perform`
    does. -/

namespace LaunchCpp

open UnorderedMaps

/-- The characters a C string of these is read as: up to the first NUL. -/
def cStr (s : Str) : Str := s.takeWhile (· ≠ '\x00')

/-- What `LaunchContextImpl` answers from: its configurations, and the
    environment of the process. -/
structure LaunchContext where
  configurations : UnorderedMap Str Str
  getenv : Str → Option Str

namespace LaunchContext

/-- No configurations, and an empty environment. -/
def empty : LaunchContext := ⟨UnorderedMap.empty, fun _ => none⟩

/-- `get_launch_configuration`. -/
def getLaunchConfiguration (context : LaunchContext) (key : Str) : Result Str :=
  match context.configurations.find key with
  | none => .error ⟨.invalidArgument, "Configuration not found".toList⟩
  | some value => .ok value

/-- `has_launch_configuration`. -/
def hasLaunchConfiguration (context : LaunchContext) (key : Str) : Bool :=
  (context.configurations.find key).isSome

/-- `set_launch_configuration`. -/
def setLaunchConfiguration (context : LaunchContext) (key value : Str) : LaunchContext :=
  { context with configurations := context.configurations.insert key value }

/-- `get_environment_variable`. -/
def getEnvironmentVariable (context : LaunchContext) (name : Str) : Str :=
  (context.getenv (cStr name)).getD []

end LaunchContext

/-- `Substitution`. -/
structure Substitution where
  perform : LaunchContext → Str

/-- `TextSubstitution`. -/
def textSubstitution (text : Str) : Substitution := ⟨fun _ => text⟩

/-- `LaunchConfiguration`. -/
def launchConfiguration (name : Str) : Substitution where
  perform context :=
    match context.getLaunchConfiguration name with
    | .ok value => value
    | .error _ => []

/-- `VariableSubstitution`. -/
def variableSubstitution (variableName defaultValue : Str) : Substitution where
  perform context :=
    match context.getLaunchConfiguration variableName with
    | .ok value => value
    | .error _ => defaultValue

/-- `EnvironmentVariable`. -/
def environmentVariable (name defaultValue : Str) : Substitution where
  perform context :=
    let value := context.getEnvironmentVariable name
    if value = [] then defaultValue else value

@[simp] theorem perform_textSubstitution (text : Str) (context : LaunchContext) :
    (textSubstitution text).perform context = text := rfl

/-- A `LaunchConfiguration` is a `VariableSubstitution` without a default. -/
theorem launchConfiguration_eq (name : Str) :
    launchConfiguration name = variableSubstitution name [] := rfl

theorem perform_variableSubstitution (n d : Str) (context : LaunchContext) :
    (variableSubstitution n d).perform context
      = (context.getLaunchConfiguration n).toOption.getD d := by
  cases h : context.getLaunchConfiguration n with
  | ok value => simp only [variableSubstitution, h, Except.toOption, Option.getD_some]
  | error e => simp only [variableSubstitution, h, Except.toOption, Option.getD_none]

theorem perform_environmentVariable (n d : Str) (context : LaunchContext) :
    (environmentVariable n d).perform context
      = if context.getEnvironmentVariable n = [] then d
        else context.getEnvironmentVariable n := rfl

end LaunchCpp
