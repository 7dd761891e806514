import LaunchCpp.Substitution
import LaunchCpp.Library.ExactDoubles

/-! # Actions and launch descriptions

    The options of `ExecuteProcess` and `DeclareLaunchArgument`, the two kinds
    of action a launch file can name, and of `SetLaunchConfiguration`, with
    their default values, and the list of entities that is a launch
    description.  `cwd` and `env` are here
    although nothing reads them, because of what that means for a started
    process; `emulate_tty` and `choices` are left out. -/

namespace LaunchCpp

open UnorderedMaps ExactDoubles

/-- `ExecuteProcess::Options`; a null pointer is `none`, `retry_delay` in
    milliseconds. -/
structure ExecuteProcess.Options where
  cmd : List (Option Substitution) := []
  cwd : Option Substitution := none
  env : UnorderedMap Str (Option Substitution) := UnorderedMap.empty
  output : Str := []
  sigtermTimeout : Int := 5
  name : Option Substitution := none
  enableSafety : Bool := false
  maxMemoryBytes : Nat := 0
  maxCpuPercent : Rat := 0
  watchdogTimeoutMs : Int := 0
  maxRetries : Nat := 0
  retryDelay : Int := 5000
  retryBackoffMultiplier : Float := toDouble 1
  dependsOn : List Str := []

/-- `DeclareLaunchArgument::Options`. -/
structure DeclareLaunchArgument.Options where
  name : Str := []
  defaultValue : Option Substitution := none
  description : Str := []

/-- `SetLaunchConfiguration::Options`. -/
structure SetLaunchConfiguration.Options where
  name : Str := []
  value : Option Substitution := none

/-- The entities of a launch description.  `O` holds those of every other
    kind. -/
inductive LaunchDescriptionEntity (O : Type*) where
  | executeProcess (options : ExecuteProcess.Options)
  | declareLaunchArgument (options : DeclareLaunchArgument.Options)
  | other (entity : O)

/-- The entities of `LaunchDescription`; a null pointer is `none`. -/
structure LaunchDescription (E : Type*) where
  entities : List (Option E) := []

/-- `LaunchDescription::add`. -/
def LaunchDescription.add {E : Type*} (d : LaunchDescription E) (entity : Option E) :
    LaunchDescription E := ⟨d.entities ++ [entity]⟩

end LaunchCpp
