import LaunchCpp.LaunchConfigurations
import LaunchCpp.ProcessControl

/-! # Launch files: read, built and run

    `parse_file`, `from_yaml_file`, and the visit of what they yield.  A launch
    file can name two kinds of action only (`build_eq`), so what its visit does
    can be said without the builder: each action in turn, up to the first
    process that cannot be started (`visit_performs`).

    `IncludeLaunchDescription` sets its launch arguments in front of that.
    The main result, `include_configures`, says for every file what an include
    leaves of every configuration, and what it starts. -/

namespace LaunchCpp

open UnorderedMaps Yaml

/-- What comes of opening a file: it cannot be opened, or it is but reading it
    throws, as it does with a directory, or this is its content. -/
inductive OpenedFile where
  | absent
  | unreadable
  | readable (content : Str)
  deriving DecidableEq

/-- The operating system: the system calls of the fork path, and
    `std::ifstream`. -/
structure Machine (V : Type) extends Posix V where
  openFile : Str → V → OpenedFile × V

/-- What a launch description is run on: the context, the operating system, and
    a record of the argument vectors processes were started with. -/
structure LaunchState (V : Type) where
  context : LaunchContext
  system : V
  started : List (List Str) := []

/-! ## Reading -/

section Reading

variable {D O V : Type} (stod : Str → Option D) (machine : Machine V)

/-- `YamlParser::parse_file`. -/
def Yaml.parseFile (filePath : Str) (v : V) : Except Abort (Result (YamlValue D)) × V :=
  match machine.openFile filePath v with
  | (.absent, v) => (.ok (.error ⟨.invalidArgument, "Failed to open file: ".toList ++ filePath⟩), v)
  | (.unreadable, v) => (.error .readFailed, v)
  | (.readable content, v) => (parse stod content, v)

/-- `LaunchDescription::from_yaml_file`. -/
def LaunchDescription.fromYamlFile (filePath : Str) (v : V) :
    Except Abort (Result (LaunchDescription (LaunchDescriptionEntity O))) × V :=
  match parseFile stod machine filePath v with
  | (.error abort, v) => (.error abort, v)
  | (.ok (.error e), v) => (.ok (.error e), v)
  | (.ok (.ok yaml), v) => (.ok (YamlLaunchBuilder.build yaml), v)

end Reading

/-! ## Running -/

/-- The entities of a launch file on a context and an operating system.
    `fuel` is for the retry loop, which no launch file comes to. -/
def launching {O V : Type} (machine : Machine V) (fuel : Nat)
    (visitOther : O → LaunchState V →
      Result (List (Option (LaunchDescriptionEntity O))) × LaunchState V) :
    Behaviour O (LaunchState V) where
  executeProcess options w :=
    let run := ExecuteProcess.execute machine.toPosix fuel { options } w.context w.system
    (run.result.getD (.ok ()),
      { w with system := run.world, started := w.started ++ run.started })
  declareLaunchArgument options w :=
    let executed := DeclareLaunchArgument.execute options w.context
    (executed.1, { w with context := executed.2 })
  visitOther := visitOther

/-! ## What a launch file can say -/

/-- An `execute_process` of a launch file. -/
structure FileProcess where
  name : Option Str
  cmd : List Substitution
  output : Str
  dependsOn : List Str

/-- A `declare_launch_argument` of a launch file. -/
structure FileArgument where
  name : Str
  defaultValue : Option Str
  description : Str

/-- An action of a launch file. -/
inductive FileAction where
  | process (p : FileProcess)
  | argument (a : FileArgument)

def FileProcess.options (p : FileProcess) : ExecuteProcess.Options where
  name := p.name.map textSubstitution
  cmd := p.cmd.map some
  output := p.output
  dependsOn := p.dependsOn

def FileArgument.options (a : FileArgument) : DeclareLaunchArgument.Options where
  name := a.name
  defaultValue := a.defaultValue.map textSubstitution
  description := a.description

/-- The entity the builder makes of an action. -/
def FileAction.entity {O : Type} : FileAction → LaunchDescriptionEntity O
  | process p => .executeProcess p.options
  | argument a => .declareLaunchArgument a.options

namespace Yaml.YamlLaunchBuilder

variable {D O : Type}

/-- What an element of `entities` says. -/
def fileAction? (actionYaml : YamlValue D) : Option FileAction :=
  match stringField actionYaml "type".toList with
  | none => none
  | some type =>
      if type = "execute_process".toList then
        some (.process
          { name := stringField actionYaml "name".toList
            cmd := (stringElements actionYaml "cmd".toList).map commandElement
            output := (stringField actionYaml "output".toList).getD []
            dependsOn := stringElements actionYaml "depends_on".toList })
      else if type = "declare_launch_argument".toList then
        some (.argument
          { name := (stringField actionYaml "name".toList).getD []
            defaultValue := stringField actionYaml "default_value".toList
            description := (stringField actionYaml "description".toList).getD [] })
      else none

/-- The actions of a launch file, as a value. -/
def fileActions (yaml : YamlValue D) : List FileAction :=
  (((yaml.field? "entities".toList).bind YamlValue.array?).getD []).filterMap
    (fun entityYaml => entityYaml.object?.bind (fun _ => fileAction? entityYaml))

/-- `build_action` makes what the file says. -/
theorem toOption_buildAction (actionYaml : YamlValue D) :
    (buildAction (O := O) actionYaml).toOption
      = (fileAction? actionYaml).map FileAction.entity := by
  rw [buildAction, fileAction?]
  cases stringField actionYaml "type".toList with
  | none => rfl
  | some type =>
      by_cases hprocess : type = "execute_process".toList
      · simp only [if_pos hprocess, Except.toOption, Option.map_some]
        rw [executeProcessOptions, FileAction.entity, FileProcess.options, List.map_map]
        rfl
      · by_cases hargument : type = "declare_launch_argument".toList
        · simp only [if_neg hprocess, if_pos hargument]
          rfl
        · simp only [if_neg hprocess, if_neg hargument]
          rfl

/-- The actions of a list come in its order. -/
theorem addActions_entities (elements : List (YamlValue D))
    (desc : LaunchDescription (LaunchDescriptionEntity O)) :
    (addActions elements desc).entities
      = desc.entities ++ (elements.filterMap
          (fun entityYaml => entityYaml.object?.bind (fun _ => fileAction? entityYaml))).map
        (fun action => some action.entity) := by
  induction elements generalizing desc with
  | nil => exact (List.append_nil _).symm
  | cons entityYaml rest ih =>
      rw [addActions, List.filterMap_cons]
      cases entityYaml.object? with
      | none => exact ih desc
      | some entries =>
          have hbuilt := toOption_buildAction (O := O) entityYaml
          rw [Option.bind_some]
          cases haction : fileAction? entityYaml with
          | none =>
              rw [haction] at hbuilt
              cases hbuild : buildAction (O := O) entityYaml with
              | error _ => exact ih desc
              | ok entity =>
                  rw [hbuild] at hbuilt
                  cases hbuilt
          | some action =>
              rw [haction] at hbuilt
              cases hbuild : buildAction (O := O) entityYaml with
              | error _ =>
                  rw [hbuild] at hbuilt
                  cases hbuilt
              | ok entity =>
                  rw [hbuild] at hbuilt
                  have hentity : entity = action.entity := Option.some.inj hbuilt
                  refine (ih _).trans ?_
                  rw [hentity, List.map_cons]
                  show (desc.entities ++ [some action.entity]) ++ _ = _
                  rw [List.append_assoc]
                  rfl

/-- **What is built**: the actions the file names, in their order, and nothing
    else. -/
theorem build_eq {yaml : YamlValue D} {desc : LaunchDescription (LaunchDescriptionEntity O)}
    (h : build yaml = .ok desc) :
    desc.entities = (fileActions yaml).map (fun action => some action.entity) := by
  rw [build] at h
  cases hobject : yaml.object? with
  | none =>
      rw [hobject] at h
      cases h
  | some entries =>
      rw [hobject] at h
      cases hfield : (yaml.field? "entities".toList).bind YamlValue.array? with
      | none =>
          simp only [hfield] at h
          cases h
      | some elements =>
          simp only [hfield] at h
          obtain rfl := Except.ok.inj h
          rw [fileActions, hfield, addActions_entities]
          rfl

end Yaml.YamlLaunchBuilder

section Loading

variable {D V : Type} (stod : Str → Option D) (machine : Machine V)

/-- The file at a path can be read, parsed and built: its value, and the system
    when it has been read. -/
structure Loads (O : Type) (path : Str) (v : V) (yaml : YamlValue D) (v' : V) : Prop where
  read : ∃ content, machine.openFile path v = (.readable content, v')
    ∧ parse stod content = .ok (.ok yaml)
  built : ∃ desc : LaunchDescription (LaunchDescriptionEntity O),
    YamlLaunchBuilder.build yaml = .ok desc

variable {stod machine} {O : Type} {path : Str} {v : V}

/-- A file that loads becomes its actions. -/
theorem Loads.fromYamlFile {yaml : YamlValue D} {v' : V} (h : Loads stod machine O path v yaml v') :
    ∃ desc : LaunchDescription (LaunchDescriptionEntity O),
      LaunchDescription.fromYamlFile stod machine path v = (.ok (.ok desc), v')
        ∧ desc.entities
          = (YamlLaunchBuilder.fileActions yaml).map (fun action => some action.entity) := by
  obtain ⟨⟨content, hread, hparse⟩, desc, hbuild⟩ := h
  refine ⟨desc, ?_, YamlLaunchBuilder.build_eq hbuild⟩
  rw [LaunchDescription.fromYamlFile, parseFile, hread]
  simp only [hparse, hbuild]

/-- The exception that leaves `parse_file`. -/
def Yaml.thrown (stod : Str → Option D) (machine : Machine V) (path : Str) (v : V) :
    Option Abort :=
  match (machine.openFile path v).1 with
  | .absent => none
  | .unreadable => some .readFailed
  | .readable content =>
      match parse stod content with
      | .error abort => some abort
      | .ok _ => none

/-- It is the one of a read, or the one of `substr`. -/
theorem Yaml.thrown_cases {abort : Abort} (h : thrown stod machine path v = some abort) :
    abort = .readFailed ∨ abort = .outOfRange := by
  rw [thrown] at h
  cases hopened : (machine.openFile path v).1 with
  | absent =>
      rw [hopened] at h
      cases h
  | unreadable =>
      rw [hopened] at h
      exact Or.inl (Option.some.inj h).symm
  | readable content =>
      rw [hopened] at h
      simp only [parse_eq_runDocument] at h
      cases hrun : runDocument stod (StringStreams.linesOf content) with
      | some yaml =>
          rw [hrun] at h
          cases h
      | none =>
          rw [hrun] at h
          exact Or.inr (Option.some.inj h).symm

/-- **What comes of a file that does not load**: the exception, or an error. -/
theorem fromYamlFile_of_not_loads (h : ∀ yaml v', ¬ Loads stod machine O path v yaml v') :
    (∃ abort v', thrown stod machine path v = some abort
        ∧ LaunchDescription.fromYamlFile (O := O) stod machine path v = (.error abort, v'))
      ∨ (thrown stod machine path v = none
        ∧ ∃ e v', LaunchDescription.fromYamlFile (O := O) stod machine path v
          = (.ok (.error e), v')) := by
  rw [LaunchDescription.fromYamlFile, parseFile, thrown]
  rcases hopened : machine.openFile path v with ⟨_ | _ | content, v₁⟩
  · exact Or.inr ⟨rfl, _, _, rfl⟩
  · exact Or.inl ⟨_, _, rfl, rfl⟩
  · simp only
    cases hparse : parse stod content with
    | error abort => exact Or.inl ⟨_, _, rfl, rfl⟩
    | ok parsed =>
        cases parsed with
        | error e => exact Or.inr ⟨rfl, _, _, rfl⟩
        | ok yaml =>
            cases hbuild : YamlLaunchBuilder.build (O := O) yaml with
            | error e => exact Or.inr ⟨rfl, e, v₁, by simp only [hbuild]⟩
            | ok desc => exact absurd ⟨⟨content, hopened, hparse⟩, desc, hbuild⟩ (h yaml v₁)

end Loading

/-! ## One action -/

namespace FileProcess

variable (p : FileProcess) (context : LaunchContext)

/-- The command, performed in a context. -/
def words : List Str := p.cmd.map (·.perform context)

/-- What a process is started with: the words, escaped, as C strings. -/
def args : List Str := (p.words context).map (fun word => cStr (CommandBuilder.escapeArgument word))

/-- A command that `validate_and_escape_command` accepts. -/
def Startable : Prop := p.words context ≠ [] ∧ [] ∉ p.words context

instance decidableStartable : Decidable (p.Startable context) :=
  inferInstanceAs (Decidable (p.words context ≠ [] ∧ [] ∉ p.words context))

/-- What follows a `fork`: the wait, if the output goes to the screen. -/
def afterFork {V : Type} (machine : Machine V) (pid : ProcessId) (v : V) : V :=
  if p.output = "screen".toList then machine.waitpid pid v else v

variable {p context}

/-- The command of a process is that of its file. -/
theorem resolveCommand_options {W : Type} :
    ExecuteProcess.resolveCommand ({ options := p.options } : ExecuteProcess W) context
      = p.words context := by
  show (p.cmd.map some).filterMap (fun sub => sub.map (·.perform context)) = _
  rw [List.filterMap_map, words]
  exact congrFun (List.filterMap_eq_map (f := fun sub : Substitution => sub.perform context)) p.cmd

end FileProcess

/-- What `execute` does with a process of a launch file. -/
inductive FileProcess.Executed {V : Type} (machine : Machine V) (p : FileProcess)
    (context : LaunchContext) (v : V) : ExecuteProcess.Run V → Prop where
  | refused {run : ExecuteProcess.Run V} {e : Error} (h : ¬ p.Startable context)
      (hresult : run.result = some (.error e)) (hworld : run.world = v)
      (hstarted : run.started = []) : Executed machine p context v run
  | forkFails {run : ExecuteProcess.Run V} {e : Error} {pid : ProcessId} {v' : V}
      (h : p.Startable context) (hfork : machine.fork (p.args context) v = (pid, v'))
      (hpid : pid < 0) (hresult : run.result = some (.error e)) (hworld : run.world = v')
      (hstarted : run.started = []) : Executed machine p context v run
  | started {run : ExecuteProcess.Run V} {pid : ProcessId} {v' : V}
      (h : p.Startable context) (hfork : machine.fork (p.args context) v = (pid, v'))
      (hpid : ¬ pid < 0) (hresult : run.result = some (.ok ()))
      (hworld : run.world = p.afterFork machine pid v') (hstarted : run.started = [p.args context]) :
      Executed machine p context v run

/-- **A process of a file is executed** as its entity says. -/
theorem FileProcess.executed {V : Type} (machine : Machine V) (p : FileProcess) (fuel : Nat)
    (context : LaunchContext) (v : V) :
    p.Executed machine context v
      (ExecuteProcess.execute machine.toPosix fuel { options := p.options } context v) := by
  by_cases h : p.Startable context
  · have hargs : ExecuteProcess.validateAndEscapeCommand (p.words context)
        = .ok ((p.words context).map CommandBuilder.escapeArgument) := by
      refine ExecuteProcess.validateAndEscapeCommand_eq h.1 (fun arg harg hempty => ?_)
      rw [hempty] at harg
      exact h.2 harg
    have hforked : ((p.words context).map CommandBuilder.escapeArgument).map cStr
        = p.args context := by
      rw [List.map_map]
      rfl
    -- safety is off and nothing is retried: one attempt, on the fork path
    have hattempt : ExecuteProcess.executeSingleAttempt { options := p.options } machine.toPosix
          ((p.words context).map CommandBuilder.escapeArgument) v
        = if (machine.fork (p.args context) v).1 < 0 then
            { result := some (.error ⟨.processSpawnFailed, "Fork failed".toList⟩)
              self := { options := p.options }
              world := (machine.fork (p.args context) v).2 }
          else
            { result := some (.ok ())
              self := { options := p.options, process := some (machine.fork (p.args context) v).1 }
              world := p.afterFork machine (machine.fork (p.args context) v).1
                (machine.fork (p.args context) v).2
              started := [p.args context]
              starts := [.fork (ExecuteProcess.childCalls (p.args context))] } := by
      rw [← hforked]
      rfl
    have hrun : ExecuteProcess.execute machine.toPosix fuel { options := p.options } context v
        = ExecuteProcess.executeSingleAttempt { options := p.options } machine.toPosix
            ((p.words context).map CommandBuilder.escapeArgument) v := by
      rw [ExecuteProcess.execute]
      rw [resolveCommand_options, hargs]
      rfl
    rw [hrun, hattempt]
    by_cases hpid : (machine.fork (p.args context) v).1 < 0
    · rw [if_pos hpid]
      exact .forkFails h rfl hpid rfl rfl rfl
    · rw [if_neg hpid]
      exact .started h rfl hpid rfl rfl rfl
  · obtain ⟨e, he⟩ := ExecuteProcess.validateAndEscapeCommand_error h
    have hrun : ExecuteProcess.execute machine.toPosix fuel { options := p.options } context v
        = { result := some (.error e), self := { options := p.options }, world := v } :=
      ExecuteProcess.execute_of_error (by rw [resolveCommand_options]; exact he)
    rw [hrun]
    exact .refused h rfl rfl rfl

/-! ## All actions -/

section Performing

variable {O V W : Type} (machine : Machine V)

/-- The context after an argument has been declared. -/
def FileArgument.declare (a : FileArgument) (context : LaunchContext) : LaunchContext :=
  (DeclareLaunchArgument.execute a.options context).2

/-- **What a visit does**: the actions in turn; `left` is what is not done, from
    the first process on that could not be started. -/
inductive Performs : List FileAction → LaunchState V → List FileAction → LaunchState V → Prop where
  | done (w : LaunchState V) : Performs [] w [] w
  | argument {a : FileArgument} {rest left : List FileAction} {w w' : LaunchState V}
      (h : Performs rest { w with context := a.declare w.context } left w') :
      Performs (.argument a :: rest) w left w'
  | process {p : FileProcess} {rest left : List FileAction} {w w' : LaunchState V}
      {pid : ProcessId} {v : V} (hstartable : p.Startable w.context)
      (hfork : machine.fork (p.args w.context) w.system = (pid, v)) (hpid : ¬ pid < 0)
      (h : Performs rest
        { w with system := p.afterFork machine pid v, started := w.started ++ [p.args w.context] }
        left w') :
      Performs (.process p :: rest) w left w'
  | refused {p : FileProcess} {rest : List FileAction} {w : LaunchState V}
      (h : ¬ p.Startable w.context) :
      Performs (.process p :: rest) w (.process p :: rest) w
  | forkFails {p : FileProcess} {rest : List FileAction} {w : LaunchState V} {pid : ProcessId} {v : V}
      (hstartable : p.Startable w.context)
      (hfork : machine.fork (p.args w.context) w.system = (pid, v)) (hpid : pid < 0) :
      Performs (.process p :: rest) w (.process p :: rest) { w with system := v }

variable {machine} {fuel : Nat} {visitOther : O → LaunchState V →
  Result (List (Option (LaunchDescriptionEntity O))) × LaunchState V}

/-- Declaring an argument never fails. -/
theorem execute_declare_ok (options : DeclareLaunchArgument.Options) (context : LaunchContext) :
    (DeclareLaunchArgument.execute options context).1 = .ok () :=
  (ConfigurationAction.declareLaunchArgument options).execute_ok context

/-- A visit goes on behind an entity that succeeds. -/
theorem visitLoop_of_ok {b : Behaviour O W} {entity : LaunchDescriptionEntity O}
    (rest : List (Option (LaunchDescriptionEntity O))) {w w' : W}
    (hresult : (entityVisit b entity w).result = .ok [])
    (hworld : (entityVisit b entity w).world = w') :
    (LaunchDescription.visitLoop b (some entity :: rest) [] w).result
        = (LaunchDescription.visitLoop b rest [] w').result
      ∧ (LaunchDescription.visitLoop b (some entity :: rest) [] w).world
        = (LaunchDescription.visitLoop b rest [] w').world := by
  rw [LaunchDescription.visitLoop]
  simp only [hresult, hworld]
  exact ⟨rfl, rfl⟩

/-- A visit ends at an entity that fails. -/
theorem visitLoop_of_error {b : Behaviour O W} {entity : LaunchDescriptionEntity O}
    (rest : List (Option (LaunchDescriptionEntity O))) {w w' : W} {e : Error}
    (hresult : (entityVisit b entity w).result = .error e)
    (hworld : (entityVisit b entity w).world = w') :
    (LaunchDescription.visitLoop b (some entity :: rest) [] w).result = .error e
      ∧ (LaunchDescription.visitLoop b (some entity :: rest) [] w).world = w' := by
  rw [LaunchDescription.visitLoop]
  simp only [hresult]
  exact ⟨trivial, hworld⟩

variable (machine fuel visitOther) in

/-- An argument is declared. -/
theorem entityVisit_argument (a : FileArgument) (w : LaunchState V) :
    entityVisit (launching machine fuel visitOther) (FileAction.argument a).entity w
      = { result := .ok [], world := { w with context := a.declare w.context } } := by
  show ({ result := (DeclareLaunchArgument.execute a.options w.context).1.map _, world := _ } :
    Visited _ _) = _
  rw [execute_declare_ok]
  rfl

variable (machine fuel visitOther) in

/-- A process is executed. -/
theorem entityVisit_process (p : FileProcess) (w : LaunchState V) :
    ∃ run, p.Executed machine w.context w.system run
      ∧ entityVisit (launching machine fuel visitOther) (FileAction.process p).entity w
        = { result := (run.result.getD (.ok ())).map (fun _ => [])
            world := { w with system := run.world, started := w.started ++ run.started }
            executed := [p.options] } :=
  ⟨_, p.executed machine fuel w.context w.system, rfl⟩

variable (machine fuel visitOther) in
/-- The loop of `visit` over the actions of a file. -/
theorem visitLoop_performs (actions : List FileAction) (w : LaunchState V) :
    ∃ left, Performs machine actions w left
        (LaunchDescription.visitLoop (launching machine fuel visitOther)
          (actions.map (fun action => some action.entity)) [] w).world
      ∧ (left = [] → (LaunchDescription.visitLoop (launching machine fuel visitOther)
          (actions.map (fun action => some action.entity)) [] w).result = .ok [])
      ∧ (left ≠ [] → ∃ e, (LaunchDescription.visitLoop (launching machine fuel visitOther)
          (actions.map (fun action => some action.entity)) [] w).result = .error e) := by
  induction actions generalizing w with
  | nil => exact ⟨[], .done w, fun _ => rfl, fun h => absurd rfl h⟩
  | cons action rest ih =>
      rw [List.map_cons]
      cases action with
      | argument a =>
          have hvisit := entityVisit_argument machine fuel visitOther a w
          obtain ⟨hresult, hworld⟩ := visitLoop_of_ok
            (rest.map (fun action => some action.entity))
            (congrArg Visited.result hvisit) (congrArg Visited.world hvisit)
          obtain ⟨left, hperforms, hends⟩ := ih { w with context := a.declare w.context }
          rw [hresult, hworld]
          exact ⟨left, .argument hperforms, hends⟩
      | process p =>
          obtain ⟨run, hexecuted, hvisit⟩ := entityVisit_process machine fuel visitOther p w
          cases hexecuted with
          | refused h hrun hsystem hstarted =>
              rw [hrun, hsystem, hstarted, List.append_nil] at hvisit
              obtain ⟨hresult, hworld⟩ := visitLoop_of_error
                (rest.map (fun action => some action.entity))
                (congrArg Visited.result hvisit) (congrArg Visited.world hvisit)
              rw [hresult, hworld]
              exact ⟨_, .refused h, fun hnil => absurd hnil (List.cons_ne_nil _ _),
                fun _ => ⟨_, rfl⟩⟩
          | forkFails h hfork hpid hrun hsystem hstarted =>
              rw [hrun, hsystem, hstarted, List.append_nil] at hvisit
              obtain ⟨hresult, hworld⟩ := visitLoop_of_error
                (rest.map (fun action => some action.entity))
                (congrArg Visited.result hvisit) (congrArg Visited.world hvisit)
              rw [hresult, hworld]
              exact ⟨_, .forkFails h hfork hpid, fun hnil => absurd hnil (List.cons_ne_nil _ _),
                fun _ => ⟨_, rfl⟩⟩
          | started h hfork hpid hrun hsystem hstarted =>
              rw [hrun, hsystem, hstarted] at hvisit
              obtain ⟨hresult, hworld⟩ := visitLoop_of_ok
                (rest.map (fun action => some action.entity))
                (congrArg Visited.result hvisit) (congrArg Visited.world hvisit)
              obtain ⟨left, hperforms, hends⟩ := ih _
              rw [hresult, hworld]
              exact ⟨left, .process h hfork hpid hperforms, hends⟩

/-! ### In closed form -/

/-- The context when actions have been performed. -/
def declared (actions : List FileAction) (context : LaunchContext) : LaunchContext :=
  actions.foldl (fun context action =>
    match action with
    | .argument a => a.declare context
    | .process _ => context) context

/-- What actions start, each process in the context of its turn. -/
def startedBy : List FileAction → LaunchContext → List (List Str)
  | [], _ => []
  | .argument a :: rest, context => startedBy rest (a.declare context)
  | .process p :: rest, context => p.args context :: startedBy rest context

/-- A process that could not be started: its command is refused, or `fork`
    fails and leaves `system`. -/
def FileProcess.Failed (machine : Machine V) (p : FileProcess) (context : LaunchContext)
    (system : V) : Prop :=
  ¬ p.Startable context
    ∨ ∃ v, (machine.fork (p.args context) v).1 < 0 ∧ system = (machine.fork (p.args context) v).2

/-- **Actions are performed from the front**, up to a process that fails. -/
theorem Performs.closed {actions left : List FileAction} {w w' : LaunchState V}
    (h : Performs machine actions w left w') :
    ∃ done, actions = done ++ left ∧ w'.context = declared done w.context
      ∧ w'.started = w.started ++ startedBy done w.context
      ∧ ∀ action rest, left = action :: rest →
          ∃ p, action = .process p ∧ p.Failed machine w'.context w'.system := by
  induction h with
  | done w =>
      refine ⟨[], rfl, rfl, (List.append_nil _).symm, fun action rest hleft => ?_⟩
      cases hleft
  | @argument a rest left w w' _ ih =>
      obtain ⟨done, rfl, hcontext, hstarted, hleft⟩ := ih
      exact ⟨.argument a :: done, rfl, hcontext, hstarted, hleft⟩
  | @process p rest left w w' pid v _ _ _ _ ih =>
      obtain ⟨done, rfl, hcontext, hstarted, hleft⟩ := ih
      refine ⟨.process p :: done, rfl, hcontext, ?_, hleft⟩
      rw [hstarted, List.append_assoc]
      rfl
  | @refused p rest w h =>
      refine ⟨[], rfl, rfl, (List.append_nil _).symm, fun action rest' hleft => ?_⟩
      obtain ⟨rfl, -⟩ := List.cons.inj hleft
      exact ⟨p, rfl, Or.inl h⟩
  | @forkFails p rest w pid v hstartable hfork hpid =>
      refine ⟨[], rfl, rfl, (List.append_nil _).symm, fun action rest' hleft => ?_⟩
      obtain ⟨rfl, -⟩ := List.cons.inj hleft
      refine ⟨p, rfl, Or.inr ⟨w.system, ?_, ?_⟩⟩
      · rw [hfork]
        exact hpid
      · rw [hfork]

end Performing

/-! ## `IncludeLaunchDescription` -/

/-- `IncludeLaunchDescription::Options`; a null pointer is `none`. -/
structure IncludeLaunchDescription.Options where
  launchDescriptionSource : Option Substitution := none
  launchArguments : List (Str × Option Substitution) := []

namespace IncludeLaunchDescription

variable {D O V : Type}

/-- The loop of `execute` over the launch arguments. -/
def setLaunchArguments : List (Str × Option Substitution) → LaunchContext → LaunchContext
  | [], context => context
  | (_, none) :: rest, context => setLaunchArguments rest context
  | (name, some value) :: rest, context =>
      setLaunchArguments rest (context.setLaunchConfiguration name (value.perform context))

/-- `execute`.  The file is opened to see whether it is there, and again to be
    read. -/
def execute (stod : Str → Option D) (machine : Machine V) (fuel : Nat)
    (visitOther : O → LaunchState V →
      Result (List (Option (LaunchDescriptionEntity O))) × LaunchState V)
    (options : Options) (w : LaunchState V) : Except Abort (Result Unit) × LaunchState V :=
  match options.launchDescriptionSource with
  | none =>
      (.ok (.error ⟨.invalidArgument, "No launch description source provided".toList⟩), w)
  | some source =>
      let filePath := source.perform w.context
      match machine.openFile filePath w.system with
      | (.absent, v) =>
          (.ok (.error ⟨.invalidArgument, "Launch file not found: ".toList ++ filePath⟩),
            { w with system := v })
      | (_, v) =>
          match LaunchDescription.fromYamlFile (O := O) stod machine filePath v with
          | (.error abort, v) => (.error abort, { w with system := v })
          | (.ok (.error e), v) => (.ok (.error e), { w with system := v })
          | (.ok (.ok desc), v) =>
              let context := setLaunchArguments options.launchArguments w.context
              let visited := desc.visit (launching machine fuel visitOther)
                { w with context, system := v }
              (.ok (visited.result.map fun _ => ()), visited.world)

/-- The value launch arguments pass for a configuration: the last one, performed
    in the context of its turn. -/
def passed (k : Str) : List (Str × Option Substitution) → LaunchContext → Option Str
  | [], _ => none
  | (_, none) :: rest, context => passed k rest context
  | (name, some value) :: rest, context =>
      (passed k rest (context.setLaunchConfiguration name (value.perform context))).or
        (if name = k then some (value.perform context) else none)

/-- A launch argument that is passed is set. -/
theorem find_setLaunchArguments (k : Str) (arguments : List (Str × Option Substitution))
    (context : LaunchContext) :
    (setLaunchArguments arguments context).configurations.find k
      = (passed k arguments context).or (context.configurations.find k) := by
  induction arguments generalizing context with
  | nil => rfl
  | cons argument rest ih =>
      obtain ⟨name, value⟩ := argument
      cases value with
      | none => exact ih context
      | some value =>
          rw [setLaunchArguments, ih, passed, Option.or_assoc]
          congr 1
          by_cases hname : name = k
          · rw [if_pos hname, ← hname, context.find_setLaunchConfiguration_self]
            rfl
          · rw [if_neg hname,
              context.find_setLaunchConfiguration_of_ne (fun hk => hname hk.symm)]
            rfl

end IncludeLaunchDescription

/-- The first default the arguments among actions give a configuration. -/
def defaultOf (k : Str) : List FileAction → Option Str
  | [] => none
  | .process _ :: rest => defaultOf k rest
  | .argument a :: rest => (if a.name = k then a.defaultValue else none).or (defaultOf k rest)

/-- A declaration gives what is not set its default. -/
theorem FileArgument.find_declare (a : FileArgument) (context : LaunchContext) (k : Str) :
    (a.declare context).configurations.find k
      = (context.configurations.find k).or (if a.name = k then a.defaultValue else none) := by
  show ((ConfigurationAction.declareLaunchArgument a.options).execute
    context).2.configurations.find k = _
  by_cases hname : a.name = k
  · subst hname
    rw [if_pos rfl]
    cases hfind : context.configurations.find a.name with
    | some v => exact ConfigurationAction.find_execute_of_set id hfind
    | none =>
        cases hvalue : a.defaultValue with
        | some text =>
            have hdefault : a.options.defaultValue = some (textSubstitution text) :=
              congrArg (Option.map textSubstitution) hvalue
            exact ConfigurationAction.find_execute_default hdefault hfind
        | none =>
            have hnone : a.options.defaultValue = none :=
              congrArg (Option.map textSubstitution) hvalue
            refine (ConfigurationAction.find_execute_of_not id ?_).trans hfind
            exact fun hdefault => hdefault.2 hnone
  · rw [if_neg hname, Option.or_none]
    exact ConfigurationAction.find_execute_of_not id (fun hdefault => hname hdefault.1)

/-- A default is set only where nothing is. -/
theorem find_declared (k : Str) (actions : List FileAction) (context : LaunchContext) :
    (declared actions context).configurations.find k
      = (context.configurations.find k).or (defaultOf k actions) := by
  induction actions generalizing context with
  | nil => exact (Option.or_none).symm
  | cons action rest ih =>
      cases action with
      | process p => exact ih context
      | argument a =>
          rw [declared, List.foldl_cons]
          show (declared rest (a.declare context)).configurations.find k = _
          rw [ih, a.find_declare, Option.or_assoc]
          rfl

namespace IncludeLaunchDescription

section Include

variable {D O V : Type} (stod : Str → Option D) (machine : Machine V) (options : Options)
  (w : LaunchState V)

/-- The included file is found, and then loads: its value, and the system when
    it has been read. -/
def Loads (O : Type) (yaml : YamlValue D) (v : V) : Prop :=
  ∃ source found v₁, options.launchDescriptionSource = some source
    ∧ machine.openFile (source.perform w.context) w.system = (found, v₁) ∧ found ≠ .absent
    ∧ LaunchCpp.Loads stod machine O (source.perform w.context) v₁ yaml v

variable {stod machine options w}

/-- What the included file does is what its actions do. -/
theorem Loads.execute_eq {yaml : YamlValue D} {v : V} (h : Loads stod machine options w O yaml v)
    (fuel : Nat) (visitOther : O → LaunchState V →
      Result (List (Option (LaunchDescriptionEntity O))) × LaunchState V) :
    ∃ visited : Visited (Result (List (Option (LaunchDescriptionEntity O)))) (LaunchState V),
      visited = LaunchDescription.visitLoop (launching machine fuel visitOther)
          ((YamlLaunchBuilder.fileActions yaml).map (fun action => some action.entity)) []
          { w with context := setLaunchArguments options.launchArguments w.context, system := v }
        ∧ execute stod machine fuel visitOther options w
          = (.ok (visited.result.map fun _ => ()), visited.world) := by
  obtain ⟨source, found, v₁, hsource, hfound, hopen, hloads⟩ := h
  obtain ⟨desc, hload, hentities⟩ := hloads.fromYamlFile
  refine ⟨_, rfl, ?_⟩
  rw [execute, hsource]
  cases found with
  | absent => exact absurd rfl hopen
  | unreadable => simp only [hfound, hload, LaunchDescription.visit, hentities]
  | readable content => simp only [hfound, hload, LaunchDescription.visit, hentities]

/-- Nothing is set or started unless the file loads. -/
theorem execute_of_not_loads (h : ∀ yaml v, ¬ Loads stod machine options w O yaml v) (fuel : Nat)
    (visitOther : O → LaunchState V →
      Result (List (Option (LaunchDescriptionEntity O))) × LaunchState V) :
    (execute stod machine fuel visitOther options w).2.context = w.context
      ∧ (execute stod machine fuel visitOther options w).2.started = w.started
      ∧ (execute stod machine fuel visitOther options w).1 ≠ .ok (.ok ()) := by
  rw [execute]
  cases hsource : options.launchDescriptionSource with
  | none => exact ⟨rfl, rfl, fun heq => by cases heq⟩
  | some source =>
      simp only
      have hopened : ∀ found v₁, machine.openFile (source.perform w.context) w.system = (found, v₁) →
          found ≠ .absent → ∀ yaml v, ¬ LaunchCpp.Loads stod machine O (source.perform w.context) v₁
            yaml v :=
        fun found v₁ hfound hopen yaml v hloads =>
          h yaml v ⟨source, found, v₁, hsource, hfound, hopen, hloads⟩
      rcases hfound : machine.openFile (source.perform w.context) w.system with
        ⟨_ | _ | content, v₁⟩
      · exact ⟨rfl, rfl, fun heq => by cases heq⟩
      · rcases fromYamlFile_of_not_loads (hopened _ v₁ hfound (by simp)) with
          ⟨abort, v, -, hload⟩ | ⟨-, e, v, hload⟩
        · simp only [hload]
          exact ⟨trivial, trivial, fun heq => by cases heq⟩
        · simp only [hload]
          exact ⟨trivial, trivial, fun heq => by cases heq⟩
      · rcases fromYamlFile_of_not_loads (hopened _ v₁ hfound (by simp)) with
          ⟨abort, v, -, hload⟩ | ⟨-, e, v, hload⟩
        · simp only [hload]
          exact ⟨trivial, trivial, fun heq => by cases heq⟩
        · simp only [hload]
          exact ⟨trivial, trivial, fun heq => by cases heq⟩

variable (stod machine options w)

/-- **What an include leaves**, for every file.  Unless the file loads nothing
    is set or started.  If it does, its actions are performed in their order,
    up to the first process that cannot be started, in the context the launch
    arguments have been set in; and then every configuration has the value the
    last launch argument passed for it, or the one it had, or the first default
    the file has declared, in this order. -/
theorem include_configures (fuel : Nat) (visitOther : O → LaunchState V →
      Result (List (Option (LaunchDescriptionEntity O))) × LaunchState V) :
    ((∀ yaml v, ¬ Loads stod machine options w O yaml v) →
      (execute stod machine fuel visitOther options w).2.context = w.context
        ∧ (execute stod machine fuel visitOther options w).2.started = w.started
        ∧ (execute stod machine fuel visitOther options w).1 ≠ .ok (.ok ()))
    ∧ ∀ yaml v, Loads stod machine options w O yaml v →
      ∃ done left result w', execute stod machine fuel visitOther options w = (.ok result, w')
        ∧ YamlLaunchBuilder.fileActions yaml = done ++ left
        ∧ (result.isOk = true ↔ left = [])
        ∧ (∀ action rest, left = action :: rest →
          ∃ p, action = .process p ∧ p.Failed machine w'.context w'.system)
        ∧ w'.started = w.started
          ++ startedBy done (setLaunchArguments options.launchArguments w.context)
        ∧ ∀ k, w'.context.configurations.find k
          = (passed k options.launchArguments w.context).or
              ((w.context.configurations.find k).or (defaultOf k done)) := by
  refine ⟨fun h => execute_of_not_loads h fuel visitOther, fun yaml v h => ?_⟩
  obtain ⟨visited, hvisited, hexecute⟩ := h.execute_eq fuel visitOther
  obtain ⟨left, hperforms, hok, herror⟩ := visitLoop_performs machine fuel visitOther
    (YamlLaunchBuilder.fileActions yaml)
    { w with context := setLaunchArguments options.launchArguments w.context, system := v }
  rw [← hvisited] at hperforms hok herror
  obtain ⟨done, hactions, hcontext, hstarted, hleft⟩ := hperforms.closed
  refine ⟨done, left, _, _, hexecute, hactions, ?_, hleft, hstarted, fun k => ?_⟩
  · by_cases hnil : left = []
    · rw [hok hnil]
      exact ⟨fun _ => hnil, fun _ => rfl⟩
    · obtain ⟨e, he⟩ := herror hnil
      rw [he]
      exact ⟨fun hfalse => absurd hfalse Bool.false_ne_true, fun heq => absurd heq hnil⟩
  · rw [hcontext, find_declared, find_setLaunchArguments, Option.or_assoc]

end Include

/-- A file that declares a launch argument. -/
def robotFile : Str :=
  "entities:\n  - type: declare_launch_argument\n    name: speed\n    default_value: slow\n".toList

/-- A system with one file, whose `fork` fails. -/
def robotMachine : Machine Unit where
  fork _ v := (-1, v)
  waitpid _ v := v
  isRunning _ v := (false, v)
  sigterm _ v := v
  openFile path v := (if path = "robot.yaml".toList then .readable robotFile else .absent, v)

/-- The file is included with its argument passed, and a null one. -/
def robotOptions : Options where
  launchDescriptionSource := some (textSubstitution "robot.yaml".toList)
  launchArguments := [("speed".toList, some (textSubstitution "fast".toList)),
    ("mode".toList, none)]

/-- What the file is parsed to. -/
def robotYaml : YamlValue Nat :=
  .object [("entities".toList, .array [
    .object [("default_value".toList, .string "slow".toList), ("name".toList, .string "speed".toList),
      ("type".toList, .string "declare_launch_argument".toList)]])]

/-- The file of the robot loads. -/
theorem robot_loads : Loads (fun _ => none) robotMachine robotOptions
    ⟨LaunchContext.empty, (), []⟩ Unit robotYaml () := by
  refine ⟨_, .readable robotFile, (), rfl, rfl, by simp, ⟨robotFile, rfl, ?_⟩, _, rfl⟩
  rw [parse_eq_runDocument]
  rfl

/-- The passed value stands against the default. -/
theorem include_configures_robot :
    ∃ w', execute (fun _ => (none : Option Nat)) robotMachine 0
          (fun (_ : Unit) w => (.ok [], w)) robotOptions ⟨LaunchContext.empty, (), []⟩
        = (.ok (.ok ()), w')
      ∧ w'.context.configurations.find "speed".toList = some "fast".toList
      ∧ w'.context.configurations.find "mode".toList = none := by
  obtain ⟨done, left, result, w', hexecute, hactions, hok, hleft, -, hfind⟩ :=
    (include_configures (fun _ => none) robotMachine robotOptions ⟨LaunchContext.empty, (), []⟩ 0
      (fun (_ : Unit) w => (.ok [], w))).2 robotYaml () robot_loads
  have hnil : left = [] := by
    cases left with
    | nil => rfl
    | cons action rest =>
        obtain ⟨p, rfl, -⟩ := hleft action rest rfl
        have hmem : FileAction.process p ∈ YamlLaunchBuilder.fileActions robotYaml := by
          rw [hactions]
          exact List.mem_append_right _ List.mem_cons_self
        cases List.mem_singleton.mp hmem
  rw [hnil, List.append_nil] at hactions
  obtain rfl : result = .ok () := by
    have hresult := hok.mpr hnil
    cases result with
    | error e => cases hresult
    | ok u => rfl
  refine ⟨w', hexecute, ?_, ?_⟩
  · rw [hfind, ← hactions]
    rfl
  · rw [hfind, ← hactions]
    rfl

end IncludeLaunchDescription

end LaunchCpp
