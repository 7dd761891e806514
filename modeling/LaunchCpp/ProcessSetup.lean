import LaunchCpp.ExecuteProcess

/-! # The directory and the variables a process starts with

    `Options` names a working directory and environment variables, `CommandLine`
    has members for both, and the child of `PosixProcessExecutor` sets them up
    (`executor_child_carries`).  Nothing in between hands them on.  The main
    result says for which options that makes no difference. -/

namespace LaunchCpp

open UnorderedMaps

/-! ## What a child has set up -/

/-- A child in front of `execvp`: the directory it went to, if any, and the
    variables it has set. -/
structure ChildSetup where
  entered : Option Str := none
  environ : Str → Option Str := fun _ => none

/-- `setenv` with overwriting; it refuses a name that is no name. -/
def ChildSetup.setenv (s : ChildSetup) (name value : Str) : ChildSetup :=
  if name = [] ∨ '=' ∈ name then s
  else { s with environ := fun n => if n = name then some value else s.environ n }

/-- The state in which a child gets to `execvp`. -/
def atExecvp : ChildSetup → List ChildCall → Option ChildSetup
  | _, [] => none
  | s, .chdir path :: rest => atExecvp { s with entered := some path } rest
  | s, .setenv name value :: rest => atExecvp (s.setenv name value) rest
  | s, .execvp _ :: _ => some s
  | _, .exit :: _ => none

/-- A start hands over the directory, an empty one being the current one, and
    the variables. -/
def Start.Carries (directory : Str) (environment : List (Str × Str)) : Start → Prop
  | .executor command =>
      command.workingDirectory = directory ∧ command.environment.Perm environment
  | .fork calls =>
      ∃ s, atExecvp {} calls = some s
        ∧ (directory ≠ [] → s.entered = some (cStr directory))
        ∧ ∀ e ∈ environment, s.environ (cStr e.1) = some (cStr e.2)

/-! ## The child of the executor -/

namespace PosixProcessExecutor

/-- `resolve_program_path`. -/
def resolveProgramPath (getenv : Str → Option Str) (program : Str) : Str :=
  if program.head? = some '/' then program
  else if program = "ros2".toList then
    match getenv "ROS2_PATH".toList with
    | some ros2Path => ros2Path ++ "/bin/ros2".toList
    | none => program
  else program

/-- `setup_child_environment`. -/
def setupChildEnvironment (env : List (Str × Str)) : List ChildCall :=
  env.map (fun e => .setenv (cStr e.1) (cStr e.2))

/-- The child of `execute_internal`, when `chdir` succeeds and when it fails;
    redirecting its output is left out. -/
def childCalls (getenv : Str → Option Str) (chdirOk : Bool) (command : CommandLine) :
    List ChildCall :=
  let setup := setupChildEnvironment command.environment
    ++ [.execvp ((resolveProgramPath getenv command.program :: command.arguments).map cStr),
        .exit]
  if command.workingDirectory = [] then setup
  else .chdir (cStr command.workingDirectory) :: if chdirOk then setup else [.exit]

/-- `execvp` is reached with every variable set. -/
theorem atExecvp_setupChildEnvironment (env : List (Str × Str)) (args : List Str)
    (rest : List ChildCall) :
    ∀ s, atExecvp s (setupChildEnvironment env ++ .execvp args :: rest)
      = some (env.foldl (fun s e => s.setenv (cStr e.1) (cStr e.2)) s) := by
  induction env with
  | nil => exact fun _ => rfl
  | cons e env ih => exact fun s => ih (s.setenv (cStr e.1) (cStr e.2))

theorem entered_foldl_setenv (env : List (Str × Str)) (s : ChildSetup) :
    (env.foldl (fun s e => s.setenv (cStr e.1) (cStr e.2)) s).entered = s.entered := by
  induction env generalizing s with
  | nil => rfl
  | cons e env ih =>
      rw [List.foldl_cons, ih, ChildSetup.setenv]
      split <;> rfl

/-- A name `setenv` accepts, and takes whole. -/
def ValidName (name : Str) : Prop := name ≠ [] ∧ '=' ∉ name ∧ '\x00' ∉ name

theorem environ_setenv {s : ChildSetup} {name value n : Str} (h : ValidName name) :
    (s.setenv (cStr name) value).environ n
      = if n = name then some value else s.environ n := by
  rw [cStr_eq_self_iff.mpr h.2.2, ChildSetup.setenv, if_neg (not_or.mpr ⟨h.1, h.2.1⟩)]

/-- What is set last under distinct names stays. -/
theorem environ_foldl_setenv {env : List (Str × Str)} (hnodup : (env.map Prod.fst).Nodup)
    (hvalid : ∀ e ∈ env, ValidName e.1) (s : ChildSetup) :
    (∀ e ∈ env, (env.foldl (fun s e => s.setenv (cStr e.1) (cStr e.2)) s).environ e.1
        = some (cStr e.2))
    ∧ ∀ n, n ∉ env.map Prod.fst →
        (env.foldl (fun s e => s.setenv (cStr e.1) (cStr e.2)) s).environ n
          = s.environ n := by
  induction env generalizing s with
  | nil => exact ⟨List.forall_mem_nil _, fun _ _ => rfl⟩
  | cons e env ih =>
      rw [List.map_cons] at hnodup
      obtain ⟨hnot, hnodup⟩ := List.nodup_cons.mp hnodup
      obtain ⟨hset, hkeep⟩ := ih hnodup (fun x hx => hvalid x (List.mem_cons_of_mem _ hx))
        (s.setenv (cStr e.1) (cStr e.2))
      have he := hvalid e List.mem_cons_self
      refine ⟨?_, ?_⟩
      · intro x hx
        rcases List.mem_cons.mp hx with rfl | hx
        · rw [List.foldl_cons, hkeep _ hnot, environ_setenv he, if_pos rfl]
        · exact hset x hx
      · intro n hn
        rw [List.map_cons, List.mem_cons, not_or] at hn
        rw [List.foldl_cons, hkeep n hn.2, environ_setenv he, if_neg hn.1]

/-- **The executor's child** goes where its `CommandLine` says, with the
    variables it lists. -/
theorem executor_child_carries (getenv : Str → Option Str) (command : CommandLine)
    (hnodup : (command.environment.map Prod.fst).Nodup)
    (hvalid : ∀ e ∈ command.environment, ValidName e.1) :
    (Start.fork (childCalls getenv true command)).Carries command.workingDirectory
      command.environment := by
  have hset : ∀ s : ChildSetup, ∀ e ∈ command.environment,
      (command.environment.foldl (fun s e => s.setenv (cStr e.1) (cStr e.2)) s).environ
        (cStr e.1) = some (cStr e.2) := by
    intro s e he
    rw [cStr_eq_self_iff.mpr (hvalid e he).2.2]
    exact (environ_foldl_setenv hnodup hvalid s).1 e he
  rw [childCalls]
  by_cases hdir : command.workingDirectory = []
  · rw [if_pos hdir]
    refine ⟨_, atExecvp_setupChildEnvironment _ _ _ _, fun hne => absurd hdir hne, hset _⟩
  · rw [if_neg hdir]
    refine ⟨_, atExecvp_setupChildEnvironment _ _ _ _, fun _ => ?_, hset _⟩
    exact entered_foldl_setenv _ _

end PosixProcessExecutor

/-! ## What `execute` hands over -/

namespace ExecuteProcess

variable {W : Type*}

/-- `cwd`, performed; without one the directory is the current one. -/
def Options.performedCwd (options : Options) (context : LaunchContext) : Str :=
  match options.cwd with
  | some cwd => cwd.perform context
  | none => []

/-- The entries of `env`, performed. -/
def Options.performedEnv (options : Options) (context : LaunchContext) : List (Str × Str) :=
  options.env.entries.filterMap
    (fun e => e.2.map (fun sub => (e.1, sub.perform context)))

/-- How the path an attempt takes starts a process. -/
def startOf (self : ExecuteProcess W) (cmd : List Str) : Start :=
  if self.safetyExecutor.isSome then .executor (commandLine cmd)
  else .fork (childCalls (cmd.map cStr))

theorem executeSingleAttempt_starts (posix : Posix W) (self : ExecuteProcess W)
    (cmd : List Str) (w : W) :
    ∀ s ∈ (self.executeSingleAttempt posix cmd w).starts, s = self.startOf cmd := by
  rw [executeSingleAttempt, startOf]
  rcases self.resourcesAvailable w with ⟨_ | _, w⟩
  · exact List.forall_mem_nil _
  · cases self.safetyExecutor with
    | some executor =>
        simp only
        rcases executor.execute (commandLine cmd) self.processOptions w with
          ⟨message | processId, w⟩
        · exact List.forall_mem_nil _
        · exact List.forall_mem_singleton.mpr rfl
    | none =>
        simp only
        rcases posix.fork (cmd.map cStr) w with ⟨pid, w⟩
        split
        · exact List.forall_mem_nil _
        · exact List.forall_mem_singleton.mpr rfl

/-- Every attempt of the retry loop starts its process the same way. -/
theorem retryLoop_starts (posix : Posix W) (cmd : List Str) (fuel attempt : Nat)
    (self : ExecuteProcess W) (w : W) :
    ∀ s ∈ (retryLoop posix cmd fuel attempt self w).starts, s = self.startOf cmd := by
  induction fuel generalizing attempt self w with
  | zero => intro s hs; cases hs
  | succ fuel ih =>
      have hlast := executeSingleAttempt_starts posix self cmd w
      rw [retryLoop]
      rcases executeSingleAttempt_cases posix self cmd w with
        ⟨⟨e, hresult⟩, hself, -⟩ | ⟨hresult, -⟩
      · simp only [hresult]
        split
        · exact hlast
        · split
          · exact hlast
          · rw [hself]
            intro s hs
            rcases List.mem_append.mp hs with hs | hs
            · exact hlast s hs
            · -- the members that decide the path are not touched between two attempts
              have hnext := ih _ _ _ s hs
              exact hnext
      · simp only [hresult]
        exact hlast

theorem execute_starts (posix : Posix W) (fuel : Nat) (self : ExecuteProcess W)
    (context : LaunchContext) (w : W) :
    ∀ s ∈ (self.execute posix fuel context w).starts, ∃ cmd, s = self.startOf cmd := by
  rw [execute]
  cases validateAndEscapeCommand (self.resolveCommand context) with
  | error e => exact List.forall_mem_nil _
  | ok cmd =>
      simp only
      split
      · exact fun s hs => ⟨cmd, retryLoop_starts posix cmd fuel 0 self w s hs⟩
      · exact fun s hs => ⟨cmd, executeSingleAttempt_starts posix self cmd w s hs⟩

/-- Neither path hands anything over: what it carries is nothing. -/
theorem startOf_carries_iff (self : ExecuteProcess W) (cmd : List Str) (directory : Str)
    (environment : List (Str × Str)) :
    (self.startOf cmd).Carries directory environment ↔ directory = [] ∧ environment = [] := by
  rw [startOf]
  by_cases hexec : self.safetyExecutor.isSome
  · rw [if_pos hexec]
    have hcommand : (commandLine cmd).workingDirectory = [] ∧ (commandLine cmd).environment = [] := by
      cases cmd <;> exact ⟨rfl, rfl⟩
    show (commandLine cmd).workingDirectory = _ ∧ (commandLine cmd).environment.Perm _ ↔ _
    rw [hcommand.1, hcommand.2, List.nil_perm]
    exact and_congr_left (fun _ => eq_comm)
  · rw [if_neg hexec]
    constructor
    · rintro ⟨s, hs, hdir, henv⟩
      -- the child of the fork path gets to `execvp` as it was born
      obtain rfl : ({} : ChildSetup) = s := Option.some.inj hs
      refine ⟨by_contra (fun hne => ?_), List.eq_nil_iff_forall_not_mem.mpr (fun e he => ?_)⟩
      · cases hdir hne
      · cases henv e he
    · rintro ⟨rfl, rfl⟩
      exact ⟨{}, rfl, fun hne => absurd rfl hne, List.forall_mem_nil _⟩

/-- **Directory and environment of a started process.**  Whatever is started,
    on either path and in any attempt, carries them if and only if there is
    nothing to carry. -/
theorem execute_carries_iff (posix : Posix W) (fuel : Nat) (self : ExecuteProcess W)
    (context : LaunchContext) (w : W)
    (hstarts : (self.execute posix fuel context w).starts ≠ []) :
    (∀ s ∈ (self.execute posix fuel context w).starts,
        s.Carries (self.options.performedCwd context) (self.options.performedEnv context))
      ↔ self.options.performedCwd context = [] ∧ self.options.performedEnv context = [] := by
  have hall := execute_starts posix fuel self context w
  constructor
  · intro h
    obtain ⟨s, hs⟩ := List.exists_mem_of_ne_nil _ hstarts
    obtain ⟨cmd, rfl⟩ := hall s hs
    exact (startOf_carries_iff self cmd _ _).mp (h _ hs)
  · intro h s hs
    obtain ⟨cmd, rfl⟩ := hall s hs
    exact (startOf_carries_iff self cmd _ _).mpr h

/-- An executor that always starts its process. -/
def idleExecutor : ProcessExecutor Nat where
  execute _ _ w := (.ok 1, w)
  wait _ _ w := w

/-- `ls` without a directory, on the path that is given. -/
def ls (enableSafety : Bool) : ExecuteProcess Nat :=
  ⟨{ cmd := [some (textSubstitution "ls".toList)], cwd := some (textSubstitution []), enableSafety },
    none, some idleExecutor, none, none, 0⟩

theorem execute_carries_iff_ls :
    ((ls true).execute idlePosix 1 LaunchContext.empty 0).starts
        = [.executor { program := "ls".toList }]
      ∧ (Start.executor { program := "ls".toList }).Carries [] []
      ∧ ((ls false).execute idlePosix 1 LaunchContext.empty 0).starts
        = [.fork (childCalls ["ls".toList])]
      ∧ (Start.fork (childCalls ["ls".toList])).Carries [] [] := by
  have hstarts : ∀ safety, ((ls safety).execute idlePosix 1 LaunchContext.empty 0).starts ≠ [] := by
    intro safety
    cases safety <;>
    exact List.cons_ne_nil _ _
  have hcarries := fun safety =>
    (execute_carries_iff idlePosix 1 (ls safety) LaunchContext.empty 0 (hstarts safety)).mpr
      ⟨rfl, rfl⟩
  exact ⟨rfl, hcarries true _ (List.mem_singleton.mpr rfl), rfl,
    hcarries false _ (List.mem_singleton.mpr rfl)⟩

/-- `pwd` in `/tmp`, on both paths: it is started, and not there. -/
theorem execute_carries_pwd :
    (∃ s ∈ (execute idlePosix 1
        ⟨{ cmd := [some (textSubstitution "pwd".toList)]
           cwd := some (textSubstitution "/tmp".toList)
           enableSafety := true },
          none, some idleExecutor, none, none, 0⟩ LaunchContext.empty 0).starts,
        ¬ s.Carries "/tmp".toList [])
    ∧ ∃ s ∈ (execute idlePosix 1
        ⟨{ cmd := [some (textSubstitution "pwd".toList)]
           cwd := some (textSubstitution "/tmp".toList) },
          none, none, none, none, 0⟩ LaunchContext.empty 0).starts,
        ¬ s.Carries "/tmp".toList [] := by
  refine ⟨⟨.executor { program := "pwd".toList }, List.mem_singleton.mpr rfl, ?_⟩,
    ⟨.fork (childCalls ["pwd".toList]), List.mem_singleton.mpr rfl, ?_⟩⟩
  · rintro ⟨hdir, -⟩
    exact absurd hdir (by decide)
  · rintro ⟨s, hs, hdir, -⟩
    obtain rfl : ({} : ChildSetup) = s := Option.some.inj hs
    cases hdir (by decide)

end ExecuteProcess

end LaunchCpp
