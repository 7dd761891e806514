import LaunchCpp.Actions
import Mathlib.Data.List.TakeWhile

/-! # `ExecuteProcess::execute`

    From the substitutions of a command to the argument vector a process is
    started with: `resolve_command`, `validate_and_escape_command`, one
    attempt on the safety path or on the fork path, and the retry loop.

    The operating system and the three safety components are whatever their
    functions do to a world of any type `W`.  A run records in `started` the
    argument vector of every process it starts: program and arguments of a
    successful `ProcessExecutor::execute`, or the C strings a forked child
    hands to `execvp`; `starts` has all that was handed over.  The main result
    is `execute_started_iff`. -/

namespace LaunchCpp

/-! ## `CommandBuilder` -/

namespace CommandBuilder

/-- `std::isspace` in the C locale. -/
def isspace (c : Char) : Bool :=
  c = ' ' || c = '\t' || c = '\n' || c = '\x0b' || c = '\x0c' || c = '\r'

/-- The test of `needs_quoting` on one character. -/
def quotedChar (c : Char) : Bool :=
  isspace c || c = '"' || c = '\\' || c = '$' || c = '`'

/-- `needs_quoting`. -/
def needsQuoting (str : Str) : Bool := str.any quotedChar

/-- `escape_argument`. -/
def escapeArgument (arg : Str) : Str :=
  if ¬ needsQuoting arg then arg
  else
    '"' :: arg.flatMap (fun c => if c = '"' ∨ c = '\\' then ['\\', c] else [c]) ++ ['"']

theorem escapeArgument_of_not {arg : Str} (h : needsQuoting arg = false) :
    escapeArgument arg = arg :=
  if_pos (by simp [h])

theorem length_le_flatMap {f : Char → Str} (h : ∀ c, f c ≠ []) (s : Str) :
    s.length ≤ (s.flatMap f).length := by
  induction s with
  | nil => exact Nat.zero_le _
  | cons c cs ih =>
      rw [List.flatMap_cons, List.length_append, List.length_cons]
      have hpos : 0 < (f c).length := List.length_pos_of_ne_nil (h c)
      omega

/-- Quoting adds at least the two quotes. -/
theorem length_escapeArgument {arg : Str} (h : needsQuoting arg = true) :
    arg.length + 2 ≤ (escapeArgument arg).length := by
  rw [escapeArgument]
  rw [if_neg (not_not_intro h)]
  have hle := length_le_flatMap
    (f := fun c => if c = '"' ∨ c = '\\' then ['\\', c] else [c])
    (fun c => by split <;> exact List.cons_ne_nil _ _) arg
  simp only [List.cons_append, List.length_cons, List.length_append, List.length_nil]
  omega

theorem escapeArgument_eq_iff {arg : Str} :
    escapeArgument arg = arg ↔ needsQuoting arg = false := by
  refine ⟨fun h => ?_, escapeArgument_of_not⟩
  cases hq : needsQuoting arg with
  | false => rfl
  | true =>
      have hlen := length_escapeArgument hq
      rw [h] at hlen
      omega

/-- Escaping puts nothing new in but quotes and backslashes. -/
theorem mem_of_mem_escapeArgument {arg : Str} {c : Char} (h : c ∈ escapeArgument arg) :
    c ∈ arg ∨ c = '"' ∨ c = '\\' := by
  rw [escapeArgument] at h
  split at h
  · exact Or.inl h
  · rcases List.mem_append.mp h with h | h
    · rcases List.mem_cons.mp h with rfl | h
      · exact Or.inr (Or.inl rfl)
      · obtain ⟨d, hd, hc⟩ := List.mem_flatMap.mp h
        split at hc
        · rcases List.mem_cons.mp hc with rfl | hc
          · exact Or.inr (Or.inr rfl)
          · exact Or.inl (List.mem_singleton.mp hc ▸ hd)
        · exact Or.inl (List.mem_singleton.mp hc ▸ hd)
    · exact Or.inr (Or.inl (List.mem_singleton.mp h))

end CommandBuilder

/-! ## C strings -/

theorem cStr_eq_self_iff {s : Str} : cStr s = s ↔ '\x00' ∉ s := by
  rw [cStr]
  rw [List.takeWhile_eq_self_iff]
  simp only [decide_eq_true_eq]
  constructor
  · intro h hm
    exact h _ hm rfl
  · intro h c hc heq
    exact h (heq ▸ hc)

theorem nul_not_mem_cStr (s : Str) : '\x00' ∉ cStr s := by
  intro h
  have := List.mem_takeWhile_imp h
  simp at this

/-- An argument goes through `execvp` unchanged. -/
theorem cStr_escapeArgument_eq_iff {arg : Str} :
    cStr (CommandBuilder.escapeArgument arg) = arg
      ↔ CommandBuilder.needsQuoting arg = false ∧ '\x00' ∉ arg := by
  constructor
  · intro h
    have hnul : '\x00' ∉ arg := h ▸ nul_not_mem_cStr _
    -- quoting adds no NUL, so the escaped argument is not cut either
    have hesc : '\x00' ∉ CommandBuilder.escapeArgument arg := by
      intro hm
      rcases CommandBuilder.mem_of_mem_escapeArgument hm with hm | hm | hm
      · exact hnul hm
      · exact absurd hm (by decide)
      · exact absurd hm (by decide)
    rw [cStr_eq_self_iff.mpr hesc] at h
    exact ⟨CommandBuilder.escapeArgument_eq_iff.mp h, hnul⟩
  · rintro ⟨hq, hnul⟩
    rw [CommandBuilder.escapeArgument_of_not hq, cStr_eq_self_iff.mpr hnul]

/-! ## The components a process is started with -/

/-- `OsalResult`: a value, or an error with its message. -/
abbrev OsalResult (α : Type) := Except Str α

/-- `ProcessId` and `pid_t`. -/
abbrev ProcessId := Int

/-- `CommandLine`. -/
structure CommandLine where
  program : Str := []
  arguments : List Str := []
  workingDirectory : Str := []
  environment : List (Str × Str) := []

/-- A system call that sets up a forked child. -/
inductive ChildCall where
  | chdir (path : Str)
  | setenv (name value : Str)
  | execvp (args : List Str)
  | exit
  deriving DecidableEq, Repr

/-- What one process was started with: the `CommandLine` an executor got, or
    what the child of a `fork` calls. -/
inductive Start where
  | executor (command : CommandLine)
  | fork (calls : List ChildCall)

/-- `ProcessOptions`, as far as they are filled in; times in milliseconds. -/
structure ProcessOptions where
  startupTimeout : Int
  shutdownTimeout : Int
  captureStdout : Bool
  captureStderr : Bool

/-- `ProcessExecutor`. -/
structure ProcessExecutor (W : Type*) where
  execute : CommandLine → ProcessOptions → W → OsalResult ProcessId × W
  wait : ProcessId → Int → W → W

/-- `ResourceMonitor`. -/
structure ResourceMonitor (W : Type*) where
  areResourcesAvailable : Nat → W → OsalResult Bool × W
  setResourceLimits : ProcessId → Nat → Rat → W → W

/-- `Watchdog`. -/
structure Watchdog (W : Type*) where
  registerNode : Nat → Nat → W → W
  unregisterNode : Nat → W → W

/-- The system calls of the fork path.  `fork` answers in the parent; the
    child goes on to `execvp` with the given arguments. -/
structure Posix (W : Type*) where
  fork : List Str → W → ProcessId × W
  waitpid : ProcessId → W → W
  isRunning : ProcessId → W → Bool × W
  sigterm : ProcessId → W → W

/-- `static_cast<uint32_t>`. -/
def toUint32 (n : Int) : Nat := (n % 2 ^ 32).toNat

/-- The members of `ExecuteProcess`. -/
structure ExecuteProcess (W : Type*) where
  options : ExecuteProcess.Options
  process : Option ProcessId := none
  processExecutor : Option (ProcessExecutor W) := none
  resourceMonitor : Option (ResourceMonitor W) := none
  watchdog : Option (Watchdog W) := none
  processId : ProcessId := 0

/-- A recorded run; `result` is `none` while the retry loop still goes round. -/
structure ExecuteProcess.Run (W : Type*) where
  result : Option (Result Unit)
  self : ExecuteProcess W
  world : W
  started : List (List Str) := []
  starts : List Start := []

namespace ExecuteProcess

variable {W : Type*}

/-- `resolve_command`. -/
def resolveCommand (self : ExecuteProcess W) (context : LaunchContext) : List Str :=
  self.options.cmd.filterMap (fun sub => sub.map (·.perform context))

/-- The loop of `validate_and_escape_command`. -/
def escapeLoop : List Str → List Str → Result (List Str)
  | [], validatedCmd => .ok validatedCmd
  | arg :: rest, validatedCmd =>
      if arg = [] then .error ⟨.invalidArgument, "Empty argument in command".toList⟩
      else escapeLoop rest (validatedCmd ++ [CommandBuilder.escapeArgument arg])

/-- `validate_and_escape_command`. -/
def validateAndEscapeCommand (cmd : List Str) : Result (List Str) :=
  if cmd = [] then .error ⟨.invalidArgument, "Empty command".toList⟩
  else escapeLoop cmd []

section Attempt

variable (self : ExecuteProcess W)

/-- The check of resources in front of an attempt. -/
def resourcesAvailable (w : W) : Bool × W :=
  match self.options.enableSafety, self.resourceMonitor with
  | true, some monitor =>
      let estimatedMemory :=
        if 0 < self.options.maxMemoryBytes then self.options.maxMemoryBytes
        else 100 * 1024 * 1024
      match monitor.areResourcesAvailable estimatedMemory w with
      | (.ok available, w) => (available, w)
      | (.error _, w) => (false, w)
  -- with safety off or no monitor nothing is checked
  | _, _ => (true, w)

/-- The executor of the safety path, where it is taken. -/
def safetyExecutor : Option (ProcessExecutor W) :=
  if self.options.enableSafety then self.processExecutor else none

def processOptions : ProcessOptions where
  startupTimeout := 5000
  shutdownTimeout := self.options.sigtermTimeout * 1000
  captureStdout := self.options.output ≠ "log".toList
  captureStderr := self.options.output ≠ "log".toList

/-- `CommandLine` of a vector. -/
def commandLine : List Str → CommandLine
  | [] => {}
  | program :: arguments => { program, arguments }

/-- What the safety path does with the world once the process runs. -/
def afterStart (executor : ProcessExecutor W) (processId : ProcessId) (w : W) : W :=
  let w :=
    match self.watchdog with
    | some watchdog =>
        if 0 < self.options.watchdogTimeoutMs then
          watchdog.registerNode (toUint32 processId)
            (toUint32 self.options.watchdogTimeoutMs) w
        else w
    | none => w
  let w :=
    match self.resourceMonitor with
    | some monitor =>
        if 0 < self.options.maxMemoryBytes ∨ 0 < self.options.maxCpuPercent then
          monitor.setResourceLimits processId self.options.maxMemoryBytes
            self.options.maxCpuPercent w
        else w
    | none => w
  if self.options.output = "screen".toList then executor.wait processId (-1) w else w

/-- The child of `execute_single_attempt`; it ends if `execvp` returns. -/
def childCalls (args : List Str) : List ChildCall := [.execvp args, .exit]

variable (posix : Posix W)

/-- `execute_single_attempt`. -/
def executeSingleAttempt (cmd : List Str) (w : W) : Run W :=
  match self.resourcesAvailable w with
  | (false, w) =>
      { result := some (.error ⟨.processSpawnFailed,
          "Insufficient resources to start process".toList⟩), self, world := w }
  | (true, w) =>
      match self.safetyExecutor with
      | some executor =>
          let command := commandLine cmd
          match executor.execute command self.processOptions w with
          | (.error message, w) =>
              { result := some (.error ⟨.processSpawnFailed, message⟩), self, world := w }
          | (.ok processId, w) =>
              { result := some (.ok ())
                self := { self with processId, process := some processId }
                world := self.afterStart executor processId w
                started := [command.program :: command.arguments]
                starts := [.executor command] }
      | none =>
          -- the child calls `execvp` with `c_str()` of every argument
          let args := cmd.map cStr
          match posix.fork args w with
          | (pid, w) =>
              if pid < 0 then
                { result := some (.error ⟨.processSpawnFailed, "Fork failed".toList⟩)
                  self, world := w }
              else
                { result := some (.ok ())
                  self := { self with process := some pid }
                  world := if self.options.output = "screen".toList then
                    posix.waitpid pid w else w
                  started := [args]
                  starts := [.fork (childCalls args)] }

/-- `is_retryable_error`. -/
def isRetryableError (code : ErrorCode) : Bool :=
  code = .processSpawnFailed || code = .timeout || code = .resourceExhausted

/-- `cleanup_before_retry`. -/
def cleanupBeforeRetry (w : W) : ExecuteProcess W × W :=
  let w :=
    match self.process with
    | some pid =>
        match posix.isRunning pid w with
        | (true, w) => posix.sigterm pid w
        | (false, w) => w
    | none => w
  let w :=
    match self.watchdog with
    | some watchdog =>
        if self.processId ≠ 0 then watchdog.unregisterNode (toUint32 self.processId) w
        else w
    | none => w
  ({ self with process := none, processId := 0 }, w)

end Attempt

/-- The loop of `execute_with_retry`, for as many rounds as there is fuel.
    `attempt` is a `uint32_t`. -/
def retryLoop (posix : Posix W) (cmd : List Str) :
    Nat → Nat → ExecuteProcess W → W → Run W
  | 0, _, self, w => { result := none, self, world := w }
  | fuel + 1, attempt, self, w =>
      let last := self.executeSingleAttempt posix cmd w
      match last.result with
      | some (.error e) =>
          let attempt := (attempt + 1) % 2 ^ 32
          -- the counter wraps around, so a limit of 2 ^ 32 - 1 is never exceeded
          if self.options.maxRetries < attempt then
            { last with result := some (.error ⟨.maxRetriesExceeded,
                "Max retry attempts exceeded".toList⟩) }
          else if ¬ isRetryableError e.code then last
          else
            match last.self.cleanupBeforeRetry posix last.world with
            | (self, w) =>
                let next := retryLoop posix cmd fuel attempt self w
                { next with
                  started := last.started ++ next.started
                  starts := last.starts ++ next.starts }
      | _ => last

/-- `execute`. -/
def execute (posix : Posix W) (fuel : Nat) (self : ExecuteProcess W)
    (context : LaunchContext) (w : W) : Run W :=
  match validateAndEscapeCommand (self.resolveCommand context) with
  | .error e => { result := some (.error e), self, world := w }
  | .ok cmd =>
      if 0 < self.options.maxRetries then retryLoop posix cmd fuel 0 self w
      else self.executeSingleAttempt posix cmd w

/-! ## What processes are started with -/

/-- Every argument of a command without empty ones is escaped. -/
theorem escapeLoop_eq {cmd : List Str} (h : ∀ arg ∈ cmd, arg ≠ []) (validatedCmd : List Str) :
    escapeLoop cmd validatedCmd
      = .ok (validatedCmd ++ cmd.map CommandBuilder.escapeArgument) := by
  induction cmd generalizing validatedCmd with
  | nil => exact congrArg _ (List.append_nil _).symm
  | cons arg rest ih =>
      rw [escapeLoop]
      rw [if_neg (h arg List.mem_cons_self),
        ih (fun a ha => h a (List.mem_cons_of_mem _ ha)), List.append_assoc]
      rfl

theorem validateAndEscapeCommand_eq {cmd : List Str} (hne : cmd ≠ [])
    (h : ∀ arg ∈ cmd, arg ≠ []) :
    validateAndEscapeCommand cmd = .ok (cmd.map CommandBuilder.escapeArgument) := by
  rw [validateAndEscapeCommand]
  rw [if_neg hne, escapeLoop_eq h, List.nil_append]

/-- One empty argument is enough to refuse a command. -/
theorem escapeLoop_error {cmd : List Str} (h : [] ∈ cmd) (validatedCmd : List Str) :
    escapeLoop cmd validatedCmd
      = .error ⟨.invalidArgument, "Empty argument in command".toList⟩ := by
  induction cmd generalizing validatedCmd with
  | nil => cases h
  | cons arg rest ih =>
      rw [escapeLoop]
      by_cases hempty : arg = []
      · rw [if_pos hempty]
      · rw [if_neg hempty]
        rcases List.mem_cons.mp h with heq | hrest
        · exact absurd heq.symm hempty
        · exact ih hrest _

/-- A command with an empty argument, or without any, is refused. -/
theorem validateAndEscapeCommand_error {cmd : List Str} (h : ¬ (cmd ≠ [] ∧ [] ∉ cmd)) :
    ∃ e, validateAndEscapeCommand cmd = .error e := by
  by_cases hne : cmd = []
  · exact ⟨_, if_pos hne⟩
  · have hmem : [] ∈ cmd := by
      by_contra hmem
      exact h ⟨hne, hmem⟩
    rw [validateAndEscapeCommand]
    rw [if_neg hne, escapeLoop_error hmem]
    exact ⟨_, rfl⟩

/-- A command that is accepted names a program. -/
theorem program_ne_nil {raw cmd : List Str} (h : validateAndEscapeCommand raw = .ok cmd) :
    (commandLine cmd).program ≠ [] := by
  have hraw : raw ≠ [] ∧ [] ∉ raw := by
    by_contra hraw
    obtain ⟨e, he⟩ := validateAndEscapeCommand_error hraw
    rw [he] at h
    cases h
  obtain ⟨hne, hargs⟩ := hraw
  rw [validateAndEscapeCommand_eq hne (fun arg harg hempty => hargs (hempty ▸ harg))] at h
  obtain ⟨arg, rest, rfl⟩ := List.exists_cons_of_ne_nil hne
  cases h
  show CommandBuilder.escapeArgument arg ≠ []
  have harg : arg ≠ [] := fun hempty => hargs (hempty ▸ List.mem_cons_self)
  rw [CommandBuilder.escapeArgument]
  split
  · exact harg
  · exact List.cons_ne_nil _ _

/-- The vector the path an attempt takes hands over. -/
def handedOver (self : ExecuteProcess W) (cmd : List Str) : List Str :=
  if self.safetyExecutor.isSome then
    (commandLine cmd).program :: (commandLine cmd).arguments
  else cmd.map cStr

theorem map_eq_self_iff {f : Str → Str} {l : List Str} :
    l.map f = l ↔ ∀ a ∈ l, f a = a := by
  have h := List.map_inj_left (f := f) (g := id) (l := l)
  rwa [List.map_id] at h

/-- The vector is the given one when nothing had to be escaped, and when no C
    string cuts it short. -/
theorem handedOver_eq_self_iff (self : ExecuteProcess W) {raw : List Str} (hne : raw ≠ []) :
    self.handedOver (raw.map CommandBuilder.escapeArgument) = raw
      ↔ (∀ arg ∈ raw, CommandBuilder.needsQuoting arg = false)
        ∧ (self.safetyExecutor = none → ∀ arg ∈ raw, '\x00' ∉ arg) := by
  rw [handedOver]
  cases hexec : self.safetyExecutor with
  | some executor =>
      obtain ⟨program, arguments, rfl⟩ := List.exists_cons_of_ne_nil hne
      show (program :: arguments).map CommandBuilder.escapeArgument = _ ↔ _
      rw [map_eq_self_iff]
      simp only [CommandBuilder.escapeArgument_eq_iff, reduceCtorEq, false_implies, and_true]
  | none =>
      show (raw.map CommandBuilder.escapeArgument).map cStr = raw ↔ _
      rw [List.map_map, map_eq_self_iff]
      simp only [Function.comp_apply, cStr_escapeArgument_eq_iff, true_implies]
      exact forall₂_and

/-- An attempt starts no process and fails, or starts one and succeeds. -/
theorem executeSingleAttempt_cases (posix : Posix W) (self : ExecuteProcess W)
    (cmd : List Str) (w : W) :
    ((∃ e, (self.executeSingleAttempt posix cmd w).result = some (.error e))
        ∧ (self.executeSingleAttempt posix cmd w).self = self
        ∧ (self.executeSingleAttempt posix cmd w).started = [])
      ∨ ((self.executeSingleAttempt posix cmd w).result = some (.ok ())
        ∧ (self.executeSingleAttempt posix cmd w).started = [self.handedOver cmd]) := by
  rw [executeSingleAttempt, handedOver]
  rcases self.resourcesAvailable w with ⟨_ | _, w⟩
  · exact Or.inl ⟨⟨_, rfl⟩, rfl, rfl⟩
  · cases self.safetyExecutor with
    | some executor =>
        simp only
        rcases executor.execute (commandLine cmd) self.processOptions w with
          ⟨message | processId, w⟩
        · exact Or.inl ⟨⟨_, rfl⟩, rfl, rfl⟩
        · exact Or.inr ⟨rfl, rfl⟩
    | none =>
        simp only
        rcases posix.fork (cmd.map cStr) w with ⟨pid, w⟩
        split
        · exact Or.inl ⟨⟨_, rfl⟩, rfl, rfl⟩
        · exact Or.inr ⟨rfl, rfl⟩

/-- Whatever the retry loop starts, it starts with the same vector. -/
theorem retryLoop_started (posix : Posix W) (cmd : List Str) (fuel attempt : Nat)
    (self : ExecuteProcess W) (w : W) :
    ∀ argv ∈ (retryLoop posix cmd fuel attempt self w).started,
      argv = self.handedOver cmd := by
  induction fuel generalizing attempt self w with
  | zero => intro argv hargv; cases hargv
  | succ fuel ih =>
      rw [retryLoop]
      rcases executeSingleAttempt_cases posix self cmd w with
        ⟨⟨e, hresult⟩, hself, hstarted⟩ | ⟨hresult, hstarted⟩
      · simp only [hresult]
        split
        · rw [hstarted]
          exact List.forall_mem_nil _
        · split
          · rw [hstarted]
            exact List.forall_mem_nil _
          · -- the members that decide the path are not touched between two attempts
            rw [hself, hstarted, List.nil_append]
            exact ih _ _ _
      · simp only [hresult]
        rw [hstarted]
        exact List.forall_mem_singleton.mpr rfl

/-- Whatever `execute` starts is the escaped command. -/
theorem execute_started (posix : Posix W) (fuel : Nat) (self : ExecuteProcess W)
    (context : LaunchContext) (w : W) (hne : self.resolveCommand context ≠ [])
    (hargs : ∀ arg ∈ self.resolveCommand context, arg ≠ []) :
    ∀ argv ∈ (self.execute posix fuel context w).started,
      argv = self.handedOver
        ((self.resolveCommand context).map CommandBuilder.escapeArgument) := by
  rw [execute]
  rw [validateAndEscapeCommand_eq hne hargs]
  simp only
  split
  · exact retryLoop_started posix _ fuel 0 self w
  · rcases executeSingleAttempt_cases posix self
        ((self.resolveCommand context).map CommandBuilder.escapeArgument) w with
      ⟨-, -, hstarted⟩ | ⟨-, hstarted⟩
    · rw [hstarted]
      exact List.forall_mem_nil _
    · rw [hstarted]
      exact List.forall_mem_singleton.mpr rfl

/-- **What a started process sees.**  In every run of `execute` that starts a
    process, with safety on or off, the process gets the resolved arguments if
    and only if none of them has a character that `needs_quoting` looks for
    and, where the arguments go through `execvp`, none has a NUL. -/
theorem execute_started_iff (posix : Posix W) (fuel : Nat) (self : ExecuteProcess W)
    (context : LaunchContext) (w : W) (hne : self.resolveCommand context ≠ [])
    (hargs : ∀ arg ∈ self.resolveCommand context, arg ≠ [])
    (hstarts : (self.execute posix fuel context w).started ≠ []) :
    (∀ argv ∈ (self.execute posix fuel context w).started,
        argv = self.resolveCommand context)
      ↔ (∀ arg ∈ self.resolveCommand context, CommandBuilder.needsQuoting arg = false)
        ∧ (self.safetyExecutor = none →
            ∀ arg ∈ self.resolveCommand context, '\x00' ∉ arg) := by
  have hall := execute_started posix fuel self context w hne hargs
  rw [← handedOver_eq_self_iff self hne]
  constructor
  · intro h
    -- all started vectors are one vector, and there is one to read it off
    obtain ⟨argv, hargv⟩ := List.exists_mem_of_ne_nil _ hstarts
    rw [← hall argv hargv]
    exact h argv hargv
  · intro h argv hargv
    rw [hall argv hargv, h]

/-- A system on which everything goes well. -/
def idlePosix : Posix Nat where
  fork _ w := (w + 1, w + 1)
  waitpid _ w := w
  isRunning _ w := (false, w)
  sigterm _ w := w

theorem execute_started_iff_ls :
    (execute idlePosix 1
        ⟨{ cmd := [some (textSubstitution "ls".toList)] }, none, none, none, none, 0⟩
        LaunchContext.empty 0).started ≠ []
    ∧ ∀ argv ∈ (execute idlePosix 1
        ⟨{ cmd := [some (textSubstitution "ls".toList)] }, none, none, none, none, 0⟩
        LaunchContext.empty 0).started, argv = ["ls".toList] :=
  ⟨by decide, (execute_started_iff idlePosix 1
    ⟨{ cmd := [some (textSubstitution "ls".toList)] }, none, none, none, none, 0⟩
    LaunchContext.empty 0 (by decide) (by decide)
    (by decide)).mpr ⟨by decide, fun _ => by decide⟩⟩

/-- An argument with spaces in it arrives with quotes around it. -/
theorem execute_started_quotes :
    (execute idlePosix 1
        ⟨{ cmd := [some (textSubstitution "echo".toList),
            some (textSubstitution "Hello, C++ Launch!".toList)] }, none, none, none, none, 0⟩
        LaunchContext.empty 0).started
      = [["echo".toList, "\"Hello, C++ Launch!\"".toList]]
    ∧ ["echo".toList, "\"Hello, C++ Launch!\"".toList]
      ≠ resolveCommand
        (⟨{ cmd := [some (textSubstitution "echo".toList),
            some (textSubstitution "Hello, C++ Launch!".toList)] }, none, none, none, none, 0⟩ :
          ExecuteProcess Nat)
        LaunchContext.empty :=
  ⟨rfl, by decide⟩

/-! ## The retry loop ends -/

/-- A process that may be retried at most `2 ^ 32 - 2` times is retried no
    more often than that. -/
theorem retryLoop_returns (posix : Posix W) (cmd : List Str) (fuel attempt : Nat)
    (self : ExecuteProcess W) (w : W) (hmax : self.options.maxRetries + 1 < 2 ^ 32)
    (hattempt : attempt ≤ self.options.maxRetries)
    (hfuel : self.options.maxRetries < attempt + fuel) :
    (retryLoop posix cmd fuel attempt self w).result ≠ none := by
  induction fuel generalizing attempt self w with
  | zero => omega
  | succ fuel ih =>
      rw [retryLoop]
      rcases executeSingleAttempt_cases posix self cmd w with
        ⟨⟨e, hresult⟩, hself, -⟩ | ⟨hresult, -⟩
      · have hmod : (attempt + 1) % 2 ^ 32 = attempt + 1 := Nat.mod_eq_of_lt (by omega)
        simp only [hresult, hmod]
        split
        · intro h
          cases h
        · split
          · rw [hresult]
            intro h
            cases h
          · rename_i hle _
            rw [hself]
            refine ih (attempt + 1) _ _ hmax (Nat.not_lt.mp hle) ?_
            show self.options.maxRetries < attempt + 1 + fuel
            omega
      · simp only [hresult]
        intro h
        cases h

end ExecuteProcess

end LaunchCpp
