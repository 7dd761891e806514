import LaunchCpp.ExecuteProcess

/-! # The life of an `ExecuteProcess`

    The members of `ExecuteProcess` besides `execute`: constructor and
    destructor, the calls that signal the process and those that ask about
    it.  Each of them takes one of two paths: with safety on, an executor and
    a process id it asks the executor, otherwise it goes to the `Process`
    object itself.  As in `execute`, the system is whatever it does to a
    world of any type `W`. -/

namespace LaunchCpp

/-- `SIGTERM`. -/
def sigTerm : Int := 15

/-- `SIGKILL`. -/
def sigKill : Int := 9

/-- The rest of `ProcessExecutor`; timeouts in milliseconds. -/
structure ProcessControl (W : Type*) where
  isRunning : ProcessId → W → OsalResult Bool × W
  terminate : ProcessId → Int → W → OsalResult Unit × W
  kill : ProcessId → W → OsalResult Unit × W
  sendSignal : ProcessId → Int → W → OsalResult Unit × W

/-- What the members of `ExecuteProcess` call: the functions of `Process` and
    `fork`, the executor, `::kill`, `Process::get_return_code` and the two
    functions that start and stop the thread of the watchdog. -/
structure System (W : Type*) where
  posix : Posix W
  control : ProcessControl W
  signal : ProcessId → Int → W → W
  returnCode : ProcessId → W → Int
  startWatchdog : W → W
  stopWatchdog : W → W

namespace ExecuteProcess

variable {W : Type*} (sys : System W)

/-- `ExecuteProcess::ExecuteProcess`, with the implementations it makes. -/
def construct (executor : ProcessExecutor W) (monitor : ResourceMonitor W)
    (watchdog : Watchdog W) (options : Options) (w : W) : ExecuteProcess W × W :=
  if options.enableSafety then
    ({ options, processExecutor := some executor, resourceMonitor := some monitor
       watchdog := some watchdog },
      if 0 < options.watchdogTimeoutMs then sys.startWatchdog w else w)
  else ({ options }, w)

variable (self : ExecuteProcess W)

/-- The node of the process in the watchdog, at the two places that take it
    out. -/
def unregister (w : W) : W :=
  match self.watchdog with
  | some watchdog =>
      if self.processId ≠ 0 then watchdog.unregisterNode (toUint32 self.processId) w else w
  | none => w

/-- `ExecuteProcess::~ExecuteProcess`. -/
def destruct (w : W) : W :=
  match self.watchdog with
  | some _ => sys.stopWatchdog (self.unregister w)
  | none => self.unregister w

/-- The test for the safety path. -/
def onSafetyPath : Bool :=
  self.options.enableSafety && self.processExecutor.isSome && self.processId ≠ 0

/-- The shape of the three calls that end a process. -/
def endProcess (ended : ProcessId → W → OsalResult Unit × W) (signal : Int) (w : W) :
    Error × W :=
  if self.onSafetyPath then
    match ended self.processId w with
    | (.ok (), w) => (Error.ok, w)
    | (.error message, w) => (⟨.internalError, message⟩, w)
  else
    match self.process with
    | some pid =>
        match sys.posix.isRunning pid w with
        | (true, w) => (Error.ok, sys.signal pid signal w)
        | (false, w) => (Error.ok, w)
    | none => (Error.ok, w)

/-- `shutdown`. -/
def shutdown : W → Error × W :=
  self.endProcess sys
    (fun pid => sys.control.terminate pid (self.options.sigtermTimeout * 1000)) sigTerm

/-- `terminate`. -/
def terminate : W → Error × W :=
  self.endProcess sys
    (fun pid => sys.control.terminate pid (self.options.sigtermTimeout * 1000)) sigTerm

/-- `kill`. -/
def kill : W → Error × W := self.endProcess sys sys.control.kill sigKill

/-- `send_signal`. -/
def sendSignal (signal : Int) (w : W) : W :=
  if self.onSafetyPath then (sys.control.sendSignal self.processId signal w).2
  else
    match self.process with
    | some pid => sys.signal pid signal w
    | none => w

/-- `is_running`. -/
def isRunning (w : W) : Bool × W :=
  if self.onSafetyPath then
    match sys.control.isRunning self.processId w with
    | (.ok running, w) => (running, w)
    | (.error _, w) => (false, w)
  else
    match self.process with
    | some pid => sys.posix.isRunning pid w
    | none => (false, w)

/-- `get_return_code`. -/
def getReturnCode (w : W) : Result Int :=
  if self.options.enableSafety ∧ self.processId ≠ 0 then
    match self.process with
    | some pid => .ok (sys.returnCode pid w)
    | none => .ok (-1)
  else
    match self.process with
    | some pid => .ok (sys.returnCode pid w)
    | none => .error ⟨.internalError, "Process not started".toList⟩

/-- `get_pid`. -/
def getPid : Result Int :=
  if self.options.enableSafety ∧ self.processId ≠ 0 then .ok self.processId
  else
    match self.process with
    | some pid => .ok pid
    | none => .error ⟨.internalError, "Process not started".toList⟩

/-- `cleanup_before_retry`, the part that ends a process left over. -/
def endLeftover (posix : Posix W) (w : W) : W :=
  match self.process with
  | some pid =>
      match posix.isRunning pid w with
      | (true, w) => posix.sigterm pid w
      | (false, w) => w
  | none => w

theorem cleanupBeforeRetry_eq (posix : Posix W) (w : W) :
    self.cleanupBeforeRetry posix w
      = ({ self with process := none, processId := 0 },
          self.unregister (self.endLeftover posix w)) := rfl

/-! ## Where `execute` ends

    The states in front of an attempt, and how a run of `execute` ends in
    terms of them: invariants of `execute` are proved by induction on
    `Attempted`. -/

variable (posix : Posix W) (cmd : List Str) (w : W)

/-- A state in which an attempt is made: the first one, or one after a failed
    attempt and the clean-up. -/
inductive Attempted : ExecuteProcess W → W → Prop where
  | first : Attempted self w
  | again {prev : ExecuteProcess W} {wprev : W} {e : Error} (hprev : Attempted prev wprev)
      (hfail : (prev.executeSingleAttempt posix cmd wprev).result = some (.error e)) :
      Attempted
        ((prev.executeSingleAttempt posix cmd wprev).self.cleanupBeforeRetry posix
          (prev.executeSingleAttempt posix cmd wprev).world).1
        ((prev.executeSingleAttempt posix cmd wprev).self.cleanupBeforeRetry posix
          (prev.executeSingleAttempt posix cmd wprev).world).2

/-- A run that ends in front of an attempt, without an answer, or behind one;
    a success is that of the attempt. -/
inductive EndsAt (run : Run W) : Prop where
  | before (hat : Attempted self posix cmd w run.self run.world)
      (hresult : run.result ≠ some (.ok ())) : EndsAt run
  | behind {last : ExecuteProcess W} {wlast : W} (hat : Attempted self posix cmd w last wlast)
      (hself : run.self = (last.executeSingleAttempt posix cmd wlast).self)
      (hworld : run.world = (last.executeSingleAttempt posix cmd wlast).world)
      (hresult : run.result = some (.ok ()) →
        (last.executeSingleAttempt posix cmd wlast).result = some (.ok ())) : EndsAt run

variable {self posix cmd w}

theorem retryLoop_endsAt (fuel attempt : Nat) (prev : ExecuteProcess W) (wprev : W)
    (hat : Attempted self posix cmd w prev wprev) :
    EndsAt self posix cmd w (retryLoop posix cmd fuel attempt prev wprev) := by
  induction fuel generalizing attempt prev wprev with
  | zero => exact .before hat (fun h => by cases h)
  | succ fuel ih =>
      rw [retryLoop]
      rcases executeSingleAttempt_cases posix prev cmd wprev with
        ⟨⟨e, hresult⟩, -, -⟩ | ⟨hresult, -⟩
      · simp only [hresult]
        split
        · exact .behind hat rfl rfl (fun h => by cases h)
        · split
          · exact .behind hat rfl rfl id
          · -- the clean-up leads to the next attempt
            cases ih ((attempt + 1) % 2 ^ 32) _ _ (.again hat hresult) with
            | before hat' hresult' => exact .before hat' hresult'
            | behind hat' hself hworld hresult' => exact .behind hat' hself hworld hresult'
      · simp only [hresult]
        exact .behind hat rfl rfl id

theorem execute_of_error {fuel : Nat} {context : LaunchContext} {e : Error}
    (hcmd : validateAndEscapeCommand (self.resolveCommand context) = .error e) :
    self.execute posix fuel context w = { result := some (.error e), self, world := w } := by
  rw [execute, hcmd]

/-- **Where a run of `execute` ends** whose command is not rejected: at one of
    its attempts. -/
theorem execute_endsAt_of_ok {fuel : Nat} {context : LaunchContext}
    (hcmd : validateAndEscapeCommand (self.resolveCommand context) = .ok cmd) :
    EndsAt self posix cmd w (self.execute posix fuel context w) := by
  rw [execute, hcmd]
  simp only
  split
  · exact retryLoop_endsAt fuel 0 self w .first
  · exact .behind .first rfl rfl id

/-- A run that returns is its first attempt, if that starts a process. -/
theorem execute_of_started {fuel : Nat} {context : LaunchContext}
    (hcmd : validateAndEscapeCommand (self.resolveCommand context) = .ok cmd)
    (hstarts : (self.executeSingleAttempt posix cmd w).result = some (.ok ()))
    (hreturns : (self.execute posix fuel context w).result ≠ none) :
    self.execute posix fuel context w = self.executeSingleAttempt posix cmd w := by
  rw [execute, hcmd] at hreturns ⊢
  simp only at hreturns ⊢
  split at hreturns
  next hretries =>
    rw [if_pos hretries]
    cases fuel with
    | zero => exact absurd rfl hreturns
    | succ fuel => rw [retryLoop, hstarts]
  next hretries => rw [if_neg hretries]

/-- A retry loop whose first attempt fails goes on behind the clean-up. -/
theorem retryLoop_of_failed (fuel : Nat) {e : Error} {cleaned : ExecuteProcess W × W}
    (hresult : (self.executeSingleAttempt posix cmd w).result = some (.error e))
    (hcode : isRetryableError e.code = true) (hmax : 0 < self.options.maxRetries)
    (hcleaned : (self.executeSingleAttempt posix cmd w).self.cleanupBeforeRetry posix
      (self.executeSingleAttempt posix cmd w).world = cleaned) :
    ∃ started starts, retryLoop posix cmd (fuel + 1) 0 self w
      = { retryLoop posix cmd fuel 1 cleaned.1 cleaned.2 with started, starts } := by
  have hone : (0 + 1) % 2 ^ 32 = 1 := rfl
  have hmax' : ¬ self.options.maxRetries < 1 := not_lt.mpr hmax
  let last := self.executeSingleAttempt posix cmd w
  let next := retryLoop posix cmd fuel 1 cleaned.1 cleaned.2
  refine ⟨last.started ++ next.started, last.starts ++ next.starts, ?_⟩
  rw [retryLoop]
  simp only [hresult, hone, if_neg hmax', hcode, not_true_eq_false, if_false, hcleaned]
  rfl

/-! ## The pid an attempt is handed -/

/-- What the components answer when an attempt on the safety path asks them
    for a process: its pid, if the resources are there and the executor makes
    one. -/
def handed (self : ExecuteProcess W) (cmd : List Str) (w : W) : Option ProcessId :=
  match self.resourcesAvailable w, self.safetyExecutor with
  | (true, w), some executor =>
      (executor.execute (commandLine cmd) self.processOptions w).1.toOption
  | _, _ => none

end ExecuteProcess

/-! ## Calls on an action -/

/-- An action, and the world it runs in. -/
structure Session (W : Type*) where
  self : ExecuteProcess W
  world : W

/-- A call of one of the members that touch the process. -/
inductive Call where
  | execute (context : LaunchContext)
  | shutdown
  | terminate
  | kill
  | sendSignal (signal : Int)
  | isRunning

namespace Session

variable {W : Type*} (sys : System W)

/-- A call of `execute`. -/
def execute (s : Session W) (context : LaunchContext) (fuel : Nat) : ExecuteProcess.Run W :=
  s.self.execute sys.posix fuel context s.world

/-- The session a run of `execute` leaves behind. -/
def after (run : ExecuteProcess.Run W) : Session W := ⟨run.self, run.world⟩

/-- What a call that returns does to the session. -/
inductive Step (s : Session W) : Call → Session W → Prop where
  | execute {context : LaunchContext} {fuel : Nat}
      (hreturns : (s.execute sys context fuel).result ≠ none) :
      Step s (.execute context) (.after (s.execute sys context fuel))
  | shutdown : Step s .shutdown ⟨s.self, (s.self.shutdown sys s.world).2⟩
  | terminate : Step s .terminate ⟨s.self, (s.self.terminate sys s.world).2⟩
  | kill : Step s .kill ⟨s.self, (s.self.kill sys s.world).2⟩
  | sendSignal {signal : Int} :
      Step s (.sendSignal signal) ⟨s.self, s.self.sendSignal sys signal s.world⟩
  | isRunning : Step s .isRunning ⟨s.self, (s.self.isRunning sys s.world).2⟩

end Session

end LaunchCpp
