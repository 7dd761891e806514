import LaunchCpp.ProcessControl

/-! # What the calls of an action do not reach

    A world `V`, and beside it something of any type `S`: the limits of the
    launcher, or the nodes of a watchdog.  Most calls of a system do not reach
    it.  `ExecuteProcess.tried` says what an attempt does to it: nothing,
    unless the executor hands the attempt a process, and then what the
    executor, the registration and the limits do.  The calls besides `execute`
    leave it alone (`Session.Step.same`). -/

namespace LaunchCpp

/-- A world, and what stands beside it. -/
structure Framed (V S : Type*) where
  rest : V
  own : S

namespace Framed

variable {V S : Type*}

/-- A call that reaches the world only. -/
def beside {α : Type*} (call : V → α × V) (w : Framed V S) : α × Framed V S :=
  ((call w.rest).1, { w with rest := (call w.rest).2 })

/-- Calls without an answer. -/
def change (call : V → V) (w : Framed V S) : Framed V S := { w with rest := call w.rest }

def executor (executor : ProcessExecutor V) : ProcessExecutor (Framed V S) where
  execute command options := beside (executor.execute command options)
  wait pid timeout := change (executor.wait pid timeout)

def monitor (monitor : ResourceMonitor V) : ResourceMonitor (Framed V S) where
  areResourcesAvailable memory := beside (monitor.areResourcesAvailable memory)
  setResourceLimits pid memory cpu := change (monitor.setResourceLimits pid memory cpu)

def watchdog (watchdog : Watchdog V) : Watchdog (Framed V S) where
  registerNode nodeId timeoutMs := change (watchdog.registerNode nodeId timeoutMs)
  unregisterNode nodeId := change (watchdog.unregisterNode nodeId)

def posix (posix : Posix V) : Posix (Framed V S) where
  fork args := beside (posix.fork args)
  waitpid pid := change (posix.waitpid pid)
  isRunning pid := beside (posix.isRunning pid)
  sigterm pid := change (posix.sigterm pid)

def system (sys : System V) : System (Framed V S) where
  posix := posix sys.posix
  control :=
    { isRunning := fun pid => beside (sys.control.isRunning pid)
      terminate := fun pid timeout => beside (sys.control.terminate pid timeout)
      kill := fun pid => beside (sys.control.kill pid)
      sendSignal := fun pid signal => beside (sys.control.sendSignal pid signal) }
  signal pid signal := change (sys.signal pid signal)
  returnCode pid w := sys.returnCode pid w.rest
  startWatchdog := change sys.startWatchdog
  stopWatchdog := change sys.stopWatchdog

/-- Nothing has happened beside the world. -/
structure Same (w w' : Framed V S) : Prop where
  own : w'.own = w.own

variable {w w' w'' : Framed V S}

theorem Same.refl (w : Framed V S) : Same w w := ⟨rfl⟩

theorem Same.trans (h : Same w w') (h' : Same w' w'') : Same w w'' := ⟨h'.own.trans h.own⟩

theorem same_change (call : V → V) (w : Framed V S) : Same w (change call w) := ⟨rfl⟩

theorem same_beside {α : Type*} (call : V → α × V) (w : Framed V S) :
    Same w (beside call w).2 := ⟨rfl⟩

/-- A step that may be left out. -/
theorem same_ite {c : Prop} [Decidable c] (h : Same w w') : Same w (if c then w' else w) := by
  split
  · exact h
  · exact .refl w

end Framed

namespace ExecuteProcess

section Start

variable {W : Type*} (self : ExecuteProcess W)

/-- The part of a start that registers the process. -/
def register (pid : ProcessId) (w : W) : W :=
  match self.watchdog with
  | some watchdog =>
      if 0 < self.options.watchdogTimeoutMs then
        watchdog.registerNode (toUint32 pid) (toUint32 self.options.watchdogTimeoutMs) w
      else w
  | none => w

/-- The part of a start that sets the limits of the process. -/
def limit (pid : ProcessId) (w : W) : W :=
  match self.resourceMonitor with
  | some monitor =>
      if 0 < self.options.maxMemoryBytes ∨ 0 < self.options.maxCpuPercent then
        monitor.setResourceLimits pid self.options.maxMemoryBytes self.options.maxCpuPercent w
      else w
  | none => w

theorem afterStart_eq (executor : ProcessExecutor W) (pid : ProcessId) (w : W) :
    self.afterStart executor pid w
      = if self.options.output = "screen".toList then
          executor.wait pid (-1) (self.limit pid (self.register pid w))
        else self.limit pid (self.register pid w) := rfl

end Start

variable {V S : Type*}

/-- The components that do not reach what stands beside the world: a monitor
    that is asked, an executor that fails or waits. -/
structure Frames (action : ExecuteProcess (Framed V S)) : Prop where
  asks : ∀ monitor, action.resourceMonitor = some monitor →
    ∀ memory w, Framed.Same w (monitor.areResourcesAvailable memory w).2
  refuses : ∀ executor, action.processExecutor = some executor →
    ∀ command options w message w', executor.execute command options w = (.error message, w') →
      Framed.Same w w'
  waits : ∀ executor, action.processExecutor = some executor →
    ∀ pid timeout w, Framed.Same w (executor.wait pid timeout w)

variable {self : ExecuteProcess (Framed V S)} {posix : Posix V} {cmd : List Str} {w : Framed V S}

theorem processExecutor_of_safetyExecutor {executor : ProcessExecutor (Framed V S)}
    (h : self.safetyExecutor = some executor) : self.processExecutor = some executor := by
  rw [safetyExecutor] at h
  split at h
  · exact h
  · cases h

/-- Asking for resources changes nothing. -/
theorem Frames.resourcesAvailable_same (hframes : self.Frames) :
    Framed.Same w (self.resourcesAvailable w).2 := by
  rw [resourcesAvailable]
  cases self.options.enableSafety with
  | false => exact .refl w
  | true =>
      cases hmonitor : self.resourceMonitor with
      | none => exact .refl w
      | some monitor =>
          have hasked : ∀ memory, Framed.Same w (monitor.areResourcesAvailable memory w).2 :=
            fun memory => hframes.asks monitor hmonitor memory w
          simp only
          generalize (if 0 < self.options.maxMemoryBytes then self.options.maxMemoryBytes
            else 100 * 1024 * 1024) = memory
          have hmemory := hasked memory
          generalize monitor.areResourcesAvailable memory w = answer at hmemory ⊢
          obtain ⟨_ | _, w'⟩ := answer
          · exact hmemory
          · exact hmemory

/-- **What an attempt does beside the world**: nothing, unless the executor
    hands it a process. -/
inductive Tried (self : ExecuteProcess (Framed V S)) (cmd : List Str) (w : Framed V S)
    (run : Run (Framed V S)) : Prop where
  | unhanded (hhanded : self.handed cmd w = none)
      (hself : ∃ process, run.self = { self with process }) (hsame : Framed.Same w run.world)
  | handed {executor : ProcessExecutor (Framed V S)} {pid : ProcessId} {before after : Framed V S}
      (hhanded : self.handed cmd w = some pid) (hresult : run.result = some (.ok ()))
      (hself : run.self = { self with process := some pid, processId := pid })
      (hexecutor : self.processExecutor = some executor) (hbefore : Framed.Same w before)
      (hstarted : executor.execute (commandLine cmd) self.processOptions before = (.ok pid, after))
      (hsame : Framed.Same (self.limit pid (self.register pid after)) run.world)

theorem Frames.tried (hframes : self.Frames) :
    Tried self cmd w (self.executeSingleAttempt (Framed.posix posix) cmd w) := by
  have hhanded : self.handed cmd w = self.handed cmd w := rfl
  have hasked : Framed.Same w (self.resourcesAvailable w).2 := hframes.resourcesAvailable_same
  rw [executeSingleAttempt]
  conv_rhs at hhanded => rw [handed]
  generalize self.resourcesAvailable w = asked at hasked hhanded ⊢
  obtain ⟨_ | _, w'⟩ := asked
  · exact .unhanded hhanded ⟨self.process, rfl⟩ hasked
  · cases hexecutor : self.safetyExecutor with
    | none =>
        simp only [hexecutor] at hhanded ⊢
        have hforked : Framed.Same w ((Framed.posix posix).fork (cmd.map cStr) w').2 :=
          hasked.trans (Framed.same_beside _ w')
        split
        · exact .unhanded hhanded ⟨self.process, rfl⟩ hforked
        · exact .unhanded hhanded ⟨some _, rfl⟩
            (hforked.trans (Framed.same_ite (Framed.same_change _ _)))
    | some executor =>
        have hset := processExecutor_of_safetyExecutor hexecutor
        have hrefuses := hframes.refuses executor hset (commandLine cmd) self.processOptions w'
        simp only [hexecutor] at hhanded ⊢
        cases hstarted : executor.execute (commandLine cmd) self.processOptions w' with
        | mk answer after =>
            rw [hstarted] at hhanded
            cases answer with
            | error message =>
                exact .unhanded hhanded ⟨self.process, rfl⟩
                  (hasked.trans (hrefuses message after hstarted))
            | ok pid =>
                refine .handed hhanded rfl rfl hset hasked hstarted ?_
                show Framed.Same _ (self.afterStart executor pid after)
                rw [afterStart_eq]
                exact Framed.same_ite (hframes.waits executor hset pid (-1) _)

/-- Ending a process that is left over changes nothing. -/
theorem endLeftover_same : Framed.Same w (self.endLeftover (Framed.posix posix) w) := by
  rw [endLeftover]
  cases self.process with
  | none => exact .refl w
  | some pid =>
      have hasked : Framed.Same w ((Framed.posix posix).isRunning pid w).2 :=
        Framed.same_beside _ w
      simp only
      generalize (Framed.posix posix).isRunning pid w = answer at hasked ⊢
      obtain ⟨_ | _, w'⟩ := answer
      · exact hasked
      · exact hasked.trans (Framed.same_change _ _)

/-! ## The other calls -/

section Calls

variable {sys : System V} (self) (w)

theorem endProcess_same (ended : ProcessId → V → OsalResult Unit × V) (signal : Int) :
    Framed.Same w (self.endProcess (Framed.system sys)
      (fun pid => Framed.beside (ended pid)) signal w).2 := by
  unfold endProcess
  split
  · dsimp only
    have hended := Framed.same_beside (ended self.processId) w
    generalize Framed.beside (ended self.processId) w = answer at hended ⊢
    obtain ⟨_ | _, w'⟩ := answer <;> exact hended
  · cases self.process with
    | none => exact .refl w
    | some pid =>
        have hasked : Framed.Same w ((Framed.system sys).posix.isRunning pid w).2 :=
          Framed.same_beside _ w
        simp only
        generalize (Framed.system sys).posix.isRunning pid w = answer at hasked ⊢
        obtain ⟨_ | _, w'⟩ := answer
        · exact hasked
        · exact hasked.trans (Framed.same_change _ _)

theorem sendSignal_same (signal : Int) :
    Framed.Same w (self.sendSignal (Framed.system sys) signal w) := by
  rw [sendSignal]
  split
  · exact Framed.same_beside _ w
  · cases self.process with
    | none => exact .refl w
    | some pid => exact Framed.same_change _ w

theorem isRunning_same : Framed.Same w (self.isRunning (Framed.system sys) w).2 := by
  rw [isRunning]
  split
  · have hasked : Framed.Same w ((Framed.system sys).control.isRunning self.processId w).2 :=
      Framed.same_beside _ w
    generalize (Framed.system sys).control.isRunning self.processId w = answer at hasked ⊢
    obtain ⟨_ | _, w'⟩ := answer <;> exact hasked
  · cases self.process with
    | none => exact .refl w
    | some pid => exact Framed.same_beside _ w

end Calls

end ExecuteProcess

/-- Every call but `execute` leaves the action as it is, and what stands beside
    the world. -/
theorem Session.Step.same {V S : Type*} {sys : System V} {s t : Session (Framed V S)} {call : Call}
    (hstep : s.Step (Framed.system sys) call t) (hcall : ∀ context, call ≠ .execute context) :
    t.self = s.self ∧ Framed.Same s.world t.world := by
  cases hstep with
  | execute => exact absurd rfl (hcall _)
  | shutdown => exact ⟨rfl, s.self.endProcess_same s.world _ _⟩
  | terminate => exact ⟨rfl, s.self.endProcess_same s.world _ _⟩
  | kill => exact ⟨rfl, s.self.endProcess_same s.world _ _⟩
  | sendSignal => exact ⟨rfl, s.self.sendSignal_same s.world _⟩
  | isRunning => exact ⟨rfl, s.self.isRunning_same s.world⟩

end LaunchCpp
