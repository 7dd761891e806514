import LaunchCpp.FramedProcesses

/-! # Processes under a watchdog

    What an `ExecuteProcess` does to the nodes of its watchdog.  Executor,
    monitor and operating system are arbitrary functions of a world `V`; beside
    it stand the nodes, of any type `N`, and the pids the executor has handed
    out.  Whatever the watchdog is, an execution does to the nodes what
    `Parts.Executed` says, and no other call touches them. -/

namespace LaunchCpp

/-- The nodes of a watchdog, and the pids handed out. -/
structure WatchedNodes (N : Type*) where
  nodes : N
  handedOut : List ProcessId := []

/-- A world, and the nodes of a watchdog in it. -/
abbrev Watched (V N : Type*) := Framed V (WatchedNodes N)

variable {V N : Type*}

def Framed.nodes (w : Watched V N) : N := w.own.nodes

def Framed.handedOut (w : Watched V N) : List ProcessId := w.own.handedOut

/-- A call that changes the nodes. -/
def Framed.setNodes (w : Watched V N) (nodes : N) : Watched V N :=
  { w with own := { w.own with nodes } }

/-- An executor, with a list of the pids it hands out. -/
def Watched.executor (executor : ProcessExecutor V) : ProcessExecutor (Watched V N) where
  execute command options w :=
    match executor.execute command options w.rest with
    | (.ok pid, rest) =>
        (.ok pid, { rest, own := { w.own with handedOut := w.own.handedOut ++ [pid] } })
    | (.error message, rest) => (.error message, { w with rest })
  wait pid timeout := Framed.change (executor.wait pid timeout)

section Same

variable {w w' : Watched V N}

theorem Framed.Same.nodes (h : Framed.Same w w') : w'.nodes = w.nodes :=
  congrArg WatchedNodes.nodes h.own

theorem Framed.Same.handedOut (h : Framed.Same w w') : w'.handedOut = w.handedOut :=
  congrArg WatchedNodes.handedOut h.own

end Same

/-- What an action is made of: the options, and the components that were made
    or set. -/
structure Parts (V N : Type*) where
  options : ExecuteProcess.Options
  executor : Option (ProcessExecutor V)
  monitor : Option (ResourceMonitor V)
  watchdog : Option (Watchdog (Watched V N))

namespace Parts

variable (parts : Parts V N) (sys : System V)

/-- The action, with the process it remembers. -/
def action (process : Option ProcessId) (processId : ProcessId) :
    ExecuteProcess (Watched V N) where
  options := parts.options
  process := process
  processExecutor := parts.executor.map Watched.executor
  resourceMonitor := parts.monitor.map Framed.monitor
  watchdog := parts.watchdog
  processId := processId

/-- The part of a start that registers the process. -/
def register (pid : ProcessId) (w : Watched V N) : Watched V N :=
  (parts.action none 0).register pid w

variable {parts sys} {process : Option ProcessId} {processId : ProcessId} {cmd : List Str}
  {w : Watched V N}

/-- The constructor makes such an action, with components only if safety is on;
    `set_process_executor` and its siblings exchange them. -/
theorem construct_eq_action (executor : ProcessExecutor V) (monitor : ResourceMonitor V)
    (watchdog : Watchdog (Watched V N)) (options : ExecuteProcess.Options) :
    (ExecuteProcess.construct (Framed.system sys) (Watched.executor executor)
        (Framed.monitor monitor) watchdog options w).1
      = action
        { options
          executor := if options.enableSafety then some executor else none
          monitor := if options.enableSafety then some monitor else none
          watchdog := if options.enableSafety then some watchdog else none } none 0 := by
  rw [ExecuteProcess.construct, action]
  cases options.enableSafety with
  | true => rfl
  | false => rfl

/-- Only the watchdog, and an executor that hands out a pid, reach the nodes
    and the pids. -/
theorem frames : (parts.action process processId).Frames where
  asks := by
    intro monitor hmonitor memory w
    obtain ⟨inner, -, rfl⟩ := Option.map_eq_some_iff.mp hmonitor
    exact Framed.same_beside _ w
  refuses := by
    intro executor hexecutor command options w message w' hrefused
    obtain ⟨inner, -, rfl⟩ := Option.map_eq_some_iff.mp hexecutor
    simp only [Watched.executor] at hrefused
    generalize inner.execute command options w.rest = answer at hrefused
    obtain ⟨_ | pid, rest⟩ := answer
    · cases hrefused
      exact ⟨rfl⟩
    · cases hrefused
  waits := by
    intro executor hexecutor pid timeout w
    obtain ⟨inner, -, rfl⟩ := Option.map_eq_some_iff.mp hexecutor
    exact Framed.same_change _ w

/-- The monitor does not reach the nodes. -/
theorem limit_same (pid : ProcessId) :
    Framed.Same w ((parts.action process processId).limit pid w) := by
  rw [ExecuteProcess.limit, action]
  cases parts.monitor with
  | none => exact .refl w
  | some monitor => exact Framed.same_ite (Framed.same_change _ _)

/-- A pid that is handed out is written down. -/
theorem executor_handedOut {executor : ProcessExecutor V} {command : CommandLine}
    {options : ProcessOptions} {pid : ProcessId} {w' : Watched V N}
    (hstarted : (Watched.executor executor).execute command options w = (.ok pid, w')) :
    w'.nodes = w.nodes ∧ w'.handedOut = w.handedOut ++ [pid] := by
  simp only [Watched.executor] at hstarted
  generalize executor.execute command options w.rest = answer at hstarted
  obtain ⟨_ | pid', rest⟩ := answer
  · cases hstarted
  · cases hstarted
    exact ⟨rfl, rfl⟩

/-- **What an attempt can do to the nodes**: nothing, or register the pid it
    was handed. -/
inductive Tried (parts : Parts V N) (process : Option ProcessId) (processId : ProcessId)
    (cmd : List Str) (w : Watched V N) (run : ExecuteProcess.Run (Watched V N)) : Prop where
  | unhanded (hhanded : (parts.action process processId).handed cmd w = none)
      (hself : ∃ process', run.self = parts.action process' processId)
      (hsame : Framed.Same w run.world)
  | handed {pid : ProcessId} {before : Watched V N}
      (hhanded : (parts.action process processId).handed cmd w = some pid)
      (hresult : run.result = some (.ok ())) (hself : run.self = parts.action (some pid) pid)
      (hnodes : before.nodes = w.nodes) (hout : before.handedOut = w.handedOut ++ [pid])
      (hsame : Framed.Same (parts.register pid before) run.world)

theorem tried : Tried parts process processId cmd w
    ((parts.action process processId).executeSingleAttempt (Framed.system sys).posix cmd w) := by
  have htried : ExecuteProcess.Tried (parts.action process processId) cmd w
      ((parts.action process processId).executeSingleAttempt (Framed.posix sys.posix) cmd w) :=
    frames.tried
  cases htried with
  | unhanded hhanded hself hsame => exact .unhanded hhanded hself hsame
  | handed hhanded hresult hself hexecutor hbefore hstarted hsame =>
      obtain ⟨inner, -, rfl⟩ := Option.map_eq_some_iff.mp hexecutor
      obtain ⟨hnodes, hout⟩ := executor_handedOut hstarted
      rw [hbefore.nodes] at hnodes
      rw [hbefore.handedOut] at hout
      exact .handed hhanded hresult hself hnodes hout ((limit_same _).trans hsame)

/-- In front of an attempt: as it began, or cleaned up. -/
inductive Prepared (parts : Parts V N) (process : Option ProcessId) (processId : ProcessId)
    (w : Watched V N) : ExecuteProcess (Watched V N) → Watched V N → Prop where
  | first : Prepared parts process processId w (parts.action process processId) w
  | cleaned {between w' : Watched V N} (hbetween : Framed.Same w between)
      (hsame : Framed.Same ((parts.action process processId).unregister between) w') :
      Prepared parts process processId w (parts.action none 0) w'

theorem Prepared.self_eq {self : ExecuteProcess (Watched V N)} {w' : Watched V N}
    (h : Prepared parts process processId w self w') :
    ∃ process', self = parts.action process' self.processId := by
  cases h with
  | first => exact ⟨process, rfl⟩
  | cleaned => exact ⟨none, rfl⟩

theorem prepared {self : ExecuteProcess (Watched V N)} {w' : Watched V N}
    (hat : ExecuteProcess.Attempted (parts.action process processId) (Framed.system sys).posix
      cmd w self w') : Prepared parts process processId w self w' := by
  induction hat with
  | first => exact .first
  | @again prev wprev e _ hfail ih =>
      -- a failed attempt was handed nothing, and changes no node
      have hfailed : ∀ {process' : Option ProcessId} {processId' : ProcessId},
          prev = parts.action process' processId' →
          ∃ process', (prev.executeSingleAttempt (Framed.system sys).posix cmd wprev).self
              = parts.action process' processId'
            ∧ Framed.Same wprev
              (prev.executeSingleAttempt (Framed.system sys).posix cmd wprev).world := by
        intro process' processId' hprev
        subst hprev
        have htried : Tried parts process' processId' cmd wprev
            ((parts.action process' processId').executeSingleAttempt
              (Framed.system sys).posix cmd wprev) := tried
        cases htried with
        | unhanded _ hself hsame =>
            obtain ⟨process'', hself⟩ := hself
            exact ⟨process'', hself, hsame⟩
        | handed _ hresult =>
            rw [hfail] at hresult
            cases hresult
      cases ih with
      | first =>
          obtain ⟨process', hself, hsame⟩ := hfailed rfl
          rw [ExecuteProcess.cleanupBeforeRetry_eq, hself]
          exact .cleaned (hsame.trans ExecuteProcess.endLeftover_same) (.refl _)
      | cleaned hbetween hprev =>
          obtain ⟨process', hself, hsame⟩ := hfailed rfl
          rw [ExecuteProcess.cleanupBeforeRetry_eq, hself]
          refine .cleaned hbetween ((hprev.trans hsame).trans ?_)
          -- there is no process id left to unregister
          have hnone : ∀ w, (parts.action process' 0).unregister w = w := by
            intro w
            rw [ExecuteProcess.unregister, action]
            cases parts.watchdog <;> rfl
          simp only [hnone]
          exact ExecuteProcess.endLeftover_same

/-- **What a run of `execute` does to the nodes**: perhaps a clean-up, then
    nothing or the registration of the pid an attempt was handed. -/
inductive Executed (parts : Parts V N) (sys : System V) (context : LaunchContext)
    (process : Option ProcessId) (processId : ProcessId) (w : Watched V N)
    (run : ExecuteProcess.Run (Watched V N)) : Prop where
  | idle {self : ExecuteProcess (Watched V N)} {w' : Watched V N}
      (hprepared : Prepared parts process processId w self w')
      (hself : ∃ process', run.self = parts.action process' self.processId)
      (hsame : Framed.Same w' run.world)
  | started {cmd : List Str} {self : ExecuteProcess (Watched V N)} {pid : ProcessId}
      {w' before : Watched V N}
      (hcmd : ExecuteProcess.validateAndEscapeCommand
        ((parts.action process processId).resolveCommand context) = .ok cmd)
      (hat : ExecuteProcess.Attempted (parts.action process processId)
        (Framed.system sys).posix cmd w self w')
      (hhanded : self.handed cmd w' = some pid) (hself : run.self = parts.action (some pid) pid)
      (hnodes : before.nodes = w'.nodes) (hout : before.handedOut = w'.handedOut ++ [pid])
      (hsame : Framed.Same (parts.register pid before) run.world)

theorem Executed.self_eq {context : LaunchContext} {run : ExecuteProcess.Run (Watched V N)}
    (h : Executed parts sys context process processId w run) :
    ∃ process', run.self = parts.action process' run.self.processId := by
  cases h with
  | @idle self w' _ hself _ =>
      obtain ⟨process', hself⟩ := hself
      have hid : run.self.processId = self.processId := by rw [hself]; rfl
      exact ⟨process', by rw [hid, hself]⟩
  | @started _ _ pid _ _ _ _ _ hself _ _ _ =>
      have hid : run.self.processId = pid := by rw [hself]; rfl
      exact ⟨some pid, by rw [hid, hself]⟩

theorem executed (fuel : Nat) (context : LaunchContext) :
    Executed parts sys context process processId w ((parts.action process processId).execute
      (Framed.system sys).posix fuel context w) := by
  cases hcmd : ExecuteProcess.validateAndEscapeCommand
      ((parts.action process processId).resolveCommand context) with
  | error e =>
      rw [ExecuteProcess.execute_of_error hcmd]
      exact .idle .first ⟨process, rfl⟩ (.refl w)
  | ok cmd =>
      have hends : ExecuteProcess.EndsAt (parts.action process processId)
          (Framed.system sys).posix cmd w ((parts.action process processId).execute
            (Framed.system sys).posix fuel context w) :=
        ExecuteProcess.execute_endsAt_of_ok hcmd
      cases hends with
      | before hat hresult =>
          have hprepared := prepared hat
          exact .idle hprepared hprepared.self_eq (.refl _)
      | @behind last wlast hat hself hworld hresult =>
          have hprepared := prepared hat
          obtain ⟨process', hlast⟩ := hprepared.self_eq
          have htried : Tried parts process' last.processId cmd wlast
              (last.executeSingleAttempt (Framed.system sys).posix cmd wlast) := by
            rw [hlast]
            exact tried
          cases htried with
          | unhanded _ hself' hsame =>
              rw [← hself] at hself'
              rw [← hworld] at hsame
              exact .idle hprepared hself' hsame
          | handed hhanded _ hself' hnodes hout hsame =>
              rw [← hlast] at hhanded
              exact .started hcmd hat hhanded (hself.trans hself') hnodes hout
                (hworld ▸ hsame)

end Parts

/-! ## A small system -/

/-- An executor that counts its pids up, on a system that does nothing else. -/
def countingExecutor : ProcessExecutor Nat where
  execute _ _ w := (.ok (w + 1), w + 1)
  wait _ _ w := w

def idleSystem : System Nat where
  posix := ExecuteProcess.idlePosix
  control :=
    { isRunning := fun _ w => (.ok true, w)
      terminate := fun _ _ w => (.ok (), w)
      kill := fun _ w => (.ok (), w)
      sendSignal := fun _ _ w => (.ok (), w) }
  signal _ _ w := w
  returnCode _ _ := 0
  startWatchdog w := w
  stopWatchdog w := w

end LaunchCpp
