import LaunchCpp.RetryAttempts
import Mathlib.Logic.Function.Basic

/-! # The resource limits of the launcher

    `PosixResourceMonitor::set_resource_limits` calls `setrlimit`, which changes
    the limits of the process that calls it.  Executor, watchdog and operating
    system are arbitrary functions of a world `V`; beside it stand the limits of
    the launcher.  `execute_own` says what an execution does to them:
    nothing, or what one call of `setrlimit` does, if an attempt is handed a
    process.  From it follows which executions leave them alone
    (`limitsKept_iff`). -/

namespace LaunchCpp

/-- `RLIMIT_AS`. -/
def rlimitAs : Nat := 9

/-- `RLIM_INFINITY`. -/
def rlimInfinity : Nat := 2 ^ 64 - 1

/-- `struct rlimit`. -/
structure Rlimit where
  rlimCur : Nat
  rlimMax : Nat
  deriving DecidableEq, Repr

/-- The limits of a process, and what has been set of them. -/
structure ResourceLimits where
  limits : Nat → Rlimit
  set : List (Nat × Rlimit) := []

namespace ResourceLimits

variable (privileged : Bool) (own : ResourceLimits)

/-- The limits `setrlimit` accepts: only a privileged process raises its hard
    limit. -/
def accepts (resource : Nat) (rlim : Rlimit) : Prop :=
  rlim.rlimCur ≤ rlim.rlimMax ∧
    (privileged = true ∨ rlim.rlimMax ≤ (own.limits resource).rlimMax)

instance (resource : Nat) (rlim : Rlimit) : Decidable (accepts privileged own resource rlim) :=
  inferInstanceAs (Decidable (_ ∧ _))

/-- `setrlimit`. -/
def setrlimit (resource : Nat) (rlim : Rlimit) : Bool × ResourceLimits :=
  if accepts privileged own resource rlim then
    (true,
      { limits := Function.update own.limits resource rlim
        set := own.set ++ [(resource, rlim)] })
  else (false, own)

/-- `set_resource_limits_internal`; neither the pid nor the percentage is
    used. -/
def setResourceLimitsInternal (_pid : ProcessId) (maxMemory : Nat) (_maxCpuPercent : Rat) :
    OsalResult Unit × ResourceLimits :=
  match setrlimit privileged own rlimitAs ⟨maxMemory, maxMemory⟩ with
  | (true, own) => (.ok (), own)
  | (false, own) => (.error "Failed to set memory limit".toList, own)

/-- What starting a process under these options does to the limits of the
    launcher. -/
def afterStart (options : ExecuteProcess.Options) : ResourceLimits :=
  if 0 < options.maxMemoryBytes ∨ 0 < options.maxCpuPercent then
    (setrlimit privileged own rlimitAs ⟨options.maxMemoryBytes, options.maxMemoryBytes⟩).2
  else own

theorem setResourceLimitsInternal_snd (pid : ProcessId) (maxMemory : Nat) (maxCpuPercent : Rat) :
    (setResourceLimitsInternal privileged own pid maxMemory maxCpuPercent).2
      = (setrlimit privileged own rlimitAs ⟨maxMemory, maxMemory⟩).2 := by
  rw [setResourceLimitsInternal]
  generalize setrlimit privileged own rlimitAs ⟨maxMemory, maxMemory⟩ = answer
  obtain ⟨_ | _, own'⟩ := answer
  · rfl
  · rfl

end ResourceLimits

/-- A world, and the limits of the launcher in it. -/
abbrev Launcher (V : Type*) := Framed V ResourceLimits

/-- `PosixResourceMonitor`; what the system has left is read off the world. -/
def Launcher.posixResourceMonitor {V : Type*} (available : Nat → V → OsalResult Bool × V)
    (privileged : Bool) : ResourceMonitor (Launcher V) where
  areResourcesAvailable memory := Framed.beside (available memory)
  setResourceLimits pid memory cpu w :=
    { w with own := (w.own.setResourceLimitsInternal privileged pid memory cpu).2 }

/-- What an action with safety on is made of. -/
structure LimitedParts (V : Type*) where
  options : ExecuteProcess.Options
  executor : Option (ProcessExecutor V)
  available : Nat → V → OsalResult Bool × V
  privileged : Bool
  watchdog : Option (Watchdog V)

namespace LimitedParts

variable {V : Type*} (parts : LimitedParts V)

/-- The action, with the process it remembers. -/
def action (process : Option ProcessId) (processId : ProcessId) :
    ExecuteProcess (Launcher V) where
  options := { parts.options with enableSafety := true }
  process := process
  processExecutor := parts.executor.map Framed.executor
  resourceMonitor := some (Launcher.posixResourceMonitor parts.available parts.privileged)
  watchdog := parts.watchdog.map Framed.watchdog
  processId := processId

variable {parts} {process : Option ProcessId} {processId : ProcessId} {w : Launcher V}

/-- Of an executor nothing reaches the limits. -/
theorem executor_same {executor : ProcessExecutor (Launcher V)} {command : CommandLine}
    {options : ProcessOptions} {answer : OsalResult ProcessId} {w' : Launcher V}
    (hexecutor : (parts.action process processId).processExecutor = some executor)
    (hanswer : executor.execute command options w = (answer, w')) : Framed.Same w w' := by
  obtain ⟨inner, -, rfl⟩ := Option.map_eq_some_iff.mp hexecutor
  have hworld : w' = (Framed.beside (inner.execute command options) w).2 :=
    (congrArg Prod.snd hanswer).symm
  rw [hworld]
  exact Framed.same_beside _ w

theorem frames : (parts.action process processId).Frames where
  asks := by
    intro monitor hmonitor memory w
    obtain rfl := Option.some.inj hmonitor
    exact Framed.same_beside _ w
  refuses executor hexecutor command options w message w' := executor_same hexecutor
  waits := by
    intro executor hexecutor pid timeout w
    obtain ⟨inner, -, rfl⟩ := Option.map_eq_some_iff.mp hexecutor
    exact Framed.same_change _ w

/-- Nor does a watchdog. -/
theorem register_same (pid : ProcessId) :
    Framed.Same w ((parts.action process processId).register pid w) := by
  rw [ExecuteProcess.register, action]
  cases parts.watchdog with
  | none => exact .refl w
  | some watchdog => exact Framed.same_ite (Framed.same_change _ _)

theorem unregister_same :
    Framed.Same w ((parts.action process processId).unregister w) := by
  rw [ExecuteProcess.unregister, action]
  cases parts.watchdog with
  | none => exact .refl w
  | some watchdog => exact Framed.same_ite (Framed.same_change _ _)

/-- The monitor does. -/
theorem limit_own (pid : ProcessId) : ((parts.action process processId).limit pid w).own
    = w.own.afterStart parts.privileged parts.options := by
  rw [ResourceLimits.afterStart, ExecuteProcess.limit, action]
  simp only
  split
  · exact ResourceLimits.setResourceLimitsInternal_snd _ _ _ _ _
  · rfl

end LimitedParts

/-! ## An execution -/

section Execution

open ExecuteProcess

variable {V : Type*} {parts : LimitedParts V} (posix : Posix V) (cmd : List Str)

/-- An attempt is handed a process. -/
def Handed {W : Type*} (cmd : List Str) (attempts : List (Attempt W)) : Prop :=
  ∃ a ∈ attempts, a.self.handed cmd a.world ≠ none

theorem handed_singleton {W : Type*} {cmd : List Str} {a : Attempt W} :
    Handed cmd [a] ↔ a.self.handed cmd a.world ≠ none := by
  constructor
  · rintro ⟨b, hb, hhanded⟩
    rw [List.mem_singleton.mp hb] at hhanded
    exact hhanded
  · intro hhanded
    exact ⟨a, List.mem_singleton.mpr rfl, hhanded⟩

theorem handed_cons {W : Type*} {cmd : List Str} {a : Attempt W} {rest : List (Attempt W)}
    (ha : a.self.handed cmd a.world = none) : Handed cmd (a :: rest) ↔ Handed cmd rest := by
  constructor
  · rintro ⟨b, hb, hhanded⟩
    rcases List.mem_cons.mp hb with rfl | hb
    · exact absurd ha hhanded
    · exact ⟨b, hb, hhanded⟩
  · rintro ⟨b, hb, hhanded⟩
    exact ⟨b, List.mem_cons_of_mem _ hb, hhanded⟩

/-- Some process is started, or none, and the limits are changed accordingly. -/
def OwnAfter (parts : LimitedParts V) (handed : Prop) (own own' : ResourceLimits) : Prop :=
  (handed ∧ own' = own.afterStart parts.privileged parts.options) ∨ (¬ handed ∧ own' = own)

theorem OwnAfter.congr {handed handed' : Prop} {own own' : ResourceLimits}
    (h : OwnAfter parts handed own own') (hiff : handed' ↔ handed) :
    OwnAfter parts handed' own own' := by
  rw [OwnAfter, hiff]
  exact h

variable {posix cmd}

/-- **What an attempt does to the limits**: nothing, unless it is handed a
    process. -/
theorem attempt_own (process : Option ProcessId) (processId : ProcessId) (w : Launcher V) :
    OwnAfter parts ((parts.action process processId).handed cmd w ≠ none) w.own
      ((parts.action process processId).executeSingleAttempt (Framed.posix posix) cmd
        w).world.own := by
  have htried : ExecuteProcess.Tried (parts.action process processId) cmd w
      ((parts.action process processId).executeSingleAttempt (Framed.posix posix) cmd w) :=
    LimitedParts.frames.tried
  cases htried with
  | unhanded hhanded _ hsame => exact Or.inr ⟨not_not_intro hhanded, hsame.own⟩
  | @handed executor pid before after hhanded _ _ hexecutor hbefore hstarted hsame =>
      refine Or.inl ⟨by rw [hhanded]; exact Option.some_ne_none pid, ?_⟩
      rw [hsame.own, LimitedParts.limit_own, (LimitedParts.register_same pid).own,
        (LimitedParts.executor_same hexecutor hstarted).own, hbefore.own]

theorem recordedLoop_own (fuel attempt : Nat) (process : Option ProcessId)
    (processId : ProcessId) (w : Launcher V) :
    OwnAfter parts
      (Handed cmd (recordedLoop (Framed.posix posix) cmd fuel attempt
        (parts.action process processId) w).1)
      w.own
      (recordedLoop (Framed.posix posix) cmd fuel attempt
        (parts.action process processId) w).2.world.own := by
  induction fuel generalizing attempt process processId w with
  | zero =>
      refine Or.inr ⟨?_, rfl⟩
      rintro ⟨a, ha, -⟩
      cases ha
  | succ fuel ih =>
      have hattempt : OwnAfter parts ((parts.action process processId).handed cmd w ≠ none) w.own
          ((parts.action process processId).executeSingleAttempt (Framed.posix posix) cmd
            w).world.own := attempt_own process processId w
      rw [recordedLoop]
      rcases executeSingleAttempt_cases (Framed.posix posix) (parts.action process processId)
        cmd w with ⟨⟨e, hresult⟩, hself, -⟩ | ⟨hresult, -⟩
      · simp only [hresult]
        by_cases hlimit : (parts.action process processId).options.maxRetries
            < (attempt + 1) % 2 ^ 32
        · rw [if_pos hlimit]
          exact hattempt.congr handed_singleton
        · rw [if_neg hlimit, if_neg (not_not_intro (executeSingleAttempt_retryable hresult))]
          -- the attempt has failed, so it was handed nothing
          have htried : ExecuteProcess.Tried (parts.action process processId) cmd w
              ((parts.action process processId).executeSingleAttempt (Framed.posix posix) cmd w) :=
            LimitedParts.frames.tried
          cases htried with
          | handed _ hok =>
              rw [hresult] at hok
              cases hok
          | unhanded hhanded _ hsame =>
              obtain ⟨w', hcleaned, hown'⟩ : ∃ w', ((parts.action process
                  processId).executeSingleAttempt (Framed.posix posix) cmd
                    w).self.cleanupBeforeRetry (Framed.posix posix)
                      ((parts.action process processId).executeSingleAttempt
                        (Framed.posix posix) cmd w).world = (parts.action none 0, w')
                    ∧ w'.own = w.own := by
                rw [hself, cleanupBeforeRetry_eq]
                exact ⟨_, rfl,
                  ((hsame.trans endLeftover_same).trans LimitedParts.unregister_same).own⟩
              simp only [hcleaned]
              rw [← hown']
              exact (ih _ none 0 w').congr (handed_cons hhanded)
      · simp only [hresult]
        exact hattempt.congr handed_singleton

/-- The attempts of `execute`, with the command they are made with. -/
def executeAttempts {W : Type*} (posix : Posix W) (fuel : Nat) (self : ExecuteProcess W)
    (context : LaunchContext) (w : W) : List Str × List (Attempt W) :=
  match validateAndEscapeCommand (self.resolveCommand context) with
  | .error _ => ([], [])
  | .ok cmd =>
      (cmd, if 0 < self.options.maxRetries then attempts posix cmd fuel 0 self w
        else [⟨0, self, w⟩])

/-- An execution is handed a process. -/
def ProcessHanded {W : Type*} (posix : Posix W) (fuel : Nat) (self : ExecuteProcess W)
    (context : LaunchContext) (w : W) : Prop :=
  Handed (executeAttempts posix fuel self context w).1
    (executeAttempts posix fuel self context w).2

/-- **What an execution does to the limits of the launcher.** -/
theorem execute_own (posix : Posix V) (fuel : Nat) (process : Option ProcessId)
    (processId : ProcessId) (context : LaunchContext) (w : Launcher V) :
    OwnAfter parts
      (ProcessHanded (Framed.posix posix) fuel (parts.action process processId) context w)
      w.own
      ((parts.action process processId).execute (Framed.posix posix) fuel context
        w).world.own := by
  rw [ProcessHanded, executeAttempts, execute]
  cases validateAndEscapeCommand ((parts.action process processId).resolveCommand context) with
  | error e =>
      refine Or.inr ⟨?_, rfl⟩
      rintro ⟨a, ha, -⟩
      cases ha
  | ok cmd =>
      simp only
      by_cases hretries : 0 < (parts.action process processId).options.maxRetries
      · rw [if_pos hretries, if_pos hretries, ← recordedLoop_run]
        exact recordedLoop_own fuel 0 process processId w
      · rw [if_neg hretries, if_neg hretries]
        exact (attempt_own process processId w).congr handed_singleton

end Execution

/-! ## A sequence of executions -/

/-- A call of `execute` on some action, in the state it is in. -/
structure LimitedCall (V : Type*) where
  parts : LimitedParts V
  process : Option ProcessId
  processId : ProcessId
  context : LaunchContext
  fuel : Nat

namespace LimitedCall

open ExecuteProcess

variable {V : Type*} (posix : Posix V)

def action (call : LimitedCall V) : ExecuteProcess (Launcher V) :=
  call.parts.action call.process call.processId

/-- The launcher after the call. -/
def after (call : LimitedCall V) (w : Launcher V) : Launcher V :=
  (call.action.execute (Framed.posix posix) call.fuel call.context w).world

/-- The launcher after a sequence of calls. -/
def afterAll (calls : List (LimitedCall V)) (w : Launcher V) : Launcher V :=
  calls.foldl (fun w call => call.after posix w) w

/-- What holds of every call of a sequence, in the state it is made in. -/
def Along (P : LimitedCall V → Launcher V → Prop) : List (LimitedCall V) → Launcher V → Prop
  | [], _ => True
  | call :: calls, w => P call w ∧ Along P calls (call.after posix w)

/-- The launcher has the limits it had, and none was set where the memory is
    unlimited. -/
def KeepsLimits (call : LimitedCall V) (w : Launcher V) : Prop :=
  (call.after posix w).own.limits = w.own.limits
    ∧ (call.parts.options.maxMemoryBytes = 0 →
      ∃ news, (call.after posix w).own.set = w.own.set ++ news
        ∧ ∀ new ∈ news, new.2.rlimCur = rlimInfinity)

/-- No limit is wanted, or no process is started, or the limit is rejected, or
    the launcher has it already. -/
def SparesLimits (call : LimitedCall V) (w : Launcher V) : Prop :=
  (call.parts.options.maxMemoryBytes = 0 ∧ call.parts.options.maxCpuPercent ≤ 0)
    ∨ ¬ ProcessHanded (Framed.posix posix) call.fuel call.action call.context w
    ∨ ¬ w.own.accepts call.parts.privileged rlimitAs
        ⟨call.parts.options.maxMemoryBytes, call.parts.options.maxMemoryBytes⟩
    ∨ (call.parts.options.maxMemoryBytes ≠ 0
      ∧ w.own.limits rlimitAs
        = ⟨call.parts.options.maxMemoryBytes, call.parts.options.maxMemoryBytes⟩)

variable {posix} {call : LimitedCall V} {w : Launcher V}

theorem keepsLimits_of_eq (h : (call.after posix w).own = w.own) : KeepsLimits posix call w := by
  rw [KeepsLimits, h]
  exact ⟨rfl, fun _ => ⟨[], (List.append_nil _).symm, List.forall_mem_nil _⟩⟩

/-- Setting a limit on the memory is harmless if it is there already, and not
    meant to be no limit. -/
theorem keepsLimits_iff_of_set (hown : (call.after posix w).own
    = { limits := Function.update w.own.limits rlimitAs
          ⟨call.parts.options.maxMemoryBytes, call.parts.options.maxMemoryBytes⟩
        set := w.own.set ++ [(rlimitAs,
          ⟨call.parts.options.maxMemoryBytes, call.parts.options.maxMemoryBytes⟩)] }) :
    KeepsLimits posix call w ↔ call.parts.options.maxMemoryBytes ≠ 0
      ∧ w.own.limits rlimitAs
        = ⟨call.parts.options.maxMemoryBytes, call.parts.options.maxMemoryBytes⟩ := by
  rw [KeepsLimits, hown]
  constructor
  · rintro ⟨hlimits, hset⟩
    have hthere : Function.update w.own.limits rlimitAs
        ⟨call.parts.options.maxMemoryBytes, call.parts.options.maxMemoryBytes⟩ rlimitAs
          = w.own.limits rlimitAs := congrFun hlimits rlimitAs
    rw [Function.update_self] at hthere
    refine ⟨?_, hthere.symm⟩
    intro hzero
    obtain ⟨news, hnews, hall⟩ := hset hzero
    rw [List.append_cancel_left_eq] at hnews
    have hcur := hall _ (hnews ▸ List.mem_singleton.mpr rfl)
    rw [hzero] at hcur
    exact absurd hcur (by decide)
  · rintro ⟨hne, hlimit⟩
    exact ⟨Function.update_eq_self_iff.mpr hlimit.symm, fun hzero => absurd hzero hne⟩

theorem keepsLimits_iff : KeepsLimits posix call w ↔ SparesLimits posix call w := by
  have hafter : OwnAfter call.parts
      (ProcessHanded (Framed.posix posix) call.fuel call.action call.context w) w.own
      (call.after posix w).own := execute_own posix call.fuel call.process call.processId
        call.context w
  rw [SparesLimits]
  rcases hafter with ⟨hhanded, hown⟩ | ⟨hhanded, hown⟩
  · rw [ResourceLimits.afterStart] at hown
    by_cases hwanted : 0 < call.parts.options.maxMemoryBytes
        ∨ 0 < call.parts.options.maxCpuPercent
    · have hnot : ¬ (call.parts.options.maxMemoryBytes = 0
          ∧ call.parts.options.maxCpuPercent ≤ 0) := by
        rintro ⟨hzero, hcpu⟩
        rcases hwanted with hmemory | hpercent
        · omega
        · exact absurd hpercent (not_lt.mpr hcpu)
      rw [if_pos hwanted, ResourceLimits.setrlimit] at hown
      by_cases haccepts : w.own.accepts call.parts.privileged rlimitAs
          ⟨call.parts.options.maxMemoryBytes, call.parts.options.maxMemoryBytes⟩
      · rw [if_pos haccepts] at hown
        rw [keepsLimits_iff_of_set hown]
        simp only [hnot, hhanded, haccepts, not_true_eq_false, false_or]
      · rw [if_neg haccepts] at hown
        exact ⟨fun _ => Or.inr (Or.inr (Or.inl haccepts)), fun _ => keepsLimits_of_eq hown⟩
    · rw [if_neg hwanted] at hown
      have hzero : call.parts.options.maxMemoryBytes = 0 :=
        Nat.eq_zero_of_not_pos (fun h => hwanted (Or.inl h))
      have hcpu : call.parts.options.maxCpuPercent ≤ 0 :=
        not_lt.mp (fun h => hwanted (Or.inr h))
      exact ⟨fun _ => Or.inl ⟨hzero, hcpu⟩, fun _ => keepsLimits_of_eq hown⟩
  · exact ⟨fun _ => Or.inr (Or.inl hhanded), fun _ => keepsLimits_of_eq hown⟩

/-- **When the launcher keeps its limits** through a sequence of executions:
    exactly if every one of them spares them. -/
theorem limitsKept_iff (posix : Posix V) (calls : List (LimitedCall V)) (w : Launcher V) :
    (Along posix (KeepsLimits posix) calls w
        ∧ (afterAll posix calls w).own.limits = w.own.limits)
      ↔ Along posix (SparesLimits posix) calls w := by
  induction calls generalizing w with
  | nil => exact ⟨fun _ => trivial, fun _ => ⟨trivial, rfl⟩⟩
  | cons call calls ih =>
      constructor
      · rintro ⟨⟨hkeeps, hrest⟩, hlimits⟩
        refine ⟨keepsLimits_iff.mp hkeeps, (ih _).mp ⟨hrest, ?_⟩⟩
        rw [hkeeps.1]
        exact hlimits
      · rintro ⟨hspares, hrest⟩
        have hkeeps := keepsLimits_iff.mpr hspares
        obtain ⟨halong, hlimits⟩ := (ih _).mpr hrest
        exact ⟨⟨hkeeps, halong⟩, hlimits.trans hkeeps.1⟩

/-- An action whose process may use half a processor. -/
def halfProcessor : LimitedCall Unit where
  parts :=
    { options := { cmd := [some (textSubstitution "ls".toList)], maxCpuPercent := 50 }
      executor := some ⟨fun _ _ w => (.ok 1, w), fun _ _ w => w⟩
      available := fun _ w => (.ok true, w)
      privileged := false
      watchdog := none }
  process := none
  processId := 0
  context := LaunchContext.empty
  fuel := 0

/-- A launcher without limits. -/
def unlimited : Launcher Unit := ⟨(), { limits := fun _ => ⟨rlimInfinity, rlimInfinity⟩ }⟩

/-- Starting it takes all memory away from the launcher. -/
theorem halfProcessor_takes_memory :
    (halfProcessor.after refusingPosix unlimited).own.limits rlimitAs = ⟨0, 0⟩
    ∧ ¬ (Along refusingPosix (KeepsLimits refusingPosix) [halfProcessor] unlimited
      ∧ (afterAll refusingPosix [halfProcessor] unlimited).own.limits
        = unlimited.own.limits) := by
  have htaken : (halfProcessor.after refusingPosix unlimited).own.limits rlimitAs = ⟨0, 0⟩ := rfl
  refine ⟨htaken, ?_⟩
  rintro ⟨-, hlimits⟩
  have hthere : (⟨0, 0⟩ : Rlimit) = ⟨rlimInfinity, rlimInfinity⟩ :=
    htaken.symm.trans (congrFun hlimits rlimitAs)
  exact absurd hthere (by decide)

end LimitedCall

end LaunchCpp
