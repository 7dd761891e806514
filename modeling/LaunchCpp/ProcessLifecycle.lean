import LaunchCpp.PosixProcesses
import LaunchCpp.Library.TransitionSystem

/-! # Exit, reaping and the remembered pid

    A `waitpid` that reaps the child is hidden in many places: in waiting for
    screen output, in `is_running` without safety, in `terminate` and `kill`
    with it.  The pid stays in `process_` and `process_id_` afterwards.  Most
    calls signal it without asking; asking first does not help either, once
    the system has given it to another child of the launcher.  What an
    `execute` launches is said here once for all; the main result is which
    calls signal a pid that has been reaped (`signals_spare_iff`). -/

namespace LaunchCpp

open TransitionSystems

/-! ## The children between two system calls -/

namespace World

variable {w : World} {pid : ProcessId} {signal : Int}

/-- A child that exits becomes a zombie: what does not tell the two apart
    stays. -/
theorem of_exit {α : Type} {f : ChildState → α} (hf : ∀ status, f (.zombie status) = f .running)
    (m : Moment) (pid : ProcessId) (child : ChildState) : f (exit m pid child) = f child := by
  cases child with
  | running =>
      rw [exit]
      cases m.exits pid with
      | none => rfl
      | some status => exact hf status
  | noChild => rfl
  | zombie status => rfl
  | reaped status => rfl

/-- Nothing is reaped but by a system call. -/
@[simp] theorem isReaped_tick :
    (w.tick.children pid).isReaped = (w.children pid).isReaped :=
  of_exit (fun _ => rfl) w.moment pid (w.children pid)

/-- A zombie has its pid like a running child. -/
@[simp] theorem holdsPid_tick :
    (w.tick.children pid).holdsPid = (w.children pid).holdsPid :=
  of_exit (fun _ => rfl) w.moment pid (w.children pid)

/-- **What a poll does**: reap a child that has exited. -/
theorem waitNoHang_world : (w.waitNoHang pid).2 = w.tick
    ∨ ∃ status, w.tick.children pid = .zombie status
      ∧ (w.waitNoHang pid).2 = w.tick.setChild pid (.reaped status) := by
  rw [waitNoHang]
  cases w.tick.children pid with
  | running => exact Or.inl rfl
  | zombie status => exact Or.inr ⟨status, rfl, rfl⟩
  | noChild => cases w.moment.stranger <;> exact Or.inl rfl
  | reaped status => cases w.moment.stranger <;> exact Or.inl rfl

/-- **What waiting does**: reap the child, if there is one. -/
theorem waitpid_world : (w.waitpid pid).2 = w.tick
    ∨ ∃ status, (w.waitpid pid).2 = w.tick.setChild pid (.reaped status) := by
  rw [waitpid]
  cases w.tick.children pid with
  | running => exact Or.inr ⟨_, rfl⟩
  | zombie status => exact Or.inr ⟨status, rfl⟩
  | noChild => cases w.moment.stranger <;> exact Or.inl rfl
  | reaped status => cases w.moment.stranger <;> exact Or.inl rfl

/-- A poll signals nobody. -/
@[simp] theorem waitNoHang_sent : (w.waitNoHang pid).2.sent = w.sent := by
  rcases waitNoHang_world with h | ⟨_, _, h⟩ <;> rw [h] <;> rfl

/-- Waiting signals nobody. -/
@[simp] theorem waitpid_sent : (w.waitpid pid).2.sent = w.sent := by
  rcases waitpid_world with h | ⟨_, h⟩ <;> rw [h] <;> rfl

/-- Waiting does not touch the status a poll has stored. -/
@[simp] theorem waitpid_returnCode : (w.waitpid pid).2.returnCode = w.returnCode := by
  rcases waitpid_world with h | ⟨_, h⟩ <;> rw [h] <;> rfl

/-- Waiting forks nothing. -/
@[simp] theorem waitpid_forked : (w.waitpid pid).2.forked = w.forked := by
  rcases waitpid_world with h | ⟨_, h⟩ <;> rw [h] <;> rfl

/-- The child `fork` has just made. -/
structure Forked (w : World) (pid : ProcessId) : Prop where
  pos : 0 < pid
  running : w.children pid = .running
  last : w.forked = some pid
  returnCode : w.returnCode pid = -1

/-- `fork` makes a child. -/
def forks (w : World) : Bool :=
  match w.moment.forked with
  | .ok pid => 0 < pid && !(w.children pid).holdsPid
  | .error _ => false

/-- **What `fork` does**: make a child, or nothing. -/
inductive ForkedTo (w : World) : Except Errno ProcessId × World → Prop where
  | child {pid : ProcessId} {w' : World} (hforks : w.forks = true) (hsent : w'.sent = w.sent)
      (hchild : w'.Forked pid) : ForkedTo w (.ok pid, w')
  | refused {errno : Errno} (hforks : w.forks = false) : ForkedTo w (.error errno, w.tick)

/-- What `fork` does, of all that the actions look at. -/
theorem fork_to : ForkedTo w w.fork := by
  rw [fork]
  cases hm : w.moment.forked with
  | error errno => exact .refused (by simp [forks, hm])
  | ok pid =>
      by_cases hfree : 0 < pid ∧ (w.tick.children pid).holdsPid = false
      · have hforks : w.forks = true := by
          rw [holdsPid_tick] at hfree
          simp [forks, hm, hfree]
        simp only [if_pos hfree]
        exact .child hforks rfl
          ⟨hfree.1, Function.update_self pid _ _, rfl, Function.update_self pid _ _⟩
      · have hforks : w.forks = false := by
          rw [holdsPid_tick] at hfree
          by_contra hforks
          simp only [forks, hm, Bool.not_eq_false, Bool.and_eq_true, decide_eq_true_eq,
            Bool.not_eq_true'] at hforks
          exact hfree hforks
        simp only [if_neg hfree]
        exact .refused hforks

/-- Waiting for a child that holds its pid reaps it. -/
theorem waitpid_reaps (h : (w.children pid).holdsPid = true) :
    ∃ status, (w.waitpid pid).1 = some status
      ∧ (w.waitpid pid).2.children pid = .reaped status := by
  rw [← holdsPid_tick] at h
  rw [waitpid]
  cases hc : w.tick.children pid with
  | running => exact ⟨_, rfl, Function.update_self pid _ _⟩
  | zombie status => exact ⟨_, rfl, Function.update_self pid _ _⟩
  | noChild => simp [hc, ChildState.holdsPid] at h
  | reaped status => simp [hc, ChildState.holdsPid] at h

@[simp] theorem waitNoHang_forked : (w.waitNoHang pid).2.forked = w.forked := by
  rcases waitNoHang_world with h | ⟨_, _, h⟩ <;> rw [h] <;> rfl

@[simp] theorem waitNoHang_returnCode :
    (w.waitNoHang pid).2.returnCode = w.returnCode := by
  rcases waitNoHang_world with h | ⟨_, _, h⟩ <;> rw [h] <;> rfl

/-- The pid is free, and another running child of the launcher has got it. -/
def ChildTaken (w : World) (pid : ProcessId) : Prop :=
  (w.children pid).holdsPid = false ∧ w.moment.stranger = .runningChild

/-- A poll cannot tell the child from another one with the same pid. -/
theorem waitNoHang_eq_zero_iff (hpid : pid ≠ 0) :
    (w.waitNoHang pid).1 = 0 ↔ w.tick.children pid = .running ∨ w.ChildTaken pid := by
  rw [ChildTaken, ← holdsPid_tick, waitNoHang]
  cases w.tick.children pid with
  | running => exact iff_of_true rfl (Or.inl rfl)
  | zombie status => exact iff_of_false hpid (by simp [ChildState.holdsPid])
  | noChild => cases hs : w.moment.stranger <;> simp [ChildState.holdsPid, hpid]
  | reaped status => cases hs : w.moment.stranger <;> simp [ChildState.holdsPid, hpid]

/-- A poll that says so leaves everything as it is. -/
theorem waitNoHang_of_zero (hpid : pid ≠ 0) (h : (w.waitNoHang pid).1 = 0) :
    (w.waitNoHang pid).2 = w.tick := by
  rcases waitNoHang_world with hworld | ⟨status, hzombie, -⟩
  · exact hworld
  · rcases (waitNoHang_eq_zero_iff hpid).mp h with hrunning | ⟨hfree, -⟩
    · rw [hzombie] at hrunning
      cases hrunning
    · rw [← holdsPid_tick, hzombie] at hfree
      cases hfree

/-! ### Some system calls later -/

/-- Each tick takes one moment of the script. -/
@[simp] theorem now_ticks (w : World) (n : Nat) : (tick^[n] w).now = w.now + n := by
  induction n with
  | zero => rfl
  | succ n ih =>
      rw [Function.iterate_succ_apply']
      show (tick^[n] w).now + 1 = _
      rw [ih, Nat.add_assoc]

@[simp] theorem script_ticks (w : World) (n : Nat) : (tick^[n] w).script = w.script := by
  induction n with
  | zero => rfl
  | succ n ih => rw [Function.iterate_succ_apply']; exact ih

@[simp] theorem sent_ticks (w : World) (n : Nat) : (tick^[n] w).sent = w.sent := by
  induction n with
  | zero => rfl
  | succ n ih => rw [Function.iterate_succ_apply']; exact ih

/-- Time passes over no reaped child and reaps none. -/
@[simp] theorem isReaped_ticks (w : World) (n : Nat) :
    ((tick^[n] w).children pid).isReaped = (w.children pid).isReaped := by
  induction n with
  | zero => rfl
  | succ n ih =>
      rw [Function.iterate_succ_apply', isReaped_tick]
      exact ih

/-! ## Signals -/

/-- No signal was sent to a pid that had been reaped. -/
def SparesReaped (w : World) : Prop := ∀ e ∈ w.sent, e.target.isReaped = false

/-- Only the record of signals counts. -/
theorem sparesReaped_congr {w' : World} (h : w'.sent = w.sent) :
    w'.SparesReaped ↔ w.SparesReaped := by
  rw [SparesReaped, SparesReaped, h]

/-- **A signal is harmless** if it is none, or if its pid has not been
    reaped. -/
theorem sparesReaped_kill : (w.kill pid signal).2.SparesReaped
    ↔ w.SparesReaped ∧ (isSignal signal = true → (w.children pid).isReaped = false) := by
  cases hsignal : isSignal signal with
  | false => simp [SparesReaped, kill, hsignal]
  | true =>
      simp only [SparesReaped, kill, hsignal, if_true, List.forall_mem_append,
        List.forall_mem_singleton, isReaped_tick, true_implies]

/-- Asking first misleads about a pid that has been reaped, once another
    running child of the launcher has been given it. -/
def Misleads (w : World) (pid : ProcessId) (n : Nat) : Prop :=
  (w.children pid).isReaped = true ∧ (w.script n).stranger = .runningChild

end World

namespace PosixProcessExecutor

variable {w : World} {pid : ProcessId}

/-- A loop of polls ends with a poll; those before it reaped nothing, and if
    the time is up, nor did the last one. -/
theorem poll_end (pid : ProcessId) (polls : Nat) (w : World) :
    ∃ w' : World, w'.sent = w.sent ∧ (w'.children pid).isReaped = (w.children pid).isReaped
      ∧ (poll pid polls w).2 = (w'.waitNoHang pid).2
      ∧ ((poll pid polls w).1 = .timedOut → (w'.waitNoHang pid).1 = 0) := by
  induction polls generalizing w with
  | zero =>
      refine ⟨w, rfl, rfl, ?_⟩
      rw [poll]
      simp only
      split
      · exact ⟨rfl, fun h => by cases h⟩
      · split
        next hzero => exact ⟨rfl, fun _ => hzero⟩
        next => exact ⟨rfl, fun h => by cases h⟩
  | succ polls ih =>
      rw [poll]
      simp only
      split
      · exact ⟨w, rfl, rfl, rfl, fun h => by cases h⟩
      · next hother =>
          split
          · next hzero =>
              have hpid : pid ≠ 0 := fun h => hother (hzero.trans h.symm)
              have hsame := World.waitNoHang_of_zero hpid hzero
              obtain ⟨w', hsent, hreaped, hend⟩ := ih (w.waitNoHang pid).2
              refine ⟨w', hsent.trans World.waitNoHang_sent, ?_, hend⟩
              rw [hreaped, hsame, World.isReaped_tick]
          · exact ⟨w, rfl, rfl, rfl, fun h => by cases h⟩

/-- Polling signals nobody. -/
@[simp] theorem poll_sent (polls : Nat) : (poll pid polls w).2.sent = w.sent := by
  obtain ⟨w', hsent, -, hend, -⟩ := poll_end pid polls w
  rw [hend, World.waitNoHang_sent, hsent]

/-- A child that outlasts the polls has not been reaped by them. -/
theorem poll_timedOut (hpid : pid ≠ 0) {polls : Nat} (h : (poll pid polls w).1 = .timedOut) :
    ((poll pid polls w).2.children pid).isReaped = (w.children pid).isReaped := by
  obtain ⟨w', -, hreaped, hend, hzero⟩ := poll_end pid polls w
  rw [hend, World.waitNoHang_of_zero hpid (hzero h), World.isReaped_tick, hreaped]

/-- `kill_internal` signals its pid whatever has become of it. -/
theorem sparesReaped_kill : (kill pid w).2.SparesReaped
    ↔ w.SparesReaped ∧ (w.children pid).isReaped = false := by
  have hsent : (kill pid w).2.sent = (w.kill pid sigKill).2.sent := by
    rw [kill]
    rcases w.kill pid sigKill with ⟨_ | errno, w'⟩
    · exact World.waitpid_sent
    · cases errno <;> rfl
  rw [World.sparesReaped_congr hsent, World.sparesReaped_kill]
  exact and_congr_right (fun _ => imp_iff_right (by decide))

/-- The `SIGKILL` that follows a timeout is no further danger: nothing was
    reaped since the `SIGTERM`. -/
theorem sparesReaped_terminate (hpid : pid ≠ 0) (timeout : Int) :
    (terminate pid timeout w).2.SparesReaped
      ↔ w.SparesReaped ∧ (w.children pid).isReaped = false := by
  have hfirst : (w.kill pid sigTerm).2.SparesReaped
      ↔ w.SparesReaped ∧ (w.children pid).isReaped = false := by
    rw [World.sparesReaped_kill]
    exact and_congr_right (fun _ => imp_iff_right (by decide))
  have hkept : ((w.kill pid sigTerm).2.children pid).isReaped = (w.children pid).isReaped :=
    World.isReaped_tick
  rw [← hfirst, terminate]
  rcases hkill : w.kill pid sigTerm with ⟨_ | errno, w'⟩
  · rw [hkill] at hfirst hkept
    simp only
    have hsent : (poll pid w'.moment.polls w').2.sent = w'.sent := poll_sent _
    have hlate : (poll pid w'.moment.polls w').1 = .timedOut →
        ((poll pid w'.moment.polls w').2.children pid).isReaped = (w'.children pid).isReaped :=
      poll_timedOut hpid
    generalize poll pid w'.moment.polls w' = polled at hsent hlate ⊢
    rcases polled with ⟨_ | _ | _, w''⟩
    · exact World.sparesReaped_congr hsent
    · have hsame : (w''.children pid).isReaped = (w.children pid).isReaped :=
        (hlate rfl).trans hkept
      rw [World.sparesReaped_congr World.waitpid_sent, World.sparesReaped_kill, hsame,
        World.sparesReaped_congr hsent]
      exact and_iff_left_of_imp (fun hspares _ => (hfirst.mp hspares).2)
    · exact World.sparesReaped_congr hsent
  · cases errno <;> rfl

/-- `send_signal_internal` does so too, if the number is that of a signal. -/
theorem sparesReaped_sendSignal {signal : Int} : (sendSignal pid signal w).2.SparesReaped
    ↔ w.SparesReaped ∧ (isSignal signal = true → (w.children pid).isReaped = false) := by
  rw [← World.sparesReaped_kill, sendSignal]
  rcases w.kill pid signal with ⟨_ | errno, w'⟩
  · rfl
  · rfl

/-- `is_running_internal` probes with signal 0, which is not sent. -/
theorem isRunning_sent : (isRunning pid w).2.sent = w.sent := by
  have hkill : (w.kill pid 0).2.sent = w.sent := rfl
  rw [← hkill, isRunning]
  rcases w.kill pid 0 with ⟨_ | errno, w'⟩
  · rfl
  · cases errno <;> rfl

/-- The executor forks, if the command names a program. -/
theorem execute_eq {command : CommandLine} (hprogram : command.program ≠ [])
    (options : ProcessOptions) : execute command options w
      = match w.fork with
        | (.error errno, w) => (.error ("Fork failed: ".toList ++ strerror errno), w)
        | (.ok pid, w) => (.ok pid, w) := by
  rw [execute]
  exact if_neg hprogram

/-- Waiting in the executor signals nobody. -/
theorem wait_sent {timeout : Int} : (wait pid timeout w).sent = w.sent := by
  rw [wait]
  split
  · exact poll_sent _
  · exact World.waitpid_sent

end PosixProcessExecutor

namespace Process

variable {w : World} {pid : ProcessId}

/-- Nor does `Process::wait`. -/
theorem wait_sent : (wait pid w).sent = w.sent := by
  have hwait : (w.waitpid pid).2.sent = w.sent := World.waitpid_sent
  rw [wait]
  generalize w.waitpid pid = waited at hwait ⊢
  rcases waited with ⟨_ | _ | _, w'⟩
  · exact hwait
  · exact hwait
  · exact hwait

/-- Nor does `Process::is_running`. -/
theorem isRunning_sent : (isRunning pid w).2.sent = w.sent := World.waitNoHang_sent

/-- **Asking first** makes a signal safe, unless the answer is about another
    child. -/
theorem sparesReaped_asked {w' : World} {signal : Int} (hpid : pid ≠ 0)
    (hsignal : isSignal signal = true)
    (hasked : w' = if (isRunning pid w).1 then ((isRunning pid w).2.kill pid signal).2
      else (isRunning pid w).2) :
    w'.SparesReaped ↔ w.SparesReaped ∧ ¬ w.Misleads pid w.now := by
  have hanswer : (isRunning pid w).1 = true ↔ (w.waitNoHang pid).1 = 0 := by
    simp [isRunning]
  rw [World.waitNoHang_eq_zero_iff hpid] at hanswer
  rw [hasked]
  cases hrunning : (isRunning pid w).1 with
  | true =>
      have hsame : (isRunning pid w).2 = w.tick :=
        World.waitNoHang_of_zero hpid (by simpa [isRunning] using hrunning)
      rw [if_pos rfl, World.sparesReaped_kill, imp_iff_right hsignal,
        World.sparesReaped_congr isRunning_sent, hsame, World.isReaped_tick, World.Misleads]
      refine and_congr_right (fun _ => ⟨fun hnot hmisleads => ?_, fun hnot => ?_⟩)
      · rw [hnot] at hmisleads
        cases hmisleads.1
      · by_contra hreaped
        rw [Bool.not_eq_false] at hreaped
        rcases hanswer.mp hrunning with hchild | htaken
        · rw [← World.isReaped_tick, hchild] at hreaped
          cases hreaped
        · exact hnot ⟨hreaped, htaken.2⟩
  | false =>
      have hnot : ¬ w.Misleads pid w.now := by
        rintro ⟨hreaped, hstranger⟩
        have hfree : (w.children pid).holdsPid = false := by
          cases hchild : w.children pid with
          | reaped status => rfl
          | _ => simp [hchild, ChildState.isReaped] at hreaped
        rw [hanswer.mpr (Or.inr ⟨hfree, hstranger⟩)] at hrunning
        cases hrunning
      rw [if_neg Bool.false_ne_true, World.sparesReaped_congr isRunning_sent]
      exact (and_iff_left hnot).symm

end Process

/-! ## `execute` on this system -/

/-- An action of these options, as the constructor leaves it but for the
    process it has started. -/
def actionWith (options : ExecuteProcess.Options) (process : Option ProcessId) :
    ExecuteProcess World where
  options := options
  process := process
  processExecutor := if options.enableSafety then some posixProcessExecutor else none
  resourceMonitor := if options.enableSafety then some posixResourceMonitor else none
  watchdog := if options.enableSafety then some untouchedWatchdog else none
  processId := if options.enableSafety then process.getD 0 else 0

@[simp] theorem actionWith_process (options : ExecuteProcess.Options)
    (process : Option ProcessId) : (actionWith options process).process = process := rfl

/-- What a successful attempt leaves behind: the last child, which with output
    to the screen has been waited for. -/
structure Launched (options : ExecuteProcess.Options) (pid : ProcessId) (w : World) :
    Prop where
  pos : 0 < pid
  last : w.forked = some pid
  started : options.output ≠ "screen".toList →
    w.children pid = .running ∧ w.returnCode pid = -1
  waited : options.output = "screen".toList → ∃ status, w.children pid = .reaped status
    ∧ (options.enableSafety = true → w.returnCode pid = -1)
    ∧ (options.enableSafety = false →
        ∀ code : UInt8, status = .exited code → w.returnCode pid = code.toNat)

variable {options : ExecuteProcess.Options} {w : World} {pid : ProcessId}

/-- A session starts with an action that remembers nothing. -/
theorem Session.start_eq (options : ExecuteProcess.Options) (script : Nat → Moment) :
    Session.start options script = ⟨actionWith options none, { script }⟩ := by
  rw [start, ExecuteProcess.construct, actionWith]
  cases options.enableSafety with
  | true => simp [posixSystem]
  | false => rfl

/-- On the safety path the executor waits, and the status is dropped. -/
theorem World.Forked.launched_safety (h : w.Forked pid) (hsafety : options.enableSafety = true)
    (process : Option ProcessId) :
    Launched options pid ((actionWith options process).afterStart posixProcessExecutor pid w)
    ∧ ((actionWith options process).afterStart posixProcessExecutor pid w).sent = w.sent := by
  have hafter : (actionWith options process).afterStart posixProcessExecutor pid w
      = if options.output = "screen".toList then (w.waitpid pid).2 else w := by
    have hendless : ¬ (0 : Int) < -1 := by decide
    simp only [ExecuteProcess.afterStart, actionWith, hsafety, if_true, untouchedWatchdog,
      posixResourceMonitor, posixProcessExecutor, PosixProcessExecutor.wait, if_neg hendless,
      ite_self]
  rw [hafter]
  by_cases hscreen : options.output = "screen".toList
  · rw [if_pos hscreen]
    obtain ⟨status, -, hreaped⟩ := World.waitpid_reaps
      (show (w.children pid).holdsPid = true by rw [h.running]; rfl)
    refine ⟨⟨h.pos, ?_, fun hne => absurd hscreen hne, fun _ => ⟨status, hreaped, ?_, ?_⟩⟩, ?_⟩
    · rw [World.waitpid_forked]
      exact h.last
    · intro _
      rw [World.waitpid_returnCode]
      exact h.returnCode
    · intro hoff
      rw [hsafety] at hoff
      cases hoff
    · exact World.waitpid_sent
  · rw [if_neg hscreen]
    exact ⟨⟨h.pos, h.last, fun _ => ⟨h.running, h.returnCode⟩, fun heq => absurd heq hscreen⟩, rfl⟩

/-- `Process::wait` keeps the exit code. -/
theorem World.Forked.launched_fork (h : w.Forked pid) (hsafety : options.enableSafety = false) :
    Launched options pid
      (if options.output = "screen".toList then Process.wait pid w else w) := by
  by_cases hscreen : options.output = "screen".toList
  · rw [if_pos hscreen]
    obtain ⟨status, hstatus, hreaped⟩ := World.waitpid_reaps
      (show (w.children pid).holdsPid = true by rw [h.running]; rfl)
    have hlast : (w.waitpid pid).2.forked = some pid := by
      rw [World.waitpid_forked]
      exact h.last
    rw [Process.wait]
    generalize w.waitpid pid = waited at hstatus hreaped hlast ⊢
    obtain ⟨result, w'⟩ := waited
    cases hstatus
    refine ⟨h.pos, ?_, fun hne => absurd hscreen hne, fun _ => ⟨status, ?_, ?_, ?_⟩⟩
    · cases status <;> exact hlast
    · cases status <;> exact hreaped
    · intro hon
      rw [hsafety] at hon
      cases hon
    · rintro - code rfl
      exact Function.update_self pid _ _
  · rw [if_neg hscreen]
    exact ⟨h.pos, h.last, fun _ => ⟨h.running, h.returnCode⟩, fun heq => absurd heq hscreen⟩

/-- The system calls of an attempt that starts nothing. -/
def World.failsAfter (safety : Bool) (w : World) : Option Nat :=
  if safety then
    match w.moment.resources with
    | .ok true => if w.tick.forks then none else some 2
    | _ => some 1
  else if w.forks then none else some 1

/-- **What an attempt can do here**: fail and change nothing of the action, or
    launch a child. -/
inductive Tried (options : ExecuteProcess.Options) (process : Option ProcessId) (w : World) :
    ExecuteProcess.Run World → Prop where
  | failed {e : Error} {run : ExecuteProcess.Run World} {calls : Nat}
      (hcalls : w.failsAfter options.enableSafety = some calls)
      (hself : run.self = actionWith options process) (hresult : run.result = some (.error e))
      (hcode : e.code = .processSpawnFailed) (hworld : run.world = World.tick^[calls] w) :
      Tried options process w run
  | launched {pid : ProcessId} {run : ExecuteProcess.Run World}
      (hcalls : w.failsAfter options.enableSafety = none)
      (hself : run.self = actionWith options (some pid)) (hresult : run.result = some (.ok ()))
      (hsent : run.world.sent = w.sent) (hlaunched : Launched options pid run.world) :
      Tried options process w run

/-- The attempt that goes through the executor. -/
theorem tried_safety (hsafety : options.enableSafety = true) (process : Option ProcessId)
    {cmd : List Str} (hprogram : (ExecuteProcess.commandLine cmd).program ≠ []) (w : World) :
    Tried options process w
      ((actionWith options process).executeSingleAttempt posixSystem.posix cmd w) := by
  have hresources : (actionWith options process).resourcesAvailable w
      = (match w.moment.resources with
        | .ok available => available
        | .error _ => false, w.tick) := by
    simp only [ExecuteProcess.resourcesAvailable, actionWith, hsafety, if_true,
      posixResourceMonitor]
    rcases w.moment.resources with _ | available <;> rfl
  have hexecutor : (actionWith options process).safetyExecutor = some posixProcessExecutor := by
    simp [ExecuteProcess.safetyExecutor, actionWith, hsafety]
  have hcalls : w.failsAfter options.enableSafety
      = match w.moment.resources with
        | .ok true => if w.tick.forks then none else some 2
        | _ => some 1 := by
    rw [World.failsAfter, if_pos hsafety]
  rw [ExecuteProcess.executeSingleAttempt, hresources, hexecutor]
  rcases hm : w.moment.resources with message | _ | _
  · exact .failed (by rw [hcalls, hm]) rfl rfl rfl rfl
  · exact .failed (by rw [hcalls, hm]) rfl rfl rfl rfl
  · -- the resources are there: it is for `fork` to say
    rw [hm] at hcalls
    have hexecute := PosixProcessExecutor.execute_eq (w := w.tick) hprogram
      (actionWith options process).processOptions
    simp only [posixProcessExecutor] at hexecute ⊢
    rw [hexecute]
    have hfork : w.tick.ForkedTo w.tick.fork := World.fork_to
    generalize w.tick.fork = forked at hfork ⊢
    cases hfork with
    | refused hforks => exact .failed (by rw [hcalls, hforks]; rfl) rfl rfl rfl rfl
    | child hforks hsent hchild =>
        obtain ⟨hlaunched, hkept⟩ := hchild.launched_safety hsafety process
        exact .launched (by rw [hcalls, hforks]; rfl) (by simp [actionWith, hsafety]) rfl
          (hkept.trans hsent) hlaunched

/-- The attempt that forks by itself. -/
theorem tried_fork (hsafety : options.enableSafety = false) (process : Option ProcessId)
    (cmd : List Str) (w : World) : Tried options process w
      ((actionWith options process).executeSingleAttempt posixSystem.posix cmd w) := by
  have hresources : (actionWith options process).resourcesAvailable w = (true, w) := by
    simp [ExecuteProcess.resourcesAvailable, actionWith, hsafety]
  have hexecutor : (actionWith options process).safetyExecutor = none := by
    simp [ExecuteProcess.safetyExecutor, actionWith, hsafety]
  have hcalls : w.failsAfter options.enableSafety = if w.forks then none else some 1 := by
    rw [World.failsAfter, hsafety, if_neg Bool.false_ne_true]
  rw [ExecuteProcess.executeSingleAttempt, hresources, hexecutor]
  have hto : w.ForkedTo w.fork := World.fork_to
  rcases hfork : w.fork with ⟨errno | pid, w'⟩
  · rw [hfork] at hto
    have hposix : posixSystem.posix.fork (cmd.map cStr) w = (-1, w') := by
      simp only [posixSystem, hfork]
    cases hto with
    | refused hforks =>
        simp only [hposix, if_pos (show (-1 : ProcessId) < 0 by decide)]
        exact .failed (by rw [hcalls, hforks]; rfl) rfl rfl rfl rfl
  · rw [hfork] at hto
    have hposix : posixSystem.posix.fork (cmd.map cStr) w = (pid, w') := by
      simp only [posixSystem, hfork]
    cases hto with
    | child hforks hsent hchild =>
        simp only [hposix, if_neg (not_lt.mpr hchild.pos.le)]
        refine .launched (by rw [hcalls, hforks]; rfl) (by simp [actionWith, hsafety]) rfl ?_
          (hchild.launched_fork hsafety)
        show (if options.output = "screen".toList then Process.wait pid w' else w').sent = w.sent
        split
        · exact Process.wait_sent.trans hsent
        · exact hsent

/-- **Every attempt** fails without a trace, or launches a child. -/
theorem tried (options : ExecuteProcess.Options) (process : Option ProcessId) {cmd : List Str}
    (hprogram : (ExecuteProcess.commandLine cmd).program ≠ []) (w : World) :
    Tried options process w
      ((actionWith options process).executeSingleAttempt posixSystem.posix cmd w) := by
  cases hsafety : options.enableSafety with
  | true => exact tried_safety hsafety process hprogram w
  | false => exact tried_fork hsafety process cmd w

/-- Where no watchdog was made there is nothing to unregister. -/
@[simp] theorem unregister_actionWith (process : Option ProcessId) :
    (actionWith options process).unregister w = w := by
  rw [ExecuteProcess.unregister, actionWith]
  cases hsafety : options.enableSafety with
  | true => simp [untouchedWatchdog]
  | false => simp

/-- **The clean-up** asks before it signals the process that was left over. -/
theorem sparesReaped_cleanup {process : Option ProcessId}
    (hpos : ∀ pid, process = some pid → 0 < pid) :
    ((actionWith options process).cleanupBeforeRetry posixSystem.posix w).2.SparesReaped
      ↔ w.SparesReaped ∧ ∀ pid, process = some pid → ¬ w.Misleads pid w.now := by
  rw [ExecuteProcess.cleanupBeforeRetry_eq]
  simp only [unregister_actionWith]
  cases process with
  | none => exact (and_iff_left (fun pid h => by cases h)).symm
  | some pid =>
      simp only [Option.some.injEq, forall_eq']
      refine Process.sparesReaped_asked (hpos pid rfl).ne' (show isSignal sigTerm = true by decide) ?_
      unfold ExecuteProcess.endLeftover
      simp only [actionWith, posixSystem]
      rcases Process.isRunning pid w with ⟨_ | _, w'⟩ <;> rfl

/-- The clean-up leaves an action that remembers no process. -/
theorem cleanupBeforeRetry_self (process : Option ProcessId) :
    ((actionWith options process).cleanupBeforeRetry posixSystem.posix w).1
      = actionWith options none := by
  rw [ExecuteProcess.cleanupBeforeRetry_eq]
  simp [actionWith]

/-- A run of `execute` here: an action of these options again, no signal to a
    reaped pid from `w` on, and a child if it succeeds. -/
structure Executed (options : ExecuteProcess.Options) (w : World)
    (run : ExecuteProcess.Run World) : Prop where
  self_eq : ∃ process, (∀ pid, process = some pid → 0 < pid)
    ∧ run.self = actionWith options process
  spares : run.world.SparesReaped ↔ w.SparesReaped
  launched : run.result = some (.ok ()) →
    ∃ pid, run.self = actionWith options (some pid) ∧ Launched options pid run.world

/-- An attempt as a run: its signals are those of the world before it. -/
theorem Tried.executed {process : Option ProcessId} {run : ExecuteProcess.Run World}
    (hpos : ∀ pid, process = some pid → 0 < pid) (h : Tried options process w run) :
    Executed options w run := by
  cases h with
  | failed _ hself hresult _ hworld =>
      refine ⟨⟨process, hpos, hself⟩, World.sparesReaped_congr ?_, ?_⟩
      · rw [hworld, World.sent_ticks]
      · intro hok
        rw [hresult] at hok
        cases hok
  | @launched pid _ _ hself hresult hsent hlaunched =>
      refine ⟨⟨some pid, ?_, hself⟩, World.sparesReaped_congr hsent,
        fun _ => ⟨pid, hself, hlaunched⟩⟩
      intro pid' h
      cases h
      exact hlaunched.pos

/-- In front of every attempt of an action that has no process. -/
theorem attempted_none {cmd : List Str} {w₀ : World} {self : ExecuteProcess World}
    (hprogram : (ExecuteProcess.commandLine cmd).program ≠ [])
    (hat : ExecuteProcess.Attempted (actionWith options none) posixSystem.posix cmd w₀ self w) :
    self = actionWith options none ∧ (w.SparesReaped ↔ w₀.SparesReaped) := by
  induction hat with
  | first => exact ⟨rfl, Iff.rfl⟩
  | @again prev wprev e _ hfail ih =>
      obtain ⟨rfl, hspares⟩ := ih
      cases tried options none hprogram wprev with
      | launched _ _ hresult =>
          rw [hfail] at hresult
          cases hresult
      | failed _ hself _ _ hworld =>
          rw [hself, hworld]
          refine ⟨cleanupBeforeRetry_self none, ?_⟩
          rw [sparesReaped_cleanup (fun pid h => by cases h), ← hspares,
            World.sparesReaped_congr (World.sent_ticks wprev _)]
          exact and_iff_left (fun pid h => by cases h)

/-- The rounds of the retry loop behind a clean-up. -/
theorem executed_rest {cmd : List Str} (hprogram : (ExecuteProcess.commandLine cmd).program ≠ [])
    (fuel attempt : Nat) (w : World) : Executed options w
      (ExecuteProcess.retryLoop posixSystem.posix cmd fuel attempt (actionWith options none) w) := by
  have hnone : ∀ pid : ProcessId, none = some pid → 0 < pid := fun pid h => by cases h
  cases ExecuteProcess.retryLoop_endsAt fuel attempt (actionWith options none) w .first with
  | before hat hresult =>
      obtain ⟨hself, hspares⟩ := attempted_none hprogram hat
      exact ⟨⟨none, hnone, hself⟩, hspares, fun hok => absurd hok hresult⟩
  | behind hat hself hworld hresult =>
      obtain ⟨rfl, hspares⟩ := attempted_none hprogram hat
      obtain ⟨hsame, hattempt, hlaunched⟩ := (tried options none hprogram _).executed hnone
      refine ⟨?_, ?_, ?_⟩
      · rw [hself]
        exact hsame
      · rw [hworld, hattempt, hspares]
      · intro hok
        rw [hself, hworld]
        exact hlaunched (hresult hok)

/-- A retry loop whose first attempt has failed keeps what the clean-up
    leaves. -/
theorem executed_again {process : Option ProcessId} {cmd : List Str} {fuel calls : Nat} {e : Error}
    (hprogram : (ExecuteProcess.commandLine cmd).program ≠ []) (hretries : 0 < options.maxRetries)
    (hself : ((actionWith options process).executeSingleAttempt posixSystem.posix cmd w).self
      = actionWith options process)
    (hresult : ((actionWith options process).executeSingleAttempt posixSystem.posix cmd w).result
      = some (.error e))
    (hcode : e.code = .processSpawnFailed)
    (hworld : ((actionWith options process).executeSingleAttempt posixSystem.posix cmd w).world
      = World.tick^[calls] w) :
    Executed options
      ((actionWith options process).cleanupBeforeRetry posixSystem.posix (World.tick^[calls] w)).2
      (ExecuteProcess.retryLoop posixSystem.posix cmd (fuel + 1) 0 (actionWith options process) w) := by
  have hcode' : ExecuteProcess.isRetryableError e.code = true := by
    rw [hcode]
    rfl
  have hcleaned : ((actionWith options process).executeSingleAttempt posixSystem.posix cmd
        w).self.cleanupBeforeRetry posixSystem.posix
        ((actionWith options process).executeSingleAttempt posixSystem.posix cmd w).world
      = (actionWith options none, ((actionWith options process).cleanupBeforeRetry
          posixSystem.posix (World.tick^[calls] w)).2) := by
    rw [hself, hworld]
    exact Prod.ext (cleanupBeforeRetry_self process) rfl
  obtain ⟨started, starts, hnext⟩ := ExecuteProcess.retryLoop_of_failed fuel hresult hcode'
    hretries hcleaned
  have hrest : Executed options _ (ExecuteProcess.retryLoop posixSystem.posix cmd fuel 1
      (actionWith options none) ((actionWith options process).cleanupBeforeRetry
        posixSystem.posix (World.tick^[calls] w)).2) := executed_rest hprogram fuel 1 _
  rw [hnext]
  exact ⟨hrest.self_eq, hrest.spares, hrest.launched⟩

/-- The system calls in front of the clean-up, where the first attempt of
    `execute` fails and another one follows. -/
def ExecuteProcess.cleansUpAfter (self : ExecuteProcess World) (context : LaunchContext)
    (w : World) : Option Nat :=
  match validateAndEscapeCommand (self.resolveCommand context) with
  | .error _ => none
  | .ok _ => if self.options.maxRetries = 0 then none else w.failsAfter self.options.enableSafety

/-- **A run of `execute`** signals nobody but the process that is left over
    when its first attempt fails. -/
theorem executed {process : Option ProcessId} (hpos : ∀ pid, process = some pid → 0 < pid)
    (fuel : Nat) (context : LaunchContext) (w : World)
    (hreturns : ((actionWith options process).execute posixSystem.posix fuel context w).result
      ≠ none) :
    ∃ w₁, Executed options w₁ ((actionWith options process).execute posixSystem.posix fuel context w)
      ∧ (w₁.SparesReaped ↔ w.SparesReaped ∧ ∀ pid calls, process = some pid →
          (actionWith options process).cleansUpAfter context w = some calls →
          ¬ w.Misleads pid (w.now + calls)) := by
  rw [ExecuteProcess.cleansUpAfter]
  cases hcmd : ExecuteProcess.validateAndEscapeCommand
      ((actionWith options process).resolveCommand context) with
  | error e =>
      rw [ExecuteProcess.execute_of_error hcmd]
      exact ⟨w, ⟨⟨process, hpos, rfl⟩, Iff.rfl, fun h => by cases h⟩,
        (and_iff_left (fun _ _ _ h => by cases h)).symm⟩
  | ok cmd =>
      have hprogram := ExecuteProcess.program_ne_nil hcmd
      have htried := tried options process hprogram w
      rw [ExecuteProcess.execute, hcmd] at hreturns ⊢
      simp only at hreturns ⊢
      by_cases hretries : 0 < options.maxRetries
      · have hretries' : 0 < (actionWith options process).options.maxRetries := hretries
        rw [if_pos hretries'] at hreturns ⊢
        rw [if_neg hretries'.ne']
        cases fuel with
        | zero => exact absurd rfl hreturns
        | succ fuel =>
            cases htried with
            | launched hcalls hself hresult hsent hlaunched =>
                have hfirst : ExecuteProcess.retryLoop posixSystem.posix cmd (fuel + 1) 0
                      (actionWith options process) w
                    = (actionWith options process).executeSingleAttempt posixSystem.posix cmd w := by
                  rw [ExecuteProcess.retryLoop, hresult]
                rw [hfirst]
                refine ⟨w, (Tried.launched hcalls hself hresult hsent hlaunched).executed hpos, ?_⟩
                refine (and_iff_left (fun _ _ _ h => ?_)).symm
                exact absurd (hcalls.symm.trans h) (by simp)
            | @failed e _ calls hcalls hself hresult hcode hworld =>
                refine ⟨_, executed_again hprogram hretries hself hresult hcode hworld, ?_⟩
                have hcalls' : w.failsAfter (actionWith options process).options.enableSafety
                    = some calls := hcalls
                rw [sparesReaped_cleanup hpos, World.sparesReaped_congr (World.sent_ticks w calls),
                  hcalls']
                simp only [World.Misleads, World.isReaped_ticks, World.script_ticks,
                  World.now_ticks, Option.some.injEq]
                exact and_congr_right (fun _ => ⟨fun h pid _ hpid hn => hn ▸ h pid hpid,
                  fun h pid hpid => h pid calls hpid rfl⟩)
      · have hretries' : ¬ 0 < (actionWith options process).options.maxRetries := hretries
        rw [if_neg hretries', if_pos (Nat.eq_zero_of_not_pos hretries')]
        exact ⟨w, htried.executed hpos, (and_iff_left (fun _ _ _ h => by cases h)).symm⟩

/-! ## Signals never go to a reaped pid -/

/-- A pid the action remembers is one. -/
def Session.Inv (options : ExecuteProcess.Options) (s : Session World) : Prop :=
  ∃ process, (∀ pid, process = some pid → 0 < pid) ∧ s.self = actionWith options process

/-- It holds when the action is constructed. -/
theorem Session.Inv.start (options : ExecuteProcess.Options) (script : Nat → Moment) :
    Inv options (start options script) := by
  rw [start_eq]
  exact ⟨none, (fun pid h => by cases h), rfl⟩

/-- Every call keeps it. -/
theorem Session.Inv.step {s t : Session World} {call : Call} (h : s.Inv options)
    (hstep : s.Step posixSystem call t) : t.Inv options := by
  cases hstep with
  | @execute context fuel hreturns =>
      obtain ⟨process, hpos, hself⟩ := h
      rw [execute, hself] at hreturns ⊢
      obtain ⟨w₁, hexecuted, -⟩ := executed hpos fuel context s.world hreturns
      exact hexecuted.self_eq
  | shutdown => exact h
  | terminate => exact h
  | kill => exact h
  | sendSignal => exact h
  | isRunning => exact h

/-- So it holds in every session that can be reached. -/
theorem Session.inv_of_steps {s : Session World} {script : Nat → Moment}
    (hrun : Steps (Session.Step posixSystem) (Session.start options script) s) : s.Inv options :=
  hrun.invariant (fun h hstep => h.step hstep) (Session.Inv.start options script)

/-- The pid a call signals without having asked whether it runs. -/
def ExecuteProcess.signals (self : ExecuteProcess World) : Call → Option ProcessId
  | .execute _ => none
  | .isRunning => none
  | .sendSignal signal =>
      if isSignal signal = false then none
      else if self.onSafetyPath then some self.processId else self.process
  | _ => if self.onSafetyPath then some self.processId else none

/-- The pid a call asks about before it signals it, and when. -/
def Session.asksAbout (s : Session World) : Call → Option (ProcessId × Nat)
  | .execute context =>
      match s.self.process, s.self.cleansUpAfter context s.world with
      | some pid, some calls => some (pid, s.world.now + calls)
      | _, _ => none
  | .isRunning => none
  | .sendSignal _ => none
  | _ => if s.self.onSafetyPath then none else s.self.process.map (fun pid => (pid, s.world.now))

/-- **The condition on a call**: the pid that it signals blindly has not been
    reaped, and the system does not mislead it about the one that it asks
    about. -/
structure Session.Spares (s : Session World) (call : Call) : Prop where
  blind : ∀ pid, s.self.signals call = some pid → (s.world.children pid).isReaped = false
  asked : ∀ pid n, s.asksAbout call = some (pid, n) → ¬ s.world.Misleads pid n

/-- The condition, spelled out. -/
theorem Session.spares_iff {s : Session World} {call : Call} : s.Spares call
    ↔ (∀ pid, s.self.signals call = some pid → (s.world.children pid).isReaped = false)
      ∧ ∀ pid n, s.asksAbout call = some (pid, n) → ¬ s.world.Misleads pid n :=
  ⟨fun h => ⟨h.blind, h.asked⟩, fun h => ⟨h.1, h.2⟩⟩

/-- **The three calls that end a process**: the executor signals blindly, the
    other path asks first. -/
theorem sparesReaped_endProcess {process : Option ProcessId}
    (hpos : ∀ pid, process = some pid → 0 < pid)
    {ended : ProcessId → World → OsalResult Unit × World} {signal : Int}
    (hsignal : isSignal signal = true)
    (hended : ∀ pid w, pid ≠ 0 → ((ended pid w).2.SparesReaped
      ↔ w.SparesReaped ∧ (w.children pid).isReaped = false)) :
    ((actionWith options process).endProcess posixSystem ended signal w).2.SparesReaped
      ↔ w.SparesReaped ∧ if (actionWith options process).onSafetyPath then
          (w.children (actionWith options process).processId).isReaped = false
        else ∀ pid, process = some pid → ¬ w.Misleads pid w.now := by
  rw [ExecuteProcess.endProcess]
  by_cases hsafe : (actionWith options process).onSafetyPath = true
  · have hpid : (actionWith options process).processId ≠ 0 := by
      simp only [ExecuteProcess.onSafetyPath, Bool.and_eq_true, decide_eq_true_eq] at hsafe
      exact hsafe.2
    have hend := hended _ w hpid
    rw [if_pos hsafe, if_pos hsafe, ← hend]
    generalize ended (actionWith options process).processId w = answer
    rcases answer with ⟨message | _, w'⟩
    · rfl
    · rfl
  · rw [if_neg hsafe, if_neg hsafe]
    cases process with
    | none => exact (and_iff_left (fun pid h => by cases h)).symm
    | some pid =>
        simp only [Option.some.injEq, forall_eq']
        refine Process.sparesReaped_asked (hpos pid rfl).ne' hsignal ?_
        simp only [actionWith, posixSystem]
        rcases Process.isRunning pid w with ⟨_ | _, w'⟩ <;> rfl

/-- `send_signal` asks nobody on either path. -/
theorem sparesReaped_sendSignal (process : Option ProcessId) (signal : Int) :
    ((actionWith options process).sendSignal posixSystem signal w).SparesReaped
      ↔ w.SparesReaped ∧ (isSignal signal = true → ∀ pid,
          (if (actionWith options process).onSafetyPath then
            some (actionWith options process).processId else process) = some pid →
          (w.children pid).isReaped = false) := by
  rw [ExecuteProcess.sendSignal]
  by_cases hsafe : (actionWith options process).onSafetyPath = true
  · rw [if_pos hsafe, if_pos hsafe]
    simp only [Option.some.injEq, forall_eq']
    exact PosixProcessExecutor.sparesReaped_sendSignal
  · rw [if_neg hsafe, if_neg hsafe]
    cases process with
    | none => simp [actionWith]
    | some pid =>
        simp only [Option.some.injEq, forall_eq']
        exact World.sparesReaped_kill

/-- `is_running` signals nobody on either path. -/
theorem isRunning_sent (process : Option ProcessId) :
    ((actionWith options process).isRunning posixSystem w).2.sent = w.sent := by
  rw [ExecuteProcess.isRunning]
  by_cases hsafe : (actionWith options process).onSafetyPath = true
  · have hsent : (PosixProcessExecutor.isRunning (actionWith options process).processId w).2.sent
        = w.sent := PosixProcessExecutor.isRunning_sent
    rw [if_pos hsafe]
    simp only [posixSystem]
    generalize PosixProcessExecutor.isRunning (actionWith options process).processId w = answer
      at hsent ⊢
    rcases answer with ⟨message | running, w'⟩
    · exact hsent
    · exact hsent
  · rw [if_neg hsafe]
    cases process with
    | none => rfl
    | some pid => exact Process.isRunning_sent

/-- The condition on one of the three calls that end a process. -/
theorem Session.spares_ending {process : Option ProcessId} {call : Call}
    (hsignals : (actionWith options process).signals call
      = if (actionWith options process).onSafetyPath then
          some (actionWith options process).processId else none)
    (hasks : Session.asksAbout ⟨actionWith options process, w⟩ call
      = if (actionWith options process).onSafetyPath then none
        else process.map (fun pid => (pid, w.now))) :
    Session.Spares ⟨actionWith options process, w⟩ call
      ↔ if (actionWith options process).onSafetyPath then
          (w.children (actionWith options process).processId).isReaped = false
        else ∀ pid, process = some pid → ¬ w.Misleads pid w.now := by
  rw [spares_iff, hsignals, hasks]
  by_cases hsafe : (actionWith options process).onSafetyPath = true
  · simp [hsafe]
  · simp only [hsafe, if_false, Bool.false_eq_true]
    cases process with
    | none => simp
    | some pid => simp

/-- **One call** keeps the signals from reaped pids exactly under the
    condition. -/
theorem Session.Inv.sparesReaped_iff {s t : Session World} {call : Call} (h : s.Inv options)
    (hstep : s.Step posixSystem call t) :
    t.world.SparesReaped ↔ s.world.SparesReaped ∧ s.Spares call := by
  obtain ⟨process, hpos, hself⟩ := h
  obtain ⟨self, world⟩ := s
  simp only at hself
  subst hself
  cases hstep with
  | @execute context fuel hreturns =>
      obtain ⟨w₁, hexecuted, hkept⟩ := executed hpos fuel context world hreturns
      rw [spares_iff, ExecuteProcess.signals, asksAbout]
      refine hexecuted.spares.trans (hkept.trans (and_congr_right (fun _ => ?_)))
      cases process with
      | none => simp
      | some pid =>
          cases (actionWith options (some pid)).cleansUpAfter context world with
          | none => simp
          | some calls => simp
  | shutdown =>
      rw [spares_ending rfl rfl]
      exact sparesReaped_endProcess hpos (by decide)
        (fun _ _ hpid => PosixProcessExecutor.sparesReaped_terminate hpid
          (options.sigtermTimeout * 1000))
  | terminate =>
      rw [spares_ending rfl rfl]
      exact sparesReaped_endProcess hpos (by decide)
        (fun _ _ hpid => PosixProcessExecutor.sparesReaped_terminate hpid
          (options.sigtermTimeout * 1000))
  | kill =>
      rw [spares_ending rfl rfl]
      exact sparesReaped_endProcess hpos (by decide)
        (fun _ _ _ => PosixProcessExecutor.sparesReaped_kill)
  | @sendSignal signal =>
      rw [sparesReaped_sendSignal, spares_iff, ExecuteProcess.signals, asksAbout]
      cases hsignal : isSignal signal with
      | false => simp
      | true => simp
  | isRunning =>
      rw [World.sparesReaped_congr (LaunchCpp.isRunning_sent process), spares_iff,
        ExecuteProcess.signals, asksAbout]
      simp

/-- **Signals and reaped pids.** From construction on, whatever the script
    does between the system calls: as long as no call signals a pid that has
    been reaped, be it blindly or because another child of the launcher has
    got it, no signal goes to one, and the first call that does sends one. -/
theorem signals_spare_iff (options : ExecuteProcess.Options) (script : Nat → Moment) :
    (∀ s, Steps (Under Session.Spares (Session.Step posixSystem)) (Session.start options script) s →
      s.world.SparesReaped)
    ∧ ∀ s call t, Steps (Session.Step posixSystem) (Session.start options script) s →
        s.world.SparesReaped → s.Step posixSystem call t → (t.world.SparesReaped ↔ s.Spares call) := by
  refine ⟨?_, ?_⟩
  · intro s hrun
    have hstart : (Session.start options script).world.SparesReaped := by
      rw [Session.start_eq]
      intro e he
      cases he
    have hkeeps : ∀ {s call t}, s.Inv options → s.world.SparesReaped →
        Under Session.Spares (Session.Step posixSystem) s call t → t.world.SparesReaped :=
      fun hs hspares hstep => (hs.sparesReaped_iff hstep.2).mpr ⟨hspares, hstep.1⟩
    exact hrun.invariant_with (P := fun s => s.world.SparesReaped)
      (fun hrun => Session.inv_of_steps hrun.of_under) hkeeps hstart
  · intro s call t hrun hspares hstep
    rw [(Session.inv_of_steps hrun).sparesReaped_iff hstep]
    exact and_iff_right hspares

/-- With output to the screen the process is reaped before `execute` returns,
    and `shutdown` signals its pid all the same. -/
theorem signals_spare_screen : ∃ s, Steps (Session.Step posixSystem)
    (Session.start
      { cmd := [some (textSubstitution "true".toList)], output := "screen".toList
        enableSafety := true }
      (fun _ => { forked := .ok 7 })) s
    ∧ ¬ s.world.SparesReaped := by
  refine ⟨_, (Steps.single (@Session.Step.execute _ posixSystem _ LaunchContext.empty 1
    (by decide +kernel))).next Session.Step.shutdown, ?_⟩
  intro h
  exact absurd (h ⟨7, sigTerm, .reaped (.exited 0)⟩ (by decide +kernel)) (by decide)

end LaunchCpp
