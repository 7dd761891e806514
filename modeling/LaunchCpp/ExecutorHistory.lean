import LaunchCpp.ProcessLifecycle
import LaunchCpp.Watchdog

/-! # What an executor has answered

    All calls of `PosixProcessExecutor`, in any order, over any script of exits
    and `fork`s.  A caller sees the answers only; the main result,
    `executor_accounts`, is that they are enough: a process is held by the
    system exactly as long as it was started and has not been reported or
    ended since, and what the next call answers follows from that, up to the
    signals that the system refuses to send. -/

namespace LaunchCpp

/-- `ProcessResult`, without its times, and without the output, which is never
    filled in. -/
structure ProcessResult where
  pid : ProcessId := -1
  exitCode : Int := 0
  finalState : ProcessState
  deriving DecidableEq

namespace PosixProcessExecutor

/-- The result built of a status of `waitpid`. -/
def processResult (pid : ProcessId) : ExitStatus → ProcessResult
  | .exited code =>
      { pid, exitCode := code.toNat
        finalState := if code.toNat = 0 then ProcessState.stopped else ProcessState.crashed }
  | .signaled signal => { pid, exitCode := -signal, finalState := ProcessState.crashed }

/-- `"Wait failed: "`, with what `errno` says of a pid that is no child. -/
def waitFailed : Str := "Wait failed: ".toList ++ strerror .echild

/-- `wait_internal`, with its result. -/
def waitResult (pid : ProcessId) (timeout : Int) (w : World) :
    OsalResult ProcessResult × World :=
  if 0 < timeout then
    match poll pid w.moment.polls w with
    | (.exited status, w) => (.ok (processResult pid status), w)
    | (.timedOut, w) => (.error "Wait timeout".toList, w)
    | (.failed, w) => (.error waitFailed, w)
  else
    match w.waitpid pid with
    | (some status, w) => (.ok (processResult pid status), w)
    | (none, w) => (.error waitFailed, w)

/-- The answer to a signal: its refusal, after a text. -/
def refusal (text : Str) : Option Errno → OsalResult Unit
  | some errno => .error (text ++ strerror errno)
  | none => .ok ()

/-- What it answers does not change what waiting does. -/
theorem waitResult_world (pid : ProcessId) (timeout : Int) (w : World) :
    (waitResult pid timeout w).2 = wait pid timeout w := by
  rw [waitResult, wait]
  by_cases htimeout : 0 < timeout
  · rw [if_pos htimeout, if_pos htimeout]
    rcases poll pid w.moment.polls w with ⟨_ | _ | _, w'⟩ <;> rfl
  · rw [if_neg htimeout, if_neg htimeout]
    rcases w.waitpid pid with ⟨_ | status, w'⟩ <;> rfl

/-- `get_state_internal`. -/
def getState (pid : ProcessId) (w : World) : OsalResult ProcessState × World :=
  match isRunning pid w with
  | (.error message, w) => (.error message, w)
  | (.ok true, w) => (.ok ProcessState.running, w)
  | (.ok false, w) => (.ok ProcessState.stopped, w)

/-! ## Calls and answers -/

/-- A pid that names one process: 0 and the negative ones name groups. -/
abbrev OnePid := { pid : ProcessId // 0 < pid }

/-- A call of the executor. -/
inductive Operation where
  | execute (command : CommandLine) (options : ProcessOptions)
  | wait (pid : OnePid) (timeout : Int)
  | isRunning (pid : OnePid)
  | terminate (pid : OnePid) (timeout : Int)
  | kill (pid : OnePid)
  | sendSignal (pid : OnePid) (signal : Int)
  | getState (pid : OnePid)

/-- What a call has answered. -/
inductive Answer where
  | started (pid : ProcessId)
  | result (result : ProcessResult)
  | running (answer : Bool)
  | state (state : ProcessState)
  | done
  | error (message : Str)
  deriving DecidableEq

/-- An answer of a result. -/
def Answer.of {α : Type} (answer : α → Answer) : OsalResult α × World → Answer × World
  | (.ok value, w) => (answer value, w)
  | (.error message, w) => (.error message, w)

/-- One call. -/
def perform : Operation → World → Answer × World
  | .execute command options, w => Answer.of .started (execute command options w)
  | .wait pid timeout, w => Answer.of .result (waitResult pid timeout w)
  | .isRunning pid, w => Answer.of .running (isRunning pid w)
  | .terminate pid timeout, w => Answer.of (fun _ => .done) (terminate pid timeout w)
  | .kill pid, w => Answer.of (fun _ => .done) (kill pid w)
  | .sendSignal pid signal, w => Answer.of (fun _ => .done) (sendSignal pid signal w)
  | .getState pid, w => Answer.of .state (getState pid w)

/-- Calls one after another, with their answers, the latest in front. -/
def performAll : List Operation → List (Operation × Answer) → World →
    List (Operation × Answer) × World
  | [], history, w => (history, w)
  | operation :: rest, history, w =>
      performAll rest ((operation, (perform operation w).1) :: history) (perform operation w).2

/-- The answer says that a process with this pid has been started. -/
def starts (pid : ProcessId) : Operation × Answer → Bool
  | (.execute _ _, .started started) => started = pid
  | _ => false

/-- The answer says that it has been reported, or ended. -/
def ends (pid : ProcessId) : Operation × Answer → Bool
  | (.wait ended _, .result _) => ended.val = pid
  | (.terminate ended _, .done) => ended.val = pid
  | (.kill ended, .done) => ended.val = pid
  | _ => false

/-- What the answers say of a pid: started, and neither reported nor ended
    since. -/
def outstanding (pid : ProcessId) : List (Operation × Answer) → Bool
  | [] => false
  | e :: earlier => if starts pid e then true else !ends pid e && outstanding pid earlier

end PosixProcessExecutor

/-! ## What a system call does to who holds a pid -/

namespace World

variable {w : World} {pid other : ProcessId}

/-- A process holds the pid. -/
def holds (w : World) (pid : ProcessId) : Bool := (w.children pid).holdsPid

@[simp] theorem holds_tick : w.tick.holds pid = w.holds pid := holdsPid_tick

/-- A child that is set holds its own pid only. -/
theorem holds_setChild (state : ChildState) :
    (w.setChild pid state).holds other = if other = pid then state.holdsPid else w.holds other := by
  by_cases hother : other = pid
  · subst hother
    rw [if_pos rfl]
    exact congrArg ChildState.holdsPid (Function.update_self _ _ _)
  · rw [if_neg hother]
    exact congrArg ChildState.holdsPid (Function.update_of_ne hother _ _)

/-- A child that was forked holds its pid. -/
theorem holds_fork : w.fork.2.holds other
    = if w.fork.1 = .ok other then true else w.holds other := by
  rw [fork]
  cases w.moment.forked with
  | error errno =>
      rw [if_neg (fun h => by cases h)]
      exact holds_tick
  | ok pid =>
      by_cases hfree : 0 < pid ∧ (w.tick.children pid).holdsPid = false
      · simp only [if_pos hfree]
        show (w.tick.setChild pid .running).holds other = _
        rw [holds_setChild]
        by_cases hother : other = pid
        · subst hother
          rw [if_pos rfl, if_pos rfl]
          rfl
        · have hne : ¬ (Except.ok pid : Except Errno ProcessId) = .ok other :=
            fun h => hother (Except.ok.inj h).symm
          rw [if_neg hother, if_neg hne]
          exact holds_tick
      · simp only [if_neg hfree]
        rw [if_neg (fun h => by cases h)]
        exact holds_tick

/-- Whoever is waited for is gone. -/
theorem holds_waitpid : (w.waitpid pid).2.holds other
    = if other = pid then false else w.holds other := by
  have hfree : (w.tick.children pid).holdsPid = false →
      w.tick.holds other = if other = pid then false else w.holds other := by
    intro hfree
    by_cases hother : other = pid
    · subst hother
      rw [if_pos rfl]
      exact hfree
    · rw [if_neg hother, holds_tick]
  rw [waitpid]
  cases hchild : w.tick.children pid with
  | running =>
      show (w.tick.setChild pid _).holds other = _
      rw [holds_setChild, holds_tick]
      rfl
  | zombie status =>
      show (w.tick.setChild pid _).holds other = _
      rw [holds_setChild, holds_tick]
      rfl
  | noChild =>
      rw [hchild] at hfree
      cases w.moment.stranger <;> exact hfree rfl
  | reaped status =>
      rw [hchild] at hfree
      cases w.moment.stranger <;> exact hfree rfl

/-- A poll lets go of no pid but its own. -/
theorem holds_waitNoHang_of_ne (hother : other ≠ pid) :
    (w.waitNoHang pid).2.holds other = w.holds other := by
  rcases @waitNoHang_world w pid with h | ⟨status, -, h⟩
  · rw [h, holds_tick]
  · rw [h, holds_setChild, if_neg hother, holds_tick]

/-- The launcher has no other children than those forked here. -/
def Alone (w : World) : Prop := ∀ n, (w.script n).stranger.isChild = false

/-- Of a pid that no child holds a poll finds at most another child of the
    launcher. -/
theorem waitNoHang_free (h : (w.tick.children pid).holdsPid = false) :
    (w.waitNoHang pid).2 = w.tick ∧ (w.Alone → (w.waitNoHang pid).1 = -1) := by
  have hnot : w.Alone → w.moment.stranger.isChild = false := fun halone => halone w.now
  rw [waitNoHang]
  cases hchild : w.tick.children pid with
  | running => rw [hchild] at h; cases h
  | zombie status => rw [hchild] at h; cases h
  | _ =>
      cases hs : w.moment.stranger with
      | nobody => exact ⟨rfl, fun _ => rfl⟩
      | process => exact ⟨rfl, fun _ => rfl⟩
      | runningChild =>
          rw [hs] at hnot
          exact ⟨rfl, fun halone => by cases hnot halone⟩
      | exitedChild status =>
          rw [hs] at hnot
          exact ⟨rfl, fun halone => by cases hnot halone⟩

/-- Waiting for such a pid reports at most another child. -/
theorem waitpid_free (h : w.holds pid = false) (halone : w.Alone) : (w.waitpid pid).1 = none := by
  have hnot : w.moment.stranger.isChild = false := halone w.now
  rw [← holds_tick, holds] at h
  rw [waitpid]
  cases hchild : w.tick.children pid with
  | running => rw [hchild] at h; cases h
  | zombie status => rw [hchild] at h; cases h
  | _ =>
      cases hs : w.moment.stranger with
      | nobody => rfl
      | process => rfl
      | runningChild => rw [hs] at hnot; cases hnot
      | exitedChild status => rw [hs] at hnot; cases hnot

/-- What a poll finds: a child that runs, one that it reaps, or none. -/
inductive Found (pid : ProcessId) (w : World) : ProcessId × World → Prop where
  | running {w' : World} (hbefore : w.holds pid = true) (h : w'.holds pid = true) :
      Found pid w (0, w')
  | exited {w' : World} {status : ExitStatus} (hbefore : w.holds pid = true)
      (hstatus : w.polledStatus pid = some status) (h : w'.children pid = .reaped status) :
      Found pid w (pid, w')
  | none {result : ProcessId} {w' : World} (hbefore : w.holds pid = false)
      (h : w'.holds pid = false) (halone : w.Alone → result = -1) : Found pid w (result, w')

/-- **What a poll finds**, in terms of who holds the pid. -/
theorem waitNoHang_found : Found pid w (w.waitNoHang pid) := by
  have hbefore : w.holds pid = (w.tick.children pid).holdsPid := holds_tick.symm
  cases hchild : w.tick.children pid with
  | running =>
      rw [hchild] at hbefore
      rw [waitNoHang, hchild]
      exact .running hbefore (congrArg ChildState.holdsPid hchild)
  | zombie status =>
      rw [hchild] at hbefore
      have hstatus : w.polledStatus pid = some status := by rw [polledStatus, hchild]
      rw [waitNoHang, hchild]
      exact .exited hbefore hstatus (Function.update_self _ _ _)
  | _ =>
      rw [hchild] at hbefore
      obtain ⟨hworld, halone⟩ := @waitNoHang_free w pid (by rw [hchild]; rfl)
      rw [show w.waitNoHang pid = ((w.waitNoHang pid).1, w.tick) from Prod.ext rfl hworld]
      exact .none hbefore (congrArg ChildState.holdsPid hchild) halone

/-- A signal alone takes no pid away. -/
@[simp] theorem holds_kill {signal : Int} : (w.kill pid signal).2.holds other = w.holds other :=
  holds_tick

/-- A signal to a child that holds its pid is sent, unless it is refused. -/
theorem kill_fst {signal : Int} (h : w.holds pid = true) :
    (w.kill pid signal).1 = w.refused signal := by
  rw [← holds_tick, holds] at h
  show w.killed pid signal = w.refused signal
  rw [killed, pidTaken, h]
  rfl

/-- A process that is there is not said to be none. -/
theorem refused_ne_esrch {signal : Int} : w.refused signal ≠ some .esrch := by
  rw [refused]
  split
  · exact fun h => by cases h
  · split <;> exact fun h => by cases h

/-- A pid without a process is no child's. -/
theorem not_holds_of_esrch {signal : Int} (h : (w.kill pid signal).1 = some .esrch) :
    w.holds pid = false := by
  by_contra hheld
  rw [kill_fst (Bool.eq_true_of_not_eq_false hheld)] at h
  exact refused_ne_esrch h

end World

/-! ## What a call does -/

namespace PosixProcessExecutor

variable {w : World} {pid other : ProcessId}

/-- Polling lets go of no pid but its own. -/
theorem holds_poll_of_ne (hother : other ≠ pid) (polls : Nat) :
    (poll pid polls w).2.holds other = w.holds other := by
  have hround := World.holds_waitNoHang_of_ne (w := w) hother
  induction polls generalizing w with
  | zero =>
      rw [poll]
      simp only
      split
      · exact hround
      · split <;> exact hround
  | succ polls ih =>
      rw [poll]
      simp only
      split
      · exact hround
      · split
        · exact (ih (World.holds_waitNoHang_of_ne hother)).trans hround
        · exact hround

/-- How a loop of polls ends. -/
inductive PolledTo (pid : ProcessId) (w : World) : Polled × World → Prop where
  | exited {w' : World} {status : ExitStatus} (hbefore : w.holds pid = true)
      (h : w'.children pid = .reaped status) : PolledTo pid w (.exited status, w')
  | timedOut {w' : World} (hbefore : w.holds pid = true) (h : w'.holds pid = true) :
      PolledTo pid w (.timedOut, w')
  | none {polled : Polled} {w' : World} (hbefore : w.holds pid = false)
      (h : w'.holds pid = false) (halone : w.Alone → polled = .failed) :
      PolledTo pid w (polled, w')

/-- A loop of polls about a pid that no child holds changes nothing about it. -/
theorem holds_poll_free (h : w.holds pid = false) (polls : Nat) :
    (poll pid polls w).2.holds pid = false := by
  have hround {w : World} (h : w.holds pid = false) : (w.waitNoHang pid).2.holds pid = false := by
    rw [← World.holds_tick, World.holds] at h
    rw [(World.waitNoHang_free h).1]
    exact h
  induction polls generalizing w with
  | zero =>
      rw [poll]
      simp only
      split
      · exact hround h
      · split <;> exact hround h
  | succ polls ih =>
      rw [poll]
      simp only
      split
      · exact hround h
      · split
        · exact ih (hround h)
        · exact hround h

/-- If the launcher has no other children, the first poll says that there is
    none. -/
theorem poll_free (hpid : 0 < pid) (h : w.holds pid = false) (halone : w.Alone) (polls : Nat) :
    (poll pid polls w).1 = .failed := by
  have hneg : (-1 : ProcessId) ≠ pid := (neg_one_lt_zero.trans hpid).ne
  rw [← World.holds_tick, World.holds] at h
  have hfirst : (w.waitNoHang pid).1 = -1 := (World.waitNoHang_free h).2 halone
  cases polls with
  | zero =>
      rw [poll]
      simp only [hfirst, if_neg hneg, if_neg (show ¬ (-1 : ProcessId) = 0 by decide)]
  | succ polls =>
      rw [poll]
      simp only [hfirst, if_neg hneg, if_neg (show ¬ (-1 : ProcessId) = 0 by decide)]

/-- **What polling leads to**: the child is reaped, is still held, or was not
    held. -/
theorem poll_to (hpid : 0 < pid) (polls : Nat) : PolledTo pid w (poll pid polls w) := by
  cases hheld : w.holds pid with
  | false =>
      exact .none hheld (holds_poll_free hheld polls) (fun halone => poll_free hpid hheld halone polls)
  | true =>
      -- from a child that holds its pid on, every round finds it
      induction polls generalizing w with
      | zero =>
          rw [poll]
          obtain ⟨found, hfound⟩ : ∃ found, w.waitNoHang pid = found := ⟨_, rfl⟩
          have hcases : World.Found pid w (w.waitNoHang pid) := World.waitNoHang_found
          rw [hfound] at hcases ⊢
          cases hcases with
          | running hbefore h =>
              simp only [if_neg hpid.ne, if_true]
              exact .timedOut hbefore h
          | exited hbefore hstatus h =>
              simp only [if_true, hstatus, Option.getD_some]
              exact .exited hbefore h
          | none hbefore _ _ => rw [hheld] at hbefore; cases hbefore
      | succ polls ih =>
          rw [poll]
          obtain ⟨found, hfound⟩ : ∃ found, w.waitNoHang pid = found := ⟨_, rfl⟩
          have hcases : World.Found pid w (w.waitNoHang pid) := World.waitNoHang_found
          rw [hfound] at hcases ⊢
          cases hcases with
          | @running w' hbefore h =>
              simp only [if_neg hpid.ne, if_true]
              obtain ⟨polled, hpolled⟩ : ∃ polled, poll pid polls w' = polled := ⟨_, rfl⟩
              have hrest := ih (w := w') h
              rw [hpolled] at hrest ⊢
              cases hrest with
              | exited _ hend => exact .exited hbefore hend
              | timedOut _ hend => exact .timedOut hbefore hend
              | none hnone _ _ => rw [h] at hnone; cases hnone
          | exited hbefore hstatus h =>
              simp only [if_true, hstatus, Option.getD_some]
              exact .exited hbefore h
          | none hbefore _ _ => rw [hheld] at hbefore; cases hbefore

/-- What a wait answers. -/
inductive Waited (pid : ProcessId) (timeout : Int) (w : World) :
    OsalResult ProcessResult × World → Prop where
  | reported {w' : World} {status : ExitStatus} (hbefore : w.holds pid = true)
      (h : w'.children pid = .reaped status) :
      Waited pid timeout w (.ok (processResult pid status), w')
  | timedOut {w' : World} (htimeout : 0 < timeout) (hbefore : w.holds pid = true)
      (h : w'.holds pid = true) : Waited pid timeout w (.error "Wait timeout".toList, w')
  | none {answer : OsalResult ProcessResult} {w' : World} (hbefore : w.holds pid = false)
      (h : w'.holds pid = false) (halone : w.Alone → answer = .error waitFailed) :
      Waited pid timeout w (answer, w')

/-- **What waiting leads to.** -/
theorem waitResult_waited (hpid : 0 < pid) (timeout : Int) :
    Waited pid timeout w (waitResult pid timeout w) := by
  rw [waitResult]
  by_cases htimeout : 0 < timeout
  · rw [if_pos htimeout]
    obtain ⟨polled, hpolled⟩ : ∃ polled, poll pid w.moment.polls w = polled := ⟨_, rfl⟩
    have hto := poll_to (w := w) hpid w.moment.polls
    rw [hpolled] at hto ⊢
    cases hto with
    | exited hbefore h => exact .reported hbefore h
    | timedOut hbefore h => exact .timedOut htimeout hbefore h
    | @none polled w' hbefore h halone =>
        cases polled with
        | exited status => exact .none hbefore h (fun ha => by cases halone ha)
        | timedOut => exact .none hbefore h (fun ha => by cases halone ha)
        | failed => exact .none hbefore h (fun _ => rfl)
  · rw [if_neg htimeout]
    cases hheld : w.holds pid with
    | true =>
        obtain ⟨status, hstatus, h⟩ := World.waitpid_reaps hheld
        rw [show w.waitpid pid = (some status, (w.waitpid pid).2) from Prod.ext hstatus rfl]
        exact .reported hheld h
    | false =>
        have hafter : (w.waitpid pid).2.holds pid = false := by
          rw [World.holds_waitpid, if_pos rfl]
        have hfree : w.Alone → (w.waitpid pid).1 = none := World.waitpid_free hheld
        rcases hwaited : w.waitpid pid with ⟨_ | status, w'⟩
        · rw [hwaited] at hafter
          exact .none hheld hafter (fun _ => rfl)
        · rw [hwaited] at hafter hfree
          exact .none hheld hafter (fun ha => by cases hfree ha)

/-- Waiting lets go of no pid but its own. -/
theorem holds_waitResult_of_ne (hother : other ≠ pid) (timeout : Int) :
    (waitResult pid timeout w).2.holds other = w.holds other := by
  rw [waitResult_world, wait]
  by_cases htimeout : 0 < timeout
  · rw [if_pos htimeout]
    exact holds_poll_of_ne hother _
  · rw [if_neg htimeout, World.holds_waitpid, if_neg hother]

/-- What `terminate` and `kill` answer: the process is gone, or the signal was
    refused and nothing has changed. -/
inductive Ended (pid : ProcessId) (w : World) : OsalResult Unit × World → Prop where
  | done {w' : World} (h : w'.holds pid = false) : Ended pid w (.ok (), w')
  | refused {w' : World} {message : Str} (h : w'.holds pid = w.holds pid) :
      Ended pid w (.error message, w')

/-- **What `kill` leads to**: the pid is free, or the signal was refused. -/
theorem kill_ended : Ended pid w (kill pid w) := by
  rw [kill]
  obtain ⟨killed, hkilled⟩ : ∃ killed, w.kill pid sigKill = killed := ⟨_, rfl⟩
  have hsame : killed.2.holds pid = w.holds pid := hkilled ▸ World.holds_kill
  have hnone : killed.1 = some .esrch → w.holds pid = false :=
    fun herrno => World.not_holds_of_esrch (hkilled ▸ herrno)
  rw [hkilled]
  rcases killed with ⟨_ | errno, w'⟩
  · refine .done ?_
    rw [World.holds_waitpid, if_pos rfl]
  · cases errno with
    | esrch => exact .done (hsame.trans (hnone rfl))
    | _ => exact .refused hsame

/-- `kill` answers what the system call does. -/
theorem kill_answer (h : w.holds pid = true) :
    (kill pid w).1 = refusal "SIGKILL failed: ".toList (w.refused sigKill) := by
  have hkill : (w.kill pid sigKill).1 = w.refused sigKill := World.kill_fst h
  have hne : w.refused sigKill ≠ some .esrch := World.refused_ne_esrch
  rw [kill]
  rcases hkilled : w.kill pid sigKill with ⟨errno, w'⟩
  rw [hkilled] at hkill
  rw [← show errno = w.refused sigKill from hkill] at hne ⊢
  rcases errno with _ | _ | _ | _ | _ | _
  all_goals first
    | rfl
    | exact absurd rfl hne

/-- `kill` lets go of no pid but its own. -/
theorem holds_killed_of_ne (hother : other ≠ pid) : (kill pid w).2.holds other = w.holds other := by
  rw [kill]
  obtain ⟨killed, hkilled⟩ : ∃ killed, w.kill pid sigKill = killed := ⟨_, rfl⟩
  have hsame : killed.2.holds other = w.holds other := hkilled ▸ World.holds_kill
  rw [hkilled]
  rcases killed with ⟨_ | errno, w'⟩
  · show (w'.waitpid pid).2.holds other = _
    rw [World.holds_waitpid, if_neg hother]
    exact hsame
  · cases errno <;> exact hsame

/-- **What `terminate` leads to.** -/
theorem terminate_ended (hpid : 0 < pid) (timeout : Int) :
    Ended pid w (terminate pid timeout w) := by
  rw [terminate]
  obtain ⟨killed, hkilled⟩ : ∃ killed, w.kill pid sigTerm = killed := ⟨_, rfl⟩
  have hsame : killed.2.holds pid = w.holds pid := hkilled ▸ World.holds_kill
  have hnone : killed.1 = some .esrch → w.holds pid = false :=
    fun herrno => World.not_holds_of_esrch (hkilled ▸ herrno)
  rw [hkilled]
  rcases killed with ⟨_ | errno, w'⟩
  · simp only
    obtain ⟨polled, hpolled⟩ : ∃ polled, poll pid w'.moment.polls w' = polled := ⟨_, rfl⟩
    have hto := poll_to (w := w') hpid w'.moment.polls
    rw [hpolled] at hto ⊢
    cases hto with
    | exited hbefore h => exact .done (congrArg ChildState.holdsPid h)
    | timedOut hbefore h =>
        -- the child is killed and waited for
        refine .done ?_
        rw [World.holds_waitpid, if_pos rfl]
    | @none polled w'' hbefore h halone =>
        cases polled with
        | timedOut =>
            refine .done ?_
            rw [World.holds_waitpid, if_pos rfl]
        | exited status => exact .done h
        | failed => exact .done h
  · cases errno with
    | esrch => exact .done (hsame.trans (hnone rfl))
    | _ => exact .refused hsame

/-- `terminate` answers what its first signal does. -/
theorem terminate_answer (h : w.holds pid = true) (timeout : Int) :
    (terminate pid timeout w).1 = refusal "SIGTERM failed: ".toList (w.refused sigTerm) := by
  have hkill : (w.kill pid sigTerm).1 = w.refused sigTerm := World.kill_fst h
  have hne : w.refused sigTerm ≠ some .esrch := World.refused_ne_esrch
  rw [terminate]
  rcases hkilled : w.kill pid sigTerm with ⟨errno, w'⟩
  rw [hkilled] at hkill
  rw [← show errno = w.refused sigTerm from hkill] at hne ⊢
  rcases errno with _ | _ | _ | _ | _ | _
  · simp only
    rcases poll pid w'.moment.polls w' with ⟨_ | _ | _, w''⟩ <;> rfl
  all_goals first
    | rfl
    | exact absurd rfl hne

/-- `terminate` lets go of no pid but its own. -/
theorem holds_terminated_of_ne (hother : other ≠ pid) (timeout : Int) :
    (terminate pid timeout w).2.holds other = w.holds other := by
  rw [terminate]
  obtain ⟨killed, hkilled⟩ : ∃ killed, w.kill pid sigTerm = killed := ⟨_, rfl⟩
  have hsame : killed.2.holds other = w.holds other := hkilled ▸ World.holds_kill
  rw [hkilled]
  rcases killed with ⟨_ | errno, w'⟩
  · simp only
    obtain ⟨polled, hpolled⟩ : ∃ polled, poll pid w'.moment.polls w' = polled := ⟨_, rfl⟩
    have hpoll : polled.2.holds other = w.holds other :=
      hpolled ▸ (holds_poll_of_ne hother _).trans hsame
    rw [hpolled]
    rcases polled with ⟨_ | _ | _, w''⟩
    · exact hpoll
    · show ((w''.kill pid sigKill).2.waitpid pid).2.holds other = _
      rw [World.holds_waitpid, if_neg hother, World.holds_kill]
      exact hpoll
    · exact hpoll
  · cases errno <;> exact hsame

/-! ## What the answers say -/

/-- An answer is read off a result; the world stays. -/
theorem Answer.of_world {α : Type} (answer : α → Answer) (r : OsalResult α × World) :
    (Answer.of answer r).2 = r.2 := by
  rcases r with ⟨_ | _, _⟩ <;> rfl

/-- `is_running` is one probe. -/
theorem isRunning_world (pid : ProcessId) (w : World) :
    (isRunning pid w).2 = (w.kill pid 0).2 := by
  rw [isRunning]
  rcases w.kill pid 0 with ⟨_ | errno, w'⟩
  · rfl
  · cases errno <;> rfl

/-- So is `get_state`. -/
theorem getState_world (pid : ProcessId) (w : World) :
    (getState pid w).2 = (w.kill pid 0).2 := by
  rw [← isRunning_world, getState]
  rcases isRunning pid w with ⟨_ | answer, w'⟩
  · rfl
  · cases answer <;> rfl

/-- `send_signal` is one signal. -/
theorem sendSignal_world (pid : ProcessId) (signal : Int) (w : World) :
    (sendSignal pid signal w).2 = (w.kill pid signal).2 := by
  rw [sendSignal]
  rcases w.kill pid signal with ⟨_ | errno, w'⟩ <;> rfl

/-- A call that ends one process, by what it does to that pid and to others. -/
theorem holds_of_ended {α : Type} {one : OnePid} {answer : α → Answer} {r : OsalResult α × World}
    {operation : Operation} (hne : other ≠ one.val → r.2.holds other = w.holds other)
    (hok : ∀ value w', r = (.ok value, w') → w'.holds one.val = false
      ∧ ends other (operation, answer value) = decide (one.val = other))
    (herror : ∀ message w', r = (.error message, w') → w'.holds one.val = w.holds one.val
      ∧ ends other (operation, .error message) = false) :
    r.2.holds other = (!ends other (operation, (Answer.of answer r).1) && w.holds other) := by
  rcases r with ⟨message | value, w'⟩
  · obtain ⟨hsame, hends⟩ := herror message w' rfl
    show w'.holds other = (!ends other (operation, .error message) && _)
    rw [hends]
    by_cases hother : other = one.val
    · rw [hother]
      simpa using hsame
    · simpa using hne hother
  · obtain ⟨hgone, hends⟩ := hok value w' rfl
    show w'.holds other = (!ends other (operation, answer value) && _)
    rw [hends]
    by_cases hother : other = one.val
    · rw [hother, hgone]
      simp
    · have hne' : ¬ one.val = other := fun h => hother h.symm
      simpa [hne'] using hne hother

/-- The answer of a call says what has become of a pid. -/
def Accounts (operation : Operation) (w : World) (pid : ProcessId) : Prop :=
  (perform operation w).2.holds pid
    = if starts pid (operation, (perform operation w).1) then true
      else !ends pid (operation, (perform operation w).1) && w.holds pid

/-- `execute` holds the pid it answers. -/
theorem execute_accounts (command : CommandLine) (options : ProcessOptions) (w : World)
    (pid : ProcessId) : Accounts (.execute command options) w pid := by
  rw [Accounts, perform, execute]
  by_cases hprogram : command.program = []
  · rw [if_pos hprogram]
    rfl
  · rw [if_neg hprogram]
    have hforked : w.fork.2.holds pid = if w.fork.1 = .ok pid then true else w.holds pid :=
      World.holds_fork
    rcases hfork : w.fork with ⟨errno | started, w'⟩
    · rw [hfork] at hforked
      exact hforked.trans (if_neg (fun h => by cases h))
    · rw [hfork] at hforked
      show w'.holds pid = if decide (started = pid) = true then true else _
      rw [hforked]
      by_cases hpid : started = pid
      · rw [if_pos (congrArg Except.ok hpid), if_pos (decide_eq_true hpid)]
      · rw [if_neg (fun h => hpid (Except.ok.inj h)), if_neg (by simpa using hpid)]
        rfl

/-- `wait` lets go of a pid that it reports. -/
theorem wait_accounts (one : OnePid) (timeout : Int) (w : World) (pid : ProcessId) :
    Accounts (.wait one timeout) w pid := by
  rw [Accounts, perform, Answer.of_world]
  have hwaited := waitResult_waited (w := w) one.property timeout
  refine (holds_of_ended (fun hother => holds_waitResult_of_ne hother timeout) ?_ ?_).trans
    (if_neg ?_).symm
  · intro value w' hr
    rw [hr] at hwaited
    cases hwaited with
    | reported _ h => exact ⟨congrArg ChildState.holdsPid h, rfl⟩
    | none _ h _ => exact ⟨h, rfl⟩
  · intro message w' hr
    rw [hr] at hwaited
    cases hwaited with
    | timedOut _ hbefore h => exact ⟨h.trans hbefore.symm, rfl⟩
    | none hbefore h _ => exact ⟨h.trans hbefore.symm, rfl⟩
  · rcases waitResult one.val timeout w with ⟨_ | _, _⟩ <;> exact Bool.false_ne_true

/-- `terminate` lets go of a pid unless it is refused. -/
theorem terminate_accounts (one : OnePid) (timeout : Int) (w : World) (pid : ProcessId) :
    Accounts (.terminate one timeout) w pid := by
  rw [Accounts, perform, Answer.of_world]
  have hended := terminate_ended (w := w) one.property timeout
  refine (holds_of_ended (fun hother => holds_terminated_of_ne hother timeout) ?_ ?_).trans
    (if_neg ?_).symm
  · intro value w' hr
    rw [hr] at hended
    cases hended with
    | done h => exact ⟨h, rfl⟩
  · intro message w' hr
    rw [hr] at hended
    cases hended with
    | refused h => exact ⟨h, rfl⟩
  · rcases terminate one.val timeout w with ⟨_ | _, _⟩ <;> exact Bool.false_ne_true

/-- `kill` lets go of a pid unless it is refused. -/
theorem kill_accounts (one : OnePid) (w : World) (pid : ProcessId) :
    Accounts (.kill one) w pid := by
  rw [Accounts, perform, Answer.of_world]
  have hended : Ended one.val w (kill one.val w) := kill_ended
  refine (holds_of_ended (fun hother => holds_killed_of_ne hother) ?_ ?_).trans (if_neg ?_).symm
  · intro value w' hr
    rw [hr] at hended
    cases hended with
    | done h => exact ⟨h, rfl⟩
  · intro message w' hr
    rw [hr] at hended
    cases hended with
    | refused h => exact ⟨h, rfl⟩
  · rcases kill one.val w with ⟨_ | _, _⟩ <;> exact Bool.false_ne_true

/-- **One call**: the answer says what has become of the pid. -/
theorem perform_accounts (operation : Operation) (w : World) (pid : ProcessId) :
    Accounts operation w pid := by
  cases operation with
  | execute command options => exact execute_accounts command options w pid
  | wait one timeout => exact wait_accounts one timeout w pid
  | terminate one timeout => exact terminate_accounts one timeout w pid
  | kill one => exact kill_accounts one w pid
  -- the calls that only ask, and a signal, leave every process where it is
  | isRunning one =>
      rw [Accounts, perform, Answer.of_world, isRunning_world, World.holds_kill]
      rcases isRunning one.val w with ⟨_ | _, _⟩ <;> rfl
  | sendSignal one signal =>
      rw [Accounts, perform, Answer.of_world, sendSignal_world, World.holds_kill]
      rcases sendSignal one.val signal w with ⟨_ | _, _⟩ <;> rfl
  | getState one =>
      rw [Accounts, perform, Answer.of_world, getState_world, World.holds_kill]
      rcases getState one.val w with ⟨_ | _, _⟩ <;> rfl

/-- **The answers account for the pids held**, after any operations. -/
theorem holds_performAll (operations : List Operation) (history : List (Operation × Answer))
    (w : World) (h : ∀ pid, w.holds pid = outstanding pid history) (pid : ProcessId) :
    (performAll operations history w).2.holds pid
      = outstanding pid (performAll operations history w).1 := by
  induction operations generalizing history w with
  | nil => exact h pid
  | cons operation rest ih =>
      rw [performAll]
      refine ih _ _ (fun pid => ?_)
      rw [perform_accounts operation w pid, outstanding, h pid]

/-- A pid that a child holds has a process. -/
theorem isRunning_held (h : w.holds pid = true) : (isRunning pid w).1 = .ok true := by
  have hkill : (w.kill pid 0).1 = w.refused 0 := World.kill_fst h
  rw [World.refused] at hkill
  simp only [ne_eq, not_true_eq_false, false_and, if_false] at hkill
  rw [isRunning]
  rcases hkilled : w.kill pid 0 with ⟨errno, w'⟩
  rw [hkilled] at hkill
  rw [show errno = _ from hkill]
  cases w.moment.denied <;> rfl

/-- What a wait for a process answers. -/
theorem waitResult_held (h : w.holds pid = true) (hpid : 0 < pid) (timeout : Int) :
    (∃ status, (waitResult pid timeout w).1 = .ok (processResult pid status)
        ∧ (waitResult pid timeout w).2.children pid = .reaped status)
      ∨ (0 < timeout ∧ (waitResult pid timeout w).1 = .error "Wait timeout".toList) := by
  have hwaited := waitResult_waited (w := w) hpid timeout
  generalize waitResult pid timeout w = answered at hwaited ⊢
  cases hwaited with
  | reported _ hreaped => exact Or.inl ⟨_, rfl, hreaped⟩
  | timedOut htimeout _ _ => exact Or.inr ⟨htimeout, rfl⟩
  | none hbefore _ _ =>
      rw [h] at hbefore
      cases hbefore

/-- What a wait for any other pid answers. -/
theorem waitResult_free (h : w.holds pid = false) (hpid : 0 < pid) (halone : w.Alone)
    (timeout : Int) : (waitResult pid timeout w).1 = .error waitFailed := by
  have hwaited := waitResult_waited (w := w) hpid timeout
  generalize waitResult pid timeout w = answered at hwaited ⊢
  cases hwaited with
  | reported hbefore _ =>
      rw [h] at hbefore
      cases hbefore
  | timedOut _ hbefore _ =>
      rw [h] at hbefore
      cases hbefore
  | none _ _ hanswer => exact hanswer halone

/-- **The answers account for every process**, over every script and any calls
    in any order: the system holds a process for a pid exactly as long as the
    answers say that it was started and neither reported nor ended since.  Of
    such a pid a wait reports how the process has ended, unless its time is up;
    `terminate`, `kill` and `send_signal` answer as the system call does, and
    the process is said to be running.  Of any other a wait fails, if the
    launcher has no children of its own. -/
theorem executor_accounts (script : Nat → Moment) (operations : List Operation)
    (history : List (Operation × Answer)) (w : World)
    (hrun : performAll operations [] { script } = (history, w)) :
    (∀ pid, w.holds pid = outstanding pid history)
    ∧ ∀ one : OnePid,
      (outstanding one.val history = false → w.Alone → ∀ timeout,
        (waitResult one.val timeout w).1 = .error waitFailed)
      ∧ (outstanding one.val history = true →
        (∀ timeout, (∃ status, (waitResult one.val timeout w).1 = .ok (processResult one.val status)
            ∧ (waitResult one.val timeout w).2.children one.val = .reaped status)
          ∨ (0 < timeout ∧ (waitResult one.val timeout w).1 = .error "Wait timeout".toList))
        ∧ (∀ timeout, (terminate one.val timeout w).1
            = refusal "SIGTERM failed: ".toList (w.refused sigTerm))
        ∧ (kill one.val w).1 = refusal "SIGKILL failed: ".toList (w.refused sigKill)
        ∧ (∀ signal, (sendSignal one.val signal w).1
            = refusal "Send signal failed: ".toList (w.refused signal))
        ∧ (isRunning one.val w).1 = .ok true
        ∧ (getState one.val w).1 = .ok ProcessState.running) := by
  have hholds : ∀ pid, w.holds pid = outstanding pid history := by
    intro pid
    have hall := holds_performAll operations [] { script } (fun _ => rfl) pid
    rw [hrun] at hall
    exact hall
  refine ⟨hholds, fun one => ⟨fun hout halone timeout => ?_, fun hout => ?_⟩⟩
  · rw [← hholds] at hout
    exact waitResult_free hout one.property halone timeout
  · rw [← hholds] at hout
    have hrunning := isRunning_held hout
    refine ⟨fun timeout => waitResult_held hout one.property timeout,
      fun timeout => terminate_answer hout timeout, kill_answer hout, fun signal => ?_, hrunning, ?_⟩
    · have hkill : (w.kill one.val signal).1 = w.refused signal := World.kill_fst hout
      rw [sendSignal, ← hkill]
      rcases w.kill one.val signal with ⟨_ | errno, w'⟩ <;> rfl
    · rw [getState, show isRunning one.val w = (.ok true, (isRunning one.val w).2) from
        Prod.ext hrunning rfl]

/-- A process is started; a wait without timeout reports it. -/
theorem executor_accounts_echo :
    ∃ history w, performAll [.execute { program := "echo".toList } ⟨0, 0, true, true⟩] []
          { script := fun _ => { forked := .ok 7 } } = (history, w)
      ∧ w.holds 7 = true ∧ ∃ status, (waitResult 7 0 w).1 = .ok (processResult 7 status) := by
  have haccounts := executor_accounts (fun _ => { forked := .ok 7 })
    [.execute { program := "echo".toList } ⟨0, 0, true, true⟩] _ _ rfl
  refine ⟨_, _, rfl, (haccounts.1 7).trans rfl, ?_⟩
  rcases ((haccounts.2 ⟨7, by decide⟩).2 rfl).1 0 with ⟨status, hanswer, -⟩ | ⟨hfalse, -⟩
  · exact ⟨status, hanswer⟩
  · exact absurd hfalse (lt_irrefl 0)

end PosixProcessExecutor

end LaunchCpp
