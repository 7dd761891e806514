import LaunchCpp.ProcessControl
import Mathlib.Data.Finset.Insert

/-! # Processes of a POSIX system

    The system calls of `Process` and `PosixProcessExecutor` over a table of
    child processes.  What is not in the hands of the caller stands in a
    SCRIPT: for each system call, which children exit before it, what `fork`
    answers, with which status a child that is waited for ends.  A statement
    about every script is one about every interleaving of exits and calls.

    The children in the table are those forked here.  A child that has exited
    keeps its pid until a `waitpid` reaps it; then the pid is free, and the
    system may give it to a STRANGER: a process that is no child of the
    launcher, or another child of it, which `waitpid` finds as well.  `kill`
    may be denied, since whoever has the pid may have changed its user.
    `sent` records the signals with the state their target was in. -/

namespace LaunchCpp

/-- `errno` after a failed call. -/
inductive Errno where
  | esrch
  | eperm
  | eagain
  | echild
  | einval
  deriving DecidableEq, Repr

/-- `std::strerror`. -/
def strerror : Errno → Str
  | .esrch => "No such process".toList
  | .eperm => "Operation not permitted".toList
  | .eagain => "Resource temporarily unavailable".toList
  | .echild => "No child processes".toList
  | .einval => "Invalid argument".toList

/-- What `waitpid` reports: `WIFEXITED` with `WEXITSTATUS`, or a signal. -/
inductive ExitStatus where
  | exited (code : UInt8)
  | signaled (signal : Nat)
  deriving DecidableEq

/-- What has become of a pid. -/
inductive ChildState where
  | noChild
  | running
  | zombie (status : ExitStatus)
  | reaped (status : ExitStatus)
  deriving DecidableEq

namespace ChildState

/-- A child that has not been reaped holds its pid. -/
def holdsPid : ChildState → Bool
  | .running => true
  | .zombie _ => true
  | _ => false

def isReaped : ChildState → Bool
  | .reaped _ => true
  | _ => false

/-- The status of a child that has exited. -/
def status : ChildState → Option ExitStatus
  | .zombie status => some status
  | .reaped status => some status
  | _ => none

end ChildState

/-- Who has a pid that no child in the table holds. -/
inductive Stranger where
  | nobody
  | process
  | runningChild
  | exitedChild (status : ExitStatus)
  deriving DecidableEq

/-- Another child of the launcher. -/
def Stranger.isChild : Stranger → Bool
  | .runningChild => true
  | .exitedChild _ => true
  | _ => false

/-- What happens around one system call: who exits, what `fork` answers, how a
    child ends that is waited for, who else has the pid in question, and
    whether a signal to it is denied. -/
structure Moment where
  exits : ProcessId → Option ExitStatus := fun _ => none
  forked : Except Errno ProcessId := .error .eagain
  ended : ExitStatus := .exited 0
  stranger : Stranger := .nobody
  denied : Bool := false
  polls : Nat := 0
  resources : OsalResult Bool := .ok true

/-- The numbers of signals; 0 only asks, and the last one is `SIGRTMAX`. -/
def isSignal (signal : Int) : Bool := 1 ≤ signal && signal ≤ 64

/-- A signal that was sent, and the state its target was in. -/
structure Sent where
  pid : ProcessId
  signal : Int
  target : ChildState
  deriving DecidableEq

/-- The children and their `Process` objects, the signals sent, the last
    child, and the script. -/
structure World where
  script : Nat → Moment
  now : Nat := 0
  children : ProcessId → ChildState := fun _ => .noChild
  returnCode : ProcessId → Int := fun _ => -1
  sent : List Sent := []
  forked : Option ProcessId := none

namespace World

variable (w : World) (pid : ProcessId)

/-- What the script says now. -/
def moment : Moment := w.script w.now

/-- A running child exits where the script says so. -/
def exit (m : Moment) (pid : ProcessId) : ChildState → ChildState
  | .running =>
      match m.exits pid with
      | some status => .zombie status
      | none => .running
  | state => state

/-- The children as the next system call finds them. -/
def tick : World :=
  { w with now := w.now + 1, children := fun pid => exit w.moment pid (w.children pid) }

def setChild (state : ChildState) : World :=
  { w with children := Function.update w.children pid state }

/-- `fork`.  A pid that a child holds is not given out again; the `Process`
    made for the new one begins with the return code -1. -/
def fork : Except Errno ProcessId × World :=
  match w.moment.forked with
  | .error errno => (.error errno, w.tick)
  | .ok pid =>
      if 0 < pid ∧ (w.tick.children pid).holdsPid = false then
        (.ok pid, { w.tick.setChild pid .running with
          returnCode := Function.update w.returnCode pid (-1)
          forked := some pid })
      else (.error .eagain, w.tick)

/-- A process has the pid now: the child itself, also as a zombie, or a
    stranger. -/
def pidTaken : Bool := (w.tick.children pid).holdsPid || w.moment.stranger ≠ .nobody

/-- `waitpid(pid, &status, WNOHANG)`. -/
def waitNoHang : ProcessId × World :=
  match w.tick.children pid with
  | .running => (0, w.tick)
  | .zombie status => (pid, w.tick.setChild pid (.reaped status))
  | _ =>
      match w.moment.stranger with
      | .runningChild => (0, w.tick)
      | .exitedChild _ => (pid, w.tick)
      | _ => (-1, w.tick)

/-- What it stores in `status`. -/
def polledStatus : Option ExitStatus :=
  match w.tick.children pid with
  | .running => none
  | .zombie status => some status
  | _ =>
      match w.moment.stranger with
      | .exitedChild status => some status
      | _ => none

/-- `waitpid(pid, &status, 0)`: the status, or -1. -/
def waitpid : Option ExitStatus × World :=
  match w.tick.children pid with
  | .running => (some w.moment.ended, w.tick.setChild pid (.reaped w.moment.ended))
  | .zombie status => (some status, w.tick.setChild pid (.reaped status))
  | _ =>
      match w.moment.stranger with
      | .runningChild => (some w.moment.ended, w.tick)
      | .exitedChild status => (some status, w.tick)
      | _ => (none, w.tick)

/-- Why `kill` refuses a signal to a process that is there. -/
def refused (signal : Int) : Option Errno :=
  if signal ≠ 0 ∧ isSignal signal = false then some .einval
  else if w.moment.denied then some .eperm
  else none

/-- What `kill` answers. -/
def killed (signal : Int) : Option Errno :=
  if w.pidTaken pid then w.refused signal else some .esrch

/-- `kill(pid, signal)`; a zombie can be signalled, signal 0 only asks. -/
def kill (signal : Int) : Option Errno × World :=
  let sent :=
    if isSignal signal then w.sent ++ [⟨pid, signal, w.tick.children pid⟩] else w.sent
  (w.killed pid signal, { w.tick with sent })

end World

/-! ## `Process` -/

namespace Process

/-- `Process::wait`. -/
def wait (pid : ProcessId) (w : World) : World :=
  match w.waitpid pid with
  | (some (.exited code), w) =>
      { w with returnCode := Function.update w.returnCode pid code.toNat }
  | (_, w) => w

/-- `Process::is_running`. -/
def isRunning (pid : ProcessId) (w : World) : Bool × World :=
  match w.waitNoHang pid with
  | (result, w) => (result = 0, w)

end Process

/-! ## `PosixProcessExecutor` -/

namespace PosixProcessExecutor

/-- `execute_internal`, in the parent. -/
def execute (command : CommandLine) (_ : ProcessOptions) (w : World) :
    OsalResult ProcessId × World :=
  if command.program = [] then (.error "Program path is empty".toList, w)
  else
    match w.fork with
    | (.error errno, w) => (.error ("Fork failed: ".toList ++ strerror errno), w)
    | (.ok pid, w) => (.ok pid, w)

/-- How a loop of polls is left. -/
inductive Polled where
  | exited (status : ExitStatus)
  | timedOut
  | failed
  deriving DecidableEq

/-- The loops that poll with `WNOHANG`; the argument is the number of polls
    that are made before the timeout is seen to be over.  `status` is 0 at
    the start. -/
def poll (pid : ProcessId) : Nat → World → Polled × World
  | polls, w =>
      let status := (w.polledStatus pid).getD (.exited 0)
      match w.waitNoHang pid with
      | (result, w) =>
          if result = pid then (.exited status, w)
          else if result = 0 then
            match polls with
            | 0 => (.timedOut, w)
            | polls + 1 => poll pid polls w
          else (.failed, w)

/-- `wait_internal`, without its result, which no caller reads. -/
def wait (pid : ProcessId) (timeout : Int) (w : World) : World :=
  if 0 < timeout then (poll pid w.moment.polls w).2
  else (w.waitpid pid).2

/-- `is_running_internal`. -/
def isRunning (pid : ProcessId) (w : World) : OsalResult Bool × World :=
  match w.kill pid 0 with
  | (none, w) => (.ok true, w)
  | (some .esrch, w) => (.ok false, w)
  | (some .eperm, w) => (.ok true, w)
  | (some errno, w) => (.error ("Check failed: ".toList ++ strerror errno), w)

/-- `terminate_internal`. -/
def terminate (pid : ProcessId) (_ : Int) (w : World) : OsalResult Unit × World :=
  match w.kill pid sigTerm with
  | (some .esrch, w) => (.ok (), w)
  | (some errno, w) => (.error ("SIGTERM failed: ".toList ++ strerror errno), w)
  | (none, w) =>
      match poll pid w.moment.polls w with
      | (.timedOut, w) => (.ok (), ((w.kill pid sigKill).2.waitpid pid).2)
      | (_, w) => (.ok (), w)

/-- `kill_internal`. -/
def kill (pid : ProcessId) (w : World) : OsalResult Unit × World :=
  match w.kill pid sigKill with
  | (some .esrch, w) => (.ok (), w)
  | (some errno, w) => (.error ("SIGKILL failed: ".toList ++ strerror errno), w)
  | (none, w) => (.ok (), (w.waitpid pid).2)

/-- `send_signal_internal`. -/
def sendSignal (pid : ProcessId) (signal : Int) (w : World) : OsalResult Unit × World :=
  match w.kill pid signal with
  | (some errno, w) => (.error ("Send signal failed: ".toList ++ strerror errno), w)
  | (none, w) => (.ok (), w)

end PosixProcessExecutor

/-! ## The system an action runs on -/

/-- `PosixProcessExecutor`, as `execute` uses it. -/
def posixProcessExecutor : ProcessExecutor World where
  execute := PosixProcessExecutor.execute
  wait := PosixProcessExecutor.wait

/-- `PosixResourceMonitor`: its answer stands in the script. -/
def posixResourceMonitor : ResourceMonitor World where
  areResourcesAvailable _ w := (w.moment.resources, w.tick)
  setResourceLimits _ _ _ w := w

/-- The calls of a watchdog, none of which touches a process. -/
def untouchedWatchdog : Watchdog World where
  registerNode _ _ w := w
  unregisterNode _ w := w

def posixSystem : System World where
  posix :=
    { fork := fun _ w =>
        match w.fork with
        | (.ok pid, w) => (pid, w)
        | (.error _, w) => (-1, w)
      waitpid := Process.wait
      isRunning := Process.isRunning
      sigterm := fun pid w => (w.kill pid sigTerm).2 }
  control :=
    { isRunning := PosixProcessExecutor.isRunning
      terminate := PosixProcessExecutor.terminate
      kill := PosixProcessExecutor.kill
      sendSignal := PosixProcessExecutor.sendSignal }
  signal pid signal w := (w.kill pid signal).2
  returnCode pid w := w.returnCode pid
  startWatchdog w := w
  stopWatchdog w := w

/-- An action as it is constructed. -/
def Session.start (options : ExecuteProcess.Options) (script : Nat → Moment) : Session World :=
  match ExecuteProcess.construct posixSystem posixProcessExecutor posixResourceMonitor
      untouchedWatchdog options { script } with
  | (self, world) => { self, world }

end LaunchCpp
