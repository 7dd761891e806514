import LaunchCpp.Library.TransitionSystem
import Mathlib.Tactic.Common

/-! # The thread of a `PosixWatchdog`

    `start` and `stop` exchange `running_` atomically, and only the caller that
    has changed it goes on to `watchdog_thread_`, which no mutex protects.  Any
    number of threads call `start` and `stop`; at last one of them destroys the
    watchdog, once no other call is in progress, and nobody calls it any more.
    What `check_timeouts` does to the nodes is left to `Watchdog`.  Its callbacks
    are taken to return, without a call of `start` or `stop`, and the system
    not to be out of threads: the constructor of `std::thread` does not throw.

    The main result is `thread_joined`. -/

namespace LaunchCpp.WatchdogThread

open TransitionSystems

/-- Where `watchdog_thread` is: before it reads `running_`, in
    `check_timeouts`, in its sleep, or returned. -/
inductive Loop where
  | test
  | check
  | sleep
  | ended
  deriving DecidableEq

/-- Where a caller is.  `enter` and `leave` lie behind the `exchange` of a
    `start` and of a `stop` that changed `running_`. -/
inductive Place where
  | idle
  | enter
  | leave
  | release
  deriving DecidableEq

inductive Call where
  | start
  | stop
  | destroy
  deriving DecidableEq

inductive Agent (ι : Type*) where
  | begin (i : ι) (call : Call)
  | caller (i : ι)
  | loop (k : Nat)

/-- The members of a watchdog, the threads it has started, by number, and its
    callers.  `watchdogThread` is the number where it is joinable. -/
structure State (ι : Type*) where
  running : Bool := false
  watchdogThread : Option Nat := none
  spawned : Nat := 0
  loops : Nat → Loop := fun _ => .ended
  callers : ι → Place := fun _ => .idle
  alive : Bool := true
  terminated : Bool := false

variable {ι : Type*}

def State.move [DecidableEq ι] (s : State ι) (i : ι) (p : Place) : State ι :=
  { s with callers := Function.update s.callers i p }

def State.turn (s : State ι) (k : Nat) (l : Loop) : State ι :=
  { s with loops := Function.update s.loops k l }

/-- Behind `stop_internal`: the destructor goes on to the members. -/
def State.behindStop (s : State ι) : Place := if s.alive then .idle else .release

/-- `start_internal`, `stop_internal`, `~Impl` and `watchdog_thread`. -/
inductive Step [DecidableEq ι] (s : State ι) : Agent ι → State ι → Prop where
  | start {i : ι} (h : s.callers i = .idle) (halive : s.alive = true)
      (hrunning : s.running = false) :
      Step s (.begin i .start) { s.move i .enter with running := true }
  -- "Watchdog already running"
  | startAgain {i : ι} (h : s.callers i = .idle) (halive : s.alive = true)
      (hrunning : s.running = true) : Step s (.begin i .start) s
  | assign {i : ι} (h : s.callers i = .enter) (hthread : s.watchdogThread = none) :
      Step s (.caller i) { (s.move i .idle).turn s.spawned .test with
        watchdogThread := some s.spawned, spawned := s.spawned + 1 }
  -- a thread is assigned over one that is joinable
  | assignOver {i : ι} {k : Nat} (h : s.callers i = .enter) (hthread : s.watchdogThread = some k) :
      Step s (.caller i) { s with terminated := true }
  | stop {i : ι} (h : s.callers i = .idle) (halive : s.alive = true)
      (hrunning : s.running = true) :
      Step s (.begin i .stop) { s.move i .leave with running := false }
  -- already stopped
  | stopAgain {i : ι} (h : s.callers i = .idle) (halive : s.alive = true)
      (hrunning : s.running = false) : Step s (.begin i .stop) s
  | join {i : ι} {k : Nat} (h : s.callers i = .leave) (hthread : s.watchdogThread = some k)
      (hended : s.loops k = .ended) :
      Step s (.caller i) { s.move i s.behindStop with watchdogThread := none }
  | notJoinable {i : ι} (h : s.callers i = .leave) (hthread : s.watchdogThread = none) :
      Step s (.caller i) (s.move i s.behindStop)
  | destroy {i : ι} (h : ∀ j, s.callers j = .idle) (halive : s.alive = true)
      (hrunning : s.running = true) :
      Step s (.begin i .destroy) { s.move i .leave with running := false, alive := false }
  | destroyStopped {i : ι} (h : ∀ j, s.callers j = .idle) (halive : s.alive = true)
      (hrunning : s.running = false) :
      Step s (.begin i .destroy) { s.move i .release with alive := false }
  | release {i : ι} (h : s.callers i = .release) (hthread : s.watchdogThread = none) :
      Step s (.caller i) (s.move i .idle)
  -- a joinable thread is destroyed
  | releaseJoinable {i : ι} {k : Nat} (h : s.callers i = .release)
      (hthread : s.watchdogThread = some k) : Step s (.caller i) { s with terminated := true }
  | test {k : Nat} (h : s.loops k = .test) (hrunning : s.running = true) :
      Step s (.loop k) (s.turn k .check)
  | testStopped {k : Nat} (h : s.loops k = .test) (hrunning : s.running = false) :
      Step s (.loop k) (s.turn k .ended)
  | check {k : Nat} (h : s.loops k = .check) : Step s (.loop k) (s.turn k .sleep)
  | wake {k : Nat} (h : s.loops k = .sleep) : Step s (.loop k) (s.turn k .test)

/-- Nobody changes `running_` while another call is between its `exchange` and
    its return. -/
def Alone (s : State ι) : Agent ι → Prop
  | .begin _ .start => s.running = false → ∀ j, s.callers j = .idle
  | .begin _ .stop => s.running = true → ∀ j, s.callers j = .idle
  | _ => True

/-! ## What happens in each phase -/

/-- The life of a watchdog, as its callers see it. -/
inductive Phase (s : State ι) : Prop where
  | resting (hrunning : s.running = false) (hthread : s.watchdogThread = none)
      (hcallers : ∀ j, s.callers j = .idle) (hloops : ∀ l, s.loops l = .ended)
  | starting (i : ι) (hrunning : s.running = true) (hthread : s.watchdogThread = none)
      (hplace : s.callers i = .enter) (hcallers : ∀ j, j ≠ i → s.callers j = .idle)
      (hloops : ∀ l, s.loops l = .ended) (halive : s.alive = true)
  | watching (k : Nat) (hrunning : s.running = true) (hthread : s.watchdogThread = some k)
      (hcallers : ∀ j, s.callers j = .idle) (hloop : s.loops k ≠ .ended)
      (hloops : ∀ l, l ≠ k → s.loops l = .ended)
  | stopping (i : ι) (k : Nat) (hrunning : s.running = false) (hthread : s.watchdogThread = some k)
      (hplace : s.callers i = .leave) (hcallers : ∀ j, j ≠ i → s.callers j = .idle)
      (hloops : ∀ l, l ≠ k → s.loops l = .ended)
  | releasing (i : ι) (hrunning : s.running = false) (hthread : s.watchdogThread = none)
      (hplace : s.callers i = .release) (hcallers : ∀ j, j ≠ i → s.callers j = .idle)
      (hloops : ∀ l, s.loops l = .ended) (halive : s.alive = false)

section Places

variable {s : State ι} {i j : ι} {p : Place} {k l : Nat}

theorem State.turn_self {m : Loop} : (s.turn k m).loops k = m := Function.update_self _ _ _

theorem State.turn_other {m : Loop} (h : l ≠ k) : (s.turn k m).loops l = s.loops l :=
  Function.update_of_ne h _ _

/-- The caller in a call is the one. -/
theorem caller_eq (h : ∀ j, j ≠ i → s.callers j = .idle) (hj : s.callers j ≠ .idle) : j = i := by
  by_contra hne
  exact hj (h j hne)

variable [DecidableEq ι]

theorem State.move_self : (s.move i p).callers i = p := Function.update_self _ _ _

theorem State.move_other (h : j ≠ i) : (s.move i p).callers j = s.callers j :=
  Function.update_of_ne h _ _

/-- Back from a call, with nobody else in one. -/
theorem State.move_idle (h : ∀ j, j ≠ i → s.callers j = .idle) (j : ι) :
    (s.move i .idle).callers j = .idle := by
  by_cases hj : j = i
  · rw [hj]
    exact State.move_self
  · rw [State.move_other hj]
    exact h j hj

end Places

section Phases

variable {s : State ι} {i : ι}

/-- Between its `exchange` and its assignment a `start` has the watchdog to
    itself. -/
theorem Phase.of_enter (hs : Phase s) (h : s.callers i = .enter) :
    s.running = true ∧ s.watchdogThread = none ∧ (∀ j, j ≠ i → s.callers j = .idle)
      ∧ (∀ l, s.loops l = .ended) ∧ s.alive = true := by
  have hbusy : s.callers i ≠ .idle := by
    rw [h]
    decide
  cases hs with
  | starting i' hrunning hthread hplace hcallers hloops halive =>
      obtain rfl := caller_eq hcallers hbusy
      exact ⟨hrunning, hthread, hcallers, hloops, halive⟩
  | resting _ _ hcallers _ => exact absurd (hcallers i) hbusy
  | watching _ _ _ hcallers _ _ => exact absurd (hcallers i) hbusy
  | stopping i' _ _ _ hplace hcallers _ =>
      obtain rfl := caller_eq hcallers hbusy
      rw [h] at hplace
      cases hplace
  | releasing i' _ _ hplace hcallers _ _ =>
      obtain rfl := caller_eq hcallers hbusy
      rw [h] at hplace
      cases hplace

/-- So has a `stop` until it has joined. -/
theorem Phase.of_leave (hs : Phase s) (h : s.callers i = .leave) :
    s.running = false ∧ (∀ j, j ≠ i → s.callers j = .idle)
      ∧ ∃ k, s.watchdogThread = some k ∧ ∀ l, l ≠ k → s.loops l = .ended := by
  have hbusy : s.callers i ≠ .idle := by
    rw [h]
    decide
  cases hs with
  | stopping i' k hrunning hthread hplace hcallers hloops =>
      obtain rfl := caller_eq hcallers hbusy
      exact ⟨hrunning, hcallers, k, hthread, hloops⟩
  | resting _ _ hcallers _ => exact absurd (hcallers i) hbusy
  | watching _ _ _ hcallers _ _ => exact absurd (hcallers i) hbusy
  | starting i' _ _ hplace hcallers _ _ =>
      obtain rfl := caller_eq hcallers hbusy
      rw [h] at hplace
      cases hplace
  | releasing i' _ _ hplace hcallers _ _ =>
      obtain rfl := caller_eq hcallers hbusy
      rw [h] at hplace
      cases hplace

theorem Phase.of_release (hs : Phase s) (h : s.callers i = .release) :
    s.running = false ∧ s.watchdogThread = none ∧ (∀ j, j ≠ i → s.callers j = .idle)
      ∧ (∀ l, s.loops l = .ended) ∧ s.alive = false := by
  have hbusy : s.callers i ≠ .idle := by
    rw [h]
    decide
  cases hs with
  | releasing i' hrunning hthread hplace hcallers hloops halive =>
      obtain rfl := caller_eq hcallers hbusy
      exact ⟨hrunning, hthread, hcallers, hloops, halive⟩
  | resting _ _ hcallers _ => exact absurd (hcallers i) hbusy
  | watching _ _ _ hcallers _ _ => exact absurd (hcallers i) hbusy
  | starting i' _ _ hplace hcallers _ _ =>
      obtain rfl := caller_eq hcallers hbusy
      rw [h] at hplace
      cases hplace
  | stopping i' _ _ _ hplace hcallers _ =>
      obtain rfl := caller_eq hcallers hbusy
      rw [h] at hplace
      cases hplace

/-- While nobody is in a call, the thread is there if and only if the watchdog
    runs. -/
theorem Phase.of_idle (hs : Phase s) (h : ∀ j, s.callers j = .idle) :
    (s.running = false ∧ s.watchdogThread = none ∧ ∀ l, s.loops l = .ended)
      ∨ (s.running = true ∧ ∃ k, s.watchdogThread = some k ∧ s.loops k ≠ .ended
        ∧ ∀ l, l ≠ k → s.loops l = .ended) := by
  cases hs with
  | resting hrunning hthread _ hloops => exact Or.inl ⟨hrunning, hthread, hloops⟩
  | watching k hrunning hthread _ hloop hloops => exact Or.inr ⟨hrunning, k, hthread, hloop, hloops⟩
  | starting i _ _ hplace _ _ _ =>
      rw [h i] at hplace
      cases hplace
  | stopping i _ _ _ hplace _ _ =>
      rw [h i] at hplace
      cases hplace
  | releasing i _ _ hplace _ _ _ =>
      rw [h i] at hplace
      cases hplace

/-- A thread that has not returned is the one that will be joined. -/
theorem Phase.of_loop {k : Nat} (hs : Phase s) (h : s.loops k ≠ .ended) :
    s.watchdogThread = some k ∧ ∀ l, l ≠ k → s.loops l = .ended := by
  cases hs with
  | resting _ _ _ hloops => exact absurd (hloops k) h
  | starting _ _ _ _ _ hloops _ => exact absurd (hloops k) h
  | releasing _ _ _ _ _ hloops _ => exact absurd (hloops k) h
  | watching k' _ hthread _ _ hloops =>
      have hk : k = k' := by
        by_contra hne
        exact h (hloops k hne)
      rw [hk]
      exact ⟨hthread, hloops⟩
  | stopping _ k' _ hthread _ _ hloops =>
      have hk : k = k' := by
        by_contra hne
        exact h (hloops k hne)
      rw [hk]
      exact ⟨hthread, hloops⟩

variable [DecidableEq ι] {t : State ι} {a : Agent ι}

/-- What a step of a thread changes; while the watchdog runs it does not
    return. -/
theorem Step.of_loop {k : Nat} (h : Step s (.loop k) t) :
    s.loops k ≠ .ended ∧ ∃ m, t = s.turn k m ∧ (s.running = true → m ≠ .ended) := by
  cases h with
  | test h hrunning =>
      rw [h]
      exact ⟨by decide, _, rfl, fun _ => by decide⟩
  | testStopped h hrunning =>
      rw [h, hrunning]
      exact ⟨by decide, _, rfl, fun htrue => (by cases htrue)⟩
  | check h =>
      rw [h]
      exact ⟨by decide, _, rfl, fun _ => by decide⟩
  | wake h =>
      rw [h]
      exact ⟨by decide, _, rfl, fun _ => by decide⟩

theorem Phase.loop {k : Nat} (hs : Phase s) (h : Step s (.loop k) t) : Phase t := by
  obtain ⟨hloop, m, rfl, hgoing⟩ := h.of_loop
  obtain ⟨hthread, hothers⟩ := hs.of_loop hloop
  have hloops : ∀ l, l ≠ k → (s.turn k m).loops l = .ended := by
    intro l hl
    rw [State.turn_other hl]
    exact hothers l hl
  cases hs with
  | resting _ hnone _ _ =>
      rw [hnone] at hthread
      cases hthread
  | starting _ _ hnone _ _ _ _ =>
      rw [hnone] at hthread
      cases hthread
  | releasing _ _ hnone _ _ _ _ =>
      rw [hnone] at hthread
      cases hthread
  | watching _ hrunning _ hcallers _ _ =>
      refine .watching k hrunning hthread hcallers ?_ hloops
      rw [State.turn_self]
      exact hgoing hrunning
  | stopping i _ hrunning _ hplace hcallers _ =>
      exact .stopping i k hrunning hthread hplace hcallers hloops

/-- Behind `stop_internal` no thread is left. -/
theorem Phase.behindStop (hrunning : s.running = false) (hthread : t.watchdogThread = none)
    (hothers : ∀ j, j ≠ i → s.callers j = .idle) (hloops : ∀ l, s.loops l = .ended)
    (ht : t = { s.move i s.behindStop with watchdogThread := none }) : Phase t := by
  subst ht
  rw [State.behindStop]
  cases halive : s.alive with
  | true => exact .resting hrunning rfl (State.move_idle hothers) hloops
  | false =>
      refine .releasing i hrunning rfl State.move_self (fun j hj => ?_) hloops halive
      exact (State.move_other hj).trans (hothers j hj)

/-- A call of `start` or `stop` that changes `running_` finds nobody in a call. -/
theorem Phase.start (hs : Phase s) (hidle : ∀ j, s.callers j = .idle) (halive : s.alive = true)
    (hrunning : s.running = false) : Phase { s.move i .enter with running := true } := by
  obtain ⟨-, hthread, hloops⟩ | ⟨htrue, -⟩ := hs.of_idle hidle
  · refine .starting i rfl hthread State.move_self (fun j hj => ?_) hloops halive
    exact (State.move_other hj).trans (hidle j)
  · rw [hrunning] at htrue
    cases htrue

/-- The same for `stop` and for the destructor. -/
theorem Phase.stop (hs : Phase s) (hidle : ∀ j, s.callers j = .idle) (hrunning : s.running = true)
    (alive : Bool) : Phase { s.move i .leave with running := false, alive := alive } := by
  obtain ⟨hfalse, -⟩ | ⟨-, k, hthread, -, hloops⟩ := hs.of_idle hidle
  · rw [hrunning] at hfalse
    cases hfalse
  · refine .stopping i k rfl hthread State.move_self (fun j hj => ?_) hloops
    exact (State.move_other hj).trans (hidle j)

/-- A destructor that finds nothing to stop. -/
theorem Phase.destroyStopped (hs : Phase s) (hidle : ∀ j, s.callers j = .idle)
    (hrunning : s.running = false) : Phase { s.move i .release with alive := false } := by
  obtain ⟨-, hthread, hloops⟩ | ⟨htrue, -⟩ := hs.of_idle hidle
  · refine .releasing i hrunning hthread State.move_self (fun j hj => ?_) hloops rfl
    exact (State.move_other hj).trans (hidle j)
  · rw [hrunning] at htrue
    cases htrue

/-- The thread is started, and the call of `start` returns. -/
theorem Phase.assign (hs : Phase s) (h : s.callers i = .enter) :
    Phase { (s.move i .idle).turn s.spawned .test with
      watchdogThread := some s.spawned, spawned := s.spawned + 1 } := by
  obtain ⟨hrunning, -, hcallers, hloops, -⟩ := hs.of_enter h
  refine .watching s.spawned hrunning rfl (State.move_idle hcallers) ?_ (fun l hl => ?_)
  · show (s.turn s.spawned .test).loops s.spawned ≠ .ended
    rw [State.turn_self]
    decide
  · exact (State.turn_other hl).trans (hloops l)

/-- The thread is joined. -/
theorem Phase.join {k : Nat} (hs : Phase s) (h : s.callers i = .leave)
    (hthread : s.watchdogThread = some k) (hended : s.loops k = .ended) :
    Phase { s.move i s.behindStop with watchdogThread := none } := by
  obtain ⟨hrunning, hcallers, k', hthread', hloops⟩ := hs.of_leave h
  obtain rfl : k = k' := by
    rw [hthread] at hthread'
    exact Option.some.inj hthread'
  refine .behindStop hrunning rfl hcallers (fun l => ?_) rfl
  by_cases hl : l = k
  · rw [hl]
    exact hended
  · exact hloops l hl

/-- **One step** of a call or of the thread. -/
theorem Phase.step (hs : Phase s) (h : Step s a t) (ha : Alone s a) : Phase t := by
  cases h with
  | start h halive hrunning => exact hs.start (ha hrunning) halive hrunning
  | startAgain _ _ _ => exact hs
  | assign h hthread => exact hs.assign h
  | assignOver h hthread =>
      rw [(hs.of_enter h).2.1] at hthread
      cases hthread
  | stop h halive hrunning => exact hs.stop (ha hrunning) hrunning s.alive
  | stopAgain _ _ _ => exact hs
  | join h hthread hended => exact hs.join h hthread hended
  | notJoinable h hthread =>
      obtain ⟨-, -, k, hsome, -⟩ := hs.of_leave h
      rw [hthread] at hsome
      cases hsome
  | destroy h halive hrunning => exact hs.stop h hrunning false
  | destroyStopped h halive hrunning => exact hs.destroyStopped h hrunning
  | @release i h hthread =>
      obtain ⟨hrunning, -, hcallers, hloops, -⟩ := hs.of_release h
      exact .resting hrunning hthread (State.move_idle hcallers) hloops
  | releaseJoinable h hthread =>
      rw [(hs.of_release h).2.1] at hthread
      cases hthread
  | test h hrunning => exact hs.loop (.test h hrunning)
  | testStopped h hrunning => exact hs.loop (.testStopped h hrunning)
  | check h => exact hs.loop (.check h)
  | wake h => exact hs.loop (.wake h)

/-- Only over a joinable thread the program is ended. -/
theorem Phase.not_terminated (hs : Phase s) (h : Step s a t) (hlive : s.terminated = false) :
    t.terminated = false := by
  cases h with
  | assignOver h hthread =>
      rw [(hs.of_enter h).2.1] at hthread
      cases hthread
  | releaseJoinable h hthread =>
      rw [(hs.of_release h).2.1] at hthread
      cases hthread
  | _ => exact hlive

/-! ## A `stop` returns -/

/-- No call begins. -/
def Agent.Continues : Agent ι → Prop
  | .begin _ _ => False
  | _ => True

def Loop.left : Loop → Nat
  | .test => 1
  | .check => 3
  | .sleep => 2
  | .ended => 0

def Place.left : Place → Nat
  | .leave => 2
  | .release => 1
  | _ => 0

/-- Steps until the thread has returned, once `running_` is false. -/
def State.loopLeft (s : State ι) : Nat :=
  match s.watchdogThread with
  | none => 0
  | some k => (s.loops k).left

/-- The watchdog does not run, and at most the one caller is in a call. -/
structure Stopping (i : ι) (s : State ι) : Prop where
  phase : Phase s
  running : s.running = false
  others : ∀ j, j ≠ i → s.callers j = .idle

omit [DecidableEq ι] in
theorem Stopping.caller {j : ι} (hs : Stopping i s) (h : s.callers j ≠ .idle) : j = i :=
  caller_eq hs.others h

omit [DecidableEq ι] in
theorem State.loopLeft_turn {k : Nat} {m : Loop} (hthread : s.watchdogThread = some k) :
    (s.turn k m).loopLeft = m.left := by
  show (match s.watchdogThread with
    | none => 0
    | some k' => ((s.turn k m).loops k').left) = m.left
  rw [hthread]
  show ((s.turn k m).loops k).left = m.left
  rw [State.turn_self]

/-- A step of the thread. -/
theorem Stopping.loop {k : Nat} (hs : Stopping i s) (h : Step s (.loop k) t) :
    Stopping i t ∧ t.callers = s.callers ∧ t.loopLeft < s.loopLeft := by
  have hthread := (hs.phase.of_loop h.of_loop.1).1
  have hleft : s.loopLeft = (s.loops k).left := by
    rw [State.loopLeft, hthread]
  have hphase := hs.phase.loop h
  cases h with
  | test h hrunning =>
      rw [hs.running] at hrunning
      cases hrunning
  | testStopped h hrunning =>
      refine ⟨⟨hphase, hs.running, hs.others⟩, rfl, ?_⟩
      rw [State.loopLeft_turn hthread, hleft, h]
      decide
  | check h =>
      refine ⟨⟨hphase, hs.running, hs.others⟩, rfl, ?_⟩
      rw [State.loopLeft_turn hthread, hleft, h]
      decide
  | wake h =>
      refine ⟨⟨hphase, hs.running, hs.others⟩, rfl, ?_⟩
      rw [State.loopLeft_turn hthread, hleft, h]
      decide

omit [DecidableEq ι] in
theorem State.behindStop_left (s : State ι) : s.behindStop.left < Place.leave.left := by
  rw [State.behindStop]
  cases s.alive <;> decide

theorem Stopping.step (hs : Stopping i s) (h : Under (fun _ => Agent.Continues) Step s a t) :
    Stopping i t
      ∧ (t.callers i).left + t.loopLeft < (s.callers i).left + s.loopLeft := by
  obtain ⟨hcontinues, h⟩ := h
  have hmoved : ∀ p j, j ≠ i → (s.move i p).callers j = .idle := by
    intro p j hj
    exact (State.move_other hj).trans (hs.others j hj)
  have hphase : Phase t := hs.phase.step h (by
    cases a with
    | begin _ _ => exact False.elim hcontinues
    | caller _ => exact trivial
    | loop _ => exact trivial)
  cases a with
  | begin _ _ => exact False.elim hcontinues
  | loop k =>
      obtain ⟨ht, hcallers, hlt⟩ := hs.loop h
      rw [hcallers]
      exact ⟨ht, Nat.add_lt_add_left hlt _⟩
  | caller j =>
      have hplace : s.callers j ≠ .idle := by
        cases h <;>
        simp_all
      obtain rfl := hs.caller hplace
      cases h with
      | assign h _ =>
          have htrue := (hs.phase.of_enter h).1
          rw [hs.running] at htrue
          cases htrue
      | assignOver h hthread =>
          rw [(hs.phase.of_enter h).2.1] at hthread
          cases hthread
      | @join _ k h hthread hended =>
          refine ⟨⟨hphase, hs.running, hmoved _⟩, ?_⟩
          show ((s.move j s.behindStop).callers j).left + 0 < _
          rw [State.move_self, h]
          exact Nat.lt_of_lt_of_le s.behindStop_left (Nat.le_add_right _ _)
      | notJoinable h hthread =>
          obtain ⟨-, -, k, hsome, -⟩ := hs.phase.of_leave h
          rw [hthread] at hsome
          cases hsome
      | release h hthread =>
          refine ⟨⟨hphase, hs.running, hmoved _⟩, ?_⟩
          rw [State.move_self, h]
          exact Nat.add_lt_add_right (show Place.idle.left < Place.release.left by decide) _
      | releaseJoinable h hthread =>
          rw [(hs.phase.of_release h).2.1] at hthread
          cases hthread

/-- Where no step is left, the call has returned and the thread has ended. -/
theorem Stopping.done (hs : Stopping i s)
    (hstuck : ∀ a t, ¬ Under (fun _ => Agent.Continues) Step s a t) :
    (∀ j, s.callers j = .idle) ∧ s.watchdogThread = none ∧ ∀ l, s.loops l = .ended := by
  have hidle : s.callers i = .idle := by
    cases hplace : s.callers i with
    | idle => rfl
    | enter =>
        have htrue := (hs.phase.of_enter hplace).1
        rw [hs.running] at htrue
        cases htrue
    | leave =>
        obtain ⟨-, -, k, hthread, -⟩ := hs.phase.of_leave hplace
        cases hloop : s.loops k with
        | test => exact absurd ⟨trivial, .testStopped hloop hs.running⟩ (hstuck (.loop k) _)
        | check => exact absurd ⟨trivial, .check hloop⟩ (hstuck (.loop k) _)
        | sleep => exact absurd ⟨trivial, .wake hloop⟩ (hstuck (.loop k) _)
        | ended => exact absurd ⟨trivial, .join hplace hthread hloop⟩ (hstuck (.caller i) _)
    | release =>
        have hthread := (hs.phase.of_release hplace).2.1
        exact absurd ⟨trivial, .release hplace hthread⟩ (hstuck (.caller i) _)
  have hcallers : ∀ j, s.callers j = .idle := by
    intro j
    by_contra hj
    have heq := hs.caller hj
    rw [heq] at hj
    exact hj hidle
  obtain ⟨-, hthread, hloops⟩ | ⟨htrue, -⟩ := hs.phase.of_idle hcallers
  · exact ⟨hcallers, hthread, hloops⟩
  · rw [hs.running] at htrue
    cases htrue

omit [DecidableEq ι] in
/-- Five steps are enough: three of the thread, two of the caller. -/
theorem Stopping.left_le (s : State ι) : (s.callers i).left + s.loopLeft ≤ 5 := by
  have hplace : (s.callers i).left ≤ 2 := by
    cases s.callers i <;> decide
  have hloop : s.loopLeft ≤ 3 := by
    rw [State.loopLeft]
    cases s.watchdogThread with
    | none => exact Nat.zero_le 3
    | some k =>
        show (s.loops k).left ≤ 3
        cases s.loops k <;> decide
  omega

/-! ## Calls that overlap -/

/-- A call that changes `running_` during another can end the program. -/
theorem Phase.overlap (hs : Phase s) (h : Step s a t) (ha : ¬ Alone s a) :
    ∃ u, Steps Step t u ∧ u.terminated = true := by
  cases h with
  | @start i h halive hrunning =>
      simp only [Alone, hrunning, forall_const, not_forall] at ha
      obtain ⟨j, hj⟩ := ha
      have hne : j ≠ i := by
        rintro rfl
        exact hj h
      cases hplace : s.callers j with
      | idle => exact absurd hplace hj
      | enter =>
          rw [(hs.of_enter hplace).1] at hrunning
          cases hrunning
      | leave =>
          -- the thread is not joined yet
          obtain ⟨-, -, k, hthread, -⟩ := hs.of_leave hplace
          exact ⟨_, .single (.assignOver State.move_self hthread), rfl⟩
      | release =>
          rw [(hs.of_release hplace).2.2.2.2] at halive
          cases halive
  | @stop i h halive hrunning =>
      simp only [Alone, hrunning, forall_const, not_forall] at ha
      obtain ⟨j, hj⟩ := ha
      have hne : j ≠ i := by
        rintro rfl
        exact hj h
      cases hplace : s.callers j with
      | idle => exact absurd hplace hj
      | leave =>
          rw [(hs.of_leave hplace).1] at hrunning
          cases hrunning
      | release =>
          rw [(hs.of_release hplace).1] at hrunning
          cases hrunning
      | enter =>
          -- the thread is assigned behind the `stop`, and again by the next `start`
          obtain ⟨-, hthread, -⟩ := hs.of_enter hplace
          have hassign := Steps.single (Step.assign (s := { s.move i .leave with running := false })
            (i := j) ((State.move_other hne).trans hplace) hthread)
          have hstart := hassign.next (.start (i := j) State.move_self halive rfl)
          exact ⟨_, hstart.next (.assignOver (i := j) State.move_self rfl), rfl⟩
  | startAgain _ _ hrunning =>
      simp only [Alone, hrunning] at ha
      exact absurd (fun heq => (by cases heq)) ha
  | stopAgain _ _ hrunning =>
      simp only [Alone, hrunning] at ha
      exact absurd (fun heq => (by cases heq)) ha
  | _ => exact absurd trivial ha

/-- **One thread at most, and always joined**, as long as nobody changes
    `running_` during another call: the program is not ended; one caller at a
    time is at `watchdog_thread_`; between calls the thread is there if and only
    if the watchdog runs; and a `stop`, or the destructor, that has found it
    running is back after five steps at most, with no thread left.  A `start` or
    a `stop` that does change `running_` during another call can end the
    program. -/
theorem thread_joined (h : Steps (Under Alone Step) ({} : State ι) s) :
    s.terminated = false
      ∧ (∀ i j, s.callers i ≠ .idle → s.callers j ≠ .idle → i = j)
      ∧ (∀ k l, s.loops k ≠ .ended → s.loops l ≠ .ended → k = l)
      ∧ ((∀ i, s.callers i = .idle) →
        (s.running = false ∧ s.watchdogThread = none ∧ ∀ l, s.loops l = .ended)
          ∨ (s.running = true ∧ ∃ k, s.watchdogThread = some k ∧ s.loops k ≠ .ended
            ∧ ∀ l, l ≠ k → s.loops l = .ended))
      ∧ (∀ i, s.callers i = .leave ∨ s.callers i = .release →
        ∀ n t, StepsIn (Under (fun _ => Agent.Continues) Step) s n t → n ≤ 5
          ∧ ((∀ a u, ¬ Under (fun _ => Agent.Continues) Step t a u) →
            (∀ j, t.callers j = .idle) ∧ t.watchdogThread = none ∧ ∀ l, t.loops l = .ended))
      ∧ ∀ a t, Step s a t → ¬ Alone s a → ∃ u, Steps Step t u ∧ u.terminated = true := by
  obtain ⟨hphase, hlive⟩ : Phase s ∧ s.terminated = false := by
    refine h.invariant (P := fun s => Phase s ∧ s.terminated = false) ?_
      ⟨.resting rfl rfl (fun _ => rfl) (fun _ => rfl), rfl⟩
    rintro s a t ⟨hs, hlive⟩ ⟨ha, hstep⟩
    exact ⟨hs.step hstep ha, hs.not_terminated hstep hlive⟩
  refine ⟨hlive, fun i j hi hj => ?_, fun k l hk hl => ?_, hphase.of_idle, fun i hi => ?_,
    fun a t hstep ha => hphase.overlap hstep ha⟩
  · have hothers : ∀ j, j ≠ i → s.callers j = .idle := by
      cases hplace : s.callers i with
      | idle => exact absurd hplace hi
      | enter => exact (hphase.of_enter hplace).2.2.1
      | leave => exact (hphase.of_leave hplace).2.1
      | release => exact (hphase.of_release hplace).2.2.1
    exact (caller_eq hothers hj).symm
  · by_contra hne
    exact hl ((hphase.of_loop hk).2 l (Ne.symm hne))
  · have hs : Stopping i s := by
      rcases hi with hi | hi
      · obtain ⟨hrunning, hothers, -⟩ := hphase.of_leave hi
        exact ⟨hphase, hrunning, hothers⟩
      · obtain ⟨hrunning, -, hothers, -⟩ := hphase.of_release hi
        exact ⟨hphase, hrunning, hothers⟩
    intro n t hpath
    have ht : Stopping i t := hpath.steps.invariant (fun hs hstep => (hs.step hstep).1) hs
    have hbound := hpath.bounded (fun s => (s.callers i).left + s.loopLeft)
      (fun hs hstep => (hs.step hstep).1) (fun hs hstep => (hs.step hstep).2) hs
    have hleft := Stopping.left_le (i := i) s
    refine ⟨?_, ht.done⟩
    omega

/-- A `stop` while the thread sleeps. -/
theorem thread_joined_asleep : ∃ s : State Bool, Steps (Under Alone Step) {} s
    ∧ s.callers true = .leave ∧ s.loops 0 = .sleep
    ∧ ∀ n t, StepsIn (Under (fun _ => Agent.Continues) Step) s n t → n ≤ 5
      ∧ ((∀ a u, ¬ Under (fun _ => Agent.Continues) Step t a u) →
        (∀ j, t.callers j = .idle) ∧ t.watchdogThread = none ∧ ∀ l, t.loops l = .ended) := by
  have hstart : Steps (Under Alone Step) ({} : State Bool) _ :=
    .single (a := .begin false .start) ⟨fun _ _ => rfl, .start rfl rfl rfl⟩
  have hassign := hstart.next (a := Agent.caller false) ⟨trivial, .assign rfl rfl⟩
  have htest := hassign.next (a := Agent.loop 0) ⟨trivial, .test rfl rfl⟩
  have hcheck := htest.next (a := Agent.loop 0) ⟨trivial, .check rfl⟩
  have hstop := hcheck.next (a := Agent.begin true Call.stop)
    ⟨fun _ j => (by cases j <;> rfl), .stop rfl rfl rfl⟩
  obtain ⟨-, -, -, -, hback, -⟩ := thread_joined hstop
  exact ⟨_, hstop, rfl, rfl, hback true (Or.inl rfl)⟩

end Phases

end LaunchCpp.WatchdogThread
