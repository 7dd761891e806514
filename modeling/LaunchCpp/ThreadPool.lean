import LaunchCpp.Basic
import LaunchCpp.Library.Counting
import LaunchCpp.Library.TransitionSystem

/-! # `ThreadPool`: workers, `submit` and `shutdown` interleaved

    `n` workers, any number of `submit` calls and one call of `shutdown`, each
    at a point of its function.  A step is one access of `status_`, one
    operation on `queue_mutex_` or `condition_`, or what happens to the queue
    while the mutex is held.  A `submit` call may be made by any thread, a
    running task included, so nothing ties its steps to a worker.

    The main result is `run_exactly_once`, on what was queued before the pool
    began to shut down. -/

namespace LaunchCpp

open TransitionSystems Counting

/-- `ThreadPoolStatus`. -/
inductive ThreadPoolStatus where
  | running
  | shuttingDown
  | stopped
  deriving DecidableEq, Repr

namespace ThreadPool

/-- Where a worker is in `worker_thread`.  It holds the mutex at `predicate`,
    `block` and `check`; a thread woken in `condition_.wait` locks the mutex
    and evaluates the predicate again, as one that has just come. -/
inductive WorkerPc (ι : Type) where
  | lock
  | predicate
  | block
  | asleep
  | check
  | took (task : ι)
  | run (task : ι)
  | exited
  deriving DecidableEq

/-- Where a call of `submit` is. -/
inductive SubmitPc where
  | load
  | push
  | notify
  | returned (error : Error)
  deriving DecidableEq

/-- Where the call of `shutdown` is; at `join i` it waits for worker `i`. -/
inductive ShutdownPc where
  | exchange
  | notify
  | join (i : Nat)
  | returned
  deriving DecidableEq

/-- The members of the pool, the point every thread is at, and a record of
    the calls of `submit` whose tasks went through the queue.  A task goes by
    its call, an element of `ι`. -/
structure State (n : Nat) (ι : Type) where
  status : ThreadPoolStatus := .running
  taskQueue : List ι := []
  queueMutex : Option (Fin n) := none
  workers : Fin n → WorkerPc ι := fun _ => .lock
  submits : ι → SubmitPc := fun _ => .load
  shutdown : ShutdownPc := .exchange
  enqueued : List ι := []
  dequeued : List ι := []
  skipped : List ι := []
  started : List ι := []
  finished : List ι := []

/-- The threads of an interleaving. -/
inductive Thread (n : Nat) (ι : Type) where
  | worker (w : Fin n)
  | submit (c : ι)
  | shutdown
  deriving DecidableEq

/-- `"Thread pool is not running"`. -/
def notRunning : Error := ⟨.internalError, "Thread pool is not running".toList⟩

/-- What `notify_all` does to a worker: only a sleeping one wakes. -/
def WorkerPc.notified {ι : Type} : WorkerPc ι → WorkerPc ι
  | .asleep => .lock
  | pc => pc

section Steps

variable {n : Nat} {ι : Type}

/-- The predicate of `condition_.wait`. -/
def State.Ready (s : State n ι) : Prop := s.taskQueue ≠ [] ∨ s.status ≠ .running

def State.moveWorker (s : State n ι) (w : Fin n) (pc : WorkerPc ι) : State n ι :=
  { s with workers := Function.update s.workers w pc }

variable [DecidableEq ι]

instance decidableReady (s : State n ι) : Decidable s.Ready :=
  inferInstanceAs (Decidable (s.taskQueue ≠ [] ∨ s.status ≠ .running))

def State.moveSubmit (s : State n ι) (c : ι) (pc : SubmitPc) : State n ι :=
  { s with submits := Function.update s.submits c pc }

variable (callable : ι → Prop)

/-- `worker_thread`. -/
inductive WorkerStep (s : State n ι) (w : Fin n) : State n ι → Prop
  | acquire (h : s.workers w = .lock) (hfree : s.queueMutex = none) :
      WorkerStep s w { s.moveWorker w .predicate with queueMutex := some w }
  | ready (h : s.workers w = .predicate) (hready : s.Ready) :
      WorkerStep s w (s.moveWorker w .check)
  | wait (h : s.workers w = .predicate) (hready : ¬ s.Ready) :
      WorkerStep s w (s.moveWorker w .block)
  -- releasing the mutex and falling asleep are one step
  | sleep (h : s.workers w = .block) :
      WorkerStep s w { s.moveWorker w .asleep with queueMutex := none }
  | spurious (h : s.workers w = .asleep) : WorkerStep s w (s.moveWorker w .lock)
  | exit (h : s.workers w = .check) (hstatus : s.status ≠ .running)
      (hempty : s.taskQueue = []) :
      WorkerStep s w { s.moveWorker w .exited with queueMutex := none }
  | take {c : ι} {rest : List ι} (h : s.workers w = .check) (hfront : s.taskQueue = c :: rest) :
      WorkerStep s w
        { s.moveWorker w (.took c) with
          queueMutex := none
          taskQueue := rest
          dequeued := s.dequeued ++ [c] }
  -- `task` stays empty, and the loop begins anew
  | again (h : s.workers w = .check) (hstatus : s.status = .running)
      (hempty : s.taskQueue = []) :
      WorkerStep s w { s.moveWorker w .lock with queueMutex := none }
  | skip {c : ι} (h : s.workers w = .took c) (hcallable : ¬ callable c) :
      WorkerStep s w { s.moveWorker w .lock with skipped := s.skipped ++ [c] }
  | start {c : ι} (h : s.workers w = .took c) (hcallable : callable c) :
      WorkerStep s w { s.moveWorker w (.run c) with started := s.started ++ [c] }
  | finish {c : ι} (h : s.workers w = .run c) :
      WorkerStep s w { s.moveWorker w .lock with finished := s.finished ++ [c] }

/-- `submit`. -/
inductive SubmitStep (s : State n ι) (c : ι) : State n ι → Prop
  | load (h : s.submits c = .load) (hstatus : s.status = .running) :
      SubmitStep s c (s.moveSubmit c .push)
  | refuse (h : s.submits c = .load) (hstatus : s.status ≠ .running) :
      SubmitStep s c (s.moveSubmit c (.returned notRunning))
  | push (h : s.submits c = .push) (hfree : s.queueMutex = none) :
      SubmitStep s c
        { s.moveSubmit c .notify with
          taskQueue := s.taskQueue ++ [c]
          enqueued := s.enqueued ++ [c] }
  | notifyOne {w : Fin n} (h : s.submits c = .notify) (hasleep : s.workers w = .asleep) :
      SubmitStep s c ((s.moveWorker w .lock).moveSubmit c (.returned Error.ok))
  | notifyNone (h : s.submits c = .notify) (hawake : ∀ w, s.workers w ≠ .asleep) :
      SubmitStep s c (s.moveSubmit c (.returned Error.ok))

omit [DecidableEq ι] in
/-- `shutdown`. -/
inductive ShutdownStep (s : State n ι) : State n ι → Prop
  | exchange (h : s.shutdown = .exchange) (hstatus : s.status = .running) :
      ShutdownStep s { s with status := .shuttingDown, shutdown := .notify }
  | exchangeFails (h : s.shutdown = .exchange) (hstatus : s.status ≠ .running) :
      ShutdownStep s { s with shutdown := .returned }
  | notifyAll (h : s.shutdown = .notify) :
      ShutdownStep s
        { s with workers := fun w => (s.workers w).notified, shutdown := .join 0 }
  | join {w : Fin n} (h : s.shutdown = .join w) (hexited : s.workers w = .exited) :
      ShutdownStep s { s with shutdown := .join (w + 1) }
  | store (h : s.shutdown = .join n) :
      ShutdownStep s { s with status := .stopped, shutdown := .returned }

/-- One step of one thread. -/
inductive Step (s : State n ι) : Thread n ι → State n ι → Prop
  | worker {w : Fin n} {t : State n ι} (h : WorkerStep callable s w t) : Step s (.worker w) t
  | submit {c : ι} {t : State n ι} (h : SubmitStep s c t) : Step s (.submit c) t
  | shutdown {t : State n ι} (h : ShutdownStep s t) : Step s .shutdown t

/-- What an interleaving leads to from a new pool. -/
def Reachable (s : State n ι) : Prop := Steps (Step callable) {} s

end Steps

/-! ## Where a task is -/

section Tasks

variable {n : Nat} {ι : Type} [DecidableEq ι]

/-- How often a worker has a task in hand. -/
def WorkerPc.carries (c : ι) : WorkerPc ι → Nat
  | .took d => [d].count c
  | .run d => [d].count c
  | _ => 0

/-- How often a worker is running a task. -/
def WorkerPc.runs (c : ι) : WorkerPc ι → Nat
  | .run d => [d].count c
  | _ => 0

/-- Waking a worker leaves it with the task it carries. -/
theorem WorkerPc.carries_notified (c : ι) (pc : WorkerPc ι) :
    pc.notified.carries c = pc.carries c := by
  cases pc <;> rfl

/-- Nor does it begin another one. -/
theorem WorkerPc.runs_notified (c : ι) (pc : WorkerPc ι) : pc.notified.runs c = pc.runs c := by
  cases pc <;> rfl

omit [DecidableEq ι] in
/-- Nobody leaves by being woken. -/
theorem WorkerPc.notified_eq_exited {pc : WorkerPc ι} : pc.notified = .exited ↔ pc = .exited := by
  cases pc <;> simp [WorkerPc.notified]

/-- How many tasks a call of `submit` has queued. -/
def SubmitPc.queued : SubmitPc → Nat
  | .load => 0
  | .push => 0
  | .notify => 1
  | .returned error => if error.isSuccess then 1 else 0

/-- How often workers have a task in hand. -/
def carried (workers : Fin n → WorkerPc ι) (c : ι) : Nat := ∑ w, (workers w).carries c

/-- How often workers are running a task. -/
def running (workers : Fin n → WorkerPc ι) (c : ι) : Nat := ∑ w, (workers w).runs c

/-- What is run is carried. -/
theorem running_le_carried (workers : Fin n → WorkerPc ι) (c : ι) :
    running workers c ≤ carried workers c := by
  refine Finset.sum_le_sum (fun w _ => ?_)
  cases workers w with
  | run d => exact le_rfl
  | _ => exact Nat.zero_le _

/-- **Where tasks are**: in the queue, in a worker's hand, skipped or finished,
    each once. -/
structure Accounted (callable : ι → Prop) (s : State n ι) : Prop where
  enqueued : s.enqueued = s.dequeued ++ s.taskQueue
  queued : ∀ c, s.enqueued.count c = (s.submits c).queued
  dequeued : ∀ c, s.dequeued.count c = carried s.workers c + s.skipped.count c + s.finished.count c
  started : ∀ c, s.started.count c = running s.workers c + s.finished.count c
  skipped : ∀ c ∈ s.skipped, ¬ callable c

variable {callable : ι → Prop}

/-- A worker's step moves that worker, and what it has in hand comes from the
    queue or goes to the skipped or finished tasks. -/
theorem WorkerStep.moves {s t : State n ι} {w : Fin n} (h : WorkerStep callable s w t) :
    ∃ pc, t.workers = Function.update s.workers w pc ∧ ∀ c,
      t.dequeued.count c + (s.workers w).carries c + s.skipped.count c + s.finished.count c
        = s.dequeued.count c + pc.carries c + t.skipped.count c + t.finished.count c
      ∧ t.started.count c + (s.workers w).runs c + s.finished.count c
        = s.started.count c + pc.runs c + t.finished.count c := by
  cases h with
  | take h hfront =>
      refine ⟨_, rfl, fun c => ⟨?_, ?_⟩⟩
      · simp only [h, WorkerPc.carries, State.moveWorker, List.count_append]
        omega
      · rw [h]
        rfl
  | skip h hcallable =>
      refine ⟨_, rfl, fun c => ⟨?_, ?_⟩⟩
      · simp only [h, WorkerPc.carries, State.moveWorker, List.count_append]
        omega
      · rw [h]
        rfl
  | start h hcallable =>
      refine ⟨_, rfl, fun c => ⟨?_, ?_⟩⟩
      · rw [h]
        rfl
      · simp only [h, WorkerPc.runs, State.moveWorker, List.count_append]
        omega
  | finish h =>
      refine ⟨_, rfl, fun c => ⟨?_, ?_⟩⟩
      · simp only [h, WorkerPc.carries, State.moveWorker, List.count_append]
        omega
      · simp only [h, WorkerPc.runs, State.moveWorker, List.count_append]
        omega
  | _ h =>
      refine ⟨_, rfl, fun c => ?_⟩
      rw [h]
      exact ⟨rfl, rfl⟩

omit [DecidableEq ι] in
/-- A worker takes tasks from the front of the queue, and no call moves. -/
theorem WorkerStep.queue {s t : State n ι} {w : Fin n} (h : WorkerStep callable s w t) :
    t.dequeued ++ t.taskQueue = s.dequeued ++ s.taskQueue ∧ t.enqueued = s.enqueued
      ∧ t.submits = s.submits ∧ s.dequeued <+: t.dequeued := by
  cases h with
  | take h hfront =>
      simp [State.moveWorker, hfront]
  | _ => exact ⟨rfl, rfl, rfl, List.prefix_refl _⟩

/-- **A worker keeps the account**: it takes what it carries, and runs what it
    took. -/
theorem Accounted.worker {s t : State n ι} {w : Fin n} (hs : Accounted callable s)
    (h : WorkerStep callable s w t) : Accounted callable t := by
  obtain ⟨pc, hworkers, hmoves⟩ := h.moves
  obtain ⟨hqueue, henqueued, hsubmits, -⟩ := h.queue
  refine ⟨?_, ?_, ?_, ?_, ?_⟩
  · rw [henqueued, hqueue, hs.enqueued]
  · rw [henqueued, hsubmits]
    exact hs.queued
  · intro c
    have htotal : carried t.workers c + _ = _ :=
      hworkers ▸ sum_update (WorkerPc.carries c) s.workers w pc
    have := hs.dequeued c
    have := (hmoves c).1
    unfold carried at *
    omega
  · intro c
    have htotal : running t.workers c + _ = _ :=
      hworkers ▸ sum_update (WorkerPc.runs c) s.workers w pc
    have := hs.started c
    have := (hmoves c).2
    unfold running at *
    omega
  · cases h with
    | skip h hcallable =>
        refine List.forall_mem_append.mpr ⟨hs.skipped, ?_⟩
        exact List.forall_mem_singleton.mpr hcallable
    | _ => exact hs.skipped

omit [DecidableEq ι] in
/-- Waking one worker changes nothing that does not tell a sleeper from one
    that wants the mutex. -/
theorem wake_one {f : WorkerPc ι → Nat} (hf : f .lock = f .asleep) {workers : Fin n → WorkerPc ι}
    {w : Fin n} (hasleep : workers w = .asleep) (v : Fin n) :
    f (Function.update workers w .lock v) = f (workers v) := by
  by_cases hv : v = w
  · subst hv
    rw [Function.update_self, hf, hasleep]
  · rw [Function.update_of_ne hv]

/-- A wake-up leaves what workers have in hand. -/
theorem Accounted.wake {s : State n ι} (hs : Accounted callable s) {workers : Fin n → WorkerPc ι}
    (hcarries : ∀ w c, (workers w).carries c = (s.workers w).carries c)
    (hruns : ∀ w c, (workers w).runs c = (s.workers w).runs c) :
    Accounted callable { s with workers := workers } := by
  refine ⟨hs.enqueued, hs.queued, fun c => ?_, fun c => ?_, hs.skipped⟩
  · have hsame : carried workers c = carried s.workers c :=
      Finset.sum_congr rfl (fun w _ => hcarries w c)
    rw [hsame]
    exact hs.dequeued c
  · have hsame : running workers c = running s.workers c :=
      Finset.sum_congr rfl (fun w _ => hruns w c)
    rw [hsame]
    exact hs.started c

/-- A call that moves between its steps keeps the account. -/
theorem Accounted.moveSubmit {s : State n ι} (hs : Accounted callable s) {c : ι}
    {pc : SubmitPc} (hpc : pc.queued = (s.submits c).queued) :
    Accounted callable (s.moveSubmit c pc) := by
  refine ⟨hs.enqueued, fun d => ?_, hs.dequeued, hs.started, hs.skipped⟩
  show s.enqueued.count d = (Function.update s.submits c pc d).queued
  by_cases hd : d = c
  · subst hd
    rw [Function.update_self, hpc, hs.queued]
  · rw [Function.update_of_ne hd, hs.queued]

/-- **A call of `submit` keeps the account**: what it queues is accepted. -/
theorem Accounted.submit {s t : State n ι} {c : ι} (hs : Accounted callable s)
    (h : SubmitStep s c t) : Accounted callable t := by
  cases h with
  | load h hstatus => exact hs.moveSubmit (by rw [h]; rfl)
  | refuse h hstatus => exact hs.moveSubmit (by rw [h]; rfl)
  | push h hfree =>
      refine ⟨?_, fun d => ?_, hs.dequeued, hs.started, hs.skipped⟩
      · show s.enqueued ++ [c] = s.dequeued ++ (s.taskQueue ++ [c])
        rw [hs.enqueued, List.append_assoc]
      · show (s.enqueued ++ [c]).count d = (Function.update s.submits c .notify d).queued
        rw [List.count_append]
        by_cases hd : d = c
        · subst hd
          rw [Function.update_self, hs.queued, h, List.count_singleton_self]
          rfl
        · have hother : [c].count d = 0 := List.count_eq_zero_of_not_mem (by simpa using hd)
          rw [Function.update_of_ne hd, hs.queued, hother]
          rfl
  | @notifyOne w h hasleep =>
      have hwoken := hs.wake (fun v c => wake_one (f := WorkerPc.carries c) rfl hasleep v)
        (fun v c => wake_one (f := WorkerPc.runs c) rfl hasleep v)
      refine hwoken.moveSubmit ?_
      show _ = (s.submits c).queued
      rw [h]
      rfl
  | notifyNone h hawake => exact hs.moveSubmit (by rw [h]; rfl)

/-- A shutdown touches no task. -/
theorem Accounted.shutdown {s t : State n ι} (hs : Accounted callable s)
    (h : ShutdownStep s t) : Accounted callable t := by
  cases h with
  | notifyAll h =>
      have hwoken : Accounted callable { s with workers := fun w => (s.workers w).notified } :=
        hs.wake (fun w c => (s.workers w).carries_notified c)
          (fun w c => (s.workers w).runs_notified c)
      exact ⟨hwoken.enqueued, hwoken.queued, hwoken.dequeued, hwoken.started, hwoken.skipped⟩
  | _ => exact ⟨hs.enqueued, hs.queued, hs.dequeued, hs.started, hs.skipped⟩

/-- A new pool has nothing to account for. -/
theorem accounted_new : Accounted callable ({} : State n ι) := by
  refine ⟨rfl, fun c => rfl, fun c => ?_, fun c => ?_, List.forall_mem_nil _⟩
  · have hidle : carried (fun _ : Fin n => WorkerPc.lock) c = 0 :=
      Finset.sum_eq_zero (fun _ _ => rfl)
    exact hidle.symm
  · have hidle : running (fun _ : Fin n => WorkerPc.lock) c = 0 :=
      Finset.sum_eq_zero (fun _ _ => rfl)
    exact hidle.symm

/-- Every step keeps the account. -/
theorem Accounted.step {s t : State n ι} {a : Thread n ι} (hs : Accounted callable s)
    (h : Step callable s a t) : Accounted callable t := by
  cases h with
  | worker h => exact hs.worker h
  | submit h => exact hs.submit h
  | shutdown h => exact hs.shutdown h

/-- What is reached from a reachable state is reachable. -/
theorem Reachable.steps {s t : State n ι} (h : Reachable callable s)
    (hpath : Steps (Step callable) s t) : Reachable callable t :=
  Relation.ReflTransGen.trans h hpath

/-- The account is kept in every reachable state. -/
theorem Reachable.accounted {s : State n ι} (h : Reachable callable s) :
    Accounted callable s :=
  Steps.invariant Accounted.step accounted_new h
end Tasks

/-! ## How far `shutdown` is -/

section Phases

variable {n : Nat} {ι : Type} [DecidableEq ι] {callable : ι → Prop}

/-- `shutdown` has joined a worker. -/
def ShutdownPc.Joined (w : Nat) : ShutdownPc → Prop
  | .join i => w < i
  | .returned => True
  | _ => False

/-- `shutdown` has called `notify_all`. -/
def ShutdownPc.Notified : ShutdownPc → Prop
  | .join _ => True
  | .returned => True
  | _ => False

/-- **What `shutdown` knows**: a running pool has lost no worker, and what is
    joined has left its loop. -/
structure Phased (s : State n ι) : Prop where
  exchange : s.shutdown = .exchange → s.status = .running
  running : s.status = .running → s.shutdown = .exchange ∧ ∀ w, s.workers w ≠ .exited
  joined : ∀ w : Fin n, s.shutdown.Joined w → s.workers w = .exited

omit [DecidableEq ι] in
/-- A worker that has left does nothing. -/
theorem WorkerStep.not_exited {s t : State n ι} {w : Fin n} (h : WorkerStep callable s w t) :
    s.workers w ≠ .exited := by
  intro hw
  cases h with
  | _ h =>
      rw [hw] at h
      cases h

omit [DecidableEq ι] in
/-- A worker that has left stays out. -/
theorem WorkerStep.exited {s t : State n ι} {w v : Fin n} (h : WorkerStep callable s w t)
    (hv : s.workers v = .exited) : t.workers v = .exited := by
  have hother : v ≠ w := by
    rintro rfl
    exact h.not_exited hv
  cases h <;> exact (Function.update_of_ne hother _ _).trans hv

/-- It does not come back. -/
theorem Step.exited {s t : State n ι} {a : Thread n ι} {v : Fin n} (h : Step callable s a t)
    (hv : s.workers v = .exited) : t.workers v = .exited := by
  cases h with
  | worker h => exact h.exited hv
  | submit h =>
      cases h with
      | @notifyOne w h hasleep =>
          have hother : v ≠ w := by
            rintro rfl
            rw [hv] at hasleep
            cases hasleep
          exact (Function.update_of_ne hother _ _).trans hv
      | _ => exact hv
  | shutdown h =>
      cases h with
      | notifyAll h => exact WorkerPc.notified_eq_exited.mpr hv
      | _ => exact hv

/-- A worker leaves when there is nothing to do and the pool does not run. -/
theorem Step.leaves {s t : State n ι} {a : Thread n ι} {v : Fin n} (h : Step callable s a t)
    (hv : t.workers v = .exited) :
    s.workers v = .exited ∨ (s.status ≠ .running ∧ s.taskQueue = [] ∧ t.taskQueue = []) := by
  cases h with
  | @worker w _ h =>
      by_cases hvw : v = w
      · subst hvw
        cases h with
        | exit h hstatus hempty => exact Or.inr ⟨hstatus, hempty, hempty⟩
        | _ =>
            -- every other step of a worker leads to a point inside its loop
            have := (Function.update_self v _ s.workers).symm.trans hv
            cases this
      · obtain ⟨pc, hworkers, -⟩ := h.moves
        rw [hworkers, Function.update_of_ne hvw] at hv
        exact Or.inl hv
  | submit h =>
      cases h with
      | @notifyOne w h hasleep =>
          by_cases hvw : v = w
          · subst hvw
            have := (Function.update_self v _ s.workers).symm.trans hv
            cases this
          · exact Or.inl ((Function.update_of_ne hvw _ _).symm.trans hv)
      | _ => exact Or.inl hv
  | shutdown h =>
      cases h with
      | notifyAll h => exact Or.inl (WorkerPc.notified_eq_exited.mp hv)
      | _ => exact Or.inl hv

/-- A pool that is not running does not run again. -/
theorem Step.status_ne_running {s t : State n ι} {a : Thread n ι} (h : Step callable s a t)
    (hs : s.status ≠ .running) : t.status ≠ .running := by
  cases h with
  | worker h => cases h <;> exact hs
  | submit h => cases h <;> exact hs
  | shutdown h =>
      cases h with
      | exchange h hstatus => exact absurd hstatus hs
      | store h =>
          intro hrunning
          cases hrunning
      | _ => exact hs

/-- Only `shutdown` moves `shutdown`, and with it the status. -/
theorem Step.shutdown_or_same {s t : State n ι} {a : Thread n ι} (h : Step callable s a t) :
    ShutdownStep s t ∨ (t.shutdown = s.shutdown ∧ t.status = s.status) := by
  cases h with
  | worker h => cases h <;> exact Or.inr ⟨rfl, rfl⟩
  | submit h => cases h <;> exact Or.inr ⟨rfl, rfl⟩
  | shutdown h => exact Or.inl h

/-- Every step keeps the status in line with the shutdown. -/
theorem Phased.step {s t : State n ι} {a : Thread n ι} (hs : Phased s)
    (h : Step callable s a t) : Phased t := by
  have hin : t.status = .running → ∀ w, t.workers w ≠ .exited := by
    intro hrunning w hw
    have hbefore : s.status = .running := by
      by_contra hne
      exact h.status_ne_running hne hrunning
    rcases h.leaves hw with hw | ⟨hne, -⟩
    · exact (hs.running hbefore).2 w hw
    · exact hne hbefore
  have hout : ∀ w : Fin n, s.shutdown.Joined w → t.workers w = .exited :=
    fun w hw => h.exited (hs.joined w hw)
  rcases h.shutdown_or_same with hstep | ⟨hshutdown, hstatus⟩
  · have hleft : ∀ pc, s.shutdown = pc → pc ≠ .exchange → s.status ≠ .running := by
      rintro pc rfl hne hrunning
      exact hne (hs.running hrunning).1
    cases hstep with
    | exchange hpc hstatus =>
        exact ⟨fun h => (by cases h), fun h => (by cases h), fun w hw => False.elim hw⟩
    | exchangeFails hpc hstatus => exact absurd (hs.exchange hpc) hstatus
    | notifyAll hpc =>
        have hne := hleft _ hpc (by decide)
        exact ⟨fun h => (by cases h), fun h => absurd h hne,
          fun w hw => absurd hw (Nat.not_lt_zero _)⟩
    | @join v hpc hexited =>
        have hne := hleft _ hpc (by intro h; cases h)
        refine ⟨fun h => (by cases h), fun h => absurd h hne, fun w hw => ?_⟩
        -- the worker joined just now, or one before it
        rcases Nat.lt_succ_iff_lt_or_eq.mp hw with hw | hw
        · exact hs.joined w (by rw [hpc]; exact hw)
        · rw [Fin.ext hw]
          exact hexited
    | store hpc =>
        exact ⟨fun h => (by cases h), fun h => (by cases h),
          fun w _ => hs.joined w (by rw [hpc]; exact w.isLt)⟩
  · refine ⟨?_, fun hrunning => ⟨?_, hin hrunning⟩, ?_⟩
    · rw [hshutdown, hstatus]
      exact hs.exchange
    · rw [hshutdown]
      exact (hs.running (hstatus ▸ hrunning)).1
    · rw [hshutdown]
      exact hout

omit [DecidableEq ι] in
/-- A new pool has seen no shutdown. -/
theorem phased_new : Phased ({} : State n ι) where
  exchange := fun _ => rfl
  running := fun _ => ⟨rfl, fun w h => (by cases h)⟩
  joined := fun w h => False.elim h

/-- Status and shutdown agree in every reachable state. -/
theorem Reachable.phased {s : State n ι} (h : Reachable callable s) : Phased s :=
  Steps.invariant Phased.step phased_new h

end Phases

/-! ## What was queued before the transition -/

section Drained

variable {n : Nat} {ι : Type} [DecidableEq ι] {callable : ι → Prop}

/-- The records of the queue only grow. -/
theorem Step.queue_grows {s t : State n ι} {a : Thread n ι} (h : Step callable s a t) :
    s.enqueued <+: t.enqueued ∧ s.dequeued <+: t.dequeued := by
  cases h with
  | worker h =>
      obtain ⟨-, henqueued, -, hdequeued⟩ := h.queue
      exact ⟨henqueued ▸ List.prefix_refl _, hdequeued⟩
  | submit h =>
      cases h with
      | push h hfree => exact ⟨List.prefix_append _ _, List.prefix_refl _⟩
      | _ => exact ⟨List.prefix_refl _, List.prefix_refl _⟩
  | shutdown h => cases h <;> exact ⟨List.prefix_refl _, List.prefix_refl _⟩

/-- A call queues its task once at most. -/
theorem Accounted.count_enqueued_le {s : State n ι} (hs : Accounted callable s) (c : ι) :
    s.enqueued.count c ≤ 1 := by
  rw [hs.queued c]
  cases s.submits c with
  | returned error =>
      rw [SubmitPc.queued]
      split <;> decide
  | _ => decide

/-- A task is begun once at most. -/
theorem Accounted.count_started_le {s : State n ι} (hs : Accounted callable s) (c : ι) :
    s.started.count c ≤ 1 := by
  have hcount := hs.count_enqueued_le c
  rw [hs.enqueued, List.count_append] at hcount
  have := hs.dequeued c
  have := hs.started c
  have := running_le_carried s.workers c
  omega

/-- A task that left the queue and that no worker has in hand is done. -/
theorem Accounted.done_of_not_carried {s : State n ι} (hs : Accounted callable s) {c : ι}
    (hcarried : carried s.workers c = 0) (hcallable : callable c) (hc : c ∈ s.dequeued) :
    s.started.count c = 1 ∧ s.finished.count c = 1 := by
  have hrunning := running_le_carried s.workers c
  have hskipped : s.skipped.count c = 0 :=
    List.count_eq_zero_of_not_mem (fun h => hs.skipped c h hcallable)
  have hcount := hs.count_enqueued_le c
  rw [hs.enqueued, List.count_append] at hcount
  have hpos := List.count_pos_iff.mpr hc
  have := hs.dequeued c
  have := hs.started c
  omega

/-- When every worker has left, what left the queue is done. -/
theorem Accounted.done {s : State n ι} (hs : Accounted callable s)
    (hout : ∀ w, s.workers w = .exited) {c : ι} (hcallable : callable c)
    (hc : c ∈ s.dequeued) : s.started.count c = 1 ∧ s.finished.count c = 1 := by
  refine hs.done_of_not_carried ?_ hcallable hc
  exact Finset.sum_eq_zero (fun w _ => by rw [hout w]; rfl)

/-- A worker that has left saw everything queued before the transition leave
    the queue. -/
def Emptied (before : List ι) (s : State n ι) : Prop :=
  before <+: s.enqueued ∧ ∀ w, s.workers w = .exited → before <+: s.dequeued

/-- What was queued before the shutdown is worked off. -/
theorem Emptied.step {before : List ι} {s t : State n ι} {a : Thread n ι}
    (haccounted : Accounted callable s) (hs : Emptied before s) (h : Step callable s a t) :
    Emptied before t := by
  obtain ⟨henqueued, hdequeued⟩ := h.queue_grows
  refine ⟨hs.1.trans henqueued, fun w hw => ?_⟩
  rcases h.leaves hw with hw | ⟨-, hempty, -⟩
  · exact (hs.2 w hw).trans hdequeued
  · -- an empty queue: whatever was queued has left it
    have hall := hs.1
    rw [haccounted.enqueued, hempty, List.append_nil] at hall
    exact hall.trans hdequeued

/-- `shutdown` has joined all workers. -/
def State.AllJoined (s : State n ι) : Prop := ∀ w : Fin n, s.shutdown.Joined w

/-- **What the pool does with its tasks**, under every interleaving: they leave
    the queue in the order they came in, none is run twice, and once
    `shutdown` has joined all workers, what was queued before the status left
    `K_RUNNING` has been run to its end. -/
theorem run_exactly_once {s : State n ι} (hn : 0 < n) (h : Reachable callable s) :
    s.dequeued <+: s.enqueued ∧ (∀ c, s.started.count c ≤ 1)
    ∧ ∀ s₀ s₁ : State n ι, Reachable callable s₀ → s₀.status = .running →
        Step callable s₀ .shutdown s₁ → s₁.status = .shuttingDown →
        Steps (Step callable) s₁ s → s.AllJoined → ∀ c ∈ s₀.enqueued, callable c →
        s.started.count c = 1 ∧ s.finished.count c = 1 := by
  refine ⟨?_, h.accounted.count_started_le, ?_⟩
  · rw [h.accounted.enqueued]
    exact List.prefix_append _ _
  · intro s₀ s₁ h₀ hrunning hexchange _ hpath hjoined c hc hcallable
    have h₁ : Reachable callable s₁ := h₀.next hexchange
    have hin := (h₀.phased.running hrunning).2
    have hemptied₁ : Emptied s₀.enqueued s₁ := by
      refine ⟨hexchange.queue_grows.1, fun w hw => ?_⟩
      rcases hexchange.leaves hw with hw | ⟨hne, -⟩
      · exact absurd hw (hin w)
      · exact absurd hrunning hne
    have hemptied : Emptied s₀.enqueued s :=
      Steps.invariant_with (Q := Accounted callable)
        (fun hpath' => (h₁.steps hpath').accounted) Emptied.step hemptied₁ hpath
    have hout : ∀ w, s.workers w = .exited := fun w => h.phased.joined w (hjoined w)
    exact h.accounted.done hout hcallable ((hemptied.2 ⟨0, hn⟩ (hout _)).subset hc)

/-- One worker, and a task queued. -/
def queuedTask : State 1 Unit :=
  { (({} : State 1 Unit).moveSubmit () .push).moveSubmit () .notify with
    taskQueue := [()]
    enqueued := [()] }

/-- The status has left `K_RUNNING`. -/
def shuttingDownTask : State 1 Unit :=
  { queuedTask with status := .shuttingDown, shutdown := .notify }

/-- The task is queued in a pool with one worker. -/
theorem queuedTask_reachable : Reachable (fun _ => True) queuedTask := by
  have hnew : Reachable (fun _ => True) ({} : State 1 Unit) := Relation.ReflTransGen.refl
  exact (hnew.next (.submit (c := ()) (.load rfl rfl))).next (.submit (c := ()) (.push rfl rfl))

/-- The shutdown begins there. -/
theorem queuedTask_exchange : Step (fun _ => True) queuedTask .shutdown shuttingDownTask :=
  .shutdown (.exchange rfl rfl)

/-- The worker runs the task, comes back to an empty queue and leaves. -/
theorem shuttingDownTask_returns :
    ∃ s, Steps (Step (fun _ => True)) shuttingDownTask s ∧ s.shutdown = .returned := by
  have hnotify : Steps (Step (fun _ => True)) shuttingDownTask _ :=
    .single (.shutdown (.notifyAll rfl))
  have htake := ((hnotify.next (.worker (w := 0) (.acquire rfl rfl))).next
    (.worker (w := 0) (.ready rfl (by decide)))).next (.worker (w := 0) (.take rfl rfl))
  have hfinish := (htake.next (.worker (w := 0) (.start rfl trivial))).next
    (.worker (w := 0) (.finish rfl))
  have hexit := ((hfinish.next (.worker (w := 0) (.acquire rfl rfl))).next
    (.worker (w := 0) (.ready rfl (by decide)))).next
    (.worker (w := 0) (.exit rfl (by decide) rfl))
  exact ⟨_, (hexit.next (.shutdown (.join (w := 0) rfl rfl))).next (.shutdown (.store rfl)), rfl⟩

/-- The worker runs the task, and is joined. -/
theorem run_exactly_once_task :
    ∃ s : State 1 Unit, Reachable (fun _ => True) s ∧ s.AllJoined
      ∧ s.started.count () = 1 ∧ s.finished.count () = 1 := by
  obtain ⟨s, hpath, hreturned⟩ := shuttingDownTask_returns
  have h : Reachable (fun _ => True) s := (queuedTask_reachable.next queuedTask_exchange).trans hpath
  have hjoined : s.AllJoined := by
    intro w
    rw [hreturned]
    exact trivial
  exact ⟨s, h, hjoined, (run_exactly_once Nat.one_pos h).2.2 _ _ queuedTask_reachable rfl
    queuedTask_exchange rfl hpath hjoined () List.mem_cons_self trivial⟩

end Drained

end ThreadPool

end LaunchCpp
