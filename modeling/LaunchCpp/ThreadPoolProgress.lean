import LaunchCpp.ThreadPoolShutdown

/-! # A pool that runs gets its work done

    `submit` notifies after it has let go of `queue_mutex_`, and notifies one
    worker only; a worker that waits evaluates its predicate under the mutex.
    What carries the proof is a count (`Enough`): while a worker is asleep,
    there are as many threads on their way to the queue, or on their way to
    wake another, as there are tasks queued.

    The main result, `accepted_tasks_run`, is on what the pool does when it is
    left alone: it comes to rest, and then nothing it has accepted is left. -/

namespace LaunchCpp.ThreadPool

open TransitionSystems Counting

variable {n : Nat} {ι : Type}

/-! ## The mutex -/

/-- A worker holds `queue_mutex_`. -/
def WorkerPc.Holds : WorkerPc ι → Prop
  | .predicate => True
  | .block => True
  | .check => True
  | _ => False

/-- **What the mutex protects**: one worker is between `lock` and `unlock`; what
    its predicate has found still stands when it acts on it. -/
structure Locked (s : State n ι) : Prop where
  owner : ∀ w, (s.workers w).Holds ↔ s.queueMutex = some w
  block : ∀ w, s.workers w = .block → s.taskQueue = []
  check : ∀ w, s.workers w = .check → s.Ready

/-- The mutex has one owner. -/
theorem Locked.unique {s : State n ι} {v w : Fin n} (hs : Locked s) (hv : (s.workers v).Holds)
    (hw : (s.workers w).Holds) : v = w := by
  have hmutex := (hs.owner v).mp hv
  rw [(hs.owner w).mp hw] at hmutex
  exact (Option.some.inj hmutex).symm

/-- A free mutex has none. -/
theorem Locked.free {s : State n ι} (hs : Locked s) (hfree : s.queueMutex = none) (w : Fin n) :
    ¬ (s.workers w).Holds := by
  intro hw
  rw [(hs.owner w).mp hw] at hfree
  cases hfree

/-- One worker moves, and the mutex goes with it. -/
theorem owner_update {workers : Fin n → WorkerPc ι} {m m' : Option (Fin n)} {w : Fin n}
    {pc : WorkerPc ι} (h : ∀ v, (workers v).Holds ↔ m = some v) (hpc : pc.Holds ↔ m' = some w)
    (hm : ∀ v, v ≠ w → (m = some v ↔ m' = some v)) (v : Fin n) :
    (Function.update workers w pc v).Holds ↔ m' = some v := by
  by_cases hv : v = w
  · subst hv
    rw [Function.update_self]
    exact hpc
  · rw [Function.update_of_ne hv, h v]
    exact hm v hv

variable {callable : ι → Prop}

/-- A step of a worker hands the mutex over as it says. -/
theorem WorkerStep.owner {s t : State n ι} {w : Fin n} (h : WorkerStep callable s w t)
    (hs : Locked s) : ∀ v, (t.workers v).Holds ↔ t.queueMutex = some v := by
  have hheld : (s.workers w).Holds → ∀ v, v ≠ w → (s.queueMutex = some v ↔ none = some v) := by
    intro hw v hv
    rw [(hs.owner w).mp hw]
    exact ⟨fun heq => absurd (Option.some.inj heq).symm hv, fun heq => (by cases heq)⟩
  have houtside : ¬ (s.workers w).Holds → (False ↔ s.queueMutex = some w) :=
    fun hw => ⟨False.elim, fun heq => hw ((hs.owner w).mpr heq)⟩
  have hfreed : False ↔ (none : Option (Fin n)) = some w :=
    ⟨False.elim, fun heq => (by cases heq)⟩
  cases h with
  | acquire h hfree =>
      refine owner_update hs.owner ⟨fun _ => rfl, fun _ => trivial⟩ (fun v hv => ?_)
      rw [hfree]
      exact ⟨fun heq => (by cases heq), fun heq => absurd (Option.some.inj heq).symm hv⟩
  | ready h hready =>
      have hw : (s.workers w).Holds := by
        rw [h]
        exact trivial
      exact owner_update hs.owner ⟨fun _ => (hs.owner w).mp hw, fun _ => trivial⟩ (fun _ _ => Iff.rfl)
  | wait h hready =>
      have hw : (s.workers w).Holds := by
        rw [h]
        exact trivial
      exact owner_update hs.owner ⟨fun _ => (hs.owner w).mp hw, fun _ => trivial⟩ (fun _ _ => Iff.rfl)
  | sleep h => exact owner_update hs.owner hfreed (hheld (by rw [h]; exact trivial))
  | exit h _ _ => exact owner_update hs.owner hfreed (hheld (by rw [h]; exact trivial))
  | take h _ => exact owner_update hs.owner hfreed (hheld (by rw [h]; exact trivial))
  | again h _ _ => exact owner_update hs.owner hfreed (hheld (by rw [h]; exact trivial))
  | spurious h => exact owner_update hs.owner (houtside (by rw [h]; exact id)) (fun _ _ => Iff.rfl)
  | skip h _ => exact owner_update hs.owner (houtside (by rw [h]; exact id)) (fun _ _ => Iff.rfl)
  | start h _ => exact owner_update hs.owner (houtside (by rw [h]; exact id)) (fun _ _ => Iff.rfl)
  | finish h => exact owner_update hs.owner (houtside (by rw [h]; exact id)) (fun _ _ => Iff.rfl)

/-- A worker's step leaves the status, and the queue unless the worker holds
    the mutex. -/
theorem WorkerStep.queue_or_holds {s t : State n ι} {w : Fin n} (h : WorkerStep callable s w t) :
    t.status = s.status ∧ (t.taskQueue = s.taskQueue ∨ (s.workers w).Holds) := by
  cases h with
  | take h hfront =>
      refine ⟨rfl, Or.inr ?_⟩
      rw [h]
      exact trivial
  | _ => exact ⟨rfl, Or.inl rfl⟩

/-- What the predicate has found is known of the worker that evaluated it. -/
theorem WorkerStep.found {s t : State n ι} {w : Fin n} (h : WorkerStep callable s w t) :
    (t.workers w = .block → t.taskQueue = []) ∧ (t.workers w = .check → t.Ready) := by
  cases h with
  | ready h hready =>
      refine ⟨fun hw => ?_, fun _ => hready⟩
      have hw := (Function.update_self w _ s.workers).symm.trans hw
      cases hw
  | wait h hready =>
      refine ⟨fun _ => ?_, fun hw => ?_⟩
      · by_contra hne
        exact hready (Or.inl hne)
      · have hw := (Function.update_self w _ s.workers).symm.trans hw
        cases hw
  | _ =>
      constructor <;> intro hw
      all_goals
        have hw := (Function.update_self w _ s.workers).symm.trans hw
        cases hw

/-- Workers keep the mutex to one of them. -/
theorem Locked.worker {s t : State n ι} {w : Fin n} (hs : Locked s)
    (h : WorkerStep callable s w t) : Locked t := by
  obtain ⟨hstatus, hqueue⟩ := h.queue_or_holds
  have hother : ∀ v, v ≠ w → t.workers v = s.workers v := by
    intro v hv
    cases h <;> exact Function.update_of_ne hv _ _
  -- another worker that holds the mutex sees the queue as it was
  have hsame : ∀ v, v ≠ w → (s.workers v).Holds → t.taskQueue = s.taskQueue := by
    intro v hv hheld
    rcases hqueue with hqueue | hw
    · exact hqueue
    · exact absurd (hs.unique hheld hw) hv
  refine ⟨h.owner hs, fun v hv => ?_, fun v hv => ?_⟩
  · by_cases hvw : v = w
    · subst hvw
      exact h.found.1 hv
    · rw [hother v hvw] at hv
      rw [hsame v hvw (by rw [hv]; exact trivial)]
      exact hs.block v hv
  · by_cases hvw : v = w
    · subst hvw
      exact h.found.2 hv
    · rw [hother v hvw] at hv
      unfold State.Ready
      rw [hsame v hvw (by rw [hv]; exact trivial), hstatus]
      exact hs.check v hv

/-- A sleeping worker that is woken is not one that holds the mutex. -/
theorem Locked.wake {s t : State n ι} (hs : Locked s) (hmutex : t.queueMutex = s.queueMutex)
    (hqueue : t.taskQueue = s.taskQueue) (hready : s.Ready → t.Ready)
    (hworkers : ∀ v, t.workers v = s.workers v
      ∨ (s.workers v = .asleep ∧ t.workers v = .lock)) : Locked t := by
  have hheld : ∀ v, (t.workers v).Holds → t.workers v = s.workers v := by
    intro v hv
    rcases hworkers v with hsame | ⟨-, hlock⟩
    · exact hsame
    · rw [hlock] at hv
      exact False.elim hv
  refine ⟨fun v => ?_, fun v hv => ?_, fun v hv => ?_⟩
  · rw [hmutex, ← hs.owner v]
    rcases hworkers v with hsame | ⟨hasleep, hlock⟩
    · rw [hsame]
    · rw [hasleep, hlock]
      exact Iff.rfl
  · have hsame := hheld v (by rw [hv]; exact trivial)
    rw [hqueue]
    exact hs.block v (hsame ▸ hv)
  · have hsame := hheld v (by rw [hv]; exact trivial)
    exact hready (hs.check v (hsame ▸ hv))

/-- A notification wakes a sleeper and passes over everybody else. -/
theorem WorkerPc.notified_eq_or (pc : WorkerPc ι) :
    pc.notified = pc ∨ (pc = .asleep ∧ pc.notified = .lock) := by
  cases pc with
  | asleep => exact Or.inr ⟨rfl, rfl⟩
  | _ => exact Or.inl rfl

variable [DecidableEq ι]

/-- Calls of `submit` hold the mutex within one step. -/
theorem Locked.submit {s t : State n ι} {c : ι} (hs : Locked s) (h : SubmitStep s c t) :
    Locked t := by
  cases h with
  | push h hfree =>
      -- nobody holds the mutex, so nobody relies on the queue
      refine ⟨hs.owner, fun w hw => ?_, fun w hw => ?_⟩
      · exact absurd (by rw [show s.workers w = .block from hw]; exact trivial) (hs.free hfree w)
      · exact absurd (by rw [show s.workers w = .check from hw]; exact trivial) (hs.free hfree w)
  | @notifyOne w h hasleep =>
      refine hs.wake rfl rfl id (fun v => ?_)
      show Function.update s.workers w .lock v = _ ∨ _ ∧ Function.update s.workers w .lock v = _
      by_cases hv : v = w
      · subst hv
        exact Or.inr ⟨hasleep, Function.update_self _ _ _⟩
      · exact Or.inl (Function.update_of_ne hv _ _)
  | _ => exact hs.wake rfl rfl id (fun v => Or.inl rfl)

/-- So one thread holds it after every step. -/
theorem Locked.step {s t : State n ι} {a : Thread n ι} (hs : Locked s) (h : Step callable s a t) :
    Locked t := by
  cases h with
  | worker h => exact hs.worker h
  | submit h => exact hs.submit h
  | shutdown h =>
      cases h with
      | exchange h hstatus =>
          refine hs.wake rfl rfl (fun _ => Or.inr ?_) (fun v => Or.inl rfl)
          intro hrunning
          cases hrunning
      | notifyAll h => exact hs.wake rfl rfl id (fun v => (s.workers v).notified_eq_or)
      | store h =>
          refine hs.wake rfl rfl (fun _ => Or.inr ?_) (fun v => Or.inl rfl)
          intro hrunning
          cases hrunning
      | _ => exact hs.wake rfl rfl id (fun v => Or.inl rfl)

omit [DecidableEq ι] in
/-- Nobody holds the mutex of a new pool. -/
theorem locked_new : Locked ({} : State n ι) where
  owner := fun w => ⟨False.elim, fun h => (by cases h)⟩
  block := fun w h => (by cases h)
  check := fun w h => (by cases h)

/-- One thread holds it in every reachable state. -/
theorem Reachable.locked {s : State n ι} (h : Reachable callable s) : Locked s :=
  Steps.invariant Locked.step locked_new h

/-! ## Enough are on their way -/

/-- A worker that will look at the queue before it sleeps. -/
def WorkerPc.Looks : WorkerPc ι → Prop
  | .lock => True
  | .predicate => True
  | .check => True
  | _ => False

/-- A thread on its way to the queue, or to waking another. -/
def State.Looks (s : State n ι) : Thread n ι → Prop
  | .worker w => (s.workers w).Looks
  | .submit c => s.submits c = .notify
  | .shutdown => False

/-- **No task waits for nothing**: while a worker is asleep, there are as many
    threads on their way as there are tasks queued. -/
def Enough (s : State n ι) : Prop :=
  (∃ w, s.workers w = .asleep) → AtLeast s.taskQueue.length s.Looks

omit [DecidableEq ι] in
/-- An empty queue asks for nobody. -/
theorem Enough.of_empty {s : State n ι} (hempty : s.taskQueue = []) : Enough s := by
  intro _
  rw [hempty]
  exact AtLeast.zero

omit [DecidableEq ι] in
/-- A worker that moves changes nothing for the others that look. -/
theorem looks_worker {s t : State n ι} {w : Fin n} {pc : WorkerPc ι}
    (hworkers : t.workers = Function.update s.workers w pc) (hsubmits : t.submits = s.submits)
    (hpc : (s.workers w).Looks → pc.Looks) : ∀ a, s.Looks a → t.Looks a := by
  intro a ha
  cases a with
  | worker v =>
      show (t.workers v).Looks
      rw [hworkers]
      by_cases hv : v = w
      · subst hv
        rw [Function.update_self]
        exact hpc ha
      · rw [Function.update_of_ne hv]
        exact ha
  | submit c =>
      show t.submits c = .notify
      rw [hsubmits]
      exact ha
  | shutdown => exact ha

/-- Nor does a call of `submit` that moves. -/
theorem looks_moveSubmit {s : State n ι} {c : ι} {pc : SubmitPc} :
    ∀ a, a ≠ .submit c → s.Looks a → (s.moveSubmit c pc).Looks a := by
  intro a hne ha
  cases a with
  | submit d =>
      have hd : d ≠ c := by
        rintro rfl
        exact hne rfl
      show Function.update s.submits c pc d = .notify
      rw [Function.update_of_ne hd]
      exact ha
  | _ => exact ha

omit [DecidableEq ι] in
/-- Who is asleep after a worker has moved was asleep before. -/
theorem asleep_of_update {workers : Fin n → WorkerPc ι} {w : Fin n} {pc : WorkerPc ι}
    (hpc : pc ≠ .asleep) (h : ∃ v, Function.update workers w pc v = .asleep) :
    ∃ v, workers v = .asleep := by
  obtain ⟨v, hv⟩ := h
  refine ⟨v, ?_⟩
  by_cases hvw : v = w
  · subst hvw
    rw [Function.update_self] at hv
    exact absurd hv hpc
  · rw [Function.update_of_ne hvw] at hv
    exact hv

omit [DecidableEq ι] in
/-- A worker moves on its way, or to where it will come back from. -/
theorem Enough.keep {s t : State n ι} {w : Fin n} {pc : WorkerPc ι} (hs : Enough s)
    (hworkers : t.workers = Function.update s.workers w pc) (hsubmits : t.submits = s.submits)
    (hqueue : t.taskQueue = s.taskQueue) (hpc : (s.workers w).Looks → pc.Looks)
    (hasleep : pc ≠ .asleep) : Enough t := by
  intro h
  rw [hworkers] at h
  rw [hqueue]
  exact (hs (asleep_of_update hasleep h)).mono (looks_worker hworkers hsubmits hpc)

/-- **A worker that takes a task** leaves enough others for the rest. -/
theorem Enough.worker {s t : State n ι} {w : Fin n} (hlocked : Locked s) (hs : Enough s)
    (h : WorkerStep callable s w t) : Enough t := by
  cases h with
  | acquire h _ => exact hs.keep rfl rfl rfl (fun _ => trivial) (by simp)
  | ready h _ => exact hs.keep rfl rfl rfl (fun _ => trivial) (by simp)
  | wait h hready =>
      refine Enough.of_empty ?_
      by_contra hne
      exact hready (Or.inl hne)
  | sleep h => exact Enough.of_empty (hlocked.block w h)
  | spurious h => exact hs.keep rfl rfl rfl (fun _ => trivial) (by simp)
  | exit h _ hempty => exact Enough.of_empty hempty
  | @take c rest h hfront =>
      -- one task less, and one thread less on its way
      intro hasleep
      have hbefore := hs (asleep_of_update (by simp) hasleep)
      rw [hfront] at hbefore
      refine hbefore.lose (a := .worker w) (fun a hne ha => ?_)
      cases a with
      | worker v =>
          have hv : v ≠ w := by
            rintro rfl
            exact hne rfl
          show (Function.update s.workers w (.took c) v).Looks
          rw [Function.update_of_ne hv]
          exact ha
      | _ => exact ha
  | again h _ hempty => exact Enough.of_empty hempty
  | skip h _ => exact hs.keep rfl rfl rfl (fun _ => trivial) (by simp)
  | start h _ => exact hs.keep rfl rfl rfl (by rw [h]; exact id) (by simp)
  | finish h => exact hs.keep rfl rfl rfl (fun _ => trivial) (by simp)

/-- A `submit` that is not about to notify counts for nothing. -/
theorem Enough.moveSubmit {s : State n ι} {c : ι} {pc : SubmitPc} (hs : Enough s)
    (hc : s.submits c ≠ .notify) : Enough (s.moveSubmit c pc) := by
  intro hasleep
  refine (hs hasleep).mono (fun a ha => looks_moveSubmit a ?_ ha)
  rintro rfl
  exact hc ha

/-- **A task that is queued** has somebody on the way to it. -/
theorem Enough.submit {s t : State n ι} {c : ι} (hs : Enough s) (h : SubmitStep s c t) :
    Enough t := by
  cases h with
  | load h _ => exact hs.moveSubmit (by rw [h]; decide)
  | refuse h _ => exact hs.moveSubmit (by rw [h]; decide)
  | push h hfree =>
      -- one task more, and the call that brought it on its way to wake a worker
      intro hasleep
      have hc : ¬ s.Looks (.submit c) := by
        show ¬ s.submits c = .notify
        rw [h]
        decide
      show AtLeast (s.taskQueue ++ [c]).length _
      rw [List.length_append]
      refine (hs hasleep).gain (a := .submit c) hc (fun a ha => ?_) (Function.update_self _ _ _)
      refine looks_moveSubmit a ?_ ha
      rintro rfl
      exact hc ha
  | @notifyOne w h hasleep =>
      -- the worker takes the place of the call
      intro _
      have hw : ¬ s.Looks (.worker w) := by
        show ¬ (s.workers w).Looks
        rw [hasleep]
        exact id
      have hwoken : AtLeast (s.taskQueue.length + 1) (s.moveWorker w .lock).Looks := by
        refine (hs ⟨w, hasleep⟩).gain (a := .worker w) hw ?_ ?_
        · exact looks_worker rfl rfl (fun _ => trivial)
        · show (Function.update s.workers w .lock w).Looks
          rw [Function.update_self]
          exact trivial
      exact hwoken.lose (a := .submit c) looks_moveSubmit
  | notifyNone h hawake =>
      rintro ⟨w, hw⟩
      exact absurd hw (hawake w)

/-- Every step leaves enough threads on the way to the queue. -/
theorem Enough.step {s t : State n ι} {a : Thread n ι} (hlocked : Locked s) (hs : Enough s)
    (h : Step callable s a t) : Enough t := by
  cases h with
  | worker h => exact hs.worker hlocked h
  | submit h => exact hs.submit h
  | shutdown h =>
      cases h with
      | notifyAll h =>
          rintro ⟨w, hw⟩
          have hw : (s.workers w).notified = .asleep := hw
          rcases (s.workers w).notified_eq_or with hsame | ⟨-, hlock⟩
          · rw [hsame] at hw
            rw [hw] at hsame
            cases hsame
          · rw [hlock] at hw
            cases hw
      | _ => exact fun hasleep => (hs hasleep).mono (fun a ha => by cases a <;> exact ha)

/-- There are enough in every reachable state. -/
theorem Reachable.enough {s : State n ι} (h : Reachable callable s) : Enough s :=
  Steps.invariant_with (Q := Locked) (fun hpath => Reachable.locked hpath) Enough.step
    (Enough.of_empty rfl) h

/-! ## A pool left alone -/

/-- A step that needs nothing from outside: no new call of `submit`, no
    `shutdown`, and no spurious wake-up. -/
inductive Work (callable : ι → Prop) (s : State n ι) : Thread n ι → State n ι → Prop
  | worker {w : Fin n} {t : State n ι} (h : WorkerStep callable s w t)
      (hawake : s.workers w ≠ .asleep) : Work callable s (.worker w) t
  | submit {c : ι} {t : State n ι} (h : SubmitStep s c t) (hbegun : s.submits c ≠ .load) :
      Work callable s (.submit c) t

/-- Work is done by steps of the pool. -/
theorem Work.step {s t : State n ι} {a : Thread n ι} (h : Work callable s a t) :
    Step callable s a t := by
  cases h with
  | worker h hawake => exact .worker h
  | submit h hbegun => exact .submit h

/-- It does not change the status. -/
theorem Work.status {s t : State n ι} {a : Thread n ι} (h : Work callable s a t) :
    t.status = s.status := by
  cases h with
  | worker h hawake => exact h.queue_or_holds.1
  | submit h hbegun => cases h <;> rfl

/-- A run of such steps is a run of the pool. -/
theorem Work.steps {s t : State n ι} (h : Steps (Work callable) s t) :
    Steps (Step callable) s t :=
  Relation.ReflTransGen.mono (fun _ _ ⟨a, hstep⟩ => ⟨a, hstep.step⟩) _ _ h

/-! ### How much is left to do -/

/-- How far a worker is from its sleep.  What it takes from the queue it has
    been given by the queue. -/
def WorkerPc.left : WorkerPc ι → Nat
  | .took _ => 6
  | .run _ => 5
  | .lock => 4
  | .predicate => 3
  | .check => 2
  | .block => 1
  | .asleep => 0
  | .exited => 0

/-- How far a call is from its return, with what it gives to the queue and to
    the worker it wakes. -/
def SubmitPc.left : SubmitPc → Nat
  | .load => 0
  | .push => 11
  | .notify => 5
  | .returned _ => 0

/-- What is left for the workers, the queue and the calls that have begun. -/
def State.left (calls : Finset ι) (s : State n ι) : Nat :=
  (∑ w, (s.workers w).left) + 5 * s.taskQueue.length + ∑ c ∈ calls, (s.submits c).left

/-- The calls that have begun are among these. -/
def Begun (calls : Finset ι) (s : State n ι) : Prop := ∀ c, s.submits c ≠ .load → c ∈ calls

/-- A call that moves has begun. -/
theorem begun_moveSubmit {calls : Finset ι} {s : State n ι} {c : ι} {pc : SubmitPc}
    (hs : Begun calls s) (hc : c ∈ calls) : Begun calls (s.moveSubmit c pc) := by
  intro d hd
  by_cases hdc : d = c
  · rw [hdc]
    exact hc
  · refine hs d ?_
    show s.submits d ≠ .load
    rw [← Function.update_of_ne hdc pc s.submits]
    exact hd

/-- Only calls of the list begin. -/
theorem Step.begun {calls : Finset ι} {s t : State n ι} {a : Thread n ι}
    (h : Step callable s a t) (hs : Begun calls s) (ha : ∀ c, a = .submit c → c ∈ calls) :
    Begun calls t := by
  cases h with
  | worker h =>
      obtain ⟨-, -, hsubmits, -⟩ := h.queue
      intro c hc
      rw [hsubmits] at hc
      exact hs c hc
  | submit h => cases h <;> exact begun_moveSubmit hs (ha _ rfl)
  | shutdown h => cases h <;> exact hs

/-- Finitely many calls have begun. -/
theorem Reachable.exists_begun {s : State n ι} (h : Reachable callable s) :
    ∃ calls : Finset ι, Begun calls s := by
  refine Steps.invariant (P := fun s => ∃ calls : Finset ι, Begun calls s) ?_
    ⟨∅, fun c hc => absurd rfl hc⟩ h
  rintro s a t ⟨calls, hs⟩ hstep
  cases a with
  | submit c =>
      have hmore : Begun (insert c calls) s := fun d hd => Finset.mem_insert_of_mem (hs d hd)
      refine ⟨insert c calls, hstep.begun hmore ?_⟩
      rintro d heq
      cases heq
      exact Finset.mem_insert_self c calls
  | worker w => exact ⟨calls, hstep.begun hs (fun c heq => (by cases heq))⟩
  | shutdown => exact ⟨calls, hstep.begun hs (fun c heq => (by cases heq))⟩

omit [DecidableEq ι] in
/-- A worker's move, on the sum over all workers. -/
theorem left_moveWorker {calls : Finset ι} {s t : State n ι} {w : Fin n} {pc : WorkerPc ι}
    (hworkers : t.workers = Function.update s.workers w pc) (hsubmits : t.submits = s.submits)
    (hless : pc.left + 5 * t.taskQueue.length < (s.workers w).left + 5 * s.taskQueue.length) :
    t.left calls < s.left calls := by
  have htotal : (∑ v, (t.workers v).left) + (s.workers w).left = _ :=
    hworkers ▸ sum_update WorkerPc.left s.workers w pc
  unfold State.left
  rw [hsubmits]
  omega

/-- What is left of the work counts down when a call moves. -/
theorem left_moveSubmit {calls : Finset ι} {s t : State n ι} {c : ι} {pc : SubmitPc}
    (hc : c ∈ calls) (hsubmits : t.submits = Function.update s.submits c pc)
    (hless : (∑ v, (t.workers v).left) + 5 * t.taskQueue.length + pc.left
      < (∑ v, (s.workers v).left) + 5 * s.taskQueue.length + (s.submits c).left) :
    t.left calls < s.left calls := by
  have htotal : (∑ d ∈ calls, (t.submits d).left) + (s.submits c).left = _ :=
    hsubmits ▸ sum_update_of_mem SubmitPc.left s.submits hc pc
  unfold State.left
  omega

/-- What a running pool keeps while it works. -/
structure Working (calls : Finset ι) (s : State n ι) : Prop where
  running : s.status = .running
  locked : Locked s
  begun : Begun calls s

/-- Work goes on in a running pool with the same calls. -/
theorem Working.work {calls : Finset ι} {s t : State n ι} {a : Thread n ι}
    (hs : Working calls s) (h : Work callable s a t) : Working calls t := by
  refine ⟨h.status.trans hs.running, hs.locked.step h.step, h.step.begun hs.begun ?_⟩
  rintro c rfl
  cases h with
  | submit h hbegun => exact hs.begun c hbegun

omit [DecidableEq ι] in
/-- **A step of a worker** brings the end of the work nearer. -/
theorem WorkerStep.left_lt {calls : Finset ι} {s t : State n ι} {w : Fin n}
    (hrunning : s.status = .running) (hlocked : Locked s) (h : WorkerStep callable s w t)
    (hawake : s.workers w ≠ .asleep) : t.left calls < s.left calls := by
  cases h with
  | spurious h => exact absurd h hawake
  | exit h hstatus _ => exact absurd hrunning hstatus
  | again h _ hempty =>
      -- a running pool's worker comes here with a task to take
      rcases hlocked.check w h with hne | hne
      · exact absurd hempty hne
      · exact absurd hrunning hne
  | take h hfront =>
      refine left_moveWorker rfl rfl ?_
      rw [h, hfront, List.length_cons]
      simp only [WorkerPc.left]
      omega
  | _ h =>
      refine left_moveWorker rfl rfl ?_
      rw [h]
      simp only [WorkerPc.left, State.moveWorker]
      omega

/-- **A step of `submit`** does so as well. -/
theorem SubmitStep.left_lt {calls : Finset ι} {s t : State n ι} {c : ι} (hbegun : Begun calls s)
    (h : SubmitStep s c t) (hc : s.submits c ≠ .load) : t.left calls < s.left calls := by
  have hmem := hbegun c hc
  cases h with
  | load h _ => exact absurd h hc
  | refuse h _ => exact absurd h hc
  | push h hfree =>
      refine left_moveSubmit hmem rfl ?_
      rw [h, List.length_append]
      simp only [SubmitPc.left, State.moveSubmit, List.length_singleton]
      omega
  | @notifyOne w h hasleep =>
      refine left_moveSubmit hmem rfl ?_
      -- the worker that is woken is four steps from its sleep, and the call was five
      have htotal := sum_update WorkerPc.left s.workers w .lock
      rw [hasleep] at htotal
      rw [h]
      simp only [SubmitPc.left, WorkerPc.left, State.moveSubmit, State.moveWorker] at htotal ⊢
      omega
  | notifyNone h hawake =>
      refine left_moveSubmit hmem rfl ?_
      rw [h]
      simp only [SubmitPc.left, State.moveSubmit]
      omega

/-- **All work comes to an end.** -/
theorem Working.left_lt {calls : Finset ι} {s t : State n ι} {a : Thread n ι}
    (hs : Working calls s) (h : Work callable s a t) : t.left calls < s.left calls := by
  cases h with
  | worker h hawake => exact h.left_lt hs.running hs.locked hawake
  | submit h hbegun => exact h.left_lt hs.begun hbegun

/-! ### At rest -/

variable (callable) in
omit [DecidableEq ι] in
/-- A worker that holds the mutex can go on. -/
theorem exists_step_of_holds {s : State n ι} {w : Fin n} (hw : (s.workers w).Holds) :
    ∃ t, WorkerStep callable s w t := by
  cases hpc : s.workers w with
  | predicate =>
      by_cases hready : s.Ready
      · exact ⟨_, .ready hpc hready⟩
      · exact ⟨_, .wait hpc hready⟩
  | block => exact ⟨_, .sleep hpc⟩
  | check =>
      cases hqueue : s.taskQueue with
      | cons c rest => exact ⟨_, .take hpc hqueue⟩
      | nil =>
          by_cases hstatus : s.status = .running
          · exact ⟨_, .again hpc hstatus hqueue⟩
          · exact ⟨_, .exit hpc hstatus hqueue⟩
  | _ =>
      rw [hpc] at hw
      exact False.elim hw

/-- Nothing moves without a new call. -/
def AtRest (callable : ι → Prop) (s : State n ι) : Prop := ∀ a t, ¬ Work callable s a t

/-- Nobody holds the mutex of a pool at rest. -/
theorem AtRest.free {s : State n ι} (h : AtRest callable s) (hlocked : Locked s) :
    s.queueMutex = none := by
  cases hmutex : s.queueMutex with
  | none => rfl
  | some w =>
      have hw := (hlocked.owner w).mpr hmutex
      obtain ⟨t, hstep⟩ := exists_step_of_holds callable hw
      refine absurd (Work.worker hstep ?_) (h _ t)
      intro hasleep
      rw [hasleep] at hw
      exact hw

/-- A worker at rest sleeps, or has left. -/
theorem AtRest.worker {s : State n ι} (h : AtRest callable s) (hlocked : Locked s) (w : Fin n) :
    s.workers w = .asleep ∨ s.workers w = .exited := by
  have hfree := h.free hlocked
  have hstuck : ∀ t, WorkerStep callable s w t → s.workers w = .asleep := by
    intro t hstep
    by_contra hawake
    exact h _ t (.worker hstep hawake)
  cases hpc : s.workers w with
  | asleep => exact Or.inl rfl
  | exited => exact Or.inr rfl
  | lock => exact Or.inl (hpc ▸ hstuck _ (.acquire hpc hfree))
  | took c =>
      by_cases hcallable : callable c
      · exact Or.inl (hpc ▸ hstuck _ (.start hpc hcallable))
      · exact Or.inl (hpc ▸ hstuck _ (.skip hpc hcallable))
  | run c => exact Or.inl (hpc ▸ hstuck _ (.finish hpc))
  | _ =>
      refine absurd ?_ (hlocked.free hfree w)
      rw [hpc]
      exact trivial

/-- A call that has begun has returned. -/
theorem AtRest.submit {s : State n ι} (h : AtRest callable s) (hlocked : Locked s) (c : ι) :
    s.submits c = .load ∨ ∃ e, s.submits c = .returned e := by
  have hstuck : ∀ t, SubmitStep s c t → s.submits c = .load := by
    intro t hstep
    by_contra hbegun
    exact h _ t (.submit hstep hbegun)
  cases hpc : s.submits c with
  | load => exact Or.inl rfl
  | push => exact Or.inl (hpc ▸ hstuck _ (.push hpc (h.free hlocked)))
  | notify =>
      by_cases hasleep : ∃ w, s.workers w = .asleep
      · obtain ⟨w, hw⟩ := hasleep
        exact Or.inl (hpc ▸ hstuck _ (.notifyOne hpc hw))
      · exact Or.inl (hpc ▸ hstuck _ (.notifyNone hpc (fun w hw => hasleep ⟨w, hw⟩)))
  | returned e => exact Or.inr ⟨e, rfl⟩

/-- All workers asleep, nothing queued, no call under way, and what was
    accepted done. -/
structure Drained (callable : ι → Prop) (s : State n ι) : Prop where
  asleep : ∀ w, s.workers w = .asleep
  empty : s.taskQueue = []
  returned : ∀ c, s.submits c = .load ∨ ∃ e, s.submits c = .returned e
  inOrder : s.dequeued = s.enqueued
  done : ∀ c e, callable c → s.submits c = .returned e → e.isSuccess = true →
    s.started.count c = 1 ∧ s.finished.count c = 1

/-- **At rest, nothing is left to do.** -/
theorem AtRest.drained {s : State n ι} (hn : 0 < n) (h : Reachable callable s)
    (hrunning : s.status = .running) (hrest : AtRest callable s) : Drained callable s := by
  have hasleep : ∀ w, s.workers w = .asleep := by
    intro w
    rcases hrest.worker h.locked w with hw | hw
    · exact hw
    · exact absurd hw ((h.phased.running hrunning).2 w)
  have hempty : s.taskQueue = [] := by
    obtain ⟨F, hcard, hF⟩ := h.enough ⟨⟨0, hn⟩, hasleep _⟩
    have hnone : F = ∅ := by
      refine Finset.eq_empty_of_forall_notMem (fun a ha => ?_)
      have hlooks := hF a ha
      cases a with
      | worker w =>
          have hlooks : (s.workers w).Looks := hlooks
          rw [hasleep w] at hlooks
          exact hlooks
      | submit c =>
          have hlooks : s.submits c = .notify := hlooks
          rcases hrest.submit h.locked c with hc | ⟨e, hc⟩
          · rw [hc] at hlooks
            cases hlooks
          · rw [hc] at hlooks
            cases hlooks
      | shutdown => exact hlooks
    rw [hnone, Finset.card_empty] at hcard
    exact List.length_eq_zero_iff.mp (Nat.le_zero.mp hcard)
  have hall : s.dequeued = s.enqueued := by
    rw [h.accounted.enqueued, hempty, List.append_nil]
  refine ⟨hasleep, hempty, hrest.submit h.locked, hall, ?_⟩
  intro c e hcallable hc hsuccess
  refine h.accounted.done_of_not_carried ?_ hcallable ?_
  · exact Finset.sum_eq_zero (fun w _ => by rw [hasleep w]; rfl)
  · rw [hall]
    exact h.accounted.mem_enqueued hc hsuccess

/-- **Every accepted task is run.**  From any state of a running pool, the pool
    and the calls that have begun can take only boundedly many steps before
    they need something from outside; and when they can take none, all workers
    are asleep, the queue is empty, and every accepted task has been run to
    its end, once. -/
theorem accepted_tasks_run {s : State n ι} (hn : 0 < n) (h : Reachable callable s)
    (hrunning : s.status = .running) :
    ∃ bound, ∀ k t, StepsIn (Work callable) s k t →
      k ≤ bound ∧ (AtRest callable t → Drained callable t) := by
  obtain ⟨calls, hbegun⟩ := h.exists_begun
  have hs : Working calls s := ⟨hrunning, h.locked, hbegun⟩
  refine ⟨s.left calls, fun k t hpath => ⟨?_, fun hrest => ?_⟩⟩
  · have hbound := hpath.bounded (State.left calls) Working.work Working.left_lt hs
    omega
  · have ht : Working calls t := hpath.steps.invariant Working.work hs
    exact hrest.drained hn (h.steps (Work.steps hpath.steps)) ht.running

/-- One worker, and a task queued that nobody has been told of. -/
theorem accepted_tasks_run_one :
    ∃ bound, ∀ k t, StepsIn (Work (fun _ => True)) queuedTask k t →
      k ≤ bound ∧ (AtRest (fun _ => True) t → Drained (fun _ => True) t) :=
  accepted_tasks_run Nat.one_pos queuedTask_reachable rfl

end LaunchCpp.ThreadPool
