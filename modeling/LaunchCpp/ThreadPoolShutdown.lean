import LaunchCpp.ThreadPool

/-! # What `shutdown` misses

    `shutdown` changes the status and calls `notify_all` without taking
    `queue_mutex_`, and `submit` looks at the status before it takes the
    mutex.  A worker between its predicate and its sleep does not hear the
    notification, and a task may be pushed when no worker is left.  The main
    results, `no_lost_wakeup` and `accepted_task_runs`, say that nothing else
    goes wrong. -/

namespace LaunchCpp.ThreadPool

open TransitionSystems

variable {n : Nat} {ι : Type}

/-! ## The wake-up -/

/-- A worker that sleeps, or has found nothing to do and is about to. -/
def WorkerPc.Waits : WorkerPc ι → Prop
  | .block => True
  | .asleep => True
  | _ => False

/-- `notify_all` reaches every worker but one that is not asleep yet. -/
theorem WorkerPc.not_waits_notified {pc : WorkerPc ι} (h : pc ≠ .block) :
    ¬ pc.notified.Waits := by
  cases pc with
  | block => exact absurd rfl h
  | _ => exact id

/-- `shutdown` has sent its notification, and a worker is asleep. -/
def LostWakeup (s : State n ι) : Prop :=
  s.shutdown.Notified ∧ ∃ w, s.workers w = .asleep

/-- `notify_all` is called when no worker is between its predicate and its
    sleep. -/
def NotifiesBetweenWaits (s : State n ι) (a : Thread n ι) : Prop :=
  a = .shutdown → s.shutdown = .notify → ∀ w, s.workers w ≠ .block

theorem ShutdownStep.of_notify {s t : State n ι} (h : ShutdownStep s t)
    (hnotify : s.shutdown = .notify) :
    t = { s with workers := fun w => (s.workers w).notified, shutdown := .join 0 } := by
  cases h with
  | notifyAll h => rfl
  | _ h =>
      rw [hnotify] at h
      cases h

variable [DecidableEq ι] {callable : ι → Prop}

theorem Reachable.not_running_of_notified {s : State n ι} (h : Reachable callable s)
    (hnotified : s.shutdown.Notified) : s.status ≠ .running := by
  intro hrunning
  rw [(h.phased.running hrunning).1] at hnotified
  exact hnotified

/-- In a pool that does not run the predicate is true, and no worker begins to
    wait. -/
theorem Step.not_waits {s t : State n ι} {a : Thread n ι} (h : Step callable s a t)
    (hstatus : s.status ≠ .running) (hs : ∀ w, ¬ (s.workers w).Waits) :
    ∀ w, ¬ (t.workers w).Waits := by
  have hmove : ∀ (w : Fin n) (pc : WorkerPc ι), ¬ pc.Waits →
      ∀ v, ¬ (Function.update s.workers w pc v).Waits := by
    intro w pc hpc v
    by_cases hv : v = w
    · subst hv
      rw [Function.update_self]
      exact hpc
    · rw [Function.update_of_ne hv]
      exact hs v
  cases h with
  | @worker w _ h =>
      cases h with
      | wait h hready => exact absurd (Or.inr hstatus) hready
      | sleep h =>
          have hblock := hs w
          rw [h] at hblock
          exact absurd trivial hblock
      | _ => exact hmove w _ id
  | submit h =>
      cases h with
      | notifyOne h hasleep => exact hmove _ _ id
      | _ => exact hs
  | shutdown h =>
      cases h with
      | notifyAll h =>
          intro w
          refine WorkerPc.not_waits_notified (fun hblock => ?_)
          have hw := hs w
          rw [hblock] at hw
          exact hw trivial
      | _ => exact hs

/-- `shutdown` is behind its notification only after it. -/
theorem Step.notified {s t : State n ι} {a : Thread n ι} (h : Step callable s a t)
    (hphased : Phased s) (hnotified : t.shutdown.Notified) :
    s.shutdown.Notified ∨ (a = .shutdown ∧ s.shutdown = .notify ∧ ShutdownStep s t) := by
  cases h with
  | worker h => cases h <;> exact Or.inl hnotified
  | submit h => cases h <;> exact Or.inl hnotified
  | shutdown h =>
      cases h with
      | exchange h hstatus => exact False.elim hnotified
      | exchangeFails h hstatus => exact absurd (hphased.exchange h) hstatus
      | notifyAll h => exact Or.inr ⟨rfl, h, .notifyAll h⟩
      | join h hexited =>
          rw [h]
          exact Or.inl trivial
      | store h =>
          rw [h]
          exact Or.inl trivial

/-- Nobody waits once the notification is out. -/
def Heard (s : State n ι) : Prop := s.shutdown.Notified → ∀ w, ¬ (s.workers w).Waits

theorem Heard.step {s t : State n ι} {a : Thread n ι} (hreachable : Reachable callable s)
    (hs : Heard s) (h : Step callable s a t) (ha : NotifiesBetweenWaits s a) : Heard t := by
  intro hnotified
  rcases h.notified hreachable.phased hnotified with hnotified | ⟨rfl, hnotify, hstep⟩
  · exact h.not_waits (hreachable.not_running_of_notified hnotified) (hs hnotified)
  · rw [hstep.of_notify hnotify]
    exact fun w => WorkerPc.not_waits_notified (ha rfl hnotify w)

omit [DecidableEq ι] in
theorem Heard.not_lostWakeup {s : State n ι} (hs : Heard s) : ¬ LostWakeup s := by
  rintro ⟨hnotified, w, hasleep⟩
  have hw := hs hnotified w
  rw [hasleep] at hw
  exact hw trivial

/-- Behind its notification `shutdown` does not come back to it. -/
theorem Step.not_notify {s t : State n ι} {a : Thread n ι} (h : Step callable s a t)
    (hnotified : s.shutdown.Notified) : t.shutdown.Notified := by
  cases h with
  | worker h => cases h <;> exact hnotified
  | submit h => cases h <;> exact hnotified
  | shutdown h =>
      cases h with
      | exchange h hstatus =>
          rw [h] at hnotified
          exact False.elim hnotified
      | _ => exact trivial

/-- Behind a notification that reached everybody, nobody waits any more. -/
theorem heard_of_notified {s t : State n ι} (hreachable : Reachable callable s)
    (hnotified : s.shutdown.Notified) (hs : ∀ w, ¬ (s.workers w).Waits)
    (hpath : Steps (Step callable) s t) : Heard t := by
  have hend : t.shutdown.Notified ∧ Heard t := by
    refine Steps.invariant_with (P := fun s => s.shutdown.Notified ∧ Heard s)
      (Q := Reachable callable) (fun hpath' => hreachable.steps hpath') ?_
      ⟨hnotified, fun _ => hs⟩ hpath
    rintro s a t hreachable ⟨hnotified, hs⟩ hstep
    refine ⟨hstep.not_notify hnotified, hs.step hreachable hstep ?_⟩
    intro _ hnotify
    rw [hnotify] at hnotified
    exact False.elim hnotified
  exact hend.2

/-- A worker that was about to sleep sleeps behind the notification. -/
theorem lostWakeup_of_block {s : State n ι} {w : Fin n} (hnotified : s.shutdown.Notified)
    (hw : s.workers w = .block) : ∃ t, Steps (Step callable) s t ∧ LostWakeup t :=
  ⟨_, Steps.single (.worker (.sleep hw)), hnotified, w, Function.update_self _ _ _⟩

/-- **When the wake-up is lost.**  If in an interleaving `notify_all` is never
    called while a worker is between its predicate and its sleep, no worker
    is asleep behind the notification; and from every state in which
    `notify_all` is called, a lost wake-up can be reached if and only if
    some worker is there. -/
theorem no_lost_wakeup :
    (∀ s : State n ι, Steps (Under NotifiesBetweenWaits (Step callable)) {} s → ¬ LostWakeup s)
    ∧ ∀ s₀ s₁ : State n ι, Reachable callable s₀ → s₀.shutdown = .notify →
        Step callable s₀ .shutdown s₁ →
        ((∃ s, Steps (Step callable) s₁ s ∧ LostWakeup s) ↔ ∃ w, s₀.workers w = .block) := by
  constructor
  · intro s h
    refine Heard.not_lostWakeup ?_
    refine Steps.invariant_with (Q := Reachable callable) (fun hpath => hpath.of_under) ?_ ?_ h
    · intro s a t hreachable hs hstep
      exact hs.step hreachable hstep.2 hstep.1
    · exact fun hnotified => False.elim hnotified
  · intro s₀ s₁ h₀ hnotify hstep
    have h₁ : Reachable callable s₁ := h₀.next hstep
    have hs₁ : s₁ = { s₀ with
        workers := fun w => (s₀.workers w).notified, shutdown := .join 0 } := by
      cases hstep with
      | shutdown h => exact h.of_notify hnotify
    have hnotified : s₁.shutdown.Notified := by
      rw [hs₁]
      exact trivial
    constructor
    · rintro ⟨s, hpath, hlost⟩
      by_contra hnone
      have hawake : ∀ w, ¬ (s₁.workers w).Waits := by
        intro w
        rw [hs₁]
        exact WorkerPc.not_waits_notified (fun hw => hnone ⟨w, hw⟩)
      exact (heard_of_notified h₁ hnotified hawake hpath).not_lostWakeup hlost
    · rintro ⟨w, hblock⟩
      refine lostWakeup_of_block hnotified (w := w) ?_
      rw [hs₁]
      show (s₀.workers w).notified = _
      rw [hblock]
      rfl

/-- The worker is asleep before the status changes, and wakes. -/
theorem no_lost_wakeup_asleep_before :
    ∃ s : State 1 Unit, Steps (Under NotifiesBetweenWaits (Step (fun _ => True))) {} s
      ∧ s.shutdown.Notified ∧ ¬ LostWakeup s := by
  have hworker : ∀ {s t : State 1 Unit}, WorkerStep (fun _ => True) s 0 t →
      Under NotifiesBetweenWaits (Step (fun _ => True)) s (.worker 0) t := by
    intro s t h
    exact ⟨fun hthread => (by cases hthread), .worker h⟩
  have hnew : Steps (Under NotifiesBetweenWaits (Step (fun _ => True))) ({} : State 1 Unit) {} :=
    Relation.ReflTransGen.refl
  have hsleep := ((hnew.next (hworker (.acquire rfl rfl))).next
    (hworker (.wait rfl (by decide)))).next (hworker (.sleep rfl))
  have hexchange := hsleep.next (a := .shutdown)
    ⟨fun _ hnotify => (by cases hnotify), .shutdown (.exchange rfl rfl)⟩
  have hnotify := hexchange.next (a := .shutdown) ⟨fun _ _ => (by decide), .shutdown (.notifyAll rfl)⟩
  exact ⟨_, hnotify, trivial, no_lost_wakeup.1 _ hnotify⟩

/-- A worker finds nothing to do; `shutdown` changes the status and sends its
    notification; the worker falls asleep. -/
theorem no_lost_wakeup_one_worker :
    ∃ s : State 1 Unit, Reachable (fun _ => True) s ∧ LostWakeup s := by
  have hnew : Reachable (fun _ => True) ({} : State 1 Unit) := Relation.ReflTransGen.refl
  have hwait := (hnew.next (.worker (w := 0) (.acquire rfl rfl))).next
    (.worker (w := 0) (.wait rfl (by decide)))
  have hnotify := (hwait.next (.shutdown (.exchange rfl rfl))).next (.shutdown (.notifyAll rfl))
  exact ⟨_, hnotify.next (.worker (w := 0) (.sleep rfl)), trivial, 0, rfl⟩

/-! ## The accepted task -/

/-- A task is pushed while some worker has not left. -/
def PushMeetsWorker (s : State n ι) (a : Thread n ι) : Prop :=
  ∀ c, a = .submit c → s.submits c = .push → ∃ w, s.workers w ≠ .exited

/-- Nothing is queued when nobody is left. -/
def NothingLeft (s : State n ι) : Prop :=
  (∀ w, s.workers w = .exited) → s.taskQueue = []

theorem NothingLeft.step {s t : State n ι} {a : Thread n ι} (hs : NothingLeft s)
    (h : Step callable s a t) (ha : PushMeetsWorker s a) : NothingLeft t := by
  intro hout
  by_cases hbefore : ∀ w, s.workers w = .exited
  · have hempty := hs hbefore
    cases h with
    | @worker w _ h => exact absurd (hbefore w) h.not_exited
    | submit h =>
        cases h with
        | push h hfree =>
            obtain ⟨w, hw⟩ := ha _ rfl h
            exact absurd (hbefore w) hw
        | _ => exact hempty
    | shutdown h => cases h <;> exact hempty
  · obtain ⟨w, hw⟩ := not_forall.mp hbefore
    rcases h.leaves (hout w) with hw' | ⟨-, -, hempty⟩
    · exact absurd hw' hw
    · exact hempty

/-- What a submission that succeeded has queued. -/
theorem Accounted.mem_enqueued {s : State n ι} (hs : Accounted callable s) {c : ι} {e : Error}
    (hc : s.submits c = .returned e) (hsuccess : e.isSuccess = true) : c ∈ s.enqueued := by
  refine List.count_pos_iff.mp ?_
  rw [hs.queued c, hc, SubmitPc.queued, if_pos hsuccess]
  exact Nat.one_pos

/-- A task in the queue of a pool that all workers have left stays there. -/
def Stuck (c : ι) (s : State n ι) : Prop :=
  (∀ w, s.workers w = .exited) ∧ c ∈ s.taskQueue

theorem Stuck.step {c : ι} {s t : State n ι} {a : Thread n ι} (hs : Stuck c s)
    (h : Step callable s a t) : Stuck c t := by
  refine ⟨fun w => h.exited (hs.1 w), ?_⟩
  cases h with
  | @worker w _ h => exact absurd (hs.1 w) h.not_exited
  | submit h =>
      cases h with
      | push h hfree => exact List.mem_append_left _ hs.2
      | _ => exact hs.2
  | shutdown h => cases h <;> exact hs.2

/-- A worker that is there when a task is queued leaves only after the task
    has left the queue. -/
def Watched (c : ι) (w : Fin n) (s : State n ι) : Prop :=
  c ∈ s.enqueued ∧ (s.workers w = .exited → c ∈ s.dequeued)

theorem Watched.step {c : ι} {w : Fin n} {s t : State n ι} {a : Thread n ι}
    (haccounted : Accounted callable s) (hs : Watched c w s) (h : Step callable s a t) :
    Watched c w t := by
  obtain ⟨henqueued, hdequeued⟩ := h.queue_grows
  refine ⟨henqueued.subset hs.1, fun hw => ?_⟩
  rcases h.leaves hw with hw | ⟨-, hempty, -⟩
  · exact hdequeued.subset (hs.2 hw)
  · have hc := hs.1
    rw [haccounted.enqueued, hempty, List.append_nil] at hc
    exact hdequeued.subset hc

/-- `shutdown` returns when every worker has left. -/
theorem Reachable.all_exited {s : State n ι} (h : Reachable callable s)
    (hreturned : s.shutdown = .returned) (w : Fin n) : s.workers w = .exited := by
  refine h.phased.joined w ?_
  rw [hreturned]
  exact trivial

theorem Step.pushed {s t : State n ι} {c : ι} (h : Step callable s (.submit c) t)
    (hpush : s.submits c = .push) :
    t.taskQueue = s.taskQueue ++ [c] ∧ t.enqueued = s.enqueued ++ [c]
      ∧ t.workers = s.workers := by
  cases h with
  | submit h =>
      cases h with
      | push h hfree => exact ⟨rfl, rfl, rfl⟩
      | _ h =>
          rw [hpush] at h
          cases h

/-- One task for each call: what is in the queue has not left it. -/
theorem Accounted.finished_of_stuck {s : State n ι} (hs : Accounted callable s) {c : ι}
    (hstuck : Stuck c s) : s.finished.count c = 0 := by
  have hcount := hs.count_enqueued_le c
  rw [hs.enqueued, List.count_append] at hcount
  have hpos := List.count_pos_iff.mpr hstuck.2
  have hdequeued := hs.dequeued c
  omega

/-- A task is pushed with no worker left, and never run. -/
theorem stuck_of_pushed {s₀ s₁ s : State n ι} {c : ι} (hall : ∀ w, s₀.workers w = .exited)
    (hpush : s₀.submits c = .push) (hstep : Step callable s₀ (.submit c) s₁)
    (hpath : Steps (Step callable) s₁ s) : Stuck c s := by
  obtain ⟨hqueue, -, hworkers⟩ := hstep.pushed hpush
  refine Steps.invariant Stuck.step ⟨?_, ?_⟩ hpath
  · rw [hworkers]
    exact hall
  · rw [hqueue]
    exact List.mem_append_right _ (List.mem_singleton_self c)

/-- A task is pushed with a worker left, which sees it leave the queue. -/
theorem watched_of_pushed {s₀ s₁ s : State n ι} {c : ι} {w : Fin n}
    (h₀ : Reachable callable s₀) (hw : s₀.workers w ≠ .exited) (hpush : s₀.submits c = .push)
    (hstep : Step callable s₀ (.submit c) s₁) (hpath : Steps (Step callable) s₁ s) :
    Watched c w s := by
  have h₁ : Reachable callable s₁ := h₀.next hstep
  obtain ⟨-, henqueued, hworkers⟩ := hstep.pushed hpush
  have hwatched₁ : Watched c w s₁ := by
    constructor
    · rw [henqueued]
      exact List.mem_append_right _ (List.mem_singleton_self c)
    · intro hexited
      rw [hworkers] at hexited
      exact absurd hexited hw
  exact Steps.invariant_with (Q := Accounted callable)
    (fun hpath' => (h₁.steps hpath').accounted) Watched.step hwatched₁ hpath

/-- **When an accepted task runs.**  If in an interleaving every task is pushed
    while some worker has not left, every accepted task has been run when
    `shutdown` has returned; and in every interleaving a task is run by then
    if and only if some worker had not left when it was pushed. -/
theorem accepted_task_runs (hn : 0 < n) :
    (∀ s : State n ι, Steps (Under PushMeetsWorker (Step callable)) {} s →
      s.shutdown = .returned → ∀ c e, callable c → s.submits c = .returned e →
      e.isSuccess = true → s.started.count c = 1 ∧ s.finished.count c = 1)
    ∧ ∀ (s₀ s₁ s : State n ι) (c : ι), Reachable callable s₀ → s₀.submits c = .push →
        Step callable s₀ (.submit c) s₁ → Steps (Step callable) s₁ s → s.shutdown = .returned →
        callable c → (s.finished.count c = 1 ↔ ∃ w, s₀.workers w ≠ .exited) := by
  constructor
  · intro s h hreturned c e hcallable hc hsuccess
    have hreachable : Reachable callable s := h.of_under
    have hnothing : NothingLeft s := by
      refine Steps.invariant (fun hs hstep => hs.step hstep.2 hstep.1) ?_ h
      intro hnew
      cases hnew ⟨0, hn⟩
    have hout := hreachable.all_exited hreturned
    have haccounted := hreachable.accounted
    have hmem := haccounted.mem_enqueued hc hsuccess
    rw [haccounted.enqueued, hnothing hout, List.append_nil] at hmem
    exact haccounted.done hout hcallable hmem
  · intro s₀ s₁ s c h₀ hpush hstep hpath hreturned hcallable
    have h₁ : Reachable callable s₁ := h₀.next hstep
    have h : Reachable callable s := h₁.steps hpath
    constructor
    · intro hfinished
      by_contra hnone
      have hall : ∀ w, s₀.workers w = .exited := by
        intro w
        by_contra hw
        exact hnone ⟨w, hw⟩
      have hzero := h.accounted.finished_of_stuck (stuck_of_pushed hall hpush hstep hpath)
      rw [hzero] at hfinished
      cases hfinished
    · rintro ⟨w, hw⟩
      have hout := h.all_exited hreturned
      have hwatched := watched_of_pushed h₀ hw hpush hstep hpath
      exact (h.accounted.done hout hcallable (hwatched.2 (hout w))).2

theorem accepted_task_runs_one_worker :
    ∃ s : State 1 Unit, Steps (Step (fun _ => True)) queuedTask s ∧ s.shutdown = .returned
      ∧ s.finished.count () = 1 := by
  obtain ⟨s, hpath, hreturned⟩ := shuttingDownTask_returns
  have hpath : Steps (Step (fun _ => True)) queuedTask s :=
    (Steps.single queuedTask_exchange).trans hpath
  have hnew : Reachable (fun _ => True) ({} : State 1 Unit) := Relation.ReflTransGen.refl
  refine ⟨s, hpath, hreturned, ?_⟩
  exact ((accepted_task_runs Nat.one_pos).2 _ _ s ()
    (hnew.next (.submit (c := ()) (.load rfl rfl))) rfl (.submit (.push rfl rfl)) hpath hreturned
    trivial).mpr ⟨0, by decide⟩

/-- `submit` finds the pool running; `shutdown` joins the worker; the task is
    pushed, and the caller is told that it was accepted. -/
theorem accepted_task_runs_late_push :
    ∃ s : State 1 Unit, Reachable (fun _ => True) s ∧ s.shutdown = .returned
      ∧ s.submits () = .returned Error.ok ∧ s.started.count () = 0 := by
  have hnew : Reachable (fun _ => True) ({} : State 1 Unit) := Relation.ReflTransGen.refl
  have hload := hnew.next (.submit (c := ()) (.load rfl rfl))
  have hnotify := (hload.next (.shutdown (.exchange rfl rfl))).next (.shutdown (.notifyAll rfl))
  have hexit := ((hnotify.next (.worker (w := 0) (.acquire rfl rfl))).next
    (.worker (w := 0) (.ready rfl (Or.inr (by decide))))).next
    (.worker (w := 0) (.exit rfl (by decide) rfl))
  have hjoin := (hexit.next (.shutdown (.join (w := 0) rfl rfl))).next (.shutdown (.store rfl))
  have hpush := (hjoin.next (.submit (c := ()) (.push rfl rfl))).next
    (.submit (c := ()) (.notifyNone rfl (by decide)))
  exact ⟨_, hpush, rfl, rfl, rfl⟩

end LaunchCpp.ThreadPool
