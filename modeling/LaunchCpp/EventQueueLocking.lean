import LaunchCpp.EventQueue

/-! # `EventQueue` under its mutex

    The same calls statement by statement: every lock of `mutex_`, every
    operation on the queue, every evaluation of the predicate and every
    notification is a step of its own.  `Sim.step` relates them to the calls
    whose critical sections are one step, and `locked_keeps_order` says what
    this leaves of the order and of the wake-ups whenever the mutex is free. -/

namespace LaunchCpp.EventQueue.Locking

open TransitionSystems

/-- Where a call is.  It holds the mutex at `locked`, which for `clear` is the
    head of its loop, at `notify`, at `front`, where it is about to take the
    first event, at `block`, where it is about to sleep, at `predicate` and at
    `unlock`. -/
inductive Pc (ε : Type) where
  | lock
  | locked
  | notify
  | front
  | block
  | asleep
  | relock (timedOut : Bool)
  | predicate (timedOut : Bool)
  | unlock (event : Option ε)
  | returned (event : Option ε)

/-- The members of the queue, the point every call is at, and the record of
    the events. -/
structure State (ε κ : Type) where
  queue : List ε := []
  mutex : Option κ := none
  calls : κ → Pc ε := fun _ => .lock
  pushed : List ε := []
  removed : List ε := []

variable {ε κ : Type} [DecidableEq κ]

def State.move (s : State ε κ) (c : κ) (pc : Pc ε) : State ε κ :=
  { s with calls := Function.update s.calls c pc }

omit [DecidableEq κ] in
/-- The call evaluates the predicate of `wait_for`. -/
def State.Evaluates (call : κ → Call ε) (s : State ε κ) (c : κ) (timedOut : Bool) : Prop :=
  (call c = .waitAndPop ∧ s.calls c = .locked ∧ timedOut = false) ∨ s.calls c = .predicate timedOut

/-- One statement of one call. -/
inductive Step (call : κ → Call ε) (s : State ε κ) (c : κ) : State ε κ → Prop
  | acquire (h : s.calls c = .lock) (hfree : s.mutex = none) :
      Step call s c { s.move c .locked with mutex := some c }
  | push {event : ε} (hcall : call c = .push event) (h : s.calls c = .locked) :
      Step call s c
        { s.move c .notify with queue := s.queue ++ [event], pushed := s.pushed ++ [event] }
  | notifyOne {d : κ} (h : s.calls c = .notify) (hasleep : s.calls d = .asleep) :
      Step call s c ((s.move d (.relock false)).move c (.unlock none))
  | notifyNone (h : s.calls c = .notify) (hawake : ∀ d, s.calls d ≠ .asleep) :
      Step call s c (s.move c (.unlock none))
  | tryPop (hcall : call c = .tryPop) (h : s.calls c = .locked) (hqueue : s.queue ≠ []) :
      Step call s c (s.move c .front)
  | tryPopEmpty (hcall : call c = .tryPop) (h : s.calls c = .locked) (hempty : s.queue = []) :
      Step call s c (s.move c (.unlock none))
  | ready {timedOut : Bool} (h : s.Evaluates call c timedOut) (hqueue : s.queue ≠ []) :
      Step call s c (s.move c .front)
  | wait (h : s.Evaluates call c false) (hempty : s.queue = []) :
      Step call s c (s.move c .block)
  | giveUp (h : s.Evaluates call c true) (hempty : s.queue = []) :
      Step call s c (s.move c (.unlock none))
  | take {event : ε} {rest : List ε} (h : s.calls c = .front) (hfront : s.queue = event :: rest) :
      Step call s c
        { s.move c (.unlock (some event)) with queue := rest, removed := s.removed ++ [event] }
  -- releasing the mutex and falling asleep are one step
  | sleep (h : s.calls c = .block) : Step call s c { s.move c .asleep with mutex := none }
  | timeout (h : s.calls c = .asleep) : Step call s c (s.move c (.relock true))
  | spurious (h : s.calls c = .asleep) : Step call s c (s.move c (.relock false))
  | expire (h : s.calls c = .relock false) : Step call s c (s.move c (.relock true))
  | reacquire {timedOut : Bool} (h : s.calls c = .relock timedOut) (hfree : s.mutex = none) :
      Step call s c { s.move c (.predicate timedOut) with mutex := some c }
  | discard {event : ε} {rest : List ε} (hcall : call c = .clear) (h : s.calls c = .locked)
      (hfront : s.queue = event :: rest) :
      Step call s c { s with queue := rest, removed := s.removed ++ [event] }
  | cleared (hcall : call c = .clear) (h : s.calls c = .locked) (hempty : s.queue = []) :
      Step call s c (s.move c (.unlock none))
  | release {event : Option ε} (h : s.calls c = .unlock event) :
      Step call s c { s.move c (.returned event) with mutex := none }

/-- What an interleaving leads to from a new queue. -/
def Reachable (call : κ → Call ε) (s : State ε κ) : Prop := Steps (Step call) {} s

/-! ## What stands between two critical sections -/

/-- The call holds the mutex. -/
def Pc.Holds : Pc ε → Prop
  | .locked => True
  | .notify => True
  | .front => True
  | .block => True
  | .predicate _ => True
  | .unlock _ => True
  | _ => False

/-- Where a call is when its critical sections are one step.  It comes to the
    end of one with the statement that others can tell: `notify_one`, the
    removal of an event, the release of the mutex by `wait_for`, the end of
    the loop of `clear`. -/
def Stands (call : Call ε) : Pc ε → CallPc ε → Prop
  | .lock, pc => pc = .begin
  | .locked, pc => pc = .begin
  | .notify, pc => pc = .begin ∧ ∃ event, call = .push event
  | .front, pc => (call = .tryPop ∧ pc = .begin) ∨ (call = .waitAndPop ∧ pc = .begin)
      ∨ ∃ timedOut, pc = .woken timedOut
  | .block, pc => (call = .waitAndPop ∧ pc = .begin) ∨ pc = .woken false
  | .asleep, pc => pc = .asleep
  | .relock timedOut, pc => pc = .woken timedOut
  | .predicate timedOut, pc => pc = .woken timedOut
  | .unlock event, pc => pc = .returned event
  | .returned event, pc => pc = .returned event

/-- The same queue, with the same records. -/
def Same (s : State ε κ) (a : EventQueue.State ε κ) : Prop :=
  s.queue = a.queue ∧ s.pushed = a.pushed ∧ s.removed = a.removed

/-- The queue while a call holds the mutex: an event may have been pushed and
    not yet notified, or some have been discarded and the rest not. -/
def Inside (s : State ε κ) (a : EventQueue.State ε κ) (call : Call ε) : Pc ε → Prop
  | .notify => ∃ event, call = .push event ∧ s.queue = a.queue ++ [event]
      ∧ s.pushed = a.pushed ++ [event] ∧ s.removed = a.removed
  | .locked => ∃ discarded, (call = .clear ∨ discarded = []) ∧ a.queue = discarded ++ s.queue
      ∧ s.pushed = a.pushed ∧ s.removed = a.removed ++ discarded
  | .block => s.queue = [] ∧ Same s a
  | _ => Same s a

/-- **The calls under the mutex and the calls in single steps.** -/
structure Sim (call : κ → Call ε) (s : State ε κ) (a : EventQueue.State ε κ) : Prop where
  stands : ∀ c, Stands (call c) (s.calls c) (a.calls c)
  holder : ∀ c, (s.calls c).Holds ↔ s.mutex = some c
  free : s.mutex = none → Same s a
  inside : ∀ c, s.mutex = some c → Inside s a (call c) (s.calls c)

variable {call : κ → Call ε} {s t : State ε κ} {a b : EventQueue.State ε κ} {c : κ}

omit [DecidableEq κ] in
theorem Same.inside (h : Same s a) (call : Call ε) : Inside s a call .locked :=
  ⟨[], Or.inr rfl, h.1.symm, h.2.1, h.2.2.trans (List.append_nil _).symm⟩

omit [DecidableEq κ] in
/-- Only `clear` changes the queue at the head of its loop. -/
theorem Inside.same {call : Call ε} (h : Inside s a call .locked) (hcall : call ≠ .clear) :
    Same s a := by
  obtain ⟨discarded, hclear | rfl, hqueue, hpushed, hremoved⟩ := h
  · exact absurd hclear hcall
  · exact ⟨hqueue.symm, hpushed, hremoved.trans (List.append_nil _)⟩

theorem Stands.asleep {call : Call ε} {pc : Pc ε} (h : Stands call pc .asleep) : pc = .asleep := by
  cases pc with
  | asleep => rfl
  | notify => cases h.1
  | front =>
      obtain ⟨-, h⟩ | ⟨-, h⟩ | ⟨timedOut, h⟩ := h
      · cases h
      · cases h
      · cases h
  | block =>
      obtain ⟨-, h⟩ | h := h
      · cases h
      · cases h
  | _ => cases h

/-! ## One statement -/

namespace Sim

/-- The call `c` goes from one statement to another. -/
theorem update {pc : Pc ε} (hs : Sim call s a) (hcalls : t.calls = Function.update s.calls c pc)
    (hothers : ∀ d, d ≠ c → b.calls d = a.calls d) (hstands : Stands (call c) pc (b.calls c))
    (hown : pc.Holds ↔ t.mutex = some c)
    (hmutex : ∀ d, d ≠ c → (s.mutex = some d ↔ t.mutex = some d))
    (hfree : t.mutex = none → Same t b)
    (hinside : ∀ d, t.mutex = some d → Inside t b (call d) (t.calls d)) : Sim call t b := by
  refine ⟨fun d => ?_, fun d => ?_, hfree, hinside⟩
  · rw [hcalls]
    by_cases hd : d = c
    · subst hd
      rw [Function.update_self]
      exact hstands
    · rw [Function.update_of_ne hd, hothers d hd]
      exact hs.stands d
  · rw [hcalls]
    by_cases hd : d = c
    · subst hd
      rw [Function.update_self]
      exact hown
    · rw [Function.update_of_ne hd]
      exact (hs.holder d).trans (hmutex d hd)

/-- A call that holds the mutex keeps it. -/
theorem keep {pc : Pc ε} (hs : Sim call s a) (hholds : s.mutex = some c)
    (hcalls : t.calls = Function.update s.calls c pc) (hmutex : t.mutex = s.mutex)
    (hothers : ∀ d, d ≠ c → b.calls d = a.calls d) (hstands : Stands (call c) pc (b.calls c))
    (hpc : pc.Holds) (hinside : Inside t b (call c) pc) : Sim call t b := by
  rw [hholds] at hmutex
  refine hs.update hcalls hothers hstands ⟨fun _ => hmutex, fun _ => hpc⟩ (fun d _ => ?_)
    (fun hnone => ?_) (fun d hd => ?_)
  · rw [hholds, hmutex]
  · rw [hmutex] at hnone
    cases hnone
  · rw [hmutex] at hd
    cases hd
    rw [hcalls, Function.update_self]
    exact hinside

/-- A call locks the mutex. -/
theorem enter {pc : Pc ε} (hs : Sim call s a) (hfree : s.mutex = none)
    (hcalls : t.calls = Function.update s.calls c pc) (hmutex : t.mutex = some c)
    (hstands : Stands (call c) pc (a.calls c)) (hpc : pc.Holds)
    (hinside : Inside t a (call c) pc) : Sim call t a := by
  refine hs.update hcalls (fun d _ => rfl) hstands ⟨fun _ => hmutex, fun _ => hpc⟩
    (fun d hd => ?_) (fun hnone => ?_) (fun d hd => ?_)
  · rw [hfree, hmutex]
    constructor
    · intro h
      cases h
    · intro h
      cases h
      exact absurd rfl hd
  · rw [hmutex] at hnone
    cases hnone
  · rw [hmutex] at hd
    cases hd
    rw [hcalls, Function.update_self]
    exact hinside

/-- A call unlocks the mutex. -/
theorem leave {pc : Pc ε} (hs : Sim call s a) (hholds : s.mutex = some c)
    (hcalls : t.calls = Function.update s.calls c pc) (hmutex : t.mutex = none)
    (hothers : ∀ d, d ≠ c → b.calls d = a.calls d) (hstands : Stands (call c) pc (b.calls c))
    (hpc : ¬ pc.Holds) (hsame : Same t b) : Sim call t b := by
  refine hs.update hcalls hothers hstands ⟨fun h => absurd h hpc, fun h => ?_⟩
    (fun d hd => ?_) (fun _ => hsame) (fun d hd => ?_)
  · rw [hmutex] at h
    cases h
  · rw [hholds, hmutex]
    constructor
    · intro h
      cases h
      exact absurd rfl hd
    · intro h
      cases h
  · rw [hmutex] at hd
    cases hd

/-- A call outside the mutex moves, here and there. -/
theorem outside {pc : Pc ε} {pc' : CallPc ε} (hs : Sim call s a) (hbefore : ¬ (s.calls c).Holds)
    (hstands : Stands (call c) pc pc') (hpc : ¬ pc.Holds) :
    Sim call (s.move c pc) (a.move c pc') := by
  have hmutex : s.mutex ≠ some c := fun h => hbefore ((hs.holder c).mpr h)
  refine hs.update rfl (fun d hd => Function.update_of_ne hd _ _) ?_
    ⟨fun h => absurd h hpc, fun h => absurd h hmutex⟩ (fun d _ => Iff.rfl) hs.free (fun d hd => ?_)
  · show Stands (call c) pc (Function.update a.calls c pc' c)
    rw [Function.update_self]
    exact hstands
  · have hdc : d ≠ c := by
      rintro rfl
      exact hmutex hd
    show Inside s a (call d) (Function.update s.calls c pc d)
    rw [Function.update_of_ne hdc]
    exact hs.inside d hd

omit [DecidableEq κ] in
/-- What is known of a call that holds the mutex. -/
theorem at_pc {pc : Pc ε} (hs : Sim call s a) (h : s.calls c = pc) (hpc : pc.Holds) :
    s.mutex = some c ∧ Stands (call c) pc (a.calls c) ∧ Inside s a (call c) pc := by
  have hholds : s.mutex = some c := by
    rw [← hs.holder c, h]
    exact hpc
  refine ⟨hholds, ?_, ?_⟩
  · rw [← h]
    exact hs.stands c
  · rw [← h]
    exact hs.inside c hholds

omit [DecidableEq κ] in
theorem stands_at {pc : Pc ε} (hs : Sim call s a) (h : s.calls c = pc) :
    Stands (call c) pc (a.calls c) := by
  rw [← h]
  exact hs.stands c

omit [DecidableEq κ] in
/-- The predicate is evaluated at the same point. -/
theorem evaluates {timedOut : Bool} (hs : Sim call s a) (h : s.Evaluates call c timedOut) :
    s.mutex = some c ∧ a.Evaluates call c timedOut ∧ Same s a := by
  rcases h with ⟨hcall, h, hfirst⟩ | h
  · obtain ⟨hholds, hstands, hinside⟩ := hs.at_pc h trivial
    exact ⟨hholds, Or.inl ⟨hcall, hstands, hfirst⟩, hinside.same (by simp [hcall])⟩
  · obtain ⟨hholds, hstands, hinside⟩ := hs.at_pc h trivial
    exact ⟨hholds, Or.inr hstands, hinside⟩

/-- A call in its critical section ends it without the queue, and returns. -/
theorem returns {event : Option ε} {a' : EventQueue.State ε κ} (hs : Sim call s a)
    (hholds : s.mutex = some c) (hcalls : a'.calls = a.calls) (hsame : Same s a') :
    Sim call (s.move c (.unlock event)) (a'.move c (.returned event)) := by
  refine hs.keep hholds rfl rfl (fun d hd => ?_) ?_ trivial hsame
  · show Function.update a'.calls c _ d = a.calls d
    rw [Function.update_of_ne hd, hcalls]
  · exact Function.update_self _ _ _

omit [DecidableEq κ] in
/-- Outside `clear`, a call that has just locked the mutex has the queue as it
    was. -/
theorem at_locked (hs : Sim call s a) (h : s.calls c = .locked) (hcall : call c ≠ .clear) :
    s.mutex = some c ∧ a.calls c = .begin ∧ Same s a := by
  obtain ⟨hholds, hbegin, hinside⟩ := hs.at_pc h trivial
  exact ⟨hholds, hbegin, hinside.same hcall⟩

/-- `a` follows a statement of the call `c` that leads to `t`. -/
def Followed (call : κ → Call ε) (a : EventQueue.State ε κ) (c : κ) (t : State ε κ) : Prop :=
  ∃ b, (b = a ∨ EventQueue.Step call a c b) ∧ Sim call t b

theorem push {event : ε} (hs : Sim call s a) (hcall : call c = .push event)
    (h : s.calls c = .locked) : Followed call a c
      { s.move c .notify with queue := s.queue ++ [event], pushed := s.pushed ++ [event] } := by
  obtain ⟨hholds, hbegin, hqueue, hpushed, hremoved⟩ := hs.at_locked h (by simp [hcall])
  refine ⟨a, Or.inl rfl, hs.keep hholds rfl rfl (fun d _ => rfl) ⟨hbegin, event, hcall⟩ trivial
    ⟨event, hcall, ?_, ?_, hremoved⟩⟩
  · exact congrArg (· ++ [event]) hqueue
  · exact congrArg (· ++ [event]) hpushed

/-- The notification is the end of a `push`. -/
theorem notifyOne {d : κ} (hs : Sim call s a) (h : s.calls c = .notify)
    (hasleep : s.calls d = .asleep) :
    Followed call a c ((s.move d (.relock false)).move c (.unlock none)) := by
  obtain ⟨hholds, ⟨hbegin, -⟩, event, hcall, hqueue, hpushed, hremoved⟩ := hs.at_pc h trivial
  have hasleep' : a.calls d = .asleep := hs.stands_at hasleep
  -- the sleeping call is woken first, then the notifying one goes on
  have hwoken : Sim call (s.move d (.relock false)) (a.move d (.woken false)) := by
    refine hs.outside ?_ rfl id
    rw [hasleep]
    exact id
  refine ⟨_, Or.inr (.push hcall hbegin hasleep'), hwoken.returns hholds ?_ ⟨?_, ?_, ?_⟩⟩
  · rfl
  · exact hqueue
  · exact hpushed
  · exact hremoved

theorem notifyNone (hs : Sim call s a) (h : s.calls c = .notify)
    (hawake : ∀ d, s.calls d ≠ .asleep) : Followed call a c (s.move c (.unlock none)) := by
  obtain ⟨hholds, ⟨hbegin, -⟩, event, hcall, hqueue, hpushed, hremoved⟩ := hs.at_pc h trivial
  have hawake' : ∀ d, a.calls d ≠ .asleep := by
    intro d hd
    have hstands := hs.stands d
    rw [hd] at hstands
    exact hawake d hstands.asleep
  exact ⟨_, Or.inr (.pushUnheard hcall hbegin hawake'),
    hs.returns hholds rfl ⟨hqueue, hpushed, hremoved⟩⟩

/-- Taking the event is the end of `try_pop` and of `wait_and_pop`. -/
theorem take {event : ε} {rest : List ε} (hs : Sim call s a) (h : s.calls c = .front)
    (hfront : s.queue = event :: rest) : Followed call a c
      { s.move c (.unlock (some event)) with
        queue := rest, removed := s.removed ++ [event] } := by
  obtain ⟨hholds, hstands, hqueue, hpushed, hremoved⟩ := hs.at_pc h trivial
  have hfront' : a.queue = event :: rest := hqueue.symm.trans hfront
  have hsim : Sim call
      { s.move c (.unlock (some event)) with queue := rest, removed := s.removed ++ [event] }
      ((a.dequeue event rest).move c (.returned (some event))) :=
    hs.keep hholds rfl rfl (fun d hd => Function.update_of_ne hd _ _)
      (Function.update_self _ _ _) trivial ⟨rfl, hpushed, congrArg (· ++ [event]) hremoved⟩
  rcases hstands with ⟨hcall, hbegin⟩ | ⟨hcall, hbegin⟩ | ⟨timedOut, hwoken⟩
  · exact ⟨_, Or.inr (.tryPop hcall hbegin hfront'), hsim⟩
  · exact ⟨_, Or.inr (.pop (Or.inl ⟨hcall, hbegin, rfl⟩) hfront'), hsim⟩
  · exact ⟨_, Or.inr (.pop (Or.inr hwoken) hfront'), hsim⟩

/-- A call that finds the queue empty and goes to sleep has looked at it when
    it sleeps: nobody could push in between. -/
theorem sleep (hs : Sim call s a) (h : s.calls c = .block) :
    Followed call a c { s.move c .asleep with mutex := none } := by
  obtain ⟨hholds, hstands, hempty, hsame⟩ := hs.at_pc h trivial
  have hevaluates : a.Evaluates call c false := by
    rcases hstands with ⟨hcall, hbegin⟩ | hwoken
    · exact Or.inl ⟨hcall, hbegin, rfl⟩
    · exact Or.inr hwoken
  refine ⟨_, Or.inr (.sleep hevaluates (hsame.1.symm.trans hempty)), ?_⟩
  exact hs.leave hholds rfl rfl (fun d hd => Function.update_of_ne hd _ _)
    (Function.update_self _ _ _) id hsame

theorem discard {event : ε} {rest : List ε} (hs : Sim call s a) (hcall : call c = .clear)
    (h : s.calls c = .locked) (hfront : s.queue = event :: rest) : Followed call a c
      { s with queue := rest, removed := s.removed ++ [event] } := by
  obtain ⟨hholds, hbegin, discarded, -, hqueue, hpushed, hremoved⟩ := hs.at_pc h trivial
  have hcalls : s.calls = Function.update s.calls c .locked := by
    rw [← h, Function.update_eq_self]
  refine ⟨a, Or.inl rfl, hs.keep hholds hcalls rfl (fun d _ => rfl) hbegin trivial
    ⟨discarded ++ [event], Or.inl hcall, ?_, hpushed, ?_⟩⟩
  · rw [hqueue, hfront, List.append_assoc, List.singleton_append]
  · show s.removed ++ [event] = _
    rw [hremoved, List.append_assoc]

/-- The end of its loop is the end of `clear`. -/
theorem cleared (hs : Sim call s a) (hcall : call c = .clear) (h : s.calls c = .locked)
    (hempty : s.queue = []) : Followed call a c (s.move c (.unlock none)) := by
  obtain ⟨hholds, hbegin, discarded, -, hqueue, hpushed, hremoved⟩ := hs.at_pc h trivial
  refine ⟨_, Or.inr (.clear hcall hbegin), hs.returns hholds ?_ ?_⟩
  · rw [cleared_eq]
  · rw [cleared_eq, hqueue, hempty, List.append_nil]
    exact ⟨hempty, hpushed, hremoved⟩

/-- **Every statement is a step of the call, or none.** -/
theorem step (hs : Sim call s a) (h : Step call s c t) : Followed call a c t := by
  cases h with
  | acquire h hfree =>
      have hbegin : a.calls c = .begin := hs.stands_at h
      exact ⟨a, Or.inl rfl, hs.enter hfree rfl rfl hbegin trivial
        (Same.inside (hs.free hfree) (call c))⟩
  | push hcall h => exact hs.push hcall h
  | notifyOne h hasleep => exact hs.notifyOne h hasleep
  | notifyNone h hawake => exact hs.notifyNone h hawake
  | tryPop hcall h hqueue =>
      obtain ⟨hholds, hbegin, hsame⟩ := hs.at_locked h (by simp [hcall])
      exact ⟨a, Or.inl rfl, hs.keep hholds rfl rfl (fun d _ => rfl) (Or.inl ⟨hcall, hbegin⟩) trivial
        hsame⟩
  | tryPopEmpty hcall h hempty =>
      obtain ⟨hholds, hbegin, hsame⟩ := hs.at_locked h (by simp [hcall])
      exact ⟨_, Or.inr (.tryPopEmpty hcall hbegin (hsame.1.symm.trans hempty)),
        hs.returns hholds rfl hsame⟩
  | @ready timedOut h hqueue =>
      obtain ⟨hholds, hevaluates, hsame⟩ := hs.evaluates h
      refine ⟨a, Or.inl rfl, hs.keep hholds rfl rfl (fun d _ => rfl) (Or.inr ?_) trivial hsame⟩
      rcases hevaluates with ⟨hcall, hbegin, -⟩ | hwoken
      · exact Or.inl ⟨hcall, hbegin⟩
      · exact Or.inr ⟨timedOut, hwoken⟩
  | wait h hempty =>
      obtain ⟨hholds, hevaluates, hsame⟩ := hs.evaluates h
      refine ⟨a, Or.inl rfl, hs.keep hholds rfl rfl (fun d _ => rfl) ?_ trivial ⟨hempty, hsame⟩⟩
      rcases hevaluates with ⟨hcall, hbegin, -⟩ | hwoken
      · exact Or.inl ⟨hcall, hbegin⟩
      · exact Or.inr hwoken
  | giveUp h hempty =>
      obtain ⟨hholds, hevaluates, hsame⟩ := hs.evaluates h
      exact ⟨_, Or.inr (.giveUp hevaluates (hsame.1.symm.trans hempty)),
        hs.returns hholds rfl hsame⟩
  | take h hfront => exact hs.take h hfront
  | sleep h => exact hs.sleep h
  | timeout h =>
      have hasleep : a.calls c = .asleep := hs.stands_at h
      exact ⟨_, Or.inr (.timeout hasleep), hs.outside (by rw [h]; exact id) rfl id⟩
  | spurious h =>
      have hasleep : a.calls c = .asleep := hs.stands_at h
      exact ⟨_, Or.inr (.spurious hasleep), hs.outside (by rw [h]; exact id) rfl id⟩
  | expire h =>
      have hwoken : a.calls c = .woken false := hs.stands_at h
      exact ⟨_, Or.inr (.expire hwoken), hs.outside (by rw [h]; exact id) rfl id⟩
  | @reacquire timedOut h hfree =>
      have hwoken : a.calls c = .woken timedOut := hs.stands_at h
      exact ⟨a, Or.inl rfl, hs.enter hfree rfl rfl hwoken trivial (hs.free hfree)⟩
  | discard hcall h hfront => exact hs.discard hcall h hfront
  | cleared hcall h hempty => exact hs.cleared hcall h hempty
  | release h =>
      obtain ⟨hholds, hstands, hsame⟩ := hs.at_pc h trivial
      exact ⟨a, Or.inl rfl, hs.leave hholds rfl rfl (fun d _ => rfl) hstands id hsame⟩

omit [DecidableEq κ] in
theorem new : Sim call ({} : State ε κ) {} where
  stands := fun _ => rfl
  holder := fun c => ⟨fun h => False.elim h, fun h => (by cases h)⟩
  free := fun _ => ⟨rfl, rfl, rfl⟩
  inside := fun c h => (by cases h)

end Sim

/-- **The critical sections are single steps.** -/
theorem Reachable.sim (h : Reachable call s) : ∃ a, EventQueue.Reachable call a ∧ Sim call s a := by
  refine Steps.invariant (P := fun s => ∃ a, EventQueue.Reachable call a ∧ Sim call s a) ?_
    ⟨{}, Relation.ReflTransGen.refl, Sim.new⟩ h
  rintro s c t ⟨a, ha, hs⟩ hstep
  obtain ⟨b, rfl | hab, hb⟩ := hs.step hstep
  · exact ⟨b, ha, hb⟩
  · exact ⟨b, ha.next hab, hb⟩

omit [DecidableEq κ] in
/-- The records are right inside the critical sections as well. -/
theorem Sim.accounted (hs : Sim call s a) (ha : Accounted a) : s.removed ++ s.queue = s.pushed := by
  have hsame : Same s a → s.removed ++ s.queue = s.pushed := by
    rintro ⟨hqueue, hpushed, hremoved⟩
    rw [hqueue, hpushed, hremoved]
    exact ha
  cases hmutex : s.mutex with
  | none => exact hsame (hs.free hmutex)
  | some c =>
      have hinside := hs.inside c hmutex
      cases hpc : s.calls c with
      | locked =>
          rw [hpc] at hinside
          obtain ⟨discarded, -, hqueue, hpushed, hremoved⟩ := hinside
          rw [hpushed, hremoved, List.append_assoc, ← hqueue]
          exact ha
      | notify =>
          rw [hpc] at hinside
          obtain ⟨event, -, hqueue, hpushed, hremoved⟩ := hinside
          rw [hqueue, hpushed, hremoved, ← List.append_assoc]
          exact congrArg (· ++ [event]) ha
      | block =>
          rw [hpc] at hinside
          exact hsame hinside.2
      | _ =>
          rw [hpc] at hinside
          exact hsame hinside

/-- **The order and the wake-ups, statement by statement.**  The records agree
    at every moment; and whenever the mutex is free and a call sleeps, at
    least as many others as there are events queued are on their way to lock
    it and to look at the queue again. -/
theorem locked_keeps_order (h : Reachable call s) :
    s.removed ++ s.queue = s.pushed
      ∧ (s.mutex = none → ∀ c, s.calls c = .asleep →
        ∃ woken : Finset κ, s.queue.length ≤ woken.card
          ∧ ∀ d ∈ woken, d ≠ c ∧ ∃ timedOut, s.calls d = .relock timedOut) := by
  obtain ⟨a, ha, hs⟩ := h.sim
  refine ⟨hs.accounted ha.accounted, fun hfree c hasleep => ?_⟩
  have hasleep' : a.calls c = .asleep := hs.stands_at hasleep
  obtain ⟨woken, hcard, hwoken⟩ := ha.covered ⟨c, hasleep'⟩
  rw [← (hs.free hfree).1] at hcard
  refine ⟨woken, hcard, fun d hd => ?_⟩
  have hstands := hs.stands d
  have hout : ¬ (s.calls d).Holds := by
    rw [hs.holder d, hfree]
    exact fun h => nomatch h
  have hd := hwoken d hd
  constructor
  · rintro rfl
    rw [hasleep'] at hd
    exact hd
  · cases hpc : s.calls d with
    | relock timedOut => exact ⟨timedOut, rfl⟩
    | lock =>
        rw [hpc] at hstands
        rw [show a.calls d = .begin from hstands] at hd
        exact False.elim hd
    | asleep =>
        rw [hpc] at hstands
        rw [show a.calls d = .asleep from hstands] at hd
        exact False.elim hd
    | returned event =>
        rw [hpc] at hstands
        rw [show a.calls d = .returned event from hstands] at hd
        exact False.elim hd
    | _ =>
        rw [hpc] at hout
        exact absurd trivial hout

end LaunchCpp.EventQueue.Locking
