import LaunchCpp.Basic
import LaunchCpp.Library.TransitionSystem
import Mathlib.Data.Finset.Card

/-! # `EventQueue`: its calls interleaved

    Any number of calls of `push`, `try_pop`, `wait_and_pop` and `clear` on one
    queue.  What a call does while it holds `mutex_` is one step.  A call of
    `wait_and_pop` that sleeps may be woken by a notification, by its timeout
    or for no reason, and evaluates its predicate again in a later step, when
    others may have been faster.

    The main result is `queue_keeps_order`, on the events that calls were given
    and returned, in the order of their steps (`History`), and on who is awake
    to take those that are queued. -/

namespace LaunchCpp.EventQueue

open TransitionSystems

/-- A call of a member function. -/
inductive Call (ε : Type) where
  | push (event : ε)
  | tryPop
  | waitAndPop
  | clear

/-- Where a call is.  `asleep` and `woken` are inside `wait_for`: one that is
    woken has yet to lock the mutex and to evaluate the predicate, and
    `timedOut` says that it does so for the last time. -/
inductive CallPc (ε : Type) where
  | begin
  | asleep
  | woken (timedOut : Bool)
  | returned (event : Option ε)

/-- The queue, the point every call is at, and a record of the events that
    were pushed and of those popped or discarded. -/
structure State (ε κ : Type) where
  queue : List ε := []
  calls : κ → CallPc ε := fun _ => .begin
  pushed : List ε := []
  removed : List ε := []

variable {ε κ : Type}

/-- The loop of `clear`, with what is removed so far. -/
def clearLoop : List ε → List ε → List ε × List ε
  | [], removed => ([], removed)
  | event :: rest, removed => clearLoop rest (removed ++ [event])

namespace State

/-- `queue_.push(event)`. -/
def enqueue (s : State ε κ) (event : ε) : State ε κ :=
  { s with queue := s.queue ++ [event], pushed := s.pushed ++ [event] }

/-- `event = queue_.front(); queue_.pop();`, of the queue `event :: rest`. -/
def dequeue (s : State ε κ) (event : ε) (rest : List ε) : State ε κ :=
  { s with queue := rest, removed := s.removed ++ [event] }

/-- The body of `clear`. -/
def cleared (s : State ε κ) : State ε κ :=
  { s with queue := (clearLoop s.queue s.removed).1, removed := (clearLoop s.queue s.removed).2 }

variable [DecidableEq κ]

def move (s : State ε κ) (c : κ) (pc : CallPc ε) : State ε κ :=
  { s with calls := Function.update s.calls c pc }

/-- The call evaluates the predicate of `wait_for`. -/
def Evaluates (call : κ → Call ε) (s : State ε κ) (c : κ) (timedOut : Bool) : Prop :=
  (call c = .waitAndPop ∧ s.calls c = .begin ∧ timedOut = false) ∨ s.calls c = .woken timedOut

end State

variable [DecidableEq κ]

/-- One step of one call. -/
inductive Step (call : κ → Call ε) (s : State ε κ) (c : κ) : State ε κ → Prop
  | push {event : ε} {d : κ} (hcall : call c = .push event) (h : s.calls c = .begin)
      (hasleep : s.calls d = .asleep) :
      Step call s c (((s.enqueue event).move d (.woken false)).move c (.returned none))
  -- nobody hears `notify_one`
  | pushUnheard {event : ε} (hcall : call c = .push event) (h : s.calls c = .begin)
      (hawake : ∀ d, s.calls d ≠ .asleep) :
      Step call s c ((s.enqueue event).move c (.returned none))
  | tryPop {event : ε} {rest : List ε} (hcall : call c = .tryPop) (h : s.calls c = .begin)
      (hfront : s.queue = event :: rest) :
      Step call s c ((s.dequeue event rest).move c (.returned (some event)))
  | tryPopEmpty (hcall : call c = .tryPop) (h : s.calls c = .begin) (hempty : s.queue = []) :
      Step call s c (s.move c (.returned none))
  | pop {timedOut : Bool} {event : ε} {rest : List ε} (h : s.Evaluates call c timedOut)
      (hfront : s.queue = event :: rest) :
      Step call s c ((s.dequeue event rest).move c (.returned (some event)))
  | sleep (h : s.Evaluates call c false) (hempty : s.queue = []) :
      Step call s c (s.move c .asleep)
  | giveUp (h : s.Evaluates call c true) (hempty : s.queue = []) :
      Step call s c (s.move c (.returned none))
  | timeout (h : s.calls c = .asleep) : Step call s c (s.move c (.woken true))
  | spurious (h : s.calls c = .asleep) : Step call s c (s.move c (.woken false))
  -- the time is up when the woken call looks at the clock
  | expire (h : s.calls c = .woken false) : Step call s c (s.move c (.woken true))
  | clear (hcall : call c = .clear) (h : s.calls c = .begin) :
      Step call s c (s.cleared.move c (.returned none))

/-- What an interleaving leads to from a new queue. -/
def Reachable (call : κ → Call ε) (s : State ε κ) : Prop := Steps (Step call) {} s

variable {call : κ → Call ε} {s t : State ε κ} {c d : κ}

/-! ## The order of the events -/

omit [DecidableEq κ] in

/-- `clear` drops all events in their order. -/
theorem clearLoop_eq (queue removed : List ε) : clearLoop queue removed = ([], removed ++ queue) := by
  induction queue generalizing removed with
  | nil => rw [clearLoop, List.append_nil]
  | cons event rest ih => rw [clearLoop, ih, List.append_assoc, List.singleton_append]

omit [DecidableEq κ] in

/-- What `clear` leaves. -/
theorem cleared_eq (s : State ε κ) :
    s.cleared = { s with queue := [], removed := s.removed ++ s.queue } := by
  rw [State.cleared, clearLoop_eq]

/-- The events that were pushed are those removed and those queued. -/
def Accounted (s : State ε κ) : Prop := s.removed ++ s.queue = s.pushed

omit [DecidableEq κ] in

/-- A push keeps the account. -/
theorem Accounted.enqueue (hs : Accounted s) (event : ε) : Accounted (s.enqueue event) := by
  show s.removed ++ (s.queue ++ [event]) = s.pushed ++ [event]
  rw [← List.append_assoc, show s.removed ++ s.queue = s.pushed from hs]

omit [DecidableEq κ] in

/-- A pop keeps it. -/
theorem Accounted.dequeue {event : ε} {rest : List ε} (hs : Accounted s)
    (hfront : s.queue = event :: rest) : Accounted (s.dequeue event rest) := by
  show s.removed ++ [event] ++ rest = s.pushed
  rw [List.append_assoc, List.singleton_append, ← hfront]
  exact hs

/-- **Every step keeps the account** of what came in and went out. -/
theorem Accounted.step (hs : Accounted s) (h : Step call s c t) : Accounted t := by
  cases h with
  | push hcall h hasleep => exact hs.enqueue _
  | pushUnheard hcall h hawake => exact hs.enqueue _
  | tryPop hcall h hfront => exact hs.dequeue hfront
  | pop h hfront => exact hs.dequeue hfront
  | clear hcall h =>
      show s.cleared.removed ++ s.cleared.queue = s.pushed
      rw [cleared_eq]
      exact (List.append_nil _).trans hs
  | _ => exact hs

/-! ## What the callers see

    `pushed` and `removed` are records of the model.  An interleaving shows
    the same lists by the arguments of its calls and by what they return. -/

/-- The event a call has returned. -/
def CallPc.event : CallPc ε → Option ε
  | .returned event => event
  | _ => none

/-- The event a step adds: the argument of a call of `push`. -/
def pushedBy (call : κ → Call ε) (s : State ε κ) (c : κ) : List ε :=
  match s.calls c with
  | .begin =>
      match call c with
      | .push event => [event]
      | _ => []
  | _ => []

/-- The events a step takes out: all that a call of `clear` finds, or the one
    that the call returns. -/
def removedBy (call : κ → Call ε) (s : State ε κ) (c : κ) (t : State ε κ) : List ε :=
  match s.calls c with
  | .begin =>
      match call c with
      | .clear => s.queue
      | _ => (t.calls c).event.toList
  | _ => (t.calls c).event.toList

/-- An interleaving from a new queue, with the events that its calls were given
    and those that they popped or discarded, in the order of these steps. -/
inductive History (call : κ → Call ε) : List ε → List ε → State ε κ → Prop
  | new : History call [] [] {}
  | step {pushed removed : List ε} {s t : State ε κ} {c : κ} (h : History call pushed removed s)
      (hstep : Step call s c t) :
      History call (pushed ++ pushedBy call s c) (removed ++ removedBy call s c t) t

@[simp] theorem State.move_calls_self (s : State ε κ) (c : κ) (pc : CallPc ε) :
    (s.move c pc).calls c = pc := by
  show Function.update s.calls c pc c = pc
  exact Function.update_self c pc s.calls

/-- **What a step records** is what it shows of its call. -/
theorem Step.records (h : Step call s c t) : t.pushed = s.pushed ++ pushedBy call s c
    ∧ t.removed = s.removed ++ removedBy call s c t := by
  cases h with
  | push hcall h hasleep =>
      simp [pushedBy, removedBy, hcall, h, CallPc.event, State.move, State.enqueue]
  | pushUnheard hcall h hawake =>
      simp [pushedBy, removedBy, hcall, h, CallPc.event, State.move, State.enqueue]
  | tryPop hcall h hfront =>
      simp [pushedBy, removedBy, hcall, h, CallPc.event, State.move, State.dequeue]
  | tryPopEmpty hcall h hempty => simp [pushedBy, removedBy, hcall, h, CallPc.event, State.move]
  | pop h hfront =>
      rcases h with ⟨hcall, h, -⟩ | h
      · simp [pushedBy, removedBy, hcall, h, CallPc.event, State.move, State.dequeue]
      · simp [pushedBy, removedBy, h, CallPc.event, State.move, State.dequeue]
  | sleep h hempty =>
      rcases h with ⟨hcall, h, -⟩ | h
      · simp [pushedBy, removedBy, hcall, h, CallPc.event, State.move]
      · simp [pushedBy, removedBy, h, CallPc.event, State.move]
  | giveUp h hempty =>
      rcases h with ⟨hcall, h, -⟩ | h
      · simp [pushedBy, removedBy, hcall, h, CallPc.event, State.move]
      · simp [pushedBy, removedBy, h, CallPc.event, State.move]
  | timeout h => simp [pushedBy, removedBy, h, CallPc.event, State.move]
  | spurious h => simp [pushedBy, removedBy, h, CallPc.event, State.move]
  | expire h => simp [pushedBy, removedBy, h, CallPc.event, State.move]
  | clear hcall h => simp [pushedBy, removedBy, hcall, h, State.move, cleared_eq]

/-- What has a history is reachable. -/
theorem History.reachable {pushed removed : List ε} (h : History call pushed removed s) :
    Reachable call s := by
  induction h with
  | new => exact .refl
  | step _ hstep ih => exact ih.next hstep

/-- The records of the model are what the callers see. -/
theorem History.records {pushed removed : List ε} (h : History call pushed removed s) :
    s.pushed = pushed ∧ s.removed = removed := by
  induction h with
  | new => exact ⟨rfl, rfl⟩
  | step _ hstep ih =>
      obtain ⟨hpushed, hremoved⟩ := hstep.records
      rw [hpushed, hremoved, ih.1, ih.2]
      exact ⟨rfl, rfl⟩

/-- Every interleaving has a history. -/
theorem Reachable.history (h : Reachable call s) : History call s.pushed s.removed s := by
  induction h with
  | refl => exact .new
  | tail _ hlast ih =>
      obtain ⟨c, hstep⟩ := hlast
      obtain ⟨hpushed, hremoved⟩ := hstep.records
      rw [hpushed, hremoved]
      exact ih.step hstep

/-! ## Who is awake -/

/-- Woken, and the queue not looked at since. -/
def CallPc.Woken : CallPc ε → Prop
  | .woken _ => True
  | _ => False

/-- At least `n` calls are woken. -/
def AtLeastWoken (n : Nat) (s : State ε κ) : Prop :=
  ∃ woken : Finset κ, n ≤ woken.card ∧ ∀ d ∈ woken, (s.calls d).Woken

/-- **Enough are awake**: when somebody sleeps, there is a woken call for every
    event queued. -/
def Covered (s : State ε κ) : Prop :=
  (∃ c, s.calls c = .asleep) → AtLeastWoken s.queue.length s

omit [DecidableEq κ] in
theorem AtLeastWoken.zero (s : State ε κ) : AtLeastWoken 0 s :=
  ⟨∅, le_rfl, fun d hd => absurd hd (Finset.notMem_empty d)⟩

/-- One call moves: the others that are woken stay so. -/
theorem AtLeastWoken.move {n : Nat} {pc : CallPc ε} (h : AtLeastWoken (n + 1) s)
    (hcalls : t.calls = Function.update s.calls c pc) : AtLeastWoken n t := by
  obtain ⟨woken, hcard, hwoken⟩ := h
  refine ⟨woken.erase c, ?_, fun d hd => ?_⟩
  · have := Finset.pred_card_le_card_erase (s := woken) (a := c)
    omega
  · obtain ⟨hdc, hd⟩ := Finset.mem_erase.mp hd
    rw [hcalls, Function.update_of_ne hdc]
    exact hwoken d hd

/-- A call that was not woken, or is woken afterwards, takes nobody away. -/
theorem AtLeastWoken.keep {n : Nat} {pc : CallPc ε} (h : AtLeastWoken n s)
    (hcalls : t.calls = Function.update s.calls c pc) (hpc : (s.calls c).Woken → pc.Woken) :
    AtLeastWoken n t := by
  obtain ⟨woken, hcard, hwoken⟩ := h
  refine ⟨woken, hcard, fun d hd => ?_⟩
  rw [hcalls]
  by_cases hdc : d = c
  · subst hdc
    rw [Function.update_self]
    exact hpc (hwoken d hd)
  · rw [Function.update_of_ne hdc]
    exact hwoken d hd

/-- A sleeping call is woken. -/
theorem AtLeastWoken.wake {n : Nat} {timedOut : Bool} (h : AtLeastWoken n s)
    (hasleep : s.calls d = .asleep)
    (hcalls : t.calls = Function.update s.calls d (.woken timedOut)) :
    AtLeastWoken (n + 1) t := by
  obtain ⟨woken, hcard, hwoken⟩ := h
  have hd : d ∉ woken := by
    intro hmem
    have hasleep' := hwoken d hmem
    rw [hasleep] at hasleep'
    exact hasleep'
  refine ⟨insert d woken, ?_, fun e he => ?_⟩
  · rw [Finset.card_insert_of_notMem hd]
    exact Nat.succ_le_succ hcard
  · rw [hcalls]
    rcases Finset.mem_insert.mp he with rfl | hmem
    · rw [Function.update_self]
      exact trivial
    · have hed : e ≠ d := by
        rintro rfl
        exact hd hmem
      rw [Function.update_of_ne hed]
      exact hwoken e hmem

omit [DecidableEq κ] in

/-- Fewer are awake as well. -/
theorem AtLeastWoken.of_le {m n : Nat} (h : AtLeastWoken n s) (hle : m ≤ n) :
    AtLeastWoken m s := by
  obtain ⟨woken, hcard, hwoken⟩ := h
  exact ⟨woken, hle.trans hcard, hwoken⟩

/-- Who sleeps after a move slept before it, or has fallen asleep by it. -/
theorem asleep_of_move {pc : CallPc ε} (hpc : pc ≠ .asleep)
    (h : ∃ d, Function.update s.calls c pc d = .asleep) : ∃ d, s.calls d = .asleep := by
  obtain ⟨d, hd⟩ := h
  refine ⟨d, ?_⟩
  by_cases hdc : d = c
  · subst hdc
    rw [Function.update_self] at hd
    exact absurd hd hpc
  · rw [Function.update_of_ne hdc] at hd
    exact hd

omit [DecidableEq κ] in
/-- Nobody is needed for an empty queue. -/
theorem Covered.of_empty (hempty : s.queue = []) : Covered s := by
  intro _
  rw [hempty]
  exact AtLeastWoken.zero s

/-- An event is taken: one event and at most one woken call are gone. -/
theorem Covered.take {event : ε} {rest : List ε} (hs : Covered s)
    (hfront : s.queue = event :: rest) :
    Covered ((s.dequeue event rest).move c (.returned (some event))) := by
  intro hasleep
  have hbefore := hs (asleep_of_move (by simp) hasleep)
  rw [hfront] at hbefore
  exact hbefore.move rfl

/-- **Every step keeps the sleepers covered**: there are as many awake as there
    are events. -/
theorem Covered.step (hs : Covered s) (h : Step call s c t) : Covered t := by
  cases h with
  | @push event d hcall h hasleep =>
      -- one more event, and one more call awake
      intro _
      have hwoken : AtLeastWoken (s.queue.length + 1) ((s.enqueue event).move d (.woken false)) :=
        AtLeastWoken.wake (hs ⟨d, hasleep⟩) hasleep rfl
      have hcd : c ≠ d := by
        rintro rfl
        rw [h] at hasleep
        cases hasleep
      have hbegin : ((s.enqueue event).move d (.woken false)).calls c = .begin :=
        (Function.update_of_ne hcd _ _).trans h
      show AtLeastWoken (s.queue ++ [event]).length _
      rw [List.length_append]
      refine hwoken.keep (c := c) rfl (fun hc => ?_)
      rw [hbegin] at hc
      exact False.elim hc
  | pushUnheard hcall h hawake =>
      intro hasleep
      obtain ⟨d, hd⟩ := asleep_of_move (by simp) hasleep
      exact absurd hd (hawake d)
  | tryPop hcall h hfront => exact hs.take hfront
  | tryPopEmpty hcall h hempty => exact Covered.of_empty hempty
  | pop h hfront => exact hs.take hfront
  | sleep h hempty => exact Covered.of_empty hempty
  | giveUp h hempty => exact Covered.of_empty hempty
  | timeout h =>
      intro _
      exact (AtLeastWoken.wake (hs ⟨c, h⟩) h rfl).of_le (Nat.le_succ _)
  | spurious h =>
      intro _
      exact (AtLeastWoken.wake (hs ⟨c, h⟩) h rfl).of_le (Nat.le_succ _)
  | expire h =>
      intro hasleep
      exact (hs (asleep_of_move (by simp) hasleep)).keep rfl (fun _ => trivial)
  | clear hcall h =>
      refine Covered.of_empty ?_
      show s.cleared.queue = []
      rw [cleared_eq]

/-- The account is kept in every reachable state. -/
theorem Reachable.accounted (h : Reachable call s) : Accounted s :=
  Steps.invariant Accounted.step (by rfl) h

/-- The sleepers are covered in every reachable state. -/
theorem Reachable.covered (h : Reachable call s) : Covered s :=
  Steps.invariant Covered.step (Covered.of_empty rfl) h

/-- **The queue keeps the order and strands no event**, under every
    interleaving: what calls have popped or discarded, and behind it what is
    queued, is what calls of `push` were given; and while a call sleeps, there
    are as many others that are woken, and have not looked at the queue since,
    as there are events queued. -/
theorem queue_keeps_order {pushed removed : List ε} (h : History call pushed removed s) :
    removed ++ s.queue = pushed
      ∧ (s.queue ≠ [] → ∀ c, s.calls c = .asleep →
        ∃ woken : Finset κ, s.queue.length ≤ woken.card
          ∧ ∀ d ∈ woken, d ≠ c ∧ (s.calls d).Woken) := by
  obtain ⟨hpushed, hremoved⟩ := h.records
  refine ⟨?_, fun _ c hasleep => ?_⟩
  · rw [← hpushed, ← hremoved]
    exact h.reachable.accounted
  · obtain ⟨woken, hcard, hwoken⟩ := h.reachable.covered ⟨c, hasleep⟩
    refine ⟨woken, hcard, fun d hd => ⟨?_, hwoken d hd⟩⟩
    rintro rfl
    have hw := hwoken d hd
    rw [hasleep] at hw
    exact hw

/-- Calls 0 and 1 sleep, call 2 pushes an event and wakes call 0, and `clear`
    is faster; then call 3 pushes another one, for which call 1 is woken. -/
theorem queue_keeps_order_two :
    ∃ s : State Nat (Fin 5), ∃ pushed removed,
      History (fun c => if c = 2 then .push 7 else if c = 3 then .push 8
        else if c = 4 then .clear else .waitAndPop) pushed removed s
      ∧ pushed = [7, 8] ∧ s.queue = [8] ∧ s.calls 1 = .asleep ∧ removed ++ s.queue = pushed
      ∧ ∃ woken : Finset (Fin 5), s.queue.length ≤ woken.card
        ∧ ∀ d ∈ woken, d ≠ 1 ∧ (s.calls d).Woken := by
  let call : Fin 5 → Call Nat := fun c => if c = 2 then .push 7 else if c = 3 then .push 8
    else if c = 4 then .clear else .waitAndPop
  have hnew : History call [] [] {} := .new
  have hfirst := hnew.step (.sleep (c := 0) (Or.inl ⟨rfl, rfl, rfl⟩) rfl)
  have hsecond := hfirst.step (.sleep (c := 1) (Or.inl ⟨rfl, rfl, rfl⟩) rfl)
  have hpush := hsecond.step (.push (c := 2) (d := 0) rfl rfl rfl)
  have hclear := hpush.step (.clear (c := 4) rfl rfl)
  -- the woken call finds nothing, and sleeps again
  have hagain := hclear.step (.sleep (c := 0) (Or.inr rfl) rfl)
  have hlast := hagain.step (.push (c := 3) (d := 0) rfl rfl rfl)
  obtain ⟨horder, hcovered⟩ := queue_keeps_order hlast
  exact ⟨_, _, _, hlast, rfl, rfl, rfl, horder, hcovered (List.cons_ne_nil _ _) 1 rfl⟩

/-- A woken call takes the first event as soon as it looks. -/
theorem Reachable.exists_pop (h : Reachable call s) {event : ε} {rest : List ε}
    (hfront : s.queue = event :: rest) (hasleep : s.calls c = .asleep) :
    ∃ d t, d ≠ c ∧ Step call s d t ∧ t.queue = rest ∧ t.calls d = .returned (some event) := by
  obtain ⟨woken, hcard, hwoken⟩ := h.covered ⟨c, hasleep⟩
  rw [hfront, List.length_cons] at hcard
  obtain ⟨d, hd⟩ := Finset.card_pos.mp (Nat.lt_of_lt_of_le (Nat.succ_pos _) hcard)
  have hpc := hwoken d hd
  cases hcalls : s.calls d with
  | woken timedOut =>
      refine ⟨d, _, ?_, .pop (Or.inr hcalls) hfront, rfl, Function.update_self _ _ _⟩
      rintro rfl
      rw [hasleep] at hcalls
      cases hcalls
  | _ =>
      rw [hcalls] at hpc
      exact False.elim hpc

/-- When nobody is woken, an event in the queue finds nobody asleep. -/
theorem Reachable.not_asleep (h : Reachable call s) (hqueue : s.queue ≠ [])
    (hwoken : ∀ d, ¬ (s.calls d).Woken) : ∀ c, s.calls c ≠ .asleep := by
  intro c hasleep
  obtain ⟨woken, hcard, hall⟩ := h.covered ⟨c, hasleep⟩
  obtain ⟨d, hd⟩ := Finset.card_pos.mp (Nat.lt_of_lt_of_le (List.length_pos_iff.mpr hqueue) hcard)
  exact hwoken d (hall d hd)

end LaunchCpp.EventQueue
