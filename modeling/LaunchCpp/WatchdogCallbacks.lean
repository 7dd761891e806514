import LaunchCpp.Watchdog
import LaunchCpp.Library.TransitionSystem

/-! # Callbacks that use their watchdog

    `check_timeouts` and `submit_heartbeat` invoke the callbacks while they
    hold `nodes_mutex_`, and almost every function of the watchdog locks it.
    Here the watchdog runs statement by statement where the mutex matters: the
    thread of the watchdog checks, other threads call, and callbacks are
    programs of their own that may call the watchdog again.  The main result,
    `callbacks_spare_mutex`, says which of them may: those that only make
    calls which return before their lock. -/

namespace LaunchCpp.PosixWatchdog

open OrderedMaps TransitionSystems

variable {C P V : Type} {ι : Type*}

/-- A call of the watchdog. -/
inductive Call (C : Type) where
  | registerNode (nodeId timeoutMs : UInt32) (callback : Option C)
  | unregisterNode (nodeId : UInt32)
  | isResponsive (nodeId : UInt32)
  | submitHeartbeat (message : HeartbeatMessage)

/-- What a call returns when it returns before it locks `nodes_mutex_`. -/
def Call.early : Call C → Option OsalError
  | .registerNode _ timeoutMs _ =>
      if timeoutMs = 0 then
        some ⟨.invalidArgument, "Timeout must be greater than 0".toList⟩
      else none
  | .submitHeartbeat message =>
      if validateHeartbeat message = false then
        some ⟨.invalidArgument, "Invalid heartbeat checksum".toList⟩
      else none
  | _ => none

/-- What a call does with the mutex locked. -/
def perform (w : PosixWatchdog C) (now : TimePoint) : Call C → Outcome C × PosixWatchdog C
  | .registerNode nodeId timeoutMs callback => w.registerNode nodeId timeoutMs callback now
  | .unregisterNode nodeId => w.unregisterNode nodeId
  | .isResponsive nodeId => ({ result := (w.isResponsive nodeId).map (fun _ => ()) }, w)
  | .submitHeartbeat message => w.submitHeartbeat message now

/-- What a callback does next: it returns, or it calls the watchdog and goes on
    with the answer. -/
inductive Next (C P V : Type) where
  | returns (memory : V)
  | calls (call : Call C) (resume : OsalResult Bool → P)

/-- The callbacks as programs: `P` are the points they can be at, `V` is the
    memory they read when they are invoked and write when they return. -/
structure Callbacks (C P V : Type) where
  heartbeat : C → HeartbeatMessage → V → P
  timeout : UInt32 → V → P
  next : P → Next C P V

/-- The watchdog, the thread that holds `nodes_mutex_`, and the memory. -/
structure Shared (ι : Type*) (C V : Type) where
  watchdog : PosixWatchdog C
  owner : Option ι := none
  memory : V

/-- The rest of the loop of `check_timeouts`: the reading of the clock, and the
    nodes that are still to be visited. -/
structure Loop (C : Type) where
  now : TimePoint
  rest : List (UInt32 × WatchdogNode C)

/-- Where a thread is.  It holds the mutex in the loop of `check_timeouts` and
    in a callback; behind a timeout callback the loop goes on. -/
inductive Place (C P : Type) where
  | outside
  | entering (call : Call C)
  | enteringCheck (now : TimePoint)
  | looping (loop : Loop C)
  | inCallback (p : P) (back : Option (Loop C))

/-- The body of the loop notices a timeout. -/
def notices (now : TimePoint) (node : WatchdogNode C) : Bool :=
  timedOut now node && node.responsive

/-- The body of the loop, without the callback. -/
def visit (now : TimePoint) (w : PosixWatchdog C) (e : UInt32 × WatchdogNode C) :
    PosixWatchdog C :=
  if notices now e.2 then
    { w with nodes := w.nodes.insert e.1 { e.2 with responsive := false } }
  else w

/-- One step of one thread.  `timer` is the thread of the watchdog.  A call that
    locks the mutex has no step while the mutex is held: in a callback it never
    has one, because the thread itself holds it. -/
inductive Step (cb : Callbacks C P V) (timer i : ι) (s : Shared ι C V) :
    Place C P → Shared ι C V → Place C P → Prop
  | call (hthread : i ≠ timer) (call : Call C) : Step cb timer i s .outside s (.entering call)
  | remember (hthread : i ≠ timer) (memory : V) :
      Step cb timer i s .outside { s with memory } .outside
  | early {call : Call C} {e : OsalError} (hearly : call.early = some e) :
      Step cb timer i s (.entering call) s .outside
  | perform {call : Call C} {now : TimePoint} (hearly : call.early = none)
      (hfree : s.owner = none) (hheard : (s.watchdog.perform now call).1.heard = none) :
      Step cb timer i s (.entering call)
        { s with watchdog := (s.watchdog.perform now call).2 } .outside
  | hear {call : Call C} {now : TimePoint} {callback : C} {message : HeartbeatMessage}
      (hearly : call.early = none) (hfree : s.owner = none)
      (hheard : (s.watchdog.perform now call).1.heard = some (callback, message)) :
      Step cb timer i s (.entering call)
        { s with watchdog := (s.watchdog.perform now call).2, owner := some i }
        (.inCallback (cb.heartbeat callback message s.memory) none)
  | check (hthread : i = timer) (now : TimePoint) :
      Step cb timer i s .outside s (.enteringCheck now)
  | lockCheck {now : TimePoint} (hfree : s.owner = none) :
      Step cb timer i s (.enteringCheck now) { s with owner := some i }
        (.looping ⟨now, s.watchdog.nodes.entries⟩)
  | visit {now : TimePoint} {e : UInt32 × WatchdogNode C} {rest : List (UInt32 × WatchdogNode C)}
      (hquiet : (notices now e.2 && s.watchdog.timeoutCallback) = false) :
      Step cb timer i s (.looping ⟨now, e :: rest⟩)
        { s with watchdog := visit now s.watchdog e } (.looping ⟨now, rest⟩)
  | timeout {now : TimePoint} {e : UInt32 × WatchdogNode C}
      {rest : List (UInt32 × WatchdogNode C)} (hnotices : notices now e.2 = true)
      (hset : s.watchdog.timeoutCallback = true) :
      Step cb timer i s (.looping ⟨now, e :: rest⟩)
        { s with watchdog := visit now s.watchdog e }
        (.inCallback (cb.timeout e.1 s.memory) (some ⟨now, rest⟩))
  | unlockCheck {now : TimePoint} :
      Step cb timer i s (.looping ⟨now, []⟩) { s with owner := none } .outside
  | answer {p : P} {back : Option (Loop C)} {call : Call C} {resume : OsalResult Bool → P}
      {e : OsalError} (hnext : cb.next p = .calls call resume) (hearly : call.early = some e) :
      Step cb timer i s (.inCallback p back) s (.inCallback (resume (.error e)) back)
  | returnCheck {p : P} {loop : Loop C} {memory : V} (hnext : cb.next p = .returns memory) :
      Step cb timer i s (.inCallback p (some loop)) { s with memory } (.looping loop)
  | returnHeartbeat {p : P} {memory : V} (hnext : cb.next p = .returns memory) :
      Step cb timer i s (.inCallback p none) { s with memory, owner := none } .outside

/-- The watchdog, its mutex free, and every thread outside. -/
def initially (w : PosixWatchdog C) (memory : V) : Threads (Shared ι C V) ι (Place C P) :=
  ⟨⟨w, none, memory⟩, fun _ => .outside⟩

/-- The next thing a thread does is to lock the mutex. -/
inductive Place.Locks (cb : Callbacks C P V) : Place C P → Prop
  | call {call : Call C} (hearly : call.early = none) : Locks cb (.entering call)
  | check {now : TimePoint} : Locks cb (.enteringCheck now)
  | callback {p : P} {back : Option (Loop C)} {call : Call C} {resume : OsalResult Bool → P}
      (hnext : cb.next p = .calls call resume) (hearly : call.early = none) :
      Locks cb (.inCallback p back)

/-- **The deadlock**: the thread that holds the mutex is about to lock it. -/
def Relocks (cb : Callbacks C P V) (s : Threads (Shared ι C V) ι (Place C P)) (i : ι) : Prop :=
  s.shared.owner = some i ∧ (s.threads i).Locks cb

/-! ## The loop of `check_timeouts` -/

/-- A node after a check. -/
def checked (now : TimePoint) (node : WatchdogNode C) : WatchdogNode C :=
  if timedOut now node then { node with responsive := false } else node

theorem find_visit_of_ne {now : TimePoint} {w : PosixWatchdog C} {e : UInt32 × WatchdogNode C}
    {n : UInt32} (hn : n ≠ e.1) : (visit now w e).nodes.find n = w.nodes.find n := by
  rw [visit]
  split
  · exact (OrderedMap.find_insert _ _ _ _).trans (if_neg hn)
  · rfl

theorem find_visit_self {now : TimePoint} {w : PosixWatchdog C} {e : UInt32 × WatchdogNode C}
    (hfind : w.nodes.find e.1 = some e.2) :
    (visit now w e).nodes.find e.1 = some (checked now e.2) := by
  rw [visit, notices, checked]
  cases htimedOut : timedOut now e.2 with
  | false => exact hfind
  | true =>
      cases hresponsive : e.2.responsive with
      | true => exact (OrderedMap.find_insert _ _ _ _).trans (if_pos rfl)
      | false =>
          -- the node was flagged before
          show w.nodes.find e.1 = some { e.2 with responsive := false }
          rw [← hresponsive]
          exact hfind

theorem find_foldl_visit {now : TimePoint} {es : List (UInt32 × WatchdogNode C)}
    {w : PosixWatchdog C} (hes : (es.map Prod.fst).Nodup)
    (hfind : ∀ e ∈ es, w.nodes.find e.1 = some e.2) (n : UInt32) :
    (es.foldl (visit now) w).nodes.find n
      = if n ∈ es.map Prod.fst then (w.nodes.find n).map (checked now) else w.nodes.find n := by
  induction es generalizing w with
  | nil => rfl
  | cons e es ih =>
      rw [List.map_cons, List.nodup_cons] at hes
      have hrest : ∀ d ∈ es, (visit now w e).nodes.find d.1 = some d.2 := by
        intro d hd
        have hne : d.1 ≠ e.1 := fun h => hes.1 (h ▸ List.mem_map_of_mem hd)
        rw [find_visit_of_ne hne]
        exact hfind d (List.mem_cons_of_mem _ hd)
      rw [List.foldl_cons, ih hes.2 hrest, List.map_cons]
      by_cases hn : n = e.1
      · subst hn
        have hself := hfind e List.mem_cons_self
        rw [if_neg hes.1, if_pos List.mem_cons_self, find_visit_self hself, hself, Option.map_some]
      · rw [find_visit_of_ne hn]
        simp only [List.mem_cons, hn, false_or]

/-- **The loop does what the check is said to do**, and notices the nodes whose
    alarm it raises. -/
theorem foldl_visit_checkTimeouts (now : TimePoint) (w : PosixWatchdog C) (n : UInt32) :
    (w.nodes.entries.foldl (visit now) w).nodes.find n = (w.checkTimeouts now).2.nodes.find n
      ∧ (w.timeoutCallback = true → (n ∈ (w.checkTimeouts now).1.timeouts
        ↔ ∃ e ∈ w.nodes.entries, e.1 = n ∧ notices now e.2 = true)) := by
  constructor
  · rw [find_foldl_visit w.nodes.keys_nodup (fun e he => OrderedMap.find_eq_some_iff.mpr he)]
    show _ = (w.nodes.mapValues _).find n
    rw [OrderedMap.find_mapValues]
    by_cases hn : n ∈ w.nodes.entries.map Prod.fst
    · rw [if_pos hn]
      rfl
    · rw [if_neg hn]
      cases hfind : w.nodes.find n with
      | none => rfl
      | some node =>
          exact absurd (List.mem_map_of_mem (OrderedMap.find_eq_some_iff.mp hfind)) hn
  · intro hset
    rw [mem_timeouts hset]
    constructor
    · rintro ⟨node, hfind, htimedOut, hresponsive⟩
      refine ⟨(n, node), OrderedMap.find_eq_some_iff.mp hfind, rfl, ?_⟩
      rw [notices, htimedOut, hresponsive]
      rfl
    · rintro ⟨⟨k, node⟩, hmem, rfl, hnotices⟩
      exact ⟨node, OrderedMap.find_eq_some_iff.mpr hmem, (Bool.and_eq_true _ _).mp hnotices⟩

/-! ## Which callbacks may be invoked -/

/-- A callback gets the answer of a call that returns before its lock. -/
inductive Answered (cb : Callbacks C P V) : P → P → Prop
  | early {p : P} {call : Call C} {resume : OsalResult Bool → P} {e : OsalError}
      (hnext : cb.next p = .calls call resume) (hearly : call.early = some e) :
      Answered cb p (resume (.error e))

/-- A callback makes no call that locks the mutex. -/
def LockFree (cb : Callbacks C P V) (p : P) : Prop :=
  ∀ q, Relation.ReflTransGen (Answered cb) p q →
    ∀ call resume, cb.next q = .calls call resume → call.early ≠ none

/-- The callback a thread is about to invoke: that of a registered node, on a
    heartbeat with the right checksum, or the timeout callback. -/
inductive Invokes (cb : Callbacks C P V) (s : Shared ι C V) : Place C P → P → Prop
  | heartbeat {message : HeartbeatMessage} {node : WatchdogNode C} {callback : C}
      (hvalid : validateHeartbeat message = true)
      (hfind : s.watchdog.nodes.find message.nodeId = some node)
      (hcallback : node.heartbeatCallback = some callback) :
      Invokes cb s (.entering (.submitHeartbeat message)) (cb.heartbeat callback message s.memory)
  | timeout {now : TimePoint} {e : UInt32 × WatchdogNode C}
      {rest : List (UInt32 × WatchdogNode C)} (hnotices : notices now e.2 = true)
      (hset : s.watchdog.timeoutCallback = true) :
      Invokes cb s (.looping ⟨now, e :: rest⟩) (cb.timeout e.1 s.memory)

/-- The condition on a step: the callback it invokes, if any, makes no call
    that locks the mutex. -/
def Spares (cb : Callbacks C P V) (s : Threads (Shared ι C V) ι (Place C P)) (i : ι) : Prop :=
  ∀ p, Invokes cb s.shared (s.threads i) p → LockFree cb p

section Lemmas

variable {cb : Callbacks C P V} {timer i : ι} {s s' : Shared ι C V} {a a' : Place C P} {p q : P}

theorem LockFree.answered (hp : LockFree cb p) (h : Answered cb p q) : LockFree cb q :=
  fun r hr => hp r (.head h hr)

/-- A callback that returns at once. -/
theorem lockFree_of_returns {memory : V} (h : cb.next p = .returns memory) : LockFree cb p := by
  intro q hpath call resume hnext
  rcases hpath.cases_head with rfl | ⟨r, hanswered, -⟩
  · rw [h] at hnext
    cases hnext
  · cases hanswered with
    | early hnext' hearly =>
        rw [h] at hnext'
        cases hnext'

/-- A heartbeat callback is that of the node the heartbeat is from. -/
theorem perform_heard {w : PosixWatchdog C} {now : TimePoint} {call : Call C} {callback : C}
    {message : HeartbeatMessage} (hearly : call.early = none)
    (h : (w.perform now call).1.heard = some (callback, message)) :
    ∃ node, call = .submitHeartbeat message ∧ validateHeartbeat message = true
      ∧ w.nodes.find message.nodeId = some node ∧ node.heartbeatCallback = some callback := by
  cases call with
  | registerNode nodeId timeoutMs callback =>
      rw [perform, registerNode] at h
      split at h
      · cases h
      · split at h <;> cases h
  | unregisterNode nodeId =>
      rw [perform, unregisterNode] at h
      split at h <;> cases h
  | isResponsive nodeId => cases h
  | submitHeartbeat sent =>
      rw [Call.early] at hearly
      rw [perform, submitHeartbeat] at h
      split at hearly
      · cases hearly
      next hvalid =>
      rw [if_neg hvalid] at h
      split at h
      · cases h
      next node hfind =>
      cases hcallback : node.heartbeatCallback with
      | none =>
          rw [hcallback] at h
          cases h
      | some invoked =>
          rw [hcallback] at h
          cases h
          exact ⟨node, rfl, Bool.eq_true_of_not_eq_false hvalid, hfind, hcallback⟩

/-- A heartbeat with the right checksum invokes the callback of its node. -/
theorem heard_of_find {w : PosixWatchdog C} {now : TimePoint} {message : HeartbeatMessage}
    {node : WatchdogNode C} (hvalid : validateHeartbeat message = true)
    (hfind : w.nodes.find message.nodeId = some node) :
    (w.perform now (.submitHeartbeat message)).1.heard
      = node.heartbeatCallback.map (fun callback => (callback, message)) := by
  rw [perform, submitHeartbeat, if_neg (ne_false_of_eq_true hvalid), hfind]

/-- A thread in a callback has just invoked it, or was there before. -/
theorem Step.inCallback {back : Option (Loop C)}
    (h : Step cb timer i s a s' (.inCallback p back)) :
    (∃ q, a = .inCallback q back ∧ Answered cb q p) ∨ Invokes cb s a p := by
  cases h with
  | hear hearly hfree hheard =>
      obtain ⟨node, rfl, hvalid, hfind, hcallback⟩ := perform_heard hearly hheard
      exact Or.inr (.heartbeat hvalid hfind hcallback)
  | timeout hnotices hset => exact Or.inr (.timeout hnotices hset)
  | answer hnext hearly => exact Or.inl ⟨_, rfl, .early hnext hearly⟩

/-- A thread that is about to invoke a callback does so in its next step. -/
theorem Invokes.step (hp : Invokes cb s a p) (h : Step cb timer i s a s' a') :
    ∃ back, a' = .inCallback p back := by
  cases hp with
  | heartbeat hvalid hfind hcallback =>
      cases h with
      | early hearly =>
          rw [Call.early, if_neg (ne_false_of_eq_true hvalid)] at hearly
          cases hearly
      | perform hearly hfree hheard =>
          rw [heard_of_find hvalid hfind, hcallback] at hheard
          cases hheard
      | hear hearly hfree hheard =>
          rw [heard_of_find hvalid hfind, hcallback] at hheard
          cases hheard
          exact ⟨none, rfl⟩
  | timeout hnotices hset =>
      cases h with
      | visit hquiet =>
          rw [hnotices, hset] at hquiet
          cases hquiet
      | timeout hnotices hset => exact ⟨_, rfl⟩

/-! ## Who holds the mutex -/

/-- The thread is where it holds the mutex. -/
def Place.Inside : Place C P → Prop
  | .looping _ => True
  | .inCallback _ _ => True
  | _ => False

/-- What a step does to the mutex: nothing, lock it or unlock it. -/
theorem Step.owner (h : Step cb timer i s a s' a') :
    (s'.owner = s.owner ∧ (a'.Inside ↔ a.Inside))
      ∨ (s.owner = none ∧ s'.owner = some i ∧ a'.Inside)
      ∨ (a.Inside ∧ s'.owner = none ∧ ¬ a'.Inside) := by
  cases h with
  | hear hearly hfree hheard => exact Or.inr (Or.inl ⟨hfree, rfl, trivial⟩)
  | lockCheck hfree => exact Or.inr (Or.inl ⟨hfree, rfl, trivial⟩)
  | unlockCheck => exact Or.inr (Or.inr ⟨trivial, rfl, id⟩)
  | returnHeartbeat hnext => exact Or.inr (Or.inr ⟨trivial, rfl, id⟩)
  | _ => exact Or.inl ⟨rfl, Iff.rfl⟩

end Lemmas

section Runs

variable [DecidableEq ι] {cb : Callbacks C P V} {timer i : ι} {w : PosixWatchdog C} {memory : V}
  {s t : Threads (Shared ι C V) ι (Place C P)}

/-- **The holder of the mutex is the thread that is inside.** -/
theorem owner_iff_inside (h : Steps (Interleaved (Step cb timer)) (initially w memory) t) :
    ∀ i, t.shared.owner = some i ↔ (t.threads i).Inside := by
  refine h.invariant (P := fun t => ∀ i, t.shared.owner = some i ↔ (t.threads i).Inside) ?_ ?_
  · intro s c t hs hstep i
    have howner := hstep.own_step.owner
    by_cases hi : i = c
    · subst hi
      rcases howner with ⟨hsame, hinside⟩ | ⟨-, hlocked, hinside⟩ | ⟨-, hfree, houtside⟩
      · rw [hsame, hinside]
        exact hs i
      · exact ⟨fun _ => hinside, fun _ => hlocked⟩
      · rw [hfree]
        exact ⟨(fun h => by cases h), fun h => absurd h houtside⟩
    · rw [hstep.other hi]
      rcases howner with ⟨hsame, -⟩ | ⟨hfree, hlocked, -⟩ | ⟨hinside, hfree, -⟩
      · rw [hsame]
        exact hs i
      · -- the mutex was free: nobody was inside
        rw [← hs i, hfree, hlocked]
        exact ⟨fun h => absurd (Option.some.inj h).symm hi, (fun h => by cases h)⟩
      · -- another thread was inside, and only one can be
        rw [← hs i, (hs c).mpr hinside, hfree]
        exact ⟨(fun h => by cases h), fun h => absurd (Option.some.inj h).symm hi⟩
  · intro i
    exact ⟨(fun h => by cases h), False.elim⟩

/-- Where every invoked callback is free of locks, so is every callback that a
    thread is in. -/
theorem lockFree_inCallback
    (h : Steps (Under (Spares cb) (Interleaved (Step cb timer))) (initially w memory) t) :
    ∀ i p back, t.threads i = .inCallback p back → LockFree cb p := by
  refine h.invariant (P := fun t => ∀ i p back, t.threads i = .inCallback p back →
    LockFree cb p) ?_ ?_
  · rintro s c t hs ⟨hspares, hstep⟩ i p back hplace
    by_cases hi : i = c
    · subst hi
      have hown := hstep.own_step
      rw [hplace] at hown
      rcases hown.inCallback with ⟨q, hq, hanswered⟩ | hinvokes
      · exact (hs i q back hq).answered hanswered
      · exact hspares p hinvokes
    · rw [hstep.other hi] at hplace
      exact hs i p back hplace
  · intro i p back hplace
    cases hplace

/-- A callback runs up to any call it makes, as long as it is answered. -/
theorem steps_answered {p q : P} {back : Option (Loop C)} (hplace : s.threads i = .inCallback p back)
    (h : Relation.ReflTransGen (Answered cb) p q) :
    ∃ t, Steps (Interleaved (Step cb timer)) s t ∧ t.shared = s.shared
      ∧ t.threads i = .inCallback q back := by
  induction h with
  | refl => exact ⟨s, .refl, rfl, hplace⟩
  | tail _ hanswered ih =>
      obtain ⟨t, hpath, hshared, ht⟩ := ih
      cases hanswered with
      | @early _ resume e hnext hearly =>
          have hstep : Step cb timer i t.shared (t.threads i) t.shared
              (.inCallback (resume (.error e)) back) := by
            rw [ht]
            exact .answer hnext hearly
          exact ⟨_, hpath.next (.step hstep), hshared, Function.update_self _ _ _⟩

/-- **Callbacks and the mutex.**  Of a watchdog with any nodes and callbacks,
    no run in which every callback that is invoked makes only calls that
    return before their lock comes to a thread that locks the mutex it holds;
    and after a step that invokes any other callback, that thread can come
    to do so. -/
theorem callbacks_spare_mutex (cb : Callbacks C P V) (timer : ι) (w : PosixWatchdog C)
    (memory : V) :
    (∀ t, Steps (Under (Spares cb) (Interleaved (Step cb timer))) (initially w memory) t →
      ∀ i, ¬ Relocks cb t i)
    ∧ ∀ t i u, Steps (Interleaved (Step cb timer)) (initially w memory) t →
      Interleaved (Step cb timer) t i u → ¬ Spares cb t i →
      ∃ v, Steps (Interleaved (Step cb timer)) u v ∧ Relocks cb v i := by
  constructor
  · rintro t h i ⟨howner, hlocks⟩
    have hinside := (owner_iff_inside h.of_under i).mp howner
    have hfree := lockFree_inCallback h i
    generalize t.threads i = a at hlocks hinside hfree
    cases hlocks with
    | call hearly => exact hinside
    | check => exact hinside
    | callback hnext hearly => exact hfree _ _ rfl _ .refl _ _ hnext hearly
  · intro t i u h hstep hspares
    simp only [Spares, LockFree, not_forall, not_not] at hspares
    obtain ⟨p, hinvokes, q, hpath, call, resume, hnext, hearly⟩ := hspares
    obtain ⟨back, hback⟩ := hinvokes.step hstep.own_step
    have howner : u.shared.owner = some i := by
      rw [owner_iff_inside (h.next hstep) i, hback]
      trivial
    obtain ⟨v, hrun, hshared, hplace⟩ := steps_answered hback hpath
    refine ⟨v, hrun, ?_, ?_⟩
    · rw [hshared]
      exact howner
    · rw [hplace]
      exact .callback hnext hearly

end Runs

/-! ## A recovery that unregisters the node -/

/-- On a timeout the node is unregistered; a heartbeat is heard, and nothing
    done. -/
def recovery : Callbacks Unit (Option UInt32) Unit where
  heartbeat _ _ _ := none
  timeout nodeId _ := some nodeId
  next
    | some nodeId => .calls (.unregisterNode nodeId) (fun _ => none)
    | none => .returns ()

/-- Node 7 may be silent for 100 ms. -/
def node7 : PosixWatchdog Unit := (run started [] [.registerNode 7 100 (some ()) 0]).1

/-- After 101 ms the thread of the watchdog is in its loop. -/
def silent : Threads (Shared Bool Unit Unit) Bool (Place Unit (Option UInt32)) :=
  ⟨⟨node7, some true, ()⟩, Function.update
    (Function.update (fun _ => .outside) true (.enteringCheck 101000000)) true
    (.looping ⟨101000000, node7.nodes.entries⟩)⟩

theorem steps_silent :
    Steps (Interleaved (Step recovery true)) (initially node7 ()) silent := by
  have hcheck : Interleaved (Step recovery true) (initially node7 ()) true _ :=
    .step (.check rfl 101000000)
  exact (Steps.single hcheck).next (.step (.lockCheck rfl))

/-- The check finds node 7 and invokes the callback. -/
theorem silent_invokes : ∃ u, Interleaved (Step recovery true) silent true u
    ∧ u.shared.owner = some true
    ∧ u.threads true = .inCallback (some 7) (some ⟨101000000, []⟩) := by
  have hstep : Interleaved (Step recovery true) silent true _ := .step (.timeout (by decide) rfl)
  exact ⟨_, hstep, rfl, rfl⟩

/-- The thread of the watchdog comes to lock the mutex it holds. -/
theorem timeout_callback_relocks :
    ∃ t, Steps (Interleaved (Step recovery true)) (initially node7 ()) t
      ∧ Relocks recovery t true := by
  obtain ⟨u, hstep, howner, hplace⟩ := silent_invokes
  refine ⟨u, steps_silent.next hstep, howner, ?_⟩
  rw [hplace]
  exact .callback rfl rfl

/-- Another thread is about to submit a heartbeat of node 7. -/
def sent : Threads (Shared Bool Unit Unit) Bool (Place Unit (Option UInt32)) :=
  ⟨⟨node7, none, ()⟩, Function.update (fun _ => .outside) false
    (.entering (.submitHeartbeat heartbeat7))⟩

/-- Its callback is invoked. -/
theorem sent_invokes : ∃ u, Interleaved (Step recovery true) sent false u
    ∧ u.threads false = .inCallback none none := by
  have hheard : (node7.perform 5 (.submitHeartbeat heartbeat7)).1.heard
      = some ((), heartbeat7) := by decide
  have hstep : Interleaved (Step recovery true) sent false _ := .step (.hear rfl rfl hheard)
  exact ⟨_, hstep, rfl⟩

/-- A heartbeat of node 7 is heard without harm, its timeout is not. -/
theorem callbacks_spare_mutex_recovery :
    (∃ t, Steps (Under (Spares recovery) (Interleaved (Step recovery true))) (initially node7 ()) t
        ∧ t.threads false = .inCallback none none ∧ ¬ Relocks recovery t false)
      ∧ ∃ u v, Steps (Interleaved (Step recovery true)) (initially node7 ()) silent
        ∧ Interleaved (Step recovery true) silent true u
        ∧ Steps (Interleaved (Step recovery true)) u v ∧ Relocks recovery v true := by
  have hmutex := callbacks_spare_mutex recovery true node7 ()
  constructor
  · obtain ⟨t, hstep, hplace⟩ := sent_invokes
    have hcall : Interleaved (Step recovery true) (initially node7 ()) false sent :=
      .step (.call (by decide) _)
    have houtside : Spares recovery (initially node7 ()) false := by
      intro p h
      cases h
    have hheartbeat : Spares recovery sent false := by
      intro p h
      cases h with
      | heartbeat hvalid hfind hcallback => exact lockFree_of_returns rfl
    have hrun : Steps (Under (Spares recovery) (Interleaved (Step recovery true)))
        (initially node7 ()) t :=
      (Steps.single ⟨houtside, hcall⟩).next ⟨hheartbeat, hstep⟩
    exact ⟨t, hrun, hplace, hmutex.1 t hrun false⟩
  · obtain ⟨u, hstep, -, hplace⟩ := silent_invokes
    have htimeout : ¬ Spares recovery silent true := by
      intro h
      exact h (some 7) (.timeout (by decide) rfl) (some 7) .refl _ _ rfl rfl
    obtain ⟨v, hpath, hrelocks⟩ := hmutex.2 silent true u steps_silent hstep htimeout
    exact ⟨u, v, steps_silent, hstep, hpath, hrelocks⟩

end LaunchCpp.PosixWatchdog
