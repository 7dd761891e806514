import LaunchCpp.ThreadPool

/-! # Any number of calls of `ThreadPool::shutdown`

    `shutdown` may be called by any number of threads outside the pool, and
    once more by the destructor.  The call whose exchange succeeds joins the
    workers; every other call returns at once, whatever state it found.

    To the workers and to `submit` the pool looks as if there were one call,
    the one that has won (`SharedPool.Reachable.pool`).  `shutdowns_stop` says
    what the calls that return may rely on. -/

namespace LaunchCpp.ThreadPool

open TransitionSystems

/-- A pool and the calls of `shutdown` on it, each an element of `κ`, with the
    thread objects that have not been joined.  `pool.shutdown` records where
    the call is whose exchange has succeeded. -/
structure SharedPool (n : Nat) (ι κ : Type) where
  pool : State n ι := {}
  joinable : Fin n → Bool := fun _ => true
  shutdowns : κ → ShutdownPc := fun _ => .exchange

namespace SharedPool

/-- The threads of an interleaving. -/
inductive Thread (n : Nat) (ι κ : Type) where
  | worker (w : Fin n)
  | submit (c : ι)
  | shutdown (c : κ)

variable {n : Nat} {ι κ : Type} [DecidableEq κ]

/-- A call of `shutdown` that has won takes the pool a step further. -/
def advance (s : SharedPool n ι κ) (c : κ) (p : State n ι) : SharedPool n ι κ :=
  { s with pool := p, shutdowns := Function.update s.shutdowns c p.shutdown }

/-- `shutdown`. -/
inductive CallStep (s : SharedPool n ι κ) (c : κ) : SharedPool n ι κ → Prop
  | exchange (h : s.shutdowns c = .exchange) (hstatus : s.pool.status = .running) :
      CallStep s c (s.advance c { s.pool with status := .shuttingDown, shutdown := .notify })
  | exchangeFails (h : s.shutdowns c = .exchange) (hstatus : s.pool.status ≠ .running) :
      CallStep s c { s with shutdowns := Function.update s.shutdowns c .returned }
  | notifyAll (h : s.shutdowns c = .notify) :
      CallStep s c
        (s.advance c { s.pool with
          workers := fun w => (s.pool.workers w).notified, shutdown := .join 0 })
  | join {w : Fin n} (h : s.shutdowns c = .join w) (hjoinable : s.joinable w = true)
      (hexited : s.pool.workers w = .exited) :
      CallStep s c
        { s.advance c { s.pool with shutdown := .join (w + 1) } with
          joinable := Function.update s.joinable w false }
  | pass {w : Fin n} (h : s.shutdowns c = .join w) (hjoinable : s.joinable w = false) :
      CallStep s c (s.advance c { s.pool with shutdown := .join (w + 1) })
  | store (h : s.shutdowns c = .join n) :
      CallStep s c (s.advance c { s.pool with status := .stopped, shutdown := .returned })

variable [DecidableEq ι] (callable : ι → Prop)

/-- One step of one thread. -/
inductive Step (s : SharedPool n ι κ) : Thread n ι κ → SharedPool n ι κ → Prop
  | worker {w : Fin n} {p : State n ι} (h : WorkerStep callable s.pool w p) :
      Step s (.worker w) { s with pool := p }
  | submit {c : ι} {p : State n ι} (h : SubmitStep s.pool c p) :
      Step s (.submit c) { s with pool := p }
  | shutdown {c : κ} {t : SharedPool n ι κ} (h : CallStep s c t) : Step s (.shutdown c) t

/-- What an interleaving leads to from a new pool. -/
def Reachable (s : SharedPool n ι κ) : Prop := Steps (Step callable) {} s

end SharedPool

variable {n : Nat} {ι κ : Type}

/-- The call is between its exchange and its return. -/
def ShutdownPc.Joining : ShutdownPc → Prop
  | .notify => True
  | .join _ => True
  | _ => False

section Stopped

/-- A stopped pool stays so. -/
theorem ShutdownStep.stopped {s t : State n ι} (h : ShutdownStep s t)
    (hs : s.status = .stopped) : t.status = .stopped := by
  cases h with
  | exchange h hstatus =>
      rw [hs] at hstatus
      cases hstatus
  | store h => rfl
  | _ h => exact hs

variable [DecidableEq ι] {callable : ι → Prop}

/-- The status is `K_STOPPED` when the call that stores it returns. -/
theorem Step.returned_of_stopped {s t : State n ι} {a : Thread n ι} (h : Step callable s a t)
    (hs : s.status = .stopped → s.shutdown = .returned) (ht : t.status = .stopped) :
    t.shutdown = .returned := by
  rcases h.shutdown_or_same with hstep | ⟨hshutdown, hstatus⟩
  · cases hstep with
    | exchange h hstatus => cases ht
    | exchangeFails h hstatus => rfl
    | store h => rfl
    | _ hpc =>
        have hreturned := hs ht
        rw [hpc] at hreturned
        cases hreturned
  · rw [hshutdown]
    exact hs (hstatus ▸ ht)

theorem Reachable.returned_of_stopped {s : State n ι} (h : Reachable callable s) :
    s.status = .stopped → s.shutdown = .returned := by
  refine Steps.invariant (P := fun s => s.status = .stopped → s.shutdown = .returned)
    (fun hs hstep => hstep.returned_of_stopped hs) ?_ h
  intro hnew
  cases hnew

end Stopped

namespace SharedPool

variable [DecidableEq ι] [DecidableEq κ] {callable : ι → Prop}

/-! ## One call wins -/

/-- **One winner**: only one call is between its exchange and its return, at
    the point the pool records, and what it has passed is joined. -/
structure Led (s : SharedPool n ι κ) : Prop where
  recorded : ∀ c, (s.shutdowns c).Joining → s.shutdowns c = s.pool.shutdown
  alone : ∀ c d, (s.shutdowns c).Joining → (s.shutdowns d).Joining → c = d
  joined : ∀ w, s.joinable w = false ↔ s.pool.shutdown.Joined w

omit [DecidableEq ι] in
theorem joining_advance {s : SharedPool n ι κ} {c d : κ} {pc : ShutdownPc}
    (hothers : ∀ d, (s.shutdowns d).Joining → d = c)
    (hd : (Function.update s.shutdowns c pc d).Joining) : d = c := by
  by_contra hdc
  rw [Function.update_of_ne hdc] at hd
  exact hdc (hothers d hd)

omit [DecidableEq ι] in
/-- A call that wins, or has won, keeps the others out. -/
theorem Led.advance {s t : SharedPool n ι κ} {c : κ} {pc : ShutdownPc}
    (hothers : ∀ d, (s.shutdowns d).Joining → d = c)
    (hshutdowns : t.shutdowns = Function.update s.shutdowns c pc) (hpool : t.pool.shutdown = pc)
    (hjoined : ∀ w, t.joinable w = false ↔ pc.Joined w) : Led t := by
  refine ⟨fun d hd => ?_, fun d e hd he => ?_, fun w => ?_⟩
  · rw [hshutdowns] at hd ⊢
    rw [joining_advance hothers hd, Function.update_self, hpool]
  · rw [hshutdowns] at hd he
    exact (joining_advance hothers hd).trans (joining_advance hothers he).symm
  · rw [hpool]
    exact hjoined w

omit [DecidableEq ι] in
/-- A call that loses is out of the way. -/
theorem Led.lose {s : SharedPool n ι κ} (hs : Led s) (c : κ) :
    Led { s with shutdowns := Function.update s.shutdowns c .returned } := by
  have hcall : ∀ d, (Function.update s.shutdowns c .returned d).Joining →
      Function.update s.shutdowns c .returned d = s.shutdowns d := by
    intro d hd
    by_cases hdc : d = c
    · subst hdc
      rw [Function.update_self] at hd
      exact False.elim hd
    · exact Function.update_of_ne hdc _ _
  refine ⟨fun d hd => ?_, fun d e hd he => ?_, hs.joined⟩
  · show Function.update s.shutdowns c .returned d = s.pool.shutdown
    have hsame := hcall d hd
    rw [hsame]
    exact hs.recorded d (hsame ▸ hd)
  · exact hs.alone d e (hcall d hd ▸ hd) (hcall e he ▸ he)

omit [DecidableEq ι] in
/-- What the pool sees of a call: a step of the call that has won, or nothing. -/
theorem CallStep.pool {s t : SharedPool n ι κ} {c : κ} (h : CallStep s c t) (hs : Led s)
    (hphased : Phased s.pool) : ShutdownStep s.pool t.pool ∨ t.pool = s.pool := by
  cases h with
  | exchange h hstatus =>
      exact Or.inl (.exchange (hphased.running hstatus).1 hstatus)
  | exchangeFails h hstatus => exact Or.inr rfl
  | notifyAll h =>
      refine Or.inl (.notifyAll ?_)
      rw [← hs.recorded c (by rw [h]; trivial), h]
  | @join w h hjoinable hexited =>
      refine Or.inl (.join ?_ hexited)
      rw [← hs.recorded c (by rw [h]; trivial), h]
  | @pass w h hjoinable =>
      refine Or.inl (.join ?_ (hphased.joined w ((hs.joined w).mp hjoinable)))
      rw [← hs.recorded c (by rw [h]; trivial), h]
  | store h =>
      refine Or.inl (.store ?_)
      rw [← hs.recorded c (by rw [h]; trivial), h]

omit [DecidableEq ι] in
theorem Led.call {s t : SharedPool n ι κ} {c : κ} (hs : Led s) (hphased : Phased s.pool)
    (h : CallStep s c t) : Led t := by
  have hothers : ∀ pc, s.shutdowns c = pc → pc.Joining → ∀ d, (s.shutdowns d).Joining → d = c := by
    rintro pc rfl hc d hd
    exact hs.alone d c hd hc
  have hrecorded : ∀ pc, s.shutdowns c = pc → pc.Joining → s.pool.shutdown = pc := by
    rintro pc rfl hc
    exact (hs.recorded c hc).symm
  cases h with
  | exchange h hstatus =>
      have hexchange := (hphased.running hstatus).1
      refine Led.advance (c := c) ?_ rfl rfl (fun w => ?_)
      · -- the pool runs, so that no call has won yet
        intro d hd
        have hd' := hd
        rw [hs.recorded d hd, hexchange] at hd'
        exact False.elim hd'
      · show s.joinable w = false ↔ False
        rw [hs.joined w, hexchange]
        exact Iff.rfl
  | exchangeFails h hstatus => exact hs.lose c
  | notifyAll h =>
      refine Led.advance (hothers _ h trivial) rfl rfl (fun w => ?_)
      show s.joinable w = false ↔ w.val < 0
      rw [hs.joined w, hrecorded _ h trivial]
      exact ⟨fun hw => False.elim hw, fun hw => absurd hw (Nat.not_lt_zero _)⟩
  | @join v h hjoinable hexited =>
      refine Led.advance (hothers _ h trivial) rfl rfl (fun w => ?_)
      show Function.update s.joinable v false w = false ↔ w.val < v.val + 1
      by_cases hw : w = v
      · subst hw
        rw [Function.update_self]
        exact ⟨fun _ => Nat.lt_succ_self _, fun _ => rfl⟩
      · rw [Function.update_of_ne hw, hs.joined w, hrecorded _ h trivial]
        have hne : w.val ≠ v.val := fun heq => hw (Fin.ext heq)
        show w.val < v.val ↔ w.val < v.val + 1
        omega
  | @pass v h hjoinable =>
      -- the call comes to a worker only before it has joined it
      have hjoined := (hs.joined v).mp hjoinable
      rw [hrecorded _ h trivial] at hjoined
      exact absurd hjoined (Nat.lt_irrefl _)
  | store h =>
      refine Led.advance (hothers _ h trivial) rfl rfl (fun w => ?_)
      show s.joinable w = false ↔ True
      rw [hs.joined w, hrecorded _ h trivial]
      exact ⟨fun _ => trivial, fun _ => w.isLt⟩

omit [DecidableEq ι] [DecidableEq κ] in
theorem led_new : Led ({} : SharedPool n ι κ) where
  recorded := fun _ h => False.elim h
  alone := fun _ _ h => False.elim h
  joined := fun _ => ⟨fun h => (by cases h), fun h => False.elim h⟩

omit [DecidableEq ι] [DecidableEq κ] in
/-- Workers and `submit` leave `shutdown` alone. -/
theorem Led.of_pool {s : SharedPool n ι κ} {p : State n ι} (hs : Led s)
    (hp : p.shutdown = s.pool.shutdown) : Led { s with pool := p } := by
  refine ⟨fun c hc => ?_, hs.alone, fun w => ?_⟩
  · show s.shutdowns c = p.shutdown
    rw [hp]
    exact hs.recorded c hc
  · show s.joinable w = false ↔ p.shutdown.Joined w
    rw [hp]
    exact hs.joined w

omit [DecidableEq ι] in
theorem shutdown_of_worker {s t : State n ι} {w : Fin n} (h : WorkerStep callable s w t) :
    t.shutdown = s.shutdown := by
  cases h <;> rfl

theorem shutdown_of_submit {s t : State n ι} {c : ι} (h : SubmitStep s c t) :
    t.shutdown = s.shutdown := by
  cases h <;> rfl

/-- **One call of `shutdown` at a time.**  However many calls there are, the
    pool goes the way of a pool with one. -/
theorem Reachable.led {s : SharedPool n ι κ} (h : Reachable callable s) :
    ThreadPool.Reachable callable s.pool ∧ Led s := by
  have hnew : ThreadPool.Reachable callable ({} : State n ι) := Relation.ReflTransGen.refl
  refine Steps.invariant (P := fun s => ThreadPool.Reachable callable s.pool ∧ Led s) ?_
    ⟨hnew, led_new⟩ h
  rintro s a t ⟨hpool, hs⟩ hstep
  cases hstep with
  | worker h => exact ⟨hpool.next (.worker h), hs.of_pool (shutdown_of_worker h)⟩
  | submit h => exact ⟨hpool.next (.submit h), hs.of_pool (shutdown_of_submit h)⟩
  | shutdown h =>
      refine ⟨?_, hs.call hpool.phased h⟩
      rcases h.pool hs hpool.phased with hmoved | hsame
      · exact hpool.next (.shutdown hmoved)
      · rw [hsame]
        exact hpool

theorem Reachable.pool {s : SharedPool n ι κ} (h : Reachable callable s) :
    ThreadPool.Reachable callable s.pool := h.led.1

/-! ## What a call that returns finds -/

/-- The pool is stopped, and the destructor may destroy the thread objects. -/
def Stopped (s : SharedPool n ι κ) : Prop :=
  s.pool.status = .stopped ∧ ∀ w, s.pool.workers w = .exited ∧ s.joinable w = false

/-- Every call of `shutdown` that has returned has stopped the pool. -/
def Settled (s : SharedPool n ι κ) : Prop :=
  ∀ c, s.shutdowns c = .returned → Stopped s

/-- An exchange finds the pool running or stopped. -/
def ExchangesInTime (s : SharedPool n ι κ) (a : Thread n ι κ) : Prop :=
  ∀ c, a = .shutdown c → s.shutdowns c = .exchange →
    s.pool.status = .running ∨ s.pool.status = .stopped

omit [DecidableEq ι] [DecidableEq κ] in
theorem ExchangesInTime.worker {s : SharedPool n ι κ} {w : Fin n} :
    ExchangesInTime s (.worker w) := by
  intro c h
  cases h

omit [DecidableEq ι] [DecidableEq κ] in
theorem ExchangesInTime.shutdown {s : SharedPool n ι κ} {c : κ}
    (h : s.shutdowns c = .exchange → s.pool.status = .running ∨ s.pool.status = .stopped) :
    ExchangesInTime s (.shutdown c) := by
  intro d hthread hexchange
  cases hthread
  exact h hexchange

/-- The status becomes `K_STOPPED` only when all is joined. -/
theorem Reachable.stopped {s : SharedPool n ι κ} (h : Reachable callable s)
    (hstopped : s.pool.status = .stopped) : Stopped s := by
  have hreturned := h.pool.returned_of_stopped hstopped
  refine ⟨hstopped, fun w => ⟨?_, ?_⟩⟩
  · refine h.pool.phased.joined w ?_
    rw [hreturned]
    exact trivial
  · refine (h.led.2.joined w).mpr ?_
    rw [hreturned]
    exact trivial

theorem Step.stopped {s t : SharedPool n ι κ} {a : Thread n ι κ} (h : Step callable s a t)
    (hs : Led s) (hphased : Phased s.pool) (hstopped : s.pool.status = .stopped) :
    t.pool.status = .stopped := by
  cases h with
  | worker h => cases h <;> exact hstopped
  | submit h => cases h <;> exact hstopped
  | shutdown h =>
      rcases h.pool hs hphased with hmoved | hsame
      · exact hmoved.stopped hstopped
      · rw [hsame]
        exact hstopped

/-- A call that returns stored `K_STOPPED`, or its exchange failed. -/
theorem Step.returned {s t : SharedPool n ι κ} {a : Thread n ι κ} {c : κ}
    (h : Step callable s a t) (hc : t.shutdowns c = .returned) :
    s.shutdowns c = .returned ∨ t.pool.status = .stopped
      ∨ (a = .shutdown c ∧ s.shutdowns c = .exchange ∧ s.pool.status ≠ .running
        ∧ t.pool = s.pool) := by
  cases h with
  | worker h => exact Or.inl hc
  | submit h => exact Or.inl hc
  | @shutdown d _ h =>
      by_cases hcd : c = d
      · subst hcd
        cases h with
        | exchangeFails h hstatus => exact Or.inr (Or.inr ⟨rfl, h, hstatus, rfl⟩)
        | store h => exact Or.inr (Or.inl rfl)
        | _ =>
            have := (Function.update_self c _ s.shutdowns).symm.trans hc
            cases this
      · refine Or.inl ?_
        cases h <;> exact (Function.update_of_ne hcd _ _).symm.trans hc

/-- The step that breaks it is an exchange that comes between the exchange
    and the return of the call that has won. -/
theorem Settled.step_iff {s t : SharedPool n ι κ} {a : Thread n ι κ} (h : Reachable callable s)
    (hs : Settled s) (hstep : Step callable s a t) : Settled t ↔ ExchangesInTime s a := by
  have ht : Reachable callable t := h.next hstep
  constructor
  · rintro hsettled c rfl hexchange
    by_contra hbad
    obtain ⟨hrunning, hstopped⟩ := not_or.mp hbad
    cases hstep with
    | shutdown hcall =>
        cases hcall with
        | exchangeFails _ _ => exact hstopped (hsettled c (Function.update_self _ _ _)).1
        | exchange _ hstatus => exact hrunning hstatus
        | _ hpc =>
            rw [hexchange] at hpc
            cases hpc
  · intro hin c hc
    refine ht.stopped ?_
    rcases hstep.returned hc with hbefore | hstopped | ⟨hthread, hexchange, hstatus, hpool⟩
    · exact hstep.stopped h.led.2 h.pool.phased (hs c hbefore).1
    · exact hstopped
    · rw [hpool]
      exact (hin c hthread hexchange).resolve_left hstatus

/-- **When a call that returns has stopped the pool.**  If in an interleaving
    no exchange comes while another call is joining the workers, the pool is
    stopped and every worker joined as soon as any call has returned; and the
    first exchange that does come then breaks it. -/
theorem shutdowns_stop (n : Nat) (ι κ : Type) [DecidableEq ι] [DecidableEq κ]
    (callable : ι → Prop) :
    (∀ s : SharedPool n ι κ, Steps (Under ExchangesInTime (Step callable)) {} s → Settled s)
    ∧ ∀ (s t : SharedPool n ι κ) (a : Thread n ι κ), Reachable callable s → Settled s →
        Step callable s a t → (Settled t ↔ ExchangesInTime s a) := by
  refine ⟨fun s h => ?_, fun s t a h hs hstep => hs.step_iff h hstep⟩
  refine Steps.invariant_with (Q := Reachable callable) (fun hpath => hpath.of_under) ?_ ?_ h
  · intro s a t hreachable hs hstep
    exact (hs.step_iff hreachable hstep.2).mpr hstep.1
  · intro c hnew
    cases hnew

/-- A thread calls `shutdown`, which joins the worker; then another calls it. -/
theorem shutdowns_stop_twice :
    ∃ s : SharedPool 1 Unit Bool,
      Steps (Under ExchangesInTime (Step (fun _ => True))) {} s
      ∧ s.shutdowns false = .returned ∧ s.shutdowns true = .returned ∧ Stopped s := by
  have hnew : Steps (Under ExchangesInTime (Step (fun _ => True)))
      ({} : SharedPool 1 Unit Bool) {} := Relation.ReflTransGen.refl
  have hworker : ∀ {s : SharedPool 1 Unit Bool} {p : State 1 Unit},
      WorkerStep (fun _ => True) s.pool 0 p →
      Under ExchangesInTime (Step (fun _ => True)) s (.worker 0) { s with pool := p } :=
    fun h => ⟨.worker, .worker h⟩
  have hnotify := (hnew.next (a := .shutdown false)
    ⟨.shutdown (fun _ => Or.inl rfl), .shutdown (.exchange rfl rfl)⟩).next (a := .shutdown false)
    ⟨.shutdown (fun h => (by cases h)), .shutdown (.notifyAll rfl)⟩
  have hexit := ((hnotify.next (hworker (.acquire rfl rfl))).next
    (hworker (.ready rfl (Or.inr (by decide))))).next (hworker (.exit rfl (by decide) rfl))
  have hstore := (hexit.next (a := .shutdown false)
    ⟨.shutdown (fun h => (by cases h)), .shutdown (.join (w := 0) rfl rfl rfl)⟩).next
    (a := .shutdown false) ⟨.shutdown (fun h => (by cases h)), .shutdown (.store rfl)⟩
  have hsecond := hstore.next (a := .shutdown true)
    ⟨.shutdown (fun _ => Or.inr rfl), .shutdown (.exchangeFails rfl (by decide))⟩
  exact ⟨_, hsecond, rfl, rfl,
    (shutdowns_stop 1 Unit Bool (fun _ => True)).1 _ hsecond true rfl⟩

/-- A thread calls `shutdown`; before it has joined the worker another one
    calls it, which returns. -/
theorem shutdowns_stop_second_call :
    ∃ s : SharedPool 1 Unit Bool, Reachable (fun _ => True) s ∧ s.shutdowns true = .returned
      ∧ s.pool.status = .shuttingDown ∧ s.pool.workers 0 ≠ .exited ∧ s.joinable 0 = true := by
  have hnew : Reachable (fun _ => True) ({} : SharedPool 1 Unit Bool) := Relation.ReflTransGen.refl
  have hfirst := hnew.next (.shutdown (c := false) (.exchange rfl rfl))
  have hsecond := hfirst.next (.shutdown (c := true) (.exchangeFails rfl (by decide)))
  exact ⟨_, hsecond, rfl, rfl, by decide, rfl⟩

end SharedPool

end LaunchCpp.ThreadPool
