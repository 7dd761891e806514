import LaunchCpp.Watchdog
import LaunchCpp.WatchedProcesses
import LaunchCpp.Library.TransitionSystem

/-! # Actions that share a watchdog

    Several `ExecuteProcess` actions with one started `PosixWatchdog`, which
    `set_watchdog` has given to each of them.  Actions execute and are
    destroyed in any order; executor, monitor and system of each are arbitrary.
    Of every node it is recorded whose it is.  The main result is
    `destroy_spares_iff`: the destructor stops the watchdog whoever else has a
    node there. -/

namespace LaunchCpp

open TransitionSystems OrderedMaps

/-- The watchdog, whether its thread runs, and whose a node is. -/
structure SharedWatchdog (ι : Type*) (C : Type) where
  watchdog : PosixWatchdog C := {}
  running : Bool := true
  owner : UInt32 → Option ι := fun _ => none

variable {V ι : Type*} {C : Type}

namespace SharedWatchdog

/-- The node is registered. -/
def Registered (n : SharedWatchdog ι C) (nodeId : UInt32) : Prop :=
  n.watchdog.nodes.find nodeId ≠ none

/-- What happens to the watchdog while only the given actions register nodes. -/
structure Touched (news : ι → Prop) (n n' : SharedWatchdog ι C) : Prop where
  running : n'.running = n.running
  owner : ∀ nodeId j, n'.owner nodeId = some j → n.owner nodeId = some j ∨ news j
  registered : (∀ nodeId, n.owner nodeId ≠ none → n.Registered nodeId) →
    ∀ nodeId, n'.owner nodeId ≠ none → n'.Registered nodeId

theorem Touched.refl (news : ι → Prop) (n : SharedWatchdog ι C) : Touched news n n :=
  ⟨rfl, fun _ _ h => Or.inl h, fun h => h⟩

theorem Touched.trans {news : ι → Prop} {n n' n'' : SharedWatchdog ι C}
    (h : Touched news n n') (h' : Touched news n' n'') : Touched news n n'' := by
  refine ⟨h'.running.trans h.running, ?_, h'.registered ∘ h.registered⟩
  intro nodeId j hj
  rcases h'.owner nodeId j hj with hj | hnew
  · exact h.owner nodeId j hj
  · exact Or.inr hnew

/-- `start`: a watchdog that runs already goes on. -/
def start (n : SharedWatchdog ι C) : SharedWatchdog ι C := { n with running := true }

/-- `stop`. -/
def stop (n : SharedWatchdog ι C) : SharedWatchdog ι C := { n with running := false }

/-- The system, with the thread of the shared watchdog. -/
def system (sys : System V) : System (Watched V (SharedWatchdog ι C)) :=
  { Framed.system sys with
    startWatchdog := fun w => w.setNodes w.nodes.start
    stopWatchdog := fun w => w.setNodes w.nodes.stop }

/-- `register_node`, called by one of the actions. -/
def registerNode (n : SharedWatchdog ι C) (i : ι) (nodeId timeoutMs : UInt32)
    (now : TimePoint) : SharedWatchdog ι C :=
  match n.watchdog.registerNode nodeId timeoutMs none now with
  | ({ result := .ok (), .. }, watchdog) =>
      { n with watchdog, owner := Function.update n.owner nodeId (some i) }
  | ({ result := .error _, .. }, watchdog) => { n with watchdog }

/-- `unregister_node`. -/
def unregisterNode (n : SharedWatchdog ι C) (nodeId : UInt32) : SharedWatchdog ι C :=
  match n.watchdog.unregisterNode nodeId with
  | ({ result := .ok (), .. }, watchdog) =>
      { n with watchdog, owner := Function.update n.owner nodeId none }
  | ({ result := .error _, .. }, watchdog) => { n with watchdog }

/-- The watchdog as one of the actions has it; the clock is read on
    registration. -/
def handle (clock : V → TimePoint) (i : ι) : Watchdog (Watched V (SharedWatchdog ι C)) where
  registerNode nodeId timeoutMs w :=
    w.setNodes
      (w.nodes.registerNode i (UInt32.ofNat nodeId) (UInt32.ofNat timeoutMs) (clock w.rest))
  unregisterNode nodeId w := w.setNodes (w.nodes.unregisterNode (UInt32.ofNat nodeId))

/-- A registration, with all that is left of one that is rejected. -/
theorem registerNode_touched (n : SharedWatchdog ι C) (i : ι) (nodeId timeoutMs : UInt32)
    (now : TimePoint) : Touched (· = i) n (n.registerNode i nodeId timeoutMs now)
    ∧ (n.Registered nodeId → n.registerNode i nodeId timeoutMs now = n) := by
  rw [registerNode, PosixWatchdog.registerNode, Registered]
  by_cases htimeout : timeoutMs = 0
  · rw [if_pos htimeout]
    exact ⟨.refl _ n, fun _ => rfl⟩
  · rw [if_neg htimeout]
    cases hfind : n.watchdog.nodes.find nodeId with
    | some node => exact ⟨.refl _ n, fun _ => rfl⟩
    | none =>
        refine ⟨⟨rfl, ?_, ?_⟩,
          fun hregistered => absurd rfl hregistered⟩
        · intro k j hj
          by_cases hnode : k = nodeId
          · subst hnode
            simp only [Function.update_self] at hj
            exact Or.inr (Option.some.inj hj).symm
          · simp only [Function.update_of_ne hnode] at hj
            exact Or.inl hj
        · intro hregistered k hk
          simp only [Registered, OrderedMap.find_insert]
          by_cases hnode : k = nodeId
          · rw [if_pos hnode]
            exact Option.some_ne_none _
          · rw [if_neg hnode]
            simp only [Function.update_of_ne hnode] at hk
            exact hregistered k hk

/-- Unregistering takes out one node. -/
theorem unregisterNode_touched (n : SharedWatchdog ι C) (nodeId : UInt32) (news : ι → Prop) :
    Touched news n (n.unregisterNode nodeId)
    ∧ ∀ k ≠ nodeId, (n.unregisterNode nodeId).owner k = n.owner k
      ∧ (n.unregisterNode nodeId).watchdog.nodes.find k = n.watchdog.nodes.find k := by
  rw [unregisterNode, PosixWatchdog.unregisterNode]
  cases hfind : n.watchdog.nodes.find nodeId with
  | none => exact ⟨.refl _ n, fun k _ => ⟨rfl, rfl⟩⟩
  | some node =>
      refine ⟨⟨rfl, ?_, ?_⟩, fun k hne => ⟨?_, ?_⟩⟩
      · intro k j hj
        by_cases hnode : k = nodeId
        · subst hnode
          simp only [Function.update_self] at hj
          cases hj
        · simp only [Function.update_of_ne hnode] at hj
          exact Or.inl hj
      · intro hregistered k hk
        by_cases hnode : k = nodeId
        · subst hnode
          simp only [Function.update_self] at hk
          exact absurd rfl hk
        · simp only [Registered, OrderedMap.find_erase, if_neg hnode]
          simp only [Function.update_of_ne hnode] at hk
          exact hregistered k hk
      · exact Function.update_of_ne hne _ _
      · simp only [OrderedMap.find_erase, if_neg hne]

variable {sys : System V} {clock : V → TimePoint} {i : ι}
  {parts : Parts V (SharedWatchdog ι C)} {process : Option ProcessId} {processId : ProcessId}
  {w : Watched V (SharedWatchdog ι C)}

/-- The id under which a process is registered. -/
def nodeIdOf (pid : ProcessId) : UInt32 := UInt32.ofNat (toUint32 pid)

theorem register_touched (hparts : parts.watchdog = some (handle clock i)) (pid : ProcessId)
    (w : Watched V (SharedWatchdog ι C)) :
    Touched (· = i) w.nodes (parts.register pid w).nodes
    ∧ ((0 < parts.options.watchdogTimeoutMs → w.nodes.Registered (nodeIdOf pid)) →
        (parts.register pid w).nodes = w.nodes) := by
  rw [Parts.register, ExecuteProcess.register]
  simp only [Parts.action, hparts]
  split
  next htimeout =>
    obtain ⟨htouched, hrejected⟩ := registerNode_touched w.nodes i (nodeIdOf pid)
      (UInt32.ofNat (toUint32 parts.options.watchdogTimeoutMs)) (clock w.rest)
    exact ⟨htouched, fun h => hrejected (h htimeout)⟩
  next => exact ⟨.refl _ _, fun _ => rfl⟩

/-- Unregistering its process an action takes out that node and no other. -/
theorem unregister_touched (hparts : parts.watchdog = some (handle clock i)) (news : ι → Prop)
    (w : Watched V (SharedWatchdog ι C)) :
    Touched news w.nodes ((parts.action process processId).unregister w).nodes
    ∧ ∀ k ≠ nodeIdOf processId,
      ((parts.action process processId).unregister w).nodes.owner k = w.nodes.owner k
      ∧ ((parts.action process processId).unregister w).nodes.watchdog.nodes.find k
        = w.nodes.watchdog.nodes.find k := by
  rw [ExecuteProcess.unregister]
  simp only [Parts.action, hparts]
  by_cases hid : processId = 0
  · rw [if_neg (not_not_intro hid)]
    exact ⟨.refl _ _, fun _ _ => ⟨rfl, rfl⟩⟩
  · rw [if_pos hid]
    exact unregisterNode_touched w.nodes (nodeIdOf processId) news

theorem prepared_touched (hparts : parts.watchdog = some (handle clock i)) (news : ι → Prop)
    {self : ExecuteProcess (Watched V (SharedWatchdog ι C))}
    {w' : Watched V (SharedWatchdog ι C)}
    (hprepared : parts.Prepared process processId w self w') :
    Touched news w.nodes w'.nodes := by
  cases hprepared with
  | first => exact .refl _ _
  | @cleaned between _ hbetween hsame =>
      rw [hsame.nodes, ← hbetween.nodes]
      exact (unregister_touched hparts news between).1

end SharedWatchdog

/-- No attempt of an `execute` adds a node: it is handed no pid, or there is no
    timeout, or the id is registered already. -/
def ExecuteProcess.RegistersNone (sys : System V)
    (self : ExecuteProcess (Watched V (SharedWatchdog ι C))) (context : LaunchContext)
    (w : Watched V (SharedWatchdog ι C)) : Prop :=
  ∀ cmd, validateAndEscapeCommand (self.resolveCommand context) = .ok cmd →
    ∀ last w', Attempted self (Framed.system sys).posix cmd w last w' →
      ∀ pid, last.handed cmd w' = some pid → 0 < self.options.watchdogTimeoutMs →
        w'.nodes.Registered (SharedWatchdog.nodeIdOf pid)

namespace SharedWatchdog

variable {sys : System V} {clock : V → TimePoint} {i : ι}
  {parts : Parts V (SharedWatchdog ι C)} {process : Option ProcessId} {processId : ProcessId}
  {w : Watched V (SharedWatchdog ι C)}

/-- An execution adds nodes of its own action only, if any. -/
theorem executed_touched (hparts : parts.watchdog = some (handle clock i))
    {context : LaunchContext} {run : ExecuteProcess.Run (Watched V (SharedWatchdog ι C))}
    (hrun : parts.Executed sys context process processId w run) :
    Touched (· = i) w.nodes run.world.nodes
    ∧ ((parts.action process processId).RegistersNone sys context w →
        Touched (fun _ => False) w.nodes run.world.nodes) := by
  cases hrun with
  | idle hprepared _ hsame =>
      rw [hsame.nodes]
      exact ⟨prepared_touched hparts _ hprepared, fun _ => prepared_touched hparts _ hprepared⟩
  | @started cmd self pid w' before hcmd hat hhanded _ hnodes _ hsame =>
      have hprepared := Parts.prepared hat
      obtain ⟨htouched, hrejected⟩ := register_touched hparts pid before
      rw [hnodes, ← hsame.nodes] at htouched hrejected
      refine ⟨(prepared_touched hparts _ hprepared).trans htouched, ?_⟩
      intro hnone
      rw [hrejected (hnone cmd hcmd self w' hat pid hhanded)]
      exact prepared_touched hparts _ hprepared

end SharedWatchdog

/-! ## Executing and destroying actions -/

/-- The actions that are alive, and the world they share. -/
structure Fleet (V ι : Type*) (C : Type) where
  actions : ι → Option (ExecuteProcess (Watched V (SharedWatchdog ι C)))
  world : Watched V (SharedWatchdog ι C)

/-- What is done with one of the actions. -/
inductive Fleet.Event (ι : Type*) where
  | execute (i : ι) (context : LaunchContext)
  | destroy (i : ι)

/-- `set_watchdog`. -/
def Parts.setWatchdog {N : Type*} (parts : Parts V N) (watchdog : Watchdog (Watched V N)) :
    Parts V N :=
  { parts with watchdog := some watchdog }

namespace Fleet

variable [DecidableEq ι] (sys : System V) (clock : V → TimePoint)
  (members : ι → Parts V (SharedWatchdog ι C))

/-- What one of the actions is made of once it has been given the watchdog. -/
def member (i : ι) : Parts V (SharedWatchdog ι C) :=
  (members i).setWatchdog (SharedWatchdog.handle clock i)

/-- The actions before their first call, with the watchdog started. -/
def start (watchdog : PosixWatchdog C) (rest : V) : Fleet V ι C where
  actions i := some ((member clock members i).action none 0)
  world := { rest, own := { nodes := { watchdog } } }

/-- An action that is alive executes, or is destroyed. -/
inductive Step (s : Fleet V ι C) : Event ι → Fleet V ι C → Prop where
  | execute {i : ι} {self : ExecuteProcess (Watched V (SharedWatchdog ι C))}
      {context : LaunchContext} {fuel : Nat} (halive : s.actions i = some self)
      (hreturns :
        (self.execute (SharedWatchdog.system sys).posix fuel context s.world).result ≠ none) :
      Step s (.execute i context)
        { actions := Function.update s.actions i
            (some (self.execute (SharedWatchdog.system sys).posix fuel context s.world).self)
          world := (self.execute (SharedWatchdog.system sys).posix fuel context s.world).world }
  | destroy {i : ι} {self : ExecuteProcess (Watched V (SharedWatchdog ι C))}
      (halive : s.actions i = some self) :
      Step s (.destroy i)
        { actions := Function.update s.actions i none
          world := self.destruct (SharedWatchdog.system sys) s.world }

/-- An action is alive and has the node. -/
def Has (s : Fleet V ι C) (j : ι) (nodeId : UInt32) : Prop :=
  (∃ self, s.actions j = some self) ∧ s.world.nodes.owner nodeId = some j

/-- An action is destroyed when no other one that is alive has a node, and
    adds a node only while the watchdog runs. -/
def Alone (s : Fleet V ι C) : Event ι → Prop
  | .execute i context =>
      s.world.nodes.running = true
        ∨ ∀ self, s.actions i = some self → self.RegistersNone sys context s.world
  | .destroy i => ∀ j ≠ i, ∀ nodeId, ¬ s.Has j nodeId

/-- The watchdog runs as long as an action that is alive has a node. -/
def Guarded (s : Fleet V ι C) : Prop :=
  ∀ j nodeId, s.Has j nodeId →
    s.world.nodes.running = true ∧ s.world.nodes.Registered nodeId

/-- The destruction of an action leaves the nodes of the others alone, and the
    watchdog running for them. -/
def Spares (s t : Fleet V ι C) (i : ι) : Prop :=
  ∀ j ≠ i, ∀ nodeId, s.Has j nodeId → t.Has j nodeId ∧ t.world.nodes.running = true

/-- What every step keeps. -/
structure Inv (s : Fleet V ι C) : Prop where
  actions : ∀ i self, s.actions i = some self → ∃ process,
    self = (member clock members i).action process self.processId
  registered : ∀ nodeId, s.world.nodes.owner nodeId ≠ none → s.world.nodes.Registered nodeId

variable {sys clock members} {s t : Fleet V ι C}

/-- An execution keeps the other actions, and adds nodes of its own action
    only. -/
theorem Inv.execute {i : ι} {context : LaunchContext} (h : s.Inv clock members)
    (hstep : s.Step sys (.execute i context) t) :
    t.Inv clock members
    ∧ (∀ j, (∃ self, t.actions j = some self) → ∃ self, s.actions j = some self)
    ∧ SharedWatchdog.Touched (· = i) s.world.nodes t.world.nodes
    ∧ ((∀ self, s.actions i = some self → self.RegistersNone sys context s.world) →
        SharedWatchdog.Touched (fun _ => False) s.world.nodes t.world.nodes) := by
  cases hstep with
  | @execute _ self _ fuel halive _ =>
      obtain ⟨process, hself⟩ := h.actions i self halive
      have hrun : (member clock members i).Executed sys context process self.processId s.world
          (((member clock members i).action process self.processId).execute
            (Framed.system sys).posix fuel context s.world) :=
        Parts.executed fuel context
      have htouched := SharedWatchdog.executed_touched rfl hrun
      rw [← hself] at hrun htouched
      refine ⟨⟨?_, htouched.1.registered h.registered⟩, ?_,
        htouched.1, fun hnone => htouched.2 (hnone self halive)⟩
      · intro j self' hj
        by_cases hji : j = i
        · subst hji
          simp only [Function.update_self] at hj
          rw [← Option.some.inj hj]
          exact hrun.self_eq
        · simp only [Function.update_of_ne hji] at hj
          exact h.actions j self' hj
      · intro j hj
        by_cases hji : j = i
        · subst hji
          exact ⟨self, halive⟩
        · obtain ⟨self', hj⟩ := hj
          simp only [Function.update_of_ne hji] at hj
          exact ⟨self', hj⟩

/-- A destruction removes the action, takes out the node of its process id,
    and stops the watchdog. -/
theorem Inv.destroy {i : ι} (h : s.Inv clock members) (hstep : s.Step sys (.destroy i) t) :
    t.Inv clock members
    ∧ (∀ j, (∃ self, t.actions j = some self) → j ≠ i ∧ ∃ self, s.actions j = some self)
    ∧ (∀ nodeId j, t.world.nodes.owner nodeId = some j → s.world.nodes.owner nodeId = some j)
    ∧ (∀ self, s.actions i = some self → ∀ nodeId ≠ SharedWatchdog.nodeIdOf self.processId,
        t.world.nodes.watchdog.nodes.find nodeId = s.world.nodes.watchdog.nodes.find nodeId)
    ∧ t.world.nodes.running = false := by
  cases hstep with
  | @destroy _ self halive =>
      obtain ⟨process, hself⟩ := h.actions i self halive
      have hdestroyed : self.destruct (SharedWatchdog.system sys) s.world
          = (self.unregister s.world).setNodes (self.unregister s.world).nodes.stop := by
        rw [hself]
        rfl
      have hwatchdog :
          (member clock members i).watchdog = some (SharedWatchdog.handle clock i) := rfl
      obtain ⟨htouched, hframe⟩ :
          SharedWatchdog.Touched (fun _ => False) s.world.nodes (self.unregister s.world).nodes
          ∧ ∀ nodeId ≠ SharedWatchdog.nodeIdOf self.processId,
            (self.unregister s.world).nodes.owner nodeId = s.world.nodes.owner nodeId
            ∧ (self.unregister s.world).nodes.watchdog.nodes.find nodeId
              = s.world.nodes.watchdog.nodes.find nodeId := by
        rw [hself]
        exact SharedWatchdog.unregister_touched hwatchdog _ s.world
      simp only [hdestroyed]
      refine ⟨⟨?_, htouched.registered h.registered⟩, ?_,
        ?_, ?_, rfl⟩
      · intro j self' hj
        by_cases hji : j = i
        · subst hji
          simp only [Function.update_self] at hj
          cases hj
        · simp only [Function.update_of_ne hji] at hj
          exact h.actions j self' hj
      · rintro j ⟨self', hj⟩
        by_cases hji : j = i
        · subst hji
          simp only [Function.update_self] at hj
          cases hj
        · simp only [Function.update_of_ne hji] at hj
          exact ⟨hji, self', hj⟩
      · intro nodeId j hj
        rcases htouched.owner nodeId j hj with hj | hnew
        · exact hj
        · exact hnew.elim
      · intro self' hself' nodeId hne
        rw [halive] at hself'
        rw [← Option.some.inj hself'] at hne
        exact (hframe nodeId hne).2

theorem Inv.step {event : Event ι} (h : s.Inv clock members) (hstep : s.Step sys event t) :
    t.Inv clock members := by
  cases event with
  | execute i context => exact (h.execute hstep).1
  | destroy i => exact (h.destroy hstep).1

/-- Under the condition the watchdog runs on for whoever has a node. -/
theorem Inv.guarded {event : Event ι} (h : s.Inv clock members) (hguarded : s.Guarded)
    (halone : s.Alone sys event) (hstep : s.Step sys event t) : t.Guarded := by
  rintro j nodeId ⟨halive, howner⟩
  cases event with
  | execute i context =>
      obtain ⟨hinv, hactions, htouched, hnone⟩ := h.execute hstep
      have hregistered : t.world.nodes.Registered nodeId :=
        hinv.registered nodeId (by rw [howner]; exact Option.some_ne_none j)
      refine ⟨?_, hregistered⟩
      rcases halone with hrunning | hnot
      · rw [htouched.running]
        exact hrunning
      · -- nothing was added, so the node was there before
        rcases (hnone hnot).owner nodeId j howner with hold | hnew
        · rw [htouched.running]
          exact (hguarded j nodeId ⟨hactions j halive, hold⟩).1
        · exact hnew.elim
  | destroy i =>
      obtain ⟨-, hactions, howners, -, -⟩ := h.destroy hstep
      obtain ⟨hji, halive'⟩ := hactions j halive
      exact absurd ⟨halive', howners nodeId j howner⟩ (halone j hji nodeId)

/-- **Destroying one of several actions.**  As long as every destruction finds
    no other action alive with a node, and no execution adds a node once the
    watchdog has stopped, the watchdog runs for every node of an action that
    is alive.  A destruction spares the others exactly if it finds none with a
    node; the entries of all other nodes stay in any case. -/
theorem destroy_spares_iff (sys : System V) (clock : V → TimePoint)
    (members : ι → Parts V (SharedWatchdog ι C)) (watchdog : PosixWatchdog C) (rest : V) :
    (∀ s, Steps (Under (Alone sys) (Step sys)) (start clock members watchdog rest) s →
      s.Guarded)
    ∧ ∀ s i t, Steps (Step sys) (start clock members watchdog rest) s →
        s.Step sys (.destroy i) t →
        (s.Spares t i ↔ s.Alone sys (.destroy i))
        ∧ ∀ self, s.actions i = some self → ∀ nodeId ≠ SharedWatchdog.nodeIdOf self.processId,
          t.world.nodes.watchdog.nodes.find nodeId = s.world.nodes.watchdog.nodes.find nodeId := by
  have hstart : (start clock members watchdog rest).Inv clock members := by
    refine ⟨fun i self hself => ⟨none, ?_⟩, fun nodeId howner => absurd rfl howner⟩
    rw [← Option.some.inj hself]
    rfl
  have hinv : ∀ {s}, Steps (Step sys) (start clock members watchdog rest) s →
      s.Inv clock members :=
    fun hrun => hrun.invariant (fun h hstep => h.step hstep) hstart
  refine ⟨?_, ?_⟩
  · intro s hrun
    have hkeeps : ∀ {s event t}, s.Inv clock members → s.Guarded →
        Under (Alone sys) (Step sys) s event t → t.Guarded :=
      fun hs hguarded hstep => hs.guarded hguarded hstep.1 hstep.2
    refine hrun.invariant_with (fun hrun => hinv hrun.of_under) hkeeps ?_
    intro j nodeId hhas
    cases hhas.2
  · intro s i t hrun hstep
    obtain ⟨-, -, -, hframe, hstopped⟩ := (hinv hrun).destroy hstep
    refine ⟨⟨?_, ?_⟩, hframe⟩
    · intro hspares j hji nodeId hhas
      have hrunning := (hspares j hji nodeId hhas).2
      rw [hstopped] at hrunning
      cases hrunning
    · intro halone j hji nodeId hhas
      exact absurd hhas (halone j hji nodeId)

/-- Two actions run, one is destroyed, and the node of the other is watched no
    more. -/
theorem destroy_spares_two : ∃ s t : Fleet Nat Bool Unit,
    Steps (Step idleSystem)
      (start (fun _ => 0) (fun _ =>
        ⟨{ cmd := [some (textSubstitution "talker".toList)], enableSafety := true
           watchdogTimeoutMs := 1000 }, some countingExecutor, none, none⟩) {} 0) s
    ∧ s.Step idleSystem (.destroy false) t ∧ ¬ s.Spares t false ∧ ¬ t.Guarded := by
  refine ⟨_, _, (Steps.single (@Step.execute _ _ _ _ idleSystem _ false _ LaunchContext.empty 1
    rfl (by decide +kernel))).next (@Step.execute _ _ _ _ idleSystem _ true _
      LaunchContext.empty 1 rfl (by decide +kernel)), .destroy rfl, ?_, ?_⟩
  · intro hspares
    have hrunning := (hspares true (by decide) 2 ⟨⟨_, rfl⟩, by decide +kernel⟩).2
    exact absurd hrunning (by decide +kernel)
  · intro hguarded
    have hrunning := (hguarded true 2 ⟨⟨_, rfl⟩, by decide +kernel⟩).1
    exact absurd hrunning (by decide +kernel)

end Fleet

end LaunchCpp
