import LaunchCpp.WatchedProcesses
import LaunchCpp.Library.TransitionSystem
import Mathlib.Data.Finset.Basic

/-! # The nodes an action has registered

    An `ExecuteProcess` under a watchdog that answers what it likes; the nodes
    are the ids that were registered and not unregistered.  Registration, the
    process id and unregistration are kept together by the clean-up before a
    retry and by the destructor, not by a second `execute`: the main result,
    `registered_subset_iff`, says which calls leave a node behind. -/

namespace LaunchCpp

open TransitionSystems

variable {V N : Type*} {sys : System V}

/-- A watchdog that answers what it likes. -/
structure Registry (V : Type*) where
  registerNode : Nat → Nat → V → Bool × V
  unregisterNode : Nat → V → V

/-- Its nodes: the ids that were registered with success and not unregistered
    since, whatever the answer was. -/
def Registry.watchdog (registry : Registry V) : Watchdog (Watched V (Finset Nat)) where
  registerNode nodeId timeoutMs w :=
    match registry.registerNode nodeId timeoutMs w.rest with
    | (true, rest) => { rest, own := { w.own with nodes := insert nodeId w.own.nodes } }
    | (false, rest) => { w with rest }
  unregisterNode nodeId w :=
    { rest := registry.unregisterNode nodeId w.rest
      own := { w.own with nodes := w.own.nodes.erase nodeId } }

/-- The action under a registry. -/
def Registry.parts (registry : Option (Registry V)) (options : ExecuteProcess.Options)
    (executor : Option (ProcessExecutor V)) (monitor : Option (ResourceMonitor V)) :
    Parts V (Finset Nat) where
  options := options
  executor := executor
  monitor := monitor
  watchdog := registry.map Registry.watchdog

/-- The pids handed out are `int32_t` numbers, none of them zero, none of them
    twice. -/
structure Framed.PidsDistinct (w : Watched V N) : Prop where
  nodup : w.handedOut.Nodup
  range : ∀ pid ∈ w.handedOut, pid ≠ 0 ∧ -2 ^ 31 ≤ pid ∧ pid < 2 ^ 31

theorem toUint32_injOn {m n : Int} (hm : -2 ^ 31 ≤ m ∧ m < 2 ^ 31)
    (hn : -2 ^ 31 ≤ n ∧ n < 2 ^ 31) (h : toUint32 m = toUint32 n) : m = n := by
  rw [toUint32, toUint32] at h
  omega

theorem Framed.PidsDistinct.toUint32_ne_zero {w : Watched V N} {pid : ProcessId}
    (h : w.PidsDistinct) (hpid : pid ∈ w.handedOut) : toUint32 pid ≠ 0 := by
  obtain ⟨hne, hrange⟩ := h.range pid hpid
  intro hzero
  exact hne (toUint32_injOn hrange (by omega) hzero)

theorem Framed.PidsDistinct.of_grown {w w' : Watched V N} (h : w'.PidsDistinct)
    (hgrown : w.handedOut <+: w'.handedOut) : w.PidsDistinct :=
  ⟨h.nodup.sublist hgrown.sublist, fun pid hpid => h.range pid (hgrown.subset hpid)⟩

/-- The pid handed out last is no earlier one. -/
theorem Framed.PidsDistinct.toUint32_ne_last {w : Watched V N} {before : List ProcessId}
    {pid last : ProcessId} (h : w.PidsDistinct) (hout : w.handedOut = before ++ [last])
    (hpid : pid ∈ before) : toUint32 pid ≠ toUint32 last := by
  obtain ⟨hnodup, hrange⟩ := h
  rw [hout] at hnodup hrange
  have hlast : last ∈ before ++ [last] := List.mem_append_right _ List.mem_cons_self
  intro heq
  have hsame : pid = last :=
    toUint32_injOn (hrange pid (List.mem_append_left _ hpid)).2 (hrange last hlast).2 heq
  exact (List.nodup_append.mp hnodup).2.2 pid hpid last List.mem_cons_self hsame

section Registered

variable {registry : Option (Registry V)} {parts : Parts V (Finset Nat)}

/-- What a registration does. -/
theorem Registry.register_spec (hparts : parts.watchdog = registry.map Registry.watchdog)
    (pid : ProcessId) (w : Watched V (Finset Nat)) :
    (parts.register pid w).handedOut = w.handedOut
    ∧ ((parts.register pid w).nodes = w.nodes
      ∨ (registry ≠ none ∧ (parts.register pid w).nodes = insert (toUint32 pid) w.nodes)) := by
  rw [Parts.register, ExecuteProcess.register]
  simp only [Parts.action, hparts]
  cases registry with
  | none => exact ⟨rfl, Or.inl rfl⟩
  | some registry =>
      simp only [Option.map_some]
      split
      · simp only [Registry.watchdog]
        split
        · exact ⟨rfl, Or.inr ⟨by simp, rfl⟩⟩
        · exact ⟨rfl, Or.inl rfl⟩
      · exact ⟨rfl, Or.inl rfl⟩

/-- What an action keeps of its nodes: they are ids of pids handed out, and
    the one it remembers is such a pid. -/
structure Accounted (registry : Option (Registry V)) (processId : ProcessId)
    (w : Watched V (Finset Nat)) : Prop where
  known : processId = 0 ∨ processId ∈ w.handedOut
  nodes : ∀ n ∈ w.nodes, ∃ pid ∈ w.handedOut, n = toUint32 pid
  watched : registry = none → w.nodes = ∅

variable {process : Option ProcessId} {processId : ProcessId} {w : Watched V (Finset Nat)}

theorem Accounted.congr {w' : Watched V (Finset Nat)} (h : Accounted registry processId w)
    (hsame : Framed.Same w w') : Accounted registry processId w' := by
  obtain ⟨hknown, hnodes, hwatched⟩ := h
  rw [← hsame.handedOut] at hknown hnodes
  rw [← hsame.nodes] at hnodes hwatched
  exact ⟨hknown, hnodes, hwatched⟩

/-- Unregistering leaves no node behind, if there was no other. -/
theorem Accounted.unregister (h : Accounted registry processId w)
    (hparts : parts.watchdog = registry.map Registry.watchdog) :
    Accounted registry 0 ((parts.action process processId).unregister w)
    ∧ ((parts.action process processId).unregister w).handedOut = w.handedOut
    ∧ (w.PidsDistinct → w.nodes ⊆ {toUint32 processId} →
        ((parts.action process processId).unregister w).nodes = ∅) := by
  rw [ExecuteProcess.unregister]
  simp only [Parts.action, hparts]
  cases registry with
  | none => exact ⟨⟨Or.inl rfl, h.nodes, h.watched⟩, rfl, fun _ _ => h.watched rfl⟩
  | some registry =>
      simp only [Option.map_some]
      by_cases hid : processId = 0
      · rw [if_neg (not_not_intro hid)]
        refine ⟨⟨Or.inl rfl, h.nodes, h.watched⟩, rfl, ?_⟩
        intro hdistinct honly
        refine Finset.eq_empty_of_forall_notMem ?_
        intro n hn
        -- no pid that was handed out is zero
        obtain ⟨pid, hpid, rfl⟩ := h.nodes n hn
        have heq := Finset.mem_singleton.mp (honly hn)
        rw [hid] at heq
        exact hdistinct.toUint32_ne_zero hpid heq
      · rw [if_pos hid]
        refine ⟨⟨Or.inl rfl, ?_, fun hnone => by cases hnone⟩, rfl,
          ?_⟩
        · intro n hn
          exact h.nodes n (Finset.mem_of_mem_erase hn)
        · intro _ honly
          refine Finset.eq_empty_of_forall_notMem ?_
          intro n hn
          obtain ⟨hne, hmem⟩ := Finset.mem_erase.mp hn
          exact hne (Finset.mem_singleton.mp (honly hmem))

/-- In front of an attempt the action either is as it was, or has no node. -/
theorem Accounted.prepared {w' : Watched V (Finset Nat)}
    {self : ExecuteProcess (Watched V (Finset Nat))} (h : Accounted registry processId w)
    (hparts : parts.watchdog = registry.map Registry.watchdog)
    (hprepared : parts.Prepared process processId w self w') :
    Accounted registry self.processId w' ∧ w'.handedOut = w.handedOut
    ∧ ((self = parts.action process processId ∧ w' = w)
      ∨ (w.PidsDistinct → w.nodes ⊆ {toUint32 processId} → w'.nodes = ∅)) := by
  cases hprepared with
  | first => exact ⟨h, rfl, Or.inl ⟨rfl, rfl⟩⟩
  | @cleaned between _ hbetween hsame =>
      obtain ⟨haccounted, hout, hempty⟩ := (h.congr hbetween).unregister hparts
      refine ⟨haccounted.congr hsame, ?_, Or.inr ?_⟩
      · rw [hsame.handedOut, hout, hbetween.handedOut]
      · intro hdistinct honly
        rw [hsame.nodes]
        refine hempty ⟨?_, ?_⟩ ?_
        · rw [hbetween.handedOut]
          exact hdistinct.nodup
        · rw [hbetween.handedOut]
          exact hdistinct.range
        · rw [hbetween.nodes]
          exact honly

/-- The registration of a pid that was handed out. -/
theorem Accounted.register {pid : ProcessId} {before after : Watched V (Finset Nat)}
    (h : Accounted registry processId w)
    (hparts : parts.watchdog = registry.map Registry.watchdog)
    (hnodes : before.nodes = w.nodes) (hout : before.handedOut = w.handedOut ++ [pid])
    (hsame : Framed.Same (parts.register pid before) after) :
    Accounted registry pid after ∧ after.handedOut = w.handedOut ++ [pid]
    ∧ w.nodes ⊆ after.nodes ∧ after.nodes ⊆ insert (toUint32 pid) w.nodes := by
  obtain ⟨hkept, hregistered⟩ := Registry.register_spec hparts pid before
  rw [← hsame.handedOut, hout] at hkept
  rw [← hsame.nodes, hnodes] at hregistered
  have hnew : pid ∈ after.handedOut := by
    rw [hkept]
    exact List.mem_append_right _ List.mem_cons_self
  have hold : ∀ n ∈ w.nodes, ∃ pid' ∈ after.handedOut, n = toUint32 pid' := by
    intro n hn
    obtain ⟨pid', hpid', rfl⟩ := h.nodes n hn
    refine ⟨pid', ?_, rfl⟩
    rw [hkept]
    exact List.mem_append_left _ hpid'
  rcases hregistered with hsame' | ⟨hregistry, hinsert⟩
  · rw [← hsame'] at hold
    refine ⟨⟨Or.inr hnew, hold, ?_⟩, hkept, ?_, ?_⟩
    · rw [hsame']
      exact h.watched
    · rw [hsame']
    · rw [hsame']
      exact Finset.subset_insert _ _
  · refine ⟨⟨Or.inr hnew, ?_, fun hnone => absurd hnone hregistry⟩, hkept, ?_, ?_⟩
    · rw [hinsert]
      intro n hn
      rcases Finset.mem_insert.mp hn with rfl | hn
      · exact ⟨pid, hnew, rfl⟩
      · exact hold n hn
    · rw [hinsert]
      exact Finset.subset_insert _ _
    · rw [hinsert]

/-- No node is registered, or the first attempt is handed no pid: the command
    is rejected, the resources are not there, or the executor makes no
    process. -/
def Session.ClearFor (s : Session (Watched V (Finset Nat))) : Call → Prop
  | .execute context =>
      s.world.nodes = ∅
        ∨ ∀ cmd, ExecuteProcess.validateAndEscapeCommand (s.self.resolveCommand context) = .ok cmd →
          s.self.handed cmd s.world = none
  | _ => True

/-- The registered nodes are that of the process id, at most. -/
def Session.Tidy (s : Session (Watched V (Finset Nat))) : Prop :=
  s.world.nodes ⊆ {toUint32 s.self.processId}

/-- What every call keeps. -/
structure Session.Accounted (registry : Option (Registry V)) (parts : Parts V (Finset Nat))
    (s : Session (Watched V (Finset Nat))) : Prop where
  self_eq : ∃ process, s.self = parts.action process s.self.processId
  accounted : LaunchCpp.Accounted registry s.self.processId s.world

/-- What a run of `execute` keeps. -/
theorem Accounted.executed {context : LaunchContext}
    {run : ExecuteProcess.Run (Watched V (Finset Nat))} (h : Accounted registry processId w)
    (hparts : parts.watchdog = registry.map Registry.watchdog)
    (hrun : parts.Executed sys context process processId w run) :
    (Session.after run).Accounted registry parts ∧ w.handedOut <+: run.world.handedOut
    ∧ ((Session.mk (parts.action process processId) w).ClearFor (.execute context) →
        w.PidsDistinct → w.nodes ⊆ {toUint32 processId} → (Session.after run).Tidy) := by
  have hself_eq := hrun.self_eq
  cases hrun with
  | @idle self w' hprepared hself hsame =>
      obtain ⟨haccounted, hout, hfirst⟩ := h.prepared hparts hprepared
      obtain ⟨process', hself⟩ := hself
      have hid : run.self.processId = self.processId := by rw [hself]; rfl
      refine ⟨⟨hself_eq, ?_⟩, ?_, ?_⟩
      · show LaunchCpp.Accounted registry run.self.processId run.world
        rw [hid]
        exact haccounted.congr hsame
      · rw [hsame.handedOut, hout]
      · intro _ hdistinct honly
        show run.world.nodes ⊆ {toUint32 run.self.processId}
        rw [hid, hsame.nodes]
        rcases hfirst with ⟨rfl, rfl⟩ | hempty
        · exact honly
        · rw [hempty hdistinct honly]
          exact Finset.empty_subset _
  | @started cmd self pid w' before hcmd hat hhanded hself hnodes hout hsame =>
      obtain ⟨haccounted, hout', hfirst⟩ := h.prepared hparts (Parts.prepared hat)
      obtain ⟨haccounted', hhandedOut, -, hnew⟩ :=
        haccounted.register hparts hnodes hout hsame
      have hid : run.self.processId = pid := by rw [hself]; rfl
      refine ⟨⟨hself_eq, ?_⟩, ?_, ?_⟩
      · show LaunchCpp.Accounted registry run.self.processId run.world
        rw [hid]
        exact haccounted'
      · rw [hhandedOut, hout']
        exact List.prefix_append _ _
      · intro hclear hdistinct honly
        show run.world.nodes ⊆ {toUint32 run.self.processId}
        have hempty : w'.nodes = ∅ := by
          rcases hfirst with ⟨rfl, rfl⟩ | hempty
          · rcases hclear with hempty | hnot
            · exact hempty
            · rw [hnot cmd hcmd] at hhanded
              cases hhanded
          · exact hempty hdistinct honly
        rw [hid]
        rw [hempty] at hnew
        exact hnew

/-- A call keeps the account, and under the condition the nodes tidy. -/
theorem Session.Accounted.step {s t : Session (Watched V (Finset Nat))} {call : Call}
    (h : s.Accounted registry parts) (hparts : parts.watchdog = registry.map Registry.watchdog)
    (hstep : s.Step (Framed.system sys) call t) :
    t.Accounted registry parts ∧ s.world.handedOut <+: t.world.handedOut
    ∧ (s.ClearFor call → s.world.PidsDistinct → s.Tidy → t.Tidy) := by
  obtain ⟨⟨process, hself⟩, haccounted⟩ := h
  by_cases hcall : ∃ context, call = .execute context
  · obtain ⟨context, rfl⟩ := hcall
    cases hstep with
    | @execute _ fuel _ =>
        obtain ⟨self, w⟩ := s
        generalize hid : self.processId = processId at hself haccounted
        simp only at hself haccounted
        subst hself
        have hrun : parts.Executed sys context process processId w
            (Session.execute (Framed.system sys)
              ⟨parts.action process processId, w⟩ context fuel) :=
          Parts.executed fuel context
        exact haccounted.executed hparts hrun
  · obtain ⟨hsame, hworld⟩ := hstep.same (fun context heq => hcall ⟨context, heq⟩)
    refine ⟨⟨⟨process, ?_⟩, ?_⟩, ?_, ?_⟩
    · rw [hsame]
      exact hself
    · rw [hsame]
      exact haccounted.congr hworld
    · rw [hworld.handedOut]
    · intro _ _ htidy
      rw [Session.Tidy, hsame, hworld.nodes]
      exact htidy

/-- An attempt that is handed a pid while a node is registered leaves that
    node behind. -/
theorem Session.Accounted.clearFor {s t : Session (Watched V (Finset Nat))} {call : Call}
    (h : s.Accounted registry parts) (hparts : parts.watchdog = registry.map Registry.watchdog)
    (hstep : s.Step (Framed.system sys) call t) (hdistinct : t.world.PidsDistinct)
    (htidy : t.Tidy) : s.ClearFor call := by
  obtain ⟨⟨process, hself⟩, haccounted⟩ := h
  cases hstep with
  | @execute context fuel hreturns =>
      obtain ⟨self, w⟩ := s
      generalize hid : self.processId = processId at hself haccounted
      simp only at hself haccounted
      subst hself
      by_contra hclear
      obtain ⟨hnodes, hhanded⟩ := not_or.mp hclear
      obtain ⟨cmd, hcmd, hhanded⟩ : ∃ cmd, ExecuteProcess.validateAndEscapeCommand
            ((parts.action process processId).resolveCommand context) = .ok cmd
          ∧ (parts.action process processId).handed cmd w ≠ none := by
        simpa using hhanded
      have htried : parts.Tried process processId cmd w
          ((parts.action process processId).executeSingleAttempt
            (Framed.system sys).posix cmd w) := Parts.tried
      cases htried with
      | unhanded hnone => exact hhanded hnone
      | @handed pid before _ hresult hself hnodes' hout hsame =>
          -- the first attempt succeeds, so the run ends with it
          have hrun : Session.execute (Framed.system sys)
                ⟨parts.action process processId, w⟩ context fuel
              = (parts.action process processId).executeSingleAttempt
                (Framed.system sys).posix cmd w :=
            ExecuteProcess.execute_of_started hcmd hresult hreturns
          rw [hrun] at hdistinct htidy
          obtain ⟨-, hhandedOut, hold, -⟩ := haccounted.register hparts hnodes' hout hsame
          obtain ⟨n, hn⟩ := Finset.nonempty_iff_ne_empty.mpr hnodes
          obtain ⟨pid', hpid', rfl⟩ := haccounted.nodes n hn
          have hmem := Finset.mem_singleton.mp (htidy (hold hn))
          rw [Session.after, hself] at hmem
          exact hdistinct.toUint32_ne_last hhandedOut hpid' hmem
  | shutdown => trivial
  | terminate => trivial
  | kill => trivial
  | sendSignal => trivial
  | isRunning => trivial

end Registered

/-- An action under a registry before its first call. -/
def Session.under (registry : Option (Registry V)) (options : ExecuteProcess.Options)
    (executor : Option (ProcessExecutor V)) (monitor : Option (ResourceMonitor V)) (rest : V) :
    Session (Watched V (Finset Nat)) where
  self := (Registry.parts registry options executor monitor).action none 0
  world := { rest, own := { nodes := ∅ } }

/-- **The nodes of an action.**  Whatever executor, monitor and watchdog
    answer, as long as the pids are distinct: if no `execute` is handed a pid
    at once while a node is registered, the registered nodes are that of the
    process id at most, and the destructor leaves none; and the first
    `execute` that is handed one leaves the node before it registered. -/
theorem registered_subset_iff (sys : System V) (registry : Option (Registry V))
    (options : ExecuteProcess.Options) (executor : Option (ProcessExecutor V))
    (monitor : Option (ResourceMonitor V)) (rest : V) :
    (∀ s, Steps (Under Session.ClearFor (Session.Step (Framed.system sys)))
        (Session.under registry options executor monitor rest) s → s.world.PidsDistinct →
      s.Tidy ∧ (s.self.destruct (Framed.system sys) s.world).nodes = ∅)
    ∧ ∀ s call t, Steps (Session.Step (Framed.system sys))
          (Session.under registry options executor monitor rest) s → s.Tidy →
        s.Step (Framed.system sys) call t → t.world.PidsDistinct →
        (t.Tidy ↔ s.ClearFor call) := by
  have hparts : (Registry.parts registry options executor monitor).watchdog
      = registry.map Registry.watchdog := rfl
  have hstart : (Session.under registry options executor monitor rest).Accounted registry
      (Registry.parts registry options executor monitor) :=
    ⟨⟨none, rfl⟩, Or.inl rfl, fun n hn => absurd hn (Finset.notMem_empty n), fun _ => rfl⟩
  have haccounted : ∀ {s}, Steps (Session.Step (Framed.system sys))
      (Session.under registry options executor monitor rest) s →
      s.Accounted registry (Registry.parts registry options executor monitor) :=
    fun hrun => hrun.invariant (fun h hstep => (h.step hparts hstep).1) hstart
  refine ⟨?_, ?_⟩
  · intro s hrun hdistinct
    have htidy : s.world.PidsDistinct → s.Tidy := by
      refine hrun.invariant_with (P := fun s => s.world.PidsDistinct → s.Tidy)
        (fun hrun => haccounted hrun.of_under) ?_ (fun _ => Finset.empty_subset _)
      rintro s call t hs htidy ⟨hclear, hstep⟩ hdistinct
      obtain ⟨-, hgrown, hkeeps⟩ := hs.step hparts hstep
      have hbefore := hdistinct.of_grown hgrown
      exact hkeeps hclear hbefore (htidy hbefore)
    refine ⟨htidy hdistinct, ?_⟩
    obtain ⟨⟨process, hself⟩, hs⟩ := haccounted hrun.of_under
    have hunregistered : (s.self.unregister s.world).nodes = ∅ := by
      rw [hself]
      exact (hs.unregister hparts).2.2 hdistinct (htidy hdistinct)
    rw [ExecuteProcess.destruct]
    split
    · exact hunregistered
    · exact hunregistered
  · intro s call t hrun htidy hstep hdistinct
    have hs := haccounted hrun
    obtain ⟨-, hgrown, hkeeps⟩ := hs.step hparts hstep
    exact ⟨hs.clearFor hparts hstep hdistinct,
      fun hclear => hkeeps hclear (hdistinct.of_grown hgrown) htidy⟩

/-- The second `execute` forgets the node of the first, and so does the
    destructor. -/
theorem registered_subset_twice : ∃ s, Steps (Session.Step (Framed.system idleSystem))
    (Session.under (some ⟨fun _ _ w => (true, w), fun _ w => w⟩)
      { cmd := [some (textSubstitution "talker".toList)], enableSafety := true
        watchdogTimeoutMs := 1000 }
      (some countingExecutor) none 0) s
    ∧ s.world.PidsDistinct ∧ ¬ s.Tidy
    ∧ (s.self.destruct (Framed.system idleSystem) s.world).nodes = {1} :=
  ⟨_, (Steps.single (@Session.Step.execute _ (Framed.system idleSystem) _ LaunchContext.empty 1
      (by decide +kernel))).next
      (@Session.Step.execute _ (Framed.system idleSystem) _ LaunchContext.empty 1
        (by decide +kernel)),
    ⟨by decide +kernel, by decide +kernel⟩,
    (show ¬ ((_ : Finset Nat) ⊆ _) from by decide +kernel), by decide +kernel⟩

end LaunchCpp
