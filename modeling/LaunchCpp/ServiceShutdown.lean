import LaunchCpp.ConcurrentService

/-! # What `shutdown` of a `LaunchService` achieves

    `shutdown` returns at once when its exchange fails, whatever state it
    finds, and nothing reads `shutdown_requested_`.  `shutdown_stops` says
    from which states the service is stopped afterwards, and
    `no_visit_when_stopped` when a run visits nothing any more. -/

namespace LaunchCpp.LaunchService.Concurrent

open TransitionSystems

variable {O ι : Type} {nested : LaunchDescriptionEntity O → Option (Description O)}
  {call : ι → Call O} [DecidableEq ι]

/-! ## The service is stopped -/

/-- The calls that call `shutdown`. -/
def Call.ShutsDown : Call O → Prop
  | .run shutdownWhenIdle => shutdownWhenIdle = true
  | .includeLaunchDescription _ => False
  | .shutdown => True

/-- A call of `shutdown` has returned. -/
def ShutdownReturned (call : Call O) (a : Activation O) : Prop :=
  call.ShutsDown ∧ a.pc = .returned call.afterShutdown

/-- The exchange finds the service running or stopped. -/
def ExchangesInTime (s : State O ι) (c : ι) : Prop :=
  (s.threads c).pc = .shutdown .exchange →
    s.shared.status = .running ∨ s.shared.status = .stopped

/-- The postcondition of `shutdown`: the service is stopped, and a run that
    begins from now on visits nothing. -/
def Stopped (nested : LaunchDescriptionEntity O → Option (Description O)) (call : ι → Call O)
    (s : State O ι) : Prop :=
  s.shared.status = .stopped ∧ s.shared.shutdownRequested = true
    ∧ ∀ t c, Steps (Step nested call) s t → (s.threads c).pc = .begin →
        (t.threads c).descriptionVisits = [] ∧ (t.threads c).includedVisits = []
          ∧ (t.threads c).entityVisits = []

/-- No call takes the status back from `K_STOPPED`. -/
theorem CallStep.stopped {call : Call O} {sv sv' : LaunchService O} {a a' : Activation O}
    (h : CallStep nested call sv a sv' a') (hstopped : sv.status = .stopped) :
    sv'.status = .stopped := by
  rcases h.status with hsame | ⟨hbefore, -⟩ | ⟨hbefore, -⟩ | ⟨-, hafter⟩
  · exact hsame.trans hstopped
  · rw [hstopped] at hbefore
    cases hbefore
  · rw [hstopped] at hbefore
    cases hbefore
  · exact hafter

/-- Nor the request for a shutdown. -/
theorem CallStep.requested {call : Call O} {sv sv' : LaunchService O} {a a' : Activation O}
    (h : CallStep nested call sv a sv' a') (hrequested : sv.shutdownRequested = true) :
    sv'.shutdownRequested = true := by
  rcases h.shutdown_or with hstep | houtside
  · cases hstep with
    | request hat => rfl
    | _ => exact hrequested
  · rw [houtside.requested]
    exact hrequested

/-- `K_STOPPED` is stored after the request. -/
theorem CallStep.requested_of_stop {call : Call O} {sv sv' : LaunchService O}
    {a a' : Activation O} (h : CallStep nested call sv a sv' a')
    (hpc : a'.pc = .shutdown .stop) : sv'.shutdownRequested = true := by
  rcases h.shutdown_or with hstep | houtside
  · cases hstep with
    | request hat => rfl
    | _ => cases hpc
  · refine absurd ?_ houtside.notLeaving
    rw [hpc]
    exact trivial

/-- The request is there before `K_STOPPED` is stored. -/
theorem Reachable.requested_of_stop {s : State O ι} (h : Reachable nested call s) (c : ι) :
    (s.threads c).pc = .shutdown .stop → s.shared.shutdownRequested = true := by
  refine Steps.thread (P := fun sv a => a.pc = .shutdown .stop → sv.shutdownRequested = true)
    ?_ ?_ h ?_
  · intro sv a sv' a' hstep _ hpc
    exact hstep.requested_of_stop hpc
  · intro d sv b sv' b' a hstep hrequested hpc
    exact hstep.requested (hrequested hpc)
  · intro hpc
    have hpc : (call c).activation.pc = .shutdown .stop := hpc
    revert hpc
    cases call c <;> (intro hpc; cases hpc)

/-- A stopped service has been asked to stop. -/
theorem Reachable.requested_of_stopped {s : State O ι} (h : Reachable nested call s) :
    s.shared.status = .stopped → s.shared.shutdownRequested = true := by
  refine Steps.invariant_with (Q := Reachable nested call)
    (P := fun s => s.shared.status = .stopped → s.shared.shutdownRequested = true)
    (fun hpath => hpath) ?_ ?_ h
  · intro s c t hs hP hstep hstopped
    have hown := hstep.own_step
    rcases hown.status with hsame | ⟨-, hafter⟩ | ⟨-, hafter⟩ | ⟨hstop, -⟩
    · exact hown.requested (hP (hsame.symm.trans hstopped))
    · rw [hstopped] at hafter
      cases hafter
    · rw [hstopped] at hafter
      cases hafter
    · exact hown.requested (hs.requested_of_stop c hstop)
  · intro hstopped
    cases hstopped

/-- A call that has not begun, or has returned. -/
def Pc.Resting : Pc O → Prop
  | .begin => True
  | .returned _ => True
  | _ => False

/-- In a stopped service a call that begins is refused, or registers a
    description: it visits nothing. -/
theorem Reachable.stopped {s : State O ι} (h : Reachable nested call s)
    (hstopped : s.shared.status = .stopped) : Stopped nested call s := by
  refine ⟨hstopped, h.requested_of_stopped hstopped, fun t c hpath hbegin => ?_⟩
  have hstart := h.fresh c (Or.inl hbegin)
  have hend := Steps.thread (c := c)
    (P := fun sv a => sv.status = .stopped ∧ a.pc.Resting
      ∧ a.descriptionVisits = [] ∧ a.includedVisits = [] ∧ a.entityVisits = []) ?_ ?_ hpath
    ⟨hstopped, by rw [hbegin]; exact trivial, hstart.1, hstart.2.1, hstart.2.2.1⟩
  · exact hend.2.2
  · rintro sv a sv' a' hstep ⟨hstopped, hpc, hvisits⟩
    refine ⟨hstep.stopped hstopped, ?_⟩
    cases hstep with
    | run h =>
        cases h with
        | enter hcall h hstatus =>
            rw [hstopped] at hstatus
            cases hstatus
        | refuse hcall h hstatus => exact ⟨trivial, hvisits⟩
        | shutdown hcall h =>
            rw [h] at hpc
            exact False.elim hpc
        | finish hcall h => exact ⟨trivial, hvisits⟩
        | _ h =>
            rw [h] at hpc
            exact False.elim hpc
    | visit h =>
        cases h with
        | entity _ h =>
            rw [h] at hpc
            exact False.elim hpc
        | _ h =>
            rw [h] at hpc
            exact False.elim hpc
    | registration h =>
        cases h with
        | register hcall h => exact ⟨trivial, hvisits⟩
    | shutdown h =>
        cases h with
        | _ h =>
            rw [h] at hpc
            exact False.elim hpc
  · rintro d sv b sv' b' a hstep ⟨hstopped, hrest⟩
    exact ⟨hstep.stopped hstopped, hrest⟩

/-- `shutdown` returns in two places: when its exchange fails, and behind the
    store of `K_STOPPED`. -/
theorem CallStep.shutdownReturned {call : Call O} {sv sv' : LaunchService O}
    {a a' : Activation O} (h : CallStep nested call sv a sv' a')
    (hreturned : ShutdownReturned call a') :
    (a.pc = .shutdown .exchange ∧ sv.status ≠ .running ∧ sv' = sv) ∨ sv'.status = .stopped := by
  obtain ⟨hcall, hpc⟩ := hreturned
  cases h with
  | run h =>
      cases h with
      | refuse hrun h hstatus =>
          subst hrun
          cases hpc
      | fail h =>
          cases call <;> cases hpc
      | finish hrun h =>
          subst hrun
          cases hcall
      | _ => cases hpc
  | visit h => cases h <;> cases hpc
  | registration h =>
      cases h with
      | register hinclude h =>
          subst hinclude
          exact hcall.elim
  | shutdown h =>
      cases h with
      | exchangeFails h hstatus => exact Or.inl ⟨h, hstatus, rfl⟩
      | stop h => exact Or.inr rfl
      | _ => cases hpc

/-- **The exchange decides**: a call that finds the service running goes on to
    stop it, any other one returns. -/
theorem CallStep.of_exchange {call : Call O} {sv sv' : LaunchService O} {a a' : Activation O}
    (h : CallStep nested call sv a sv' a') (hpc : a.pc = .shutdown .exchange) :
    (sv.status = .running ∧ a'.pc.Leaving)
      ∨ (sv.status ≠ .running ∧ sv' = sv ∧ a'.pc = .returned call.afterShutdown) := by
  rcases h.shutdown_or with hstep | houtside
  · cases hstep with
    | exchange hat hstatus => exact Or.inl ⟨hstatus, trivial⟩
    | exchangeFails hat hstatus => exact Or.inr ⟨hstatus, rfl, rfl⟩
    | _ hat =>
        rw [hpc] at hat
        cases hat
  · exact absurd hpc (houtside.pc _)

/-- Who leaves the service is in a shutdown. -/
theorem Pc.Leaving.exists_shutdown {pc : Pc O} (h : pc.Leaving) : ∃ p, pc = .shutdown p := by
  cases pc with
  | shutdown p => exact ⟨p, rfl⟩
  | _ => exact False.elim h

/-- Behind its exchange `shutdown` goes on to `K_STOPPED`. -/
theorem CallStep.leave {call : Call O} {sv sv' : LaunchService O} {a a' : Activation O}
    (h : CallStep nested call sv a sv' a') (hpc : a.pc.Leaving) :
    a'.pc.Leaving ∨ sv'.status = .stopped := by
  rcases h.shutdown_or with hstep | houtside
  · cases hstep with
    | exchange hat hstatus => exact Or.inl trivial
    | exchangeFails hat hstatus =>
        rw [hat] at hpc
        exact False.elim hpc
    | request hat => exact Or.inl trivial
    | stop hat => exact Or.inr rfl
  · obtain ⟨pc, hshutdown⟩ := Pc.Leaving.exists_shutdown hpc
    exact absurd hshutdown (houtside.pc pc)

/-- Only calls that call `shutdown` are in it. -/
theorem CallStep.shutsDown {call : Call O} {sv sv' : LaunchService O} {a a' : Activation O}
    (h : CallStep nested call sv a sv' a')
    (hcall : (∃ pc, a.pc = .shutdown pc) → call.ShutsDown) (hpc : ∃ pc, a'.pc = .shutdown pc) :
    call.ShutsDown := by
  obtain ⟨pc, hpc⟩ := hpc
  cases h with
  | run h =>
      cases h with
      | shutdown hrun h =>
          rw [hrun]
          exact rfl
      | _ => cases hpc
  | visit h => cases h <;> cases hpc
  | registration h =>
      cases h with
      | register hinclude h => cases hpc
  | shutdown h =>
      cases h with
      | exchange h hstatus => exact hcall ⟨_, h⟩
      | request h => exact hcall ⟨_, h⟩
      | _ => cases hpc

/-- Only the calls that shut down come there. -/
theorem Reachable.shutsDown {s : State O ι} (h : Reachable nested call s) (c : ι) :
    (∃ pc, (s.threads c).pc = .shutdown pc) → (call c).ShutsDown := by
  refine Steps.own (P := fun a => (∃ pc, a.pc = .shutdown pc) → (call c).ShutsDown)
    (fun hstep hcall => hstep.shutsDown hcall) h ?_
  rintro ⟨pc, hpc⟩
  have hpc : (call c).activation.pc = .shutdown pc := hpc
  cases hcall : call c with
  | shutdown => exact trivial
  | _ =>
      rw [hcall] at hpc
      cases hpc

/-- Where every exchange finds the service running or stopped, a call that has
    returned has stopped it. -/
theorem status_of_shutdownReturned {s : State O ι}
    (h : Steps (Under ExchangesInTime (Step nested call)) (new call) s) :
    ∀ c, ShutdownReturned (call c) (s.threads c) → s.shared.status = .stopped := by
  refine Steps.invariant
    (P := fun s => ∀ c, ShutdownReturned (call c) (s.threads c) → s.shared.status = .stopped)
    ?_ ?_ h
  · rintro s d t hP ⟨hintime, hstep⟩ c hreturned
    by_cases hcd : c = d
    · subst hcd
      rcases hstep.own_step.shutdownReturned hreturned with ⟨hpc, hne, hsame⟩ | hstopped
      · rw [hsame]
        exact (hintime hpc).resolve_left hne
      · exact hstopped
    · rw [hstep.other hcd] at hreturned
      exact hstep.own_step.stopped (hP c hreturned)
  · rintro c ⟨hcall, hpc⟩
    have hpc : (call c).activation.pc = .returned (call c).afterShutdown := hpc
    revert hpc
    cases call c <;> (intro hpc; cases hpc)

/-- A call behind its exchange stays there until the service is stopped. -/
theorem leaving_or_stopped {s t : State O ι} {c : ι} (hleaving : (s.threads c).pc.Leaving)
    (hpath : Steps (Step nested call) s t) :
    (t.threads c).pc.Leaving ∨ t.shared.status = .stopped := by
  refine Steps.thread (P := fun sv a => a.pc.Leaving ∨ sv.status = .stopped) ?_ ?_ hpath
    (Or.inl hleaving)
  · rintro sv a sv' a' hstep (hleaving | hstopped)
    · exact hstep.leave hleaving
    · exact Or.inr (hstep.stopped hstopped)
  · rintro d sv b sv' b' a hstep (hleaving | hstopped)
    · exact Or.inl hleaving
    · exact Or.inr (hstep.stopped hstopped)

/-- The status stays `K_STOPPED` in every interleaving. -/
theorem stopped_of_steps {s t : State O ι} (hpath : Steps (Step nested call) s t)
    (hstopped : s.shared.status = .stopped) : t.shared.status = .stopped :=
  Steps.shared (P := fun sv => sv.status = .stopped)
    (fun hstep hstopped => hstep.stopped hstopped) hpath hstopped

/-- **When `shutdown` stops the service.**  In an interleaving in which every
    exchange of a `shutdown` finds the service running or stopped, the
    postcondition holds whenever a call of `shutdown` has returned; and in
    every interleaving it holds behind a call, however the interleaving goes
    on, if and only if the call's exchange finds the service running or
    stopped. -/
theorem shutdown_stops :
    (∀ s : State O ι, Steps (Under ExchangesInTime (Step nested call)) (new call) s →
      ∀ c, ShutdownReturned (call c) (s.threads c) → Stopped nested call s)
    ∧ ∀ (s₀ s₁ : State O ι) (c : ι), Reachable nested call s₀ →
        (s₀.threads c).pc = .shutdown .exchange → Step nested call s₀ c s₁ →
        ((∀ s, Steps (Step nested call) s₁ s → ShutdownReturned (call c) (s.threads c) →
            Stopped nested call s)
          ↔ (s₀.shared.status = .running ∨ s₀.shared.status = .stopped)) := by
  constructor
  · intro s h c hreturned
    exact Reachable.stopped (Steps.of_under h) (status_of_shutdownReturned h c hreturned)
  · intro s₀ s₁ c h₀ hpc hstep
    have h₁ : Reachable nested call s₁ := h₀.next hstep
    have hcall : (call c).ShutsDown := h₀.shutsDown c ⟨_, hpc⟩
    rcases hstep.own_step.of_exchange hpc with ⟨hrunning, hleaving⟩ | ⟨hne, hsame, hreturned⟩
    · -- the exchange succeeds: the call returns behind the store
      refine iff_of_true ?_ (Or.inl hrunning)
      intro s hpath hreturned
      have h : Reachable nested call s := Relation.ReflTransGen.trans h₁ hpath
      rcases leaving_or_stopped hleaving hpath with hleaving | hstopped
      · rw [hreturned.2] at hleaving
        exact False.elim hleaving
      · exact h.stopped hstopped
    · constructor
      · -- the exchange fails: the call has returned, and the status is as before
        intro hpost
        have hstopped := (hpost s₁ Relation.ReflTransGen.refl ⟨hcall, hreturned⟩).1
        rw [hsame] at hstopped
        exact Or.inr hstopped
      · intro hintime s hpath _
        have h : Reachable nested call s := Relation.ReflTransGen.trans h₁ hpath
        have hstopped₁ : s₁.shared.status = .stopped := by
          rw [hsame]
          exact hintime.resolve_left hne
        exact h.stopped (stopped_of_steps hpath hstopped₁)

/-- One call shuts the service down, one runs it; a description is registered
    by the third. -/
def shutdownAndRun : Option Bool → Call Unit
  | none => .shutdown
  | some c => registerAndRun c

/-- The run has passed its check; `shutdown` stops the service. -/
theorem shutdown_stops_run :
    ∃ s : State Unit (Option Bool), Reachable (fun _ => none) shutdownAndRun s
      ∧ ShutdownReturned .shutdown (s.threads none) ∧ Stopped (fun _ => none) shutdownAndRun s := by
  have hother : ∀ {s t : State Unit (Option Bool)} {c : Option Bool},
      (s.threads c).pc ≠ .shutdown .exchange →
      Step (fun _ => none) shutdownAndRun s c t →
      Under ExchangesInTime (Step (fun _ => none) shutdownAndRun) s c t :=
    fun hpc hstep => ⟨fun h => absurd h hpc, hstep⟩
  have hnew : Steps (Under ExchangesInTime (Step (fun _ => none) shutdownAndRun))
      (new shutdownAndRun) (new shutdownAndRun) := Relation.ReflTransGen.refl
  have henter := hnew.next (hother (c := some true) (by intro h; cases h)
    (.step (.run (.enter rfl rfl rfl))))
  have hexchange := henter.next (a := none) ⟨fun _ => Or.inl rfl,
    .step (.shutdown (.exchange rfl rfl))⟩
  have hstop := (hexchange.next (hother (c := none) (by intro h; cases h)
    (.step (.shutdown (.request rfl))))).next (hother (c := none) (by intro h; cases h)
    (.step (.shutdown (.stop rfl))))
  exact ⟨_, hstop.of_under, ⟨trivial, rfl⟩, shutdown_stops.1 _ hstop none ⟨trivial, rfl⟩⟩

/-- `shutdown` of a service that does not run yet: it returns, and a run that
    begins then visits a description. -/
theorem shutdown_stops_idle :
    ∃ s : State Unit (Option Bool), Reachable (fun _ => none) shutdownAndRun s
      ∧ ShutdownReturned .shutdown (s.threads none) ∧ s.shared.status = .idle
      ∧ s.shared.shutdownRequested = false ∧ (s.threads (some true)).pc = .begin
      ∧ ∃ t, Steps (Step (fun _ => none) shutdownAndRun) s t
        ∧ (t.threads (some true)).descriptionVisits = [{}] := by
  have hnew : Reachable (fun _ => none) shutdownAndRun (new shutdownAndRun) :=
    Relation.ReflTransGen.refl
  have hregister := hnew.next (.step (c := some false) (.registration (.register rfl rfl)))
  have hshutdown := hregister.next (.step (c := none) (.shutdown (.exchangeFails rfl (by decide))))
  exact ⟨_, hshutdown, ⟨trivial, rfl⟩, rfl, rfl, rfl, _,
    ((Steps.single (.step (c := some true) (.run (.enter rfl rfl rfl)))).next
      (.step (c := some true) (.run (.snapshot rfl)))).next
      (.step (c := some true) (.run (.visit rfl))), rfl⟩

/-! ## Visits in a stopped service -/

/-- There is an entity left, or a description that is yet to be included. -/
def Level.HasMore : Level O → Prop
  | .visit entities => ∃ entity, some entity ∈ entities
  | .execute included => included ≠ []

/-- There is a description or an entity left to visit. -/
def Pc.HasMore : Pc O → Prop
  | .loop rest => ∃ desc, some desc ∈ rest
  | .visiting stack rest => (∃ level ∈ stack, level.HasMore) ∨ ∃ desc, some desc ∈ rest
  | _ => False

/-- What a call has visited: descriptions of its copy, descriptions that
    entities include, and entities. -/
def Activation.visits (a : Activation O) :
    List (Description O) × List (Description O) × List (LaunchDescriptionEntity O) :=
  (a.descriptionVisits, a.includedVisits, a.entityVisits)

section HasMore

variable {entities : List (Option (LaunchDescriptionEntity O))} {included : List (Description O)}
  {level : Level O} {stack : List (Level O)} {rest : List (Option (Description O))}

/-- A description in front is left to visit. -/
theorem hasMore_loop_some {desc : Description O} : Pc.HasMore (.loop (some desc :: rest)) :=
  ⟨desc, List.mem_cons_self⟩

/-- A null pointer is not. -/
theorem hasMore_loop_none : Pc.HasMore (.loop (none :: rest)) ↔ Pc.HasMore (.loop rest) := by
  constructor
  · rintro ⟨desc, hdesc⟩
    rcases List.mem_cons.mp hdesc with hdesc | hdesc
    · cases hdesc
    · exact ⟨desc, hdesc⟩
  · rintro ⟨desc, hdesc⟩
    exact ⟨desc, List.mem_cons_of_mem _ hdesc⟩

/-- An empty stack leaves the other descriptions. -/
theorem hasMore_visiting_nil : Pc.HasMore (.visiting [] rest) ↔ Pc.HasMore (.loop rest) := by
  constructor
  · rintro (⟨level, hlevel, -⟩ | hrest)
    · cases hlevel
    · exact hrest
  · exact Or.inr

/-- What is left is left at the innermost level, or around it. -/
theorem hasMore_visiting_cons :
    Pc.HasMore (.visiting (level :: stack) rest)
      ↔ level.HasMore ∨ Pc.HasMore (.visiting stack rest) := by
  show (∃ level' ∈ level :: stack, _) ∨ _ ↔ _ ∨ (∃ level' ∈ stack, _) ∨ _
  rw [List.exists_mem_cons_iff, or_assoc]

/-- A level at which nothing is left does not count. -/
theorem hasMore_visiting_done (h : ¬ level.HasMore) :
    Pc.HasMore (.visiting (level :: stack) rest) ↔ Pc.HasMore (.visiting stack rest) := by
  rw [hasMore_visiting_cons, or_iff_right h]

/-- An entity in front is left to visit. -/
theorem hasMore_visit_some {entity : LaunchDescriptionEntity O} :
    (Level.visit (some entity :: entities)).HasMore :=
  ⟨entity, List.mem_cons_self⟩

/-- A null pointer is not. -/
theorem hasMore_visit_none :
    (Level.visit (none :: entities) : Level O).HasMore ↔ (Level.visit entities).HasMore := by
  show (∃ entity, some entity ∈ none :: entities) ↔ ∃ entity, some entity ∈ entities
  simp

/-- No entity, nothing left. -/
theorem not_hasMore_visit_nil : ¬ (Level.visit [] : Level O).HasMore := by
  rintro ⟨entity, hentity⟩
  cases hentity

/-- An entity that includes nothing has nothing left. -/
theorem not_hasMore_execute_nil : ¬ (Level.execute [] : Level O).HasMore := fun h => h rfl

/-- An entity on top of the stack is left to visit. -/
theorem hasMore_visiting_some {entity : LaunchDescriptionEntity O} :
    Pc.HasMore (.visiting (.visit (some entity :: entities) :: stack) rest) :=
  hasMore_visiting_cons.mpr (Or.inl hasMore_visit_some)

/-- A description that is included is left to visit. -/
theorem hasMore_visiting_included {desc : Description O} :
    Pc.HasMore (.visiting (.execute (desc :: included) :: stack) rest) :=
  hasMore_visiting_cons.mpr (Or.inl (List.cons_ne_nil desc included))

/-- A null pointer on top is not. -/
theorem hasMore_visiting_none :
    Pc.HasMore (.visiting (.visit (none :: entities) :: stack) rest)
      ↔ Pc.HasMore (.visiting (.visit entities :: stack) rest) := by
  rw [hasMore_visiting_cons, hasMore_visiting_cons, hasMore_visit_none]

/-- What is left around a level is left with it. -/
theorem hasMore_visiting_of_stack (h : Pc.HasMore (.visiting stack rest)) :
    Pc.HasMore (.visiting (level :: stack) rest) :=
  hasMore_visiting_cons.mpr (Or.inr h)

end HasMore

/-- `K_STOPPED` is stored when no run has anything left to visit, and a run
    that copies the descriptions of a stopped service finds none. -/
def StopsBetweenRuns (s : State O ι) (c : ι) : Prop :=
  ((s.threads c).pc = .shutdown .stop → ∀ d, ¬ (s.threads d).pc.HasMore)
    ∧ ((s.threads c).pc = .snapshot → s.shared.status = .stopped → s.shared.descriptions = [])

/-- A call visits a description or an entity only when there is one left. -/
theorem CallStep.visits {call : Call O} {sv sv' : LaunchService O} {a a' : Activation O}
    (h : CallStep nested call sv a sv' a') (hmore : ¬ a.pc.HasMore) :
    a'.visits = a.visits := by
  cases h with
  | run h =>
      cases h with
      | visit h =>
          rw [h] at hmore
          exact absurd hasMore_loop_some hmore
      | _ => rfl
  | visit h =>
      cases h with
      | entity included h hnested =>
          rw [h] at hmore
          exact absurd hasMore_visiting_some hmore
      | description h hnested =>
          rw [h] at hmore
          exact absurd hasMore_visiting_some hmore
      | included h =>
          rw [h] at hmore
          exact absurd hasMore_visiting_included hmore
      | _ => rfl
  | registration h =>
      cases h with
      | register hcall h => rfl
  | shutdown h => cases h <;> rfl

/-- Nothing is added to what is left, but by the copy of the descriptions. -/
theorem CallStep.hasMore {call : Call O} {sv sv' : LaunchService O} {a a' : Activation O}
    (h : CallStep nested call sv a sv' a') (hmore : ¬ a.pc.HasMore) (hpc : a'.pc.HasMore) :
    a.pc = .snapshot ∧ sv.descriptions ≠ [] := by
  cases h with
  | run h =>
      cases h with
      | snapshot h =>
          refine ⟨h, ?_⟩
          rintro hempty
          obtain ⟨desc, hdesc⟩ := hpc
          rw [hempty] at hdesc
          cases hdesc
      | skip h =>
          rw [h] at hmore
          exact absurd (hasMore_loop_none.mpr hpc) hmore
      | visit h =>
          rw [h] at hmore
          exact absurd hasMore_loop_some hmore
      | visited h =>
          rw [h] at hmore
          exact absurd (hasMore_visiting_nil.mpr hpc) hmore
      | _ => exact False.elim hpc
  | visit h =>
      cases h with
      | skip h =>
          rw [h] at hmore
          exact absurd (hasMore_visiting_none.mpr hpc) hmore
      | entity included h hnested =>
          rw [h] at hmore
          exact absurd hasMore_visiting_some hmore
      | description h hnested =>
          rw [h] at hmore
          exact absurd hasMore_visiting_some hmore
      | visited h =>
          rw [h] at hmore
          exact absurd (hasMore_visiting_of_stack hpc) hmore
      | included h =>
          rw [h] at hmore
          exact absurd hasMore_visiting_included hmore
      | succeed h =>
          rw [h] at hmore
          exact absurd (hasMore_visiting_of_stack hpc) hmore
      | fail h => exact False.elim hpc
  | registration h =>
      cases h with
      | register hcall h => exact False.elim hpc
  | shutdown h => cases h <;> exact False.elim hpc

/-- Nobody has anything left to visit in a stopped service. -/
def Quiet (s : State O ι) : Prop := s.shared.status = .stopped → ∀ c, ¬ (s.threads c).pc.HasMore

/-- **The condition keeps a stopped service quiet.** -/
theorem Quiet.step {s t : State O ι} {c : ι} (hs : Quiet s) (hstep : Step nested call s c t)
    (hc : StopsBetweenRuns s c) : Quiet t := by
  intro hstopped d hmore
  have hown := hstep.own_step
  by_cases hbefore : s.shared.status = .stopped
  · by_cases hdc : d = c
    · subst hdc
      obtain ⟨hpc, hdescriptions⟩ := hown.hasMore (hs hbefore d) hmore
      exact hdescriptions (hc.2 hpc hbefore)
    · rw [hstep.other hdc] at hmore
      exact hs hbefore d hmore
  · -- the step stores `K_STOPPED`
    rcases hown.status with hsame | ⟨-, hafter⟩ | ⟨-, hafter⟩ | ⟨hstop, -⟩
    · exact hbefore (hsame.symm.trans hstopped)
    · rw [hstopped] at hafter
      cases hafter
    · rw [hstopped] at hafter
      cases hafter
    · by_cases hdc : d = c
      · subst hdc
        have hpc := (hown.hasMore (hc.1 hstop d) hmore).1
        rw [hstop] at hpc
        cases hpc
      · rw [hstep.other hdc] at hmore
        exact hc.1 hstop d hmore

/-- A call visits something, now or later, in a service of the same status. -/
def VisitsLater (nested : LaunchDescriptionEntity O → Option (Description O))
    (call : ι → Call O) (s : State O ι) (c : ι) : Prop :=
  ∃ u t, Steps (Step nested call) s u ∧ u.shared.status = s.shared.status
    ∧ Step nested call u c t ∧ (t.threads c).visits ≠ (u.threads c).visits

/-- A step that leaves the service as it is. -/
theorem exists_step {s : State O ι} {c : ι} {a : Activation O}
    (h : CallStep nested (call c) s.shared (s.threads c) s.shared a) :
    ∃ t, Step nested call s c t ∧ t.shared = s.shared ∧ t.threads c = a :=
  ⟨_, .step h, rfl, Function.update_self _ _ _⟩

/-- A run that visits after its next step visits later. -/
theorem VisitsLater.of_step {s : State O ι} {c : ι} {a : Activation O}
    (h : CallStep nested (call c) s.shared (s.threads c) s.shared a)
    (hlater : ∀ t : State O ι, t.threads c = a → VisitsLater nested call t c) :
    VisitsLater nested call s c := by
  obtain ⟨t, hstep, hshared, ha⟩ := exists_step h
  obtain ⟨u, v, hpath, hstatus, hvisit⟩ := hlater t ha
  refine ⟨u, v, (Steps.single hstep).trans hpath, ?_, hvisit⟩
  rw [hstatus, hshared]

/-- A step that visits does so now. -/
theorem VisitsLater.now {s : State O ι} {c : ι} {a : Activation O}
    (h : CallStep nested (call c) s.shared (s.threads c) s.shared a)
    (hvisit : a.visits ≠ (s.threads c).visits) : VisitsLater nested call s c := by
  obtain ⟨t, hstep, -, ha⟩ := exists_step h
  refine ⟨s, t, Relation.ReflTransGen.refl, rfl, hstep, ?_⟩
  rw [ha]
  exact hvisit

/-- A visit makes the record longer. -/
theorem append_singleton_ne {α : Type} (l : List α) (x : α) : l ++ [x] ≠ l :=
  fun h => absurd (List.append_right_eq_self.mp h) (List.cons_ne_nil _ _)

/-- A call that visits something has visited something else than before. -/
theorem visits_ne {a b : Activation O}
    (h : a.descriptionVisits ≠ b.descriptionVisits ∨ a.includedVisits ≠ b.includedVisits
      ∨ a.entityVisits ≠ b.entityVisits) : a.visits ≠ b.visits := by
  intro heq
  obtain ⟨hdescriptions, hrest⟩ := Prod.mk.inj heq
  obtain ⟨hincluded, hentities⟩ := Prod.mk.inj hrest
  rcases h with h | h | h
  · exact h hdescriptions
  · exact h hincluded
  · exact h hentities

/-- A run with descriptions left comes to visit one of them. -/
theorem visitsLater_loop {rest : List (Option (Description O))} {s : State O ι} {c : ι}
    (hpc : (s.threads c).pc = .loop rest) (hmore : Pc.HasMore (.loop rest)) :
    VisitsLater nested call s c := by
  induction rest generalizing s with
  | nil =>
      obtain ⟨desc, hdesc⟩ := hmore
      cases hdesc
  | cons desc rest ih =>
      cases desc with
      | none =>
          refine .of_step (.run (.skip hpc)) ?_
          intro t ht
          exact ih (by rw [ht]) (hasMore_loop_none.mp hmore)
      | some desc =>
          exact .now (.run (.visit hpc)) (visits_ne (Or.inl (append_singleton_ne _ _)))

/-- A run with entities left comes to visit one of them. -/
theorem visitsLater_visiting {stack : List (Level O)} {rest : List (Option (Description O))}
    {s : State O ι} {c : ι} (hpc : (s.threads c).pc = .visiting stack rest)
    (hmore : Pc.HasMore (.visiting stack rest)) : VisitsLater nested call s c := by
  induction stack generalizing s with
  | nil =>
      refine .of_step (.run (.visited hpc)) ?_
      intro t ht
      exact visitsLater_loop (by rw [ht]) (hasMore_visiting_nil.mp hmore)
  | cons level stack ihstack =>
      cases level with
      | visit entities =>
          induction entities generalizing s with
          | nil =>
              refine .of_step (.visit (.visited hpc)) ?_
              intro t ht
              exact ihstack (by rw [ht]) ((hasMore_visiting_done not_hasMore_visit_nil).mp hmore)
          | cons entity entities ih =>
              cases entity with
              | none =>
                  refine .of_step (.visit (.skip hpc)) ?_
                  intro t ht
                  exact ih (by rw [ht]) (hasMore_visiting_none.mp hmore)
              | some entity =>
                  have hvisit := visits_ne (a := { s.threads c with
                    entityVisits := (s.threads c).entityVisits ++ [entity] }) (b := s.threads c)
                    (Or.inr (Or.inr (append_singleton_ne _ _)))
                  cases hnested : nested entity with
                  | none => exact .now (.visit (.entity [] hpc hnested)) hvisit
                  | some desc => exact .now (.visit (.description hpc hnested)) hvisit
      | execute included =>
          cases included with
          | nil =>
              refine .of_step (.visit (.succeed hpc)) ?_
              intro t ht
              exact ihstack (by rw [ht]) ((hasMore_visiting_done not_hasMore_execute_nil).mp hmore)
          | cons desc included =>
              exact .now (.visit (.included hpc))
                (visits_ne (Or.inr (Or.inl (append_singleton_ne _ _))))

/-- What is left can be visited. -/
theorem visitsLater_of_hasMore {s : State O ι} {c : ι} (hmore : (s.threads c).pc.HasMore) :
    VisitsLater nested call s c := by
  cases hpc : (s.threads c).pc with
  | loop rest =>
      rw [hpc] at hmore
      exact visitsLater_loop hpc hmore
  | visiting stack rest =>
      rw [hpc] at hmore
      exact visitsLater_visiting hpc hmore
  | _ =>
      rw [hpc] at hmore
      exact False.elim hmore

/-- The last step of a shutdown stores `K_STOPPED`. -/
theorem CallStep.of_stop {call : Call O} {sv sv' : LaunchService O} {a a' : Activation O}
    (h : CallStep nested call sv a sv' a') (hpc : a.pc = .shutdown .stop) :
    sv'.status = .stopped := by
  rcases h.shutdown_or with hstep | houtside
  · cases hstep with
    | stop hat => rfl
    | _ hat =>
        rw [hpc] at hat
        cases hat
  · exact absurd hpc (houtside.pc _)

/-- A service that has been stopped under the condition is quiet. -/
theorem quiet_of_steps {s : State O ι}
    (h : Steps (Under StopsBetweenRuns (Step nested call)) (new call) s) : Quiet s := by
  refine Steps.invariant (fun hs hstep => hs.step hstep.2 hstep.1) ?_ h
  intro hstopped
  cases hstopped

/-- While it is quiet, a stopped service visits nothing. -/
theorem visits_of_stopped {s t : State O ι}
    (h : Steps (Under StopsBetweenRuns (Step nested call)) (new call) s)
    (hstopped : s.shared.status = .stopped)
    (hpath : Steps (Under StopsBetweenRuns (Step nested call)) s t) (c : ι) :
    (t.threads c).visits = (s.threads c).visits := by
  have hend := Steps.invariant_with (Q := Quiet)
    (P := fun u => u.shared.status = .stopped ∧ (u.threads c).visits = (s.threads c).visits)
    (fun hpath' => quiet_of_steps (Relation.ReflTransGen.trans h hpath')) ?_
    ⟨hstopped, rfl⟩ hpath
  · exact hend.2
  · rintro u d v hu ⟨hstopped, hvisits⟩ ⟨-, hstep⟩
    refine ⟨hstep.own_step.stopped hstopped, ?_⟩
    by_cases hcd : c = d
    · subst hcd
      exact (hstep.own_step.visits (hu hstopped c)).trans hvisits
    · rw [hstep.other hcd]
      exact hvisits

/-- `K_STOPPED` is stored while a run has something left. -/
theorem visitsLater_of_stop {s t : State O ι} {c d : ι} (hstep : Step nested call s c t)
    (hpc : (s.threads c).pc = .shutdown .stop) (hmore : (s.threads d).pc.HasMore) :
    VisitsLater nested call t d := by
  have hdc : d ≠ c := by
    rintro rfl
    rw [hpc] at hmore
    exact hmore
  refine visitsLater_of_hasMore ?_
  rw [hstep.other hdc]
  exact hmore

/-- A run copies descriptions. -/
theorem visitsLater_of_snapshot {s t : State O ι} {c : ι} (hreachable : Reachable nested call s)
    (hstep : Step nested call s c t) (hpc : (s.threads c).pc = .snapshot)
    (hsome : s.shared.descriptions ≠ []) : VisitsLater nested call t c := by
  refine visitsLater_of_hasMore ?_
  rw [hstep.own_step.of_snapshot hpc]
  obtain ⟨desc, hdesc⟩ := List.exists_mem_of_ne_nil _ hsome
  cases desc with
  | none => exact absurd hdesc hreachable.not_null
  | some desc => exact ⟨desc, hdesc⟩

/-- **When a stopped service visits nothing.**  In an interleaving in which
    `K_STOPPED` is stored only when no run has anything left to visit, what an
    entity under execution has yet to include among it, and no run copies
    descriptions from a stopped service, no description and no entity is
    visited once the status is `K_STOPPED`; and every other step that a
    reachable state allows is followed by such a visit in some interleaving. -/
theorem no_visit_when_stopped :
    (∀ s t : State O ι, Steps (Under StopsBetweenRuns (Step nested call)) (new call) s →
      s.shared.status = .stopped → Steps (Under StopsBetweenRuns (Step nested call)) s t →
      ∀ c, (t.threads c).visits = (s.threads c).visits)
    ∧ ∀ (s₀ s₁ : State O ι) (c : ι), Reachable nested call s₀ → Step nested call s₀ c s₁ →
        ¬ StopsBetweenRuns s₀ c →
        s₁.shared.status = .stopped ∧ ∃ d, VisitsLater nested call s₁ d := by
  constructor
  · intro s t h hstopped hpath c
    exact visits_of_stopped h hstopped hpath c
  · intro s₀ s₁ c h₀ hstep hnot
    have hown := hstep.own_step
    rcases not_and_or.mp hnot with hstop | hsnapshot
    · obtain ⟨hpc, hmore⟩ := Classical.not_imp.mp hstop
      obtain ⟨d, hmore⟩ := not_forall.mp hmore
      exact ⟨hown.of_stop hpc, d, visitsLater_of_stop hstep hpc (not_not.mp hmore)⟩
    · obtain ⟨hpc, hsome⟩ := Classical.not_imp.mp hsnapshot
      obtain ⟨hstopped, hsome⟩ := Classical.not_imp.mp hsome
      exact ⟨hown.stopped hstopped, c, visitsLater_of_snapshot h₀ hstep hpc hsome⟩

/-- A description with one action is registered; the run shuts the service down
    at its end. -/
def registerAndStop : Bool → Call Unit
  | false => .includeLaunchDescription (some ⟨[some (.other ())]⟩)
  | true => .run true

/-- The action includes an empty description; when the service is stopped, the
    run has visited everything. -/
theorem no_visit_when_stopped_run :
    ∃ s : State Unit Bool,
      Steps (Under StopsBetweenRuns (Step (fun _ => none) registerAndStop)) (new registerAndStop) s
      ∧ s.shared.status = .stopped
      ∧ (s.threads true).visits = ([⟨[some (.other ())]⟩], [{}], [.other ()])
      ∧ ∀ t, Steps (Under StopsBetweenRuns (Step (fun _ => none) registerAndStop)) s t →
        (t.threads true).visits = ([⟨[some (.other ())]⟩], [{}], [.other ()]) := by
  have hbefore : ∀ {s t : State Unit Bool} {c : Bool}, (s.threads c).pc ≠ .shutdown .stop →
      s.shared.status ≠ .stopped → Step (fun _ => none) registerAndStop s c t →
      Under StopsBetweenRuns (Step (fun _ => none) registerAndStop) s c t :=
    fun hpc hstatus hstep => ⟨⟨fun h => absurd h hpc, fun _ h => absurd h hstatus⟩, hstep⟩
  have hnew : Steps (Under StopsBetweenRuns (Step (fun _ => none) registerAndStop))
      (new registerAndStop) (new registerAndStop) := Relation.ReflTransGen.refl
  have hregister := hnew.next (hbefore (c := false) (by intro h; cases h) (by decide)
    (.step (.registration (.register rfl rfl))))
  have hcopy := (hregister.next (hbefore (c := true) (by intro h; cases h) (by decide)
    (.step (.run (.enter rfl rfl rfl))))).next (hbefore (c := true) (by intro h; cases h)
    (by decide) (.step (.run (.snapshot rfl))))
  have hentity := (hcopy.next (hbefore (c := true) (by intro h; cases h) (by decide)
    (.step (.run (.visit rfl))))).next (hbefore (c := true) (by intro h; cases h) (by decide)
    (.step (.visit (.entity [{}] rfl rfl))))
  have hincluded := ((hentity.next (hbefore (c := true) (by intro h; cases h) (by decide)
    (.step (.visit (.included rfl))))).next (hbefore (c := true) (by intro h; cases h) (by decide)
    (.step (.visit (.visited rfl))))).next (hbefore (c := true) (by intro h; cases h)
    (by decide) (.step (.visit (.succeed rfl))))
  have hvisited := (hincluded.next (hbefore (c := true) (by intro h; cases h) (by decide)
    (.step (.visit (.visited rfl))))).next (hbefore (c := true) (by intro h; cases h)
    (by decide) (.step (.run (.visited rfl))))
  have hexchange := ((hvisited.next (hbefore (c := true) (by intro h; cases h) (by decide)
    (.step (.run (.shutdown rfl rfl))))).next (hbefore (c := true) (by intro h; cases h)
    (by decide) (.step (.shutdown (.exchange rfl rfl))))).next (hbefore (c := true)
    (by intro h; cases h) (by decide) (.step (.shutdown (.request rfl))))
  have hstop := hexchange.next (a := true) ⟨⟨fun _ c => (by cases c <;> exact id),
    fun h => (by cases h)⟩, .step (.shutdown (.stop rfl))⟩
  exact ⟨_, hstop, rfl, rfl, fun t hpath => no_visit_when_stopped.1 _ t hstop rfl hpath true⟩

/-- A description with two actions. -/
def launchTwo : Option Bool → Call Unit
  | none => .shutdown
  | some false => .includeLaunchDescription (some ⟨[some (.other ()), some (.other ())]⟩)
  | some true => .run false

/-- `shutdown` stops the service while the first action is executed, and the
    second is visited after that. -/
theorem no_visit_when_stopped_second_action :
    ∃ s : State Unit (Option Bool), Reachable (fun _ => none) launchTwo s
      ∧ s.shared.status = .stopped ∧ (s.threads (some true)).entityVisits = [.other ()]
      ∧ ∃ t, Steps (Step (fun _ => none) launchTwo) s t
        ∧ (t.threads (some true)).entityVisits = [.other (), .other ()] := by
  have hnew : Reachable (fun _ => none) launchTwo (new launchTwo) := Relation.ReflTransGen.refl
  have hcopy := ((hnew.next (.step (c := some false) (.registration (.register rfl rfl)))).next
    (.step (c := some true) (.run (.enter rfl rfl rfl)))).next
    (.step (c := some true) (.run (.snapshot rfl)))
  have hfirst := (hcopy.next (.step (c := some true) (.run (.visit rfl)))).next
    (.step (c := some true) (.visit (.entity [] rfl rfl)))
  have hstop := ((hfirst.next (.step (c := none) (.shutdown (.exchange rfl rfl)))).next
    (.step (c := none) (.shutdown (.request rfl)))).next (.step (c := none) (.shutdown (.stop rfl)))
  exact ⟨_, hstop, rfl, rfl, _,
    (Steps.single (.step (c := some true) (.visit (.succeed rfl)))).next
      (.step (c := some true) (.visit (.entity [] rfl rfl))), rfl⟩

end LaunchCpp.LaunchService.Concurrent
