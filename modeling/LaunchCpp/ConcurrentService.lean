import LaunchCpp.LaunchService
import LaunchCpp.Library.TransitionSystem

/-! # `LaunchService` called from several threads

    Any number of `run`, `include_launch_description` and `shutdown` calls on
    one service.  A step is one access of `status_` or `shutdown_requested_`,
    one critical section, or the beginning or the end of a visit; a call may
    be made by any thread, also from inside an action that a visit executes,
    so nothing ties its steps to those of another call.  Whether the execution
    of an entity fails, and which descriptions it visits itself, as
    `IncludeLaunchDescription` does, is left open.  The main result is
    `interleaved_calls`. -/

namespace LaunchCpp.LaunchService.Concurrent

open TransitionSystems

abbrev Description (O : Type) := LaunchDescription (LaunchDescriptionEntity O)

/-- The calls, with their arguments. -/
inductive Call (O : Type) where
  | run (shutdownWhenIdle : Bool)
  | includeLaunchDescription (description : Option (Description O))
  | shutdown

/-- What calls return. -/
inductive Returned where
  | exitCode (code : Int)
  | error (error : Error)
  deriving DecidableEq

/-- Where a call is in `shutdown`. -/
inductive ShutdownPc where
  | exchange
  | request
  | stop
  deriving DecidableEq

/-- A call inside a `visit` of a description: the loop of a `visit`, with the
    entities it has not come to, or the execution of an entity, with the
    descriptions it has yet to visit itself. -/
inductive Level (O : Type) where
  | visit (entities : List (Option (LaunchDescriptionEntity O)))
  | execute (included : List (Description O))

/-- Where a call is.  `loop` is the loop of `run` over its copy of the
    descriptions; at `visiting` the call is in a `visit` of a description, with
    the levels it is in, the innermost first, and what is left of the copy. -/
inductive Pc (O : Type) where
  | begin
  | snapshot
  | loop (rest : List (Option (Description O)))
  | visiting (stack : List (Level O)) (rest : List (Option (Description O)))
  | failed (error : Error)
  | shutdown (pc : ShutdownPc)
  | returned (value : Returned)

/-- A call: the point it is at, and a record of what it visited, how the
    visits of descriptions ended, and which state transitions it made. -/
structure Activation (O : Type) where
  pc : Pc O
  descriptionVisits : List (Description O) := []
  includedVisits : List (Description O) := []
  entityVisits : List (LaunchDescriptionEntity O) := []
  outcomes : List (Result Unit) := []
  passed : Bool := false
  left : Bool := false

/-- A call that has not begun. -/
def Call.activation {O : Type} : Call O → Activation O
  | .shutdown => { pc := .shutdown .exchange }
  | _ => { pc := .begin }

/-- What a call returns behind `shutdown`. -/
def Call.afterShutdown {O : Type} : Call O → Returned
  | .run _ => .exitCode 0
  | _ => .error Error.ok

section Steps

variable {O : Type}

/-- `run`. -/
inductive RunStep (call : Call O) (sv : LaunchService O) (a : Activation O) :
    LaunchService O → Activation O → Prop
  | enter {shutdownWhenIdle : Bool} (hcall : call = .run shutdownWhenIdle) (h : a.pc = .begin)
      (hstatus : sv.status = .idle) :
      RunStep call sv a { sv with status := .running } { a with pc := .snapshot, passed := true }
  | refuse {shutdownWhenIdle : Bool} (hcall : call = .run shutdownWhenIdle) (h : a.pc = .begin)
      (hstatus : sv.status ≠ .idle) :
      RunStep call sv a sv { a with pc := .returned (.exitCode 1) }
  | snapshot (h : a.pc = .snapshot) :
      RunStep call sv a sv { a with pc := .loop sv.descriptions }
  | skip {rest : List (Option (Description O))} (h : a.pc = .loop (none :: rest)) :
      RunStep call sv a sv { a with pc := .loop rest }
  | visit {desc : Description O} {rest : List (Option (Description O))}
      (h : a.pc = .loop (some desc :: rest)) :
      RunStep call sv a sv
        { a with
          pc := .visiting [.visit desc.entities] rest
          descriptionVisits := a.descriptionVisits ++ [desc] }
  | visited {rest : List (Option (Description O))} (h : a.pc = .visiting [] rest) :
      RunStep call sv a sv { a with pc := .loop rest, outcomes := a.outcomes ++ [.ok ()] }
  | fail {error : Error} (h : a.pc = .failed error) :
      RunStep call sv a sv
        { a with
          pc := .returned (.exitCode 1)
          outcomes := a.outcomes ++ [.error error] }
  | shutdown (hcall : call = .run true) (h : a.pc = .loop []) :
      RunStep call sv a sv { a with pc := .shutdown .exchange }
  | finish (hcall : call = .run false) (h : a.pc = .loop []) :
      RunStep call sv a sv { a with pc := .returned (.exitCode 0) }

/-- `LaunchDescription::visit`; `nested` tells which entities are descriptions
    themselves. -/
inductive VisitStep (nested : LaunchDescriptionEntity O → Option (Description O))
    (a : Activation O) : Activation O → Prop
  | skip {entities : List (Option (LaunchDescriptionEntity O))} {stack : List (Level O)}
      {rest : List (Option (Description O))}
      (h : a.pc = .visiting (.visit (none :: entities) :: stack) rest) :
      VisitStep nested a { a with pc := .visiting (.visit entities :: stack) rest }
  | entity (included : List (Description O)) {entity : LaunchDescriptionEntity O}
      {entities : List (Option (LaunchDescriptionEntity O))} {stack : List (Level O)}
      {rest : List (Option (Description O))}
      (h : a.pc = .visiting (.visit (some entity :: entities) :: stack) rest)
      (hnested : nested entity = none) :
      VisitStep nested a
        { a with
          pc := .visiting (.execute included :: .visit entities :: stack) rest
          entityVisits := a.entityVisits ++ [entity] }
  | description {entity : LaunchDescriptionEntity O} {desc : Description O}
      {entities : List (Option (LaunchDescriptionEntity O))} {stack : List (Level O)}
      {rest : List (Option (Description O))}
      (h : a.pc = .visiting (.visit (some entity :: entities) :: stack) rest)
      (hnested : nested entity = some desc) :
      VisitStep nested a
        { a with
          pc := .visiting (.visit desc.entities :: .visit entities :: stack) rest
          entityVisits := a.entityVisits ++ [entity] }
  | visited {stack : List (Level O)} {rest : List (Option (Description O))}
      (h : a.pc = .visiting (.visit [] :: stack) rest) :
      VisitStep nested a { a with pc := .visiting stack rest }
  -- `desc->visit(context)` of `IncludeLaunchDescription::execute`
  | included {desc : Description O} {included : List (Description O)} {stack : List (Level O)}
      {rest : List (Option (Description O))}
      (h : a.pc = .visiting (.execute (desc :: included) :: stack) rest) :
      VisitStep nested a
        { a with
          pc := .visiting (.visit desc.entities :: .execute included :: stack) rest
          includedVisits := a.includedVisits ++ [desc] }
  | succeed {included : List (Description O)} {stack : List (Level O)}
      {rest : List (Option (Description O))}
      (h : a.pc = .visiting (.execute included :: stack) rest) :
      VisitStep nested a { a with pc := .visiting stack rest }
  -- every visit and every execution around it returns the same error
  | fail {included : List (Description O)} {stack : List (Level O)}
      {rest : List (Option (Description O))} {error : Error}
      (h : a.pc = .visiting (.execute included :: stack) rest) :
      VisitStep nested a { a with pc := .failed error }

/-- `include_launch_description`. -/
inductive IncludeStep (call : Call O) (sv : LaunchService O) (a : Activation O) :
    LaunchService O → Activation O → Prop
  | register {description : Option (Description O)}
      (hcall : call = .includeLaunchDescription description) (h : a.pc = .begin) :
      IncludeStep call sv a (sv.includeLaunchDescription description).2
        { a with pc := .returned (.error (sv.includeLaunchDescription description).1) }

/-- `shutdown`. -/
inductive ShutdownStep (call : Call O) (sv : LaunchService O) (a : Activation O) :
    LaunchService O → Activation O → Prop
  | exchange (h : a.pc = .shutdown .exchange) (hstatus : sv.status = .running) :
      ShutdownStep call sv a { sv with status := .shuttingDown }
        { a with pc := .shutdown .request, left := true }
  | exchangeFails (h : a.pc = .shutdown .exchange) (hstatus : sv.status ≠ .running) :
      ShutdownStep call sv a sv { a with pc := .returned call.afterShutdown }
  | request (h : a.pc = .shutdown .request) :
      ShutdownStep call sv a { sv with shutdownRequested := true } { a with pc := .shutdown .stop }
  | stop (h : a.pc = .shutdown .stop) :
      ShutdownStep call sv a { sv with status := .stopped }
        { a with pc := .returned call.afterShutdown }

/-- One step of one call. -/
inductive CallStep (nested : LaunchDescriptionEntity O → Option (Description O)) (call : Call O)
    (sv : LaunchService O) (a : Activation O) : LaunchService O → Activation O → Prop
  | run {sv' : LaunchService O} {a' : Activation O} (h : RunStep call sv a sv' a') :
      CallStep nested call sv a sv' a'
  | visit {a' : Activation O} (h : VisitStep nested a a') : CallStep nested call sv a sv a'
  | registration {sv' : LaunchService O} {a' : Activation O} (h : IncludeStep call sv a sv' a') :
      CallStep nested call sv a sv' a'
  | shutdown {sv' : LaunchService O} {a' : Activation O} (h : ShutdownStep call sv a sv' a') :
      CallStep nested call sv a sv' a'

variable {ι : Type}

/-- A service and the calls on it. -/
abbrev State (O ι : Type) := Threads (LaunchService O) ι (Activation O)

/-- A new service, and no call has begun. -/
def new (call : ι → Call O) : State O ι := ⟨{}, fun c => (call c).activation⟩

variable [DecidableEq ι]

/-- One step of an interleaving of calls. -/
abbrev Step (nested : LaunchDescriptionEntity O → Option (Description O)) (call : ι → Call O) :
    State O ι → ι → State O ι → Prop :=
  Interleaved (fun c => CallStep nested (call c))

/-- What an interleaving leads to from a new service. -/
def Reachable (nested : LaunchDescriptionEntity O → Option (Description O)) (call : ι → Call O)
    (s : State O ι) : Prop :=
  Steps (Step nested call) (new call) s

end Steps

variable {O ι : Type} {nested : LaunchDescriptionEntity O → Option (Description O)}

/-! ## The status -/

/-- The state transitions of `LaunchServiceStatus`. -/
def next : LaunchServiceStatus → Option LaunchServiceStatus
  | .idle => some .running
  | .running => some .shuttingDown
  | .shuttingDown => some .stopped
  | .stopped => none

/-- The points between the exchange in `shutdown` and the last store. -/
def Pc.Leaving : Pc O → Prop
  | .shutdown .request => True
  | .shutdown .stop => True
  | _ => False

/-- A step outside `shutdown`: what it leaves alone, and the one transition it
    may make. -/
structure OutsideShutdown (sv : LaunchService O) (a : Activation O) (sv' : LaunchService O)
    (a' : Activation O) : Prop where
  pc : ∀ pc, a.pc ≠ .shutdown pc
  notLeaving : ¬ a'.pc.Leaving
  left : a'.left = a.left
  requested : sv'.shutdownRequested = sv.shutdownRequested
  status : sv'.status = sv.status ∨ (sv.status = .idle ∧ sv'.status = .running)

/-- A step that begins and ends outside a shutdown. -/
theorem OutsideShutdown.of_pc {sv : LaunchService O} {a a' : Activation O} {pc : Pc O}
    (h : a.pc = pc) (hpc : ∀ p, pc ≠ .shutdown p) (hleaving : ¬ a'.pc.Leaving)
    (hleft : a'.left = a.left) : OutsideShutdown sv a sv a' := by
  subst h
  exact ⟨hpc, hleaving, hleft, rfl, Or.inl rfl⟩

/-- A step is one of `shutdown`, or outside it. -/
theorem CallStep.shutdown_or {call : Call O} {sv sv' : LaunchService O} {a a' : Activation O}
    (h : CallStep nested call sv a sv' a') :
    ShutdownStep call sv a sv' a' ∨ OutsideShutdown sv a sv' a' := by
  cases h with
  | run h =>
      refine Or.inr ?_
      cases h with
      | enter hcall h hstatus =>
          refine ⟨?_, id, rfl, rfl, Or.inr ⟨hstatus, rfl⟩⟩
          rw [h]
          intro pc hpc
          cases hpc
      | _ => exact .of_pc ‹_› (by intro pc hpc; cases hpc) id rfl
  | visit h =>
      refine Or.inr ?_
      cases h <;> exact .of_pc ‹_› (by intro pc hpc; cases hpc) id rfl
  | registration h =>
      cases h with
      | @register description hcall h =>
          refine Or.inr ⟨?_, id, rfl, ?_, ?_⟩
          · rw [h]
            intro pc hpc
            cases hpc
          · cases description <;> rfl
          · cases description <;> exact Or.inl rfl
  | shutdown h => exact Or.inl h

/-- What a call may do to the status. -/
theorem CallStep.status {call : Call O} {sv sv' : LaunchService O} {a a' : Activation O}
    (h : CallStep nested call sv a sv' a') :
    sv'.status = sv.status ∨ (sv.status = .idle ∧ sv'.status = .running)
      ∨ (sv.status = .running ∧ sv'.status = .shuttingDown)
      ∨ (a.pc = .shutdown .stop ∧ sv'.status = .stopped) := by
  rcases h.shutdown_or with hstep | houtside
  · cases hstep with
    | exchange hat hstatus => exact Or.inr (Or.inr (Or.inl ⟨hstatus, rfl⟩))
    | exchangeFails hat hstatus => exact Or.inl rfl
    | request hat => exact Or.inl rfl
    | stop hat => exact Or.inr (Or.inr (Or.inr ⟨hat, rfl⟩))
  · rcases houtside.status with hsame | hentered
    · exact Or.inl hsame
    · exact Or.inr (Or.inl hentered)

/-- A call is behind the exchange only after making the transition. -/
theorem CallStep.left_of_leaving {call : Call O} {sv sv' : LaunchService O}
    {a a' : Activation O} (h : CallStep nested call sv a sv' a')
    (hleft : a.pc.Leaving → a.left = true) (hpc : a'.pc.Leaving) : a'.left = true := by
  rcases h.shutdown_or with hstep | houtside
  · cases hstep with
    | exchange hat hstatus => rfl
    | exchangeFails hat hstatus => exact hpc.elim
    | request hat => exact hleft (by rw [hat]; exact trivial)
    | stop hat => exact hpc.elim
  · exact absurd hpc houtside.notLeaving

/-- Who leaves has found the service running, and it is shutting down. -/
theorem CallStep.leaving {call : Call O} {sv sv' : LaunchService O} {a a' : Activation O}
    (h : CallStep nested call sv a sv' a') (hstatus : a.pc.Leaving → sv.status = .shuttingDown)
    (hpc : a'.pc.Leaving) : sv'.status = .shuttingDown := by
  rcases h.shutdown_or with hstep | houtside
  · cases hstep with
    | exchange hat hstatus => rfl
    | exchangeFails hat hstatus => exact hpc.elim
    | request hat => exact hstatus (by rw [hat]; exact trivial)
    | stop hat => exact hpc.elim
  · exact absurd hpc houtside.notLeaving

/-- The transition out of `K_RUNNING` is made in `K_RUNNING`. -/
theorem CallStep.left {call : Call O} {sv sv' : LaunchService O} {a a' : Activation O}
    (h : CallStep nested call sv a sv' a') (hleft : a'.left = true) :
    a.left = true ∨ (sv.status = .running ∧ sv'.status = .shuttingDown) := by
  rcases h.shutdown_or with hstep | houtside
  · cases hstep with
    | exchange hat hstatus => exact Or.inr ⟨hstatus, rfl⟩
    | _ => exact Or.inl hleft
  · rw [houtside.left] at hleft
    exact Or.inl hleft

/-- One run in all passes the check: it finds the service idle, and starts
    it. -/
theorem CallStep.passed {call : Call O} {sv sv' : LaunchService O} {a a' : Activation O}
    (h : CallStep nested call sv a sv' a') (hpassed : a'.passed = true) :
    a.passed = true ∨ (sv.status = .idle ∧ sv'.status = .running) := by
  cases h with
  | run h =>
      cases h with
      | enter hcall h hstatus => exact Or.inr ⟨hstatus, rfl⟩
      | _ => exact Or.inl hpassed
  | visit h => cases h <;> exact Or.inl hpassed
  | registration h =>
      cases h with
      | register hcall h => exact Or.inl hpassed
  | shutdown h => cases h <;> exact Or.inl hpassed

variable {call : ι → Call O} [DecidableEq ι]

/-- No call has left the service when it begins. -/
theorem activation_left (call : Call O) : call.activation.left = false := by
  cases call <;> rfl

/-- No run has passed the check when it begins. -/
theorem activation_passed (call : Call O) : call.activation.passed = false := by
  cases call <;> rfl

/-- No call begins inside a shutdown. -/
theorem not_leaving_activation (call : Call O) : ¬ call.activation.pc.Leaving := by
  cases call <;> exact id

/-- Only one call makes the transition out of `K_RUNNING`. -/
theorem Reachable.left_unique {s : State O ι} (h : Reachable nested call s) :
    ∀ c d, (s.threads c).left = true → (s.threads d).left = true → c = d := by
  refine Steps.unique (fun sv => sv.status = .idle ∨ sv.status = .running)
    (fun a => a.left = true) ?_ ?_ h ?_
  · intro c sv a sv' a' hstep hleft
    rcases hstep.left hleft with hleft | ⟨hbefore, hafter⟩
    · exact Or.inl hleft
    · refine Or.inr ⟨Or.inr hbefore, ?_⟩
      rw [hafter]
      rintro (h | h) <;> cases h
  · intro c sv a sv' a' hstep hfree
    rcases hstep.status with hsame | ⟨hidle, -⟩ | ⟨hrunning, -⟩ | ⟨-, hstopped⟩
    · rw [hsame] at hfree
      exact hfree
    · exact Or.inl hidle
    · exact Or.inr hrunning
    · rw [hstopped] at hfree
      rcases hfree with h | h <;> cases h
  · intro c hleft
    rw [new, activation_left] at hleft
    cases hleft

/-- Only one `run` gets past its check. -/
theorem Reachable.passed_unique {s : State O ι} (h : Reachable nested call s) :
    ∀ c d, (s.threads c).passed = true → (s.threads d).passed = true → c = d := by
  refine Steps.unique (fun sv => sv.status = .idle)
    (fun a => a.passed = true) ?_ ?_ h ?_
  · intro c sv a sv' a' hstep hpassed
    rcases hstep.passed hpassed with hpassed | ⟨hbefore, hafter⟩
    · exact Or.inl hpassed
    · refine Or.inr ⟨hbefore, ?_⟩
      rw [hafter]
      intro h
      cases h
  · intro c sv a sv' a' hstep hfree
    rcases hstep.status with hsame | ⟨hidle, -⟩ | ⟨-, hafter⟩ | ⟨-, hafter⟩
    · rw [hsame] at hfree
      exact hfree
    · exact hidle
    · rw [hafter] at hfree
      cases hfree
    · rw [hafter] at hfree
      cases hfree
  · intro c hpassed
    rw [new, activation_passed] at hpassed
    cases hpassed

/-- A call behind the exchange finds the service shutting down: nobody else
    may store `K_STOPPED`. -/
theorem Reachable.shuttingDown_of_leaving {s : State O ι} (h : Reachable nested call s) :
    ∀ c, (s.threads c).pc.Leaving → s.shared.status = .shuttingDown := by
  have hleft : ∀ {u}, Reachable nested call u → ∀ c, (u.threads c).pc.Leaving →
      (u.threads c).left = true := by
    intro u hu c
    refine Steps.own (P := fun a => a.pc.Leaving → a.left = true) ?_ hu ?_
    · intro sv a sv' a' hstep hleft
      exact hstep.left_of_leaving hleft
    · exact fun h => absurd h (not_leaving_activation (call c))
  refine Steps.invariant_with (Q := Reachable nested call)
    (P := fun u => ∀ c, (u.threads c).pc.Leaving → u.shared.status = .shuttingDown)
    (fun hpath => hpath) ?_ ?_ h
  · intro u d v hu hP hstep c hc
    by_cases hcd : c = d
    · subst hcd
      exact hstep.own_step.leaving (hP c) hc
    · rw [hstep.other hcd] at hc
      have hbefore := hP c hc
      rcases hstep.own_step.status with hsame | ⟨hidle, -⟩ | ⟨hrunning, -⟩ | ⟨hstop, -⟩
      · exact hsame.trans hbefore
      · rw [hbefore] at hidle
        cases hidle
      · rw [hbefore] at hrunning
        cases hrunning
      · -- two calls behind the exchange are one
        have hd : (u.threads d).pc.Leaving := by
          rw [hstop]
          exact trivial
        exact absurd (hu.left_unique c d (hleft hu c hc) (hleft hu d hd)) hcd
  · exact fun c hc => absurd hc (not_leaving_activation (call c))

/-- The status only moves forward. -/
theorem Reachable.status_step {s t : State O ι} {c : ι} (h : Reachable nested call s)
    (hstep : Step nested call s c t) :
    t.shared.status = s.shared.status ∨ next s.shared.status = some t.shared.status := by
  rcases hstep.own_step.status with hsame | ⟨hbefore, hafter⟩ | ⟨hbefore, hafter⟩ | ⟨hstop, hafter⟩
  · exact Or.inl hsame
  · rw [hbefore, hafter]
    exact Or.inr rfl
  · rw [hbefore, hafter]
    exact Or.inr rfl
  · rw [h.shuttingDown_of_leaving c (by rw [hstop]; exact trivial), hafter]
    exact Or.inr rfl

/-! ## What a run visits -/

/-- A run that did not get past its check visits nothing. -/
def Refused (a : Activation O) : Prop :=
  (a.pc = .begin ∨ a.pc = .returned (.exitCode 1))
    ∧ a.descriptionVisits = [] ∧ a.includedVisits = [] ∧ a.entityVisits = []

/-- A run that has not passed the check has done nothing. -/
theorem CallStep.refused {shutdownWhenIdle : Bool} {sv sv' : LaunchService O}
    {a a' : Activation O} (h : CallStep nested (.run shutdownWhenIdle) sv a sv' a')
    (hrefused : a.passed = false → Refused a) (hpassed : a'.passed = false) : Refused a' := by
  have hpc : ∀ {pc : Pc O}, a.passed = false → a.pc = pc → pc ≠ .begin →
      pc ≠ .returned (.exitCode 1) → False := by
    rintro pc hbefore rfl hbegin hreturned
    rcases (hrefused hbefore).1 with h | h
    · exact hbegin h
    · exact hreturned h
  cases h with
  | run h =>
      cases h with
      | enter hcall h hstatus => cases hpassed
      | refuse hcall h hstatus => exact ⟨Or.inr rfl, (hrefused hpassed).2⟩
      | _ => exact (hpc hpassed ‹_› (by intro h; cases h) (by intro h; cases h)).elim
  | visit h =>
      cases h <;> exact (hpc hpassed ‹_› (by intro h; cases h) (by intro h; cases h)).elim
  | registration h =>
      cases h with
      | register hcall h => cases hcall
  | shutdown h =>
      cases h <;> exact (hpc hpassed ‹_› (by intro h; cases h) (by intro h; cases h)).elim

/-- A run that has not copied the descriptions has visited none. -/
def Fresh (a : Activation O) : Prop :=
  a.pc = .begin ∨ a.pc = .snapshot →
    a.descriptionVisits = [] ∧ a.includedVisits = [] ∧ a.entityVisits = [] ∧ a.outcomes = []

/-- Only runs visit anything. -/
theorem CallStep.fresh {call : Call O} {sv sv' : LaunchService O} {a a' : Activation O}
    (h : CallStep nested call sv a sv' a') (hfresh : Fresh a) : Fresh a' := by
  intro hpc
  cases h with
  | run h =>
      cases h with
      | enter hcall h hstatus => exact hfresh (Or.inl h)
      | _ => rcases hpc with h | h <;> cases h
  | visit h => cases h <;> rcases hpc with h | h <;> cases h
  | registration h =>
      cases h with
      | register hcall h => rcases hpc with h | h <;> cases h
  | shutdown h => cases h <;> rcases hpc with h | h <;> cases h

/-- At its beginning a call has visited nothing. -/
theorem fresh_activation (call : Call O) : Fresh call.activation := by
  intro _
  cases call <;> exact ⟨rfl, rfl, rfl, rfl⟩

/-- A call that is no run never does. -/
theorem Reachable.fresh {s : State O ι} (h : Reachable nested call s) (c : ι) :
    Fresh (s.threads c) :=
  Steps.own (P := Fresh) (fun hstep => hstep.fresh) h (fresh_activation (call c))

/-- What a run visits is what it has copied. -/
theorem CallStep.of_snapshot {call : Call O} {sv sv' : LaunchService O} {a a' : Activation O}
    (h : CallStep nested call sv a sv' a') (hpc : a.pc = .snapshot) :
    a' = { a with pc := .loop sv.descriptions } := by
  cases h with
  | run h =>
      cases h with
      | snapshot h => rfl
      | _ =>
          rw [hpc] at *
          contradiction
  | visit h => cases h <;> (rw [hpc] at *; contradiction)
  | registration h =>
      cases h with
      | register hcall h =>
          rw [hpc] at h
          cases h
  | shutdown h => cases h <;> (rw [hpc] at *; contradiction)

/-- All visits of descriptions have ended well. -/
def AllVisited (a : Activation O) : Prop :=
  a.outcomes = List.replicate a.descriptionVisits.length (.ok ())

/-- The last visit is under way, and all before it have ended well. -/
def Underway (a : Activation O) : Prop :=
  ∃ n, a.descriptionVisits.length = n + 1 ∧ a.outcomes = List.replicate n (.ok ())

/-- **A run behind its copy of the descriptions**: how far it is through the
    copy, and how the visits have ended. -/
inductive Followed (descriptions : List (Option (Description O))) (a : Activation O) : Prop
  | looping {rest : List (Option (Description O))} (h : a.pc = .loop rest)
      (hvisits : a.descriptionVisits.map some ++ rest = descriptions) (hend : AllVisited a)
  | visiting {stack : List (Level O)} {rest : List (Option (Description O))}
      (h : a.pc = .visiting stack rest)
      (hvisits : a.descriptionVisits.map some ++ rest = descriptions) (hend : Underway a)
  | failed {error : Error} (h : a.pc = .failed error)
      (hvisits : a.descriptionVisits.map some <+: descriptions) (hend : Underway a)
  | closing {pc : ShutdownPc} (h : a.pc = .shutdown pc)
      (hvisits : a.descriptionVisits.map some = descriptions) (hend : AllVisited a)
  | completed (h : a.pc = .returned (.exitCode 0))
      (hvisits : a.descriptionVisits.map some = descriptions) (hend : AllVisited a)
  | stopped (h : a.pc = .returned (.exitCode 1))
      (hvisits : a.descriptionVisits.map some <+: descriptions)
      (hend : ∃ n error, a.descriptionVisits.length = n + 1
        ∧ a.outcomes = List.replicate n (.ok ()) ++ [.error error])

namespace Followed

variable {descriptions rest : List (Option (Description O))} {a : Activation O}
  {stack : List (Level O)}

/-- Between descriptions the ones behind have been visited. -/
theorem of_loop (hf : Followed descriptions a) (h : a.pc = .loop rest) :
    a.descriptionVisits.map some ++ rest = descriptions ∧ AllVisited a := by
  cases hf with
  | looping h' hvisits hend =>
      rw [h] at h'
      cases h'
      exact ⟨hvisits, hend⟩
  | _ h' =>
      rw [h] at h'
      cases h'

/-- Inside a description the ones in front of it have been visited. -/
theorem of_visiting (hf : Followed descriptions a) (h : a.pc = .visiting stack rest) :
    a.descriptionVisits.map some ++ rest = descriptions ∧ Underway a := by
  cases hf with
  | visiting h' hvisits hend =>
      rw [h] at h'
      cases h'
      exact ⟨hvisits, hend⟩
  | _ h' =>
      rw [h] at h'
      cases h'

/-- A run that has failed has visited a part from the front. -/
theorem of_failed {error : Error} (hf : Followed descriptions a) (h : a.pc = .failed error) :
    a.descriptionVisits.map some <+: descriptions ∧ Underway a := by
  cases hf with
  | failed h' hvisits hend => exact ⟨hvisits, hend⟩
  | _ h' =>
      rw [h] at h'
      cases h'

/-- A run that shuts down has visited all. -/
theorem of_shutdown {pc : ShutdownPc} (hf : Followed descriptions a)
    (h : a.pc = .shutdown pc) :
    a.descriptionVisits.map some = descriptions ∧ AllVisited a := by
  cases hf with
  | closing h' hvisits hend => exact ⟨hvisits, hend⟩
  | _ h' =>
      rw [h] at h'
      cases h'

/-- A run that has copied its descriptions does not begin again. -/
theorem not_begin (hf : Followed descriptions a) : a.pc ≠ .begin ∧ a.pc ≠ .snapshot := by
  cases hf with
  | _ h =>
      rw [h]
      constructor <;> (intro h; cases h)

end Followed

/-- A description is taken from the front. -/
theorem AllVisited.visit {a : Activation O} (h : AllVisited a) (pc : Pc O)
    (desc : Description O) :
    Underway { a with pc := pc, descriptionVisits := a.descriptionVisits ++ [desc] } :=
  ⟨a.descriptionVisits.length, List.length_append, h⟩

/-- A description that is finished has succeeded. -/
theorem Underway.visited {a : Activation O} (h : Underway a) (pc : Pc O) :
    AllVisited { a with pc := pc, outcomes := a.outcomes ++ [.ok ()] } := by
  obtain ⟨n, hlength, houtcomes⟩ := h
  show a.outcomes ++ [.ok ()] = List.replicate a.descriptionVisits.length (.ok ())
  rw [hlength, houtcomes, List.replicate_succ']

/-- **Every step follows the copy** that was made under the mutex. -/
theorem CallStep.followed {shutdownWhenIdle : Bool} {sv sv' : LaunchService O}
    {a a' : Activation O} {descriptions : List (Option (Description O))}
    (h : CallStep nested (.run shutdownWhenIdle) sv a sv' a')
    (hdescriptions : none ∉ descriptions) (hf : Followed descriptions a) :
    Followed descriptions a' := by
  cases h with
  | run h =>
      cases h with
      | enter hcall h hstatus => exact absurd h hf.not_begin.1
      | refuse hcall h hstatus => exact absurd h hf.not_begin.1
      | snapshot h => exact absurd h hf.not_begin.2
      | skip h =>
          -- the copy has no null pointer
          refine absurd ?_ hdescriptions
          rw [← (hf.of_loop h).1]
          exact List.mem_append_right _ List.mem_cons_self
      | @visit desc rest h =>
          obtain ⟨hvisits, hend⟩ := hf.of_loop h
          refine .visiting rfl ?_ (hend.visit _ desc)
          show (a.descriptionVisits ++ [desc]).map some ++ rest = descriptions
          rw [List.map_append, List.append_assoc]
          exact hvisits
      | visited h =>
          obtain ⟨hvisits, hend⟩ := hf.of_visiting h
          exact .looping rfl hvisits (hend.visited _)
      | @fail error h =>
          obtain ⟨hvisits, n, hlength, houtcomes⟩ := hf.of_failed h
          exact .stopped rfl hvisits ⟨n, error, hlength, congrArg (· ++ _) houtcomes⟩
      | shutdown hcall h =>
          obtain ⟨hvisits, hend⟩ := hf.of_loop h
          rw [List.append_nil] at hvisits
          exact .closing rfl hvisits hend
      | finish hcall h =>
          obtain ⟨hvisits, hend⟩ := hf.of_loop h
          rw [List.append_nil] at hvisits
          exact .completed rfl hvisits hend
  | visit h =>
      cases h with
      | fail h =>
          obtain ⟨hvisits, hend⟩ := hf.of_visiting h
          exact .failed rfl (hvisits ▸ List.prefix_append _ _) hend
      | entity _ h =>
          obtain ⟨hvisits, hend⟩ := hf.of_visiting h
          exact .visiting rfl hvisits hend
      | _ h =>
          obtain ⟨hvisits, hend⟩ := hf.of_visiting h
          exact .visiting rfl hvisits hend
  | registration h =>
      cases h with
      | register hcall h => cases hcall
  | shutdown h =>
      cases h with
      | exchange h hstatus => exact .closing rfl (hf.of_shutdown h).1 (hf.of_shutdown h).2
      | request h => exact .closing rfl (hf.of_shutdown h).1 (hf.of_shutdown h).2
      | exchangeFails h hstatus =>
          exact .completed rfl (hf.of_shutdown h).1 (hf.of_shutdown h).2
      | stop h => exact .completed rfl (hf.of_shutdown h).1 (hf.of_shutdown h).2

/-- The visits are a part of the copy from its front. -/
theorem Followed.visits {descriptions : List (Option (Description O))} {a : Activation O}
    (hf : Followed descriptions a) : a.descriptionVisits.map some <+: descriptions := by
  cases hf with
  | looping h hvisits hend => exact hvisits ▸ List.prefix_append _ _
  | visiting h hvisits hend => exact hvisits ▸ List.prefix_append _ _
  | failed h hvisits hend => exact hvisits
  | closing h hvisits hend => exact hvisits ▸ List.prefix_refl _
  | completed h hvisits hend => exact hvisits ▸ List.prefix_refl _
  | stopped h hvisits hend => exact hvisits

/-- A visit begins only when all before it have ended well. -/
theorem Followed.succeeded {descriptions : List (Option (Description O))} {a : Activation O}
    (hf : Followed descriptions a) {i : Nat} (hi : i + 1 < a.descriptionVisits.length) :
    a.outcomes[i]? = some (.ok ()) := by
  have hall : AllVisited a → a.outcomes[i]? = some (.ok ()) := by
    intro h
    rw [h, List.getElem?_replicate, if_pos (Nat.lt_of_succ_lt hi)]
  have hunderway : Underway a → a.outcomes[i]? = some (.ok ()) := by
    rintro ⟨n, hlength, houtcomes⟩
    rw [houtcomes, List.getElem?_replicate, if_pos (by omega)]
  cases hf with
  | looping h hvisits hend => exact hall hend
  | visiting h hvisits hend => exact hunderway hend
  | failed h hvisits hend => exact hunderway hend
  | closing h hvisits hend => exact hall hend
  | completed h hvisits hend => exact hall hend
  | stopped h hvisits hend =>
      obtain ⟨n, error, hlength, houtcomes⟩ := hend
      rw [houtcomes, List.getElem?_append_left (by rw [List.length_replicate]; omega)]
      rw [List.getElem?_replicate, if_pos (by omega)]

/-- How a run returns. -/
theorem Followed.returned {descriptions : List (Option (Description O))} {a : Activation O}
    (hf : Followed descriptions a) {value : Returned} (h : a.pc = .returned value) :
    (value = .exitCode 0 ∧ a.descriptionVisits.map some = descriptions ∧ AllVisited a)
    ∨ (value = .exitCode 1 ∧ ∃ n error, a.descriptionVisits.length = n + 1
        ∧ a.outcomes = List.replicate n (.ok ()) ++ [.error error]) := by
  cases hf with
  | completed h' hvisits hend =>
      rw [h] at h'
      cases h'
      exact Or.inl ⟨rfl, hvisits, hend⟩
  | stopped h' hvisits hend =>
      rw [h] at h'
      cases h'
      exact Or.inr ⟨rfl, hend⟩
  | _ h' =>
      rw [h] at h'
      cases h'

/-- `include_launch_description` registers no null pointer. -/
theorem Reachable.not_null {s : State O ι} (h : Reachable nested call s) :
    none ∉ s.shared.descriptions := by
  refine Steps.shared (P := fun sv => none ∉ sv.descriptions) ?_ h List.not_mem_nil
  intro c sv a sv' a' hstep hnull
  cases hstep with
  | run h => cases h <;> exact hnull
  | visit h => exact hnull
  | registration h =>
      cases h with
      | @register description hcall h =>
          cases description with
          | none => exact hnull
          | some desc =>
              intro hmem
              rcases List.mem_append.mp hmem with hmem | hmem
              · exact hnull hmem
              · cases List.mem_singleton.mp hmem
  | shutdown h => cases h <;> exact hnull

/-- **Calls on one service, interleaved.**  The status moves forward only; one
    `run` at most gets past its check, and every other returns 1 and visits
    nothing; one call at most makes the transition out of `K_RUNNING`; and the
    run that gets past its check visits the descriptions that are registered
    when it copies them, in their order, each once, up to and including the
    first whose visit fails. -/
theorem interleaved_calls {s : State O ι} (h : Reachable nested call s) :
    (∀ c t, Step nested call s c t →
      t.shared.status = s.shared.status ∨ next s.shared.status = some t.shared.status)
    ∧ (∀ c d, (s.threads c).passed = true → (s.threads d).passed = true → c = d)
    ∧ (∀ c shutdownWhenIdle, call c = .run shutdownWhenIdle → (s.threads c).passed = false →
        Refused (s.threads c))
    ∧ (∀ c d, (s.threads c).left = true → (s.threads d).left = true → c = d)
    ∧ ∀ s₀ s₁ c shutdownWhenIdle, call c = .run shutdownWhenIdle → Reachable nested call s₀ →
        (s₀.threads c).pc = .snapshot → Step nested call s₀ c s₁ →
        Steps (Step nested call) s₁ s →
        (s.threads c).descriptionVisits.map some <+: s₀.shared.descriptions
        ∧ (∀ i, i + 1 < (s.threads c).descriptionVisits.length →
            (s.threads c).outcomes[i]? = some (.ok ()))
        ∧ ∀ value, (s.threads c).pc = .returned value →
            (value = .exitCode 0
              ∧ (s.threads c).descriptionVisits.map some = s₀.shared.descriptions
              ∧ AllVisited (s.threads c))
            ∨ (value = .exitCode 1 ∧ ∃ n error, (s.threads c).descriptionVisits.length = n + 1
              ∧ (s.threads c).outcomes = List.replicate n (.ok ()) ++ [.error error]) := by
  refine ⟨fun c t => h.status_step, h.passed_unique, ?_, h.left_unique, ?_⟩
  · intro c shutdownWhenIdle hcall
    refine Steps.own (P := fun a => a.passed = false → Refused a) ?_ h ?_
    · intro sv a sv' a' hstep hrefused
      rw [hcall] at hstep
      exact hstep.refused hrefused
    · intro _
      show Refused (call c).activation
      rw [hcall]
      exact ⟨Or.inl rfl, rfl, rfl, rfl⟩
  · intro s₀ s₁ c shutdownWhenIdle hcall h₀ hsnapshot hstep hpath
    have hfollowed₁ : Followed s₀.shared.descriptions (s₁.threads c) := by
      obtain ⟨hvisits, -, -, houtcomes⟩ := h₀.fresh c (Or.inr hsnapshot)
      rw [hstep.own_step.of_snapshot hsnapshot]
      refine .looping rfl ?_ ?_
      · rw [hvisits]
        rfl
      · rw [AllVisited, hvisits, houtcomes]
        rfl
    have hfollowed : Followed s₀.shared.descriptions (s.threads c) := by
      refine Steps.own ?_ hpath hfollowed₁
      intro sv a sv' a' hstep hf
      rw [hcall] at hstep
      exact hstep.followed h₀.not_null hf
    exact ⟨hfollowed.visits, fun i => hfollowed.succeeded, fun value => hfollowed.returned⟩

/-- One call registers a description, one runs the service. -/
def registerAndRun : Bool → Call Unit
  | false => .includeLaunchDescription (some {})
  | true => .run false

/-- A description is registered, and the run has got past its check. -/
def entered : State Unit Bool where
  shared := { status := .running, descriptions := [some {}] }
  threads := Function.update
    (Function.update (new registerAndRun).threads false { pc := .returned (.error Error.ok) })
    true { pc := .snapshot, passed := true }

/-- The run has copied the descriptions. -/
def copied : State Unit Bool where
  shared := entered.shared
  threads := Function.update entered.threads true { pc := .loop [some {}], passed := true }

/-- A description is registered, and the run visits it. -/
theorem interleaved_calls_registerAndRun :
    ∃ s : State Unit Bool, Reachable (fun _ => none) registerAndRun s
      ∧ (s.threads true).pc = .returned (.exitCode 0)
      ∧ (s.threads true).descriptionVisits.map some = [some {}] := by
  have hnew : Reachable (fun _ => none) registerAndRun (new registerAndRun) :=
    Relation.ReflTransGen.refl
  have hentered : Reachable (fun _ => none) registerAndRun entered :=
    (hnew.next (.step (c := false) (.registration (.register rfl rfl)))).next
      (.step (c := true) (.run (.enter rfl rfl rfl)))
  have hcopy : Step (fun _ => none) registerAndRun entered true copied :=
    .step (.run (.snapshot rfl))
  have hvisit : Steps (Step (fun _ => none) registerAndRun) copied _ :=
    .single (.step (c := true) (.run (.visit rfl)))
  have hvisited := (hvisit.next (.step (c := true) (.visit (.visited rfl)))).next
    (.step (c := true) (.run (.visited rfl)))
  have hfinish := hvisited.next (.step (c := true) (.run (.finish rfl rfl)))
  refine ⟨_, (hentered.next hcopy).trans hfinish, rfl, ?_⟩
  have hrun := (interleaved_calls ((hentered.next hcopy).trans hfinish)).2.2.2.2 _ _ true false rfl
    hentered rfl hcopy hfinish
  rcases hrun.2.2 _ rfl with ⟨-, hall, -⟩ | ⟨h, -⟩
  · exact hall
  · cases h

end LaunchCpp.LaunchService.Concurrent
