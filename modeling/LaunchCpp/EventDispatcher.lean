import LaunchCpp.Basic
import LaunchCpp.Library.Registrations

/-! # `EventDispatcher`

    The registered handlers and the dispatch of an event to them.  A handler
    may be registered several times, and a null pointer is a handler to
    `register_handler` as any other.  What handlers answer is arbitrary and
    may depend on a world they all change, the `LaunchContext` being part of
    it.  The main result is `run_dispatch`: which registrations are left
    after any calls, and whom a dispatch then calls. -/

namespace LaunchCpp

open Registrations

/-- The virtual functions of the handlers `H` for events `V`: `E` are the
    entities they return, `W` is what they may change. -/
structure EventHandlers (H V E W : Type) where
  matchesEvent : H → V → W → Bool × W
  handle : H → V → W → Result (List E) × W

/-- `EventHandlerPtr`. -/
inductive EventHandlerPtr (H : Type) where
  | null
  | nonnull (handler : H)
  deriving DecidableEq

/-- `EventDispatcher`. -/
structure EventDispatcher (H : Type) where
  handlers : List (EventHandlerPtr H) := []

namespace EventDispatcher

/-- The end of a dispatch: what it returns, the handlers whose `handle` it has
    called, and the world they leave. -/
structure Dispatched (H E W : Type) where
  result : Result (List E)
  called : List H
  world : W

variable {H V E W : Type}

/-- `register_handler`. -/
def registerHandler (d : EventDispatcher H) (handler : EventHandlerPtr H) : EventDispatcher H :=
  { d with handlers := d.handlers ++ [handler] }

/-- `unregister_handler`: the loop returns after the first entry it erases. -/
def unregisterHandler [DecidableEq H] (d : EventDispatcher H) (handler : EventHandlerPtr H) :
    EventDispatcher H :=
  { d with handlers := d.handlers.erase handler }

/-- `clear_handlers`. -/
def clearHandlers (d : EventDispatcher H) : EventDispatcher H := { d with handlers := [] }

/-- `get_handler_count`. -/
def getHandlerCount (d : EventDispatcher H) : Nat := d.handlers.length

/-- The loop of `dispatch`. -/
def dispatchLoop (b : EventHandlers H V E W) (event : V) :
    List (EventHandlerPtr H) → List E → W → Dispatched H E W
  | [], allEntities, w => ⟨.ok allEntities, [], w⟩
  | .null :: handlers, allEntities, w => dispatchLoop b event handlers allEntities w
  | .nonnull handler :: handlers, allEntities, w =>
      match b.matchesEvent handler event w with
      | (false, w) => dispatchLoop b event handlers allEntities w
      | (true, w) =>
          match b.handle handler event w with
          | (.error e, w) => ⟨.error e, [handler], w⟩
          | (.ok entities, w) =>
              let rest := dispatchLoop b event handlers (allEntities ++ entities) w
              { rest with called := handler :: rest.called }

/-- `dispatch`. -/
def dispatch (d : EventDispatcher H) (b : EventHandlers H V E W) (event : V) (w : W) :
    Dispatched H E W :=
  dispatchLoop b event d.handlers [] w

/-- One call that changes the handlers. -/
def step [DecidableEq H] (d : EventDispatcher H) : Change (EventHandlerPtr H) → EventDispatcher H
  | .register handler => d.registerHandler handler
  | .unregister handler => d.unregisterHandler handler
  | .clear => d.clearHandlers

/-- Calls one after another on a new dispatcher. -/
def run [DecidableEq H] (calls : List (Change (EventHandlerPtr H))) : EventDispatcher H :=
  calls.foldl step {}

/-- The handlers are the list of registrations. -/
theorem handlers_run [DecidableEq H] (calls : List (Change (EventHandlerPtr H))) :
    (run calls).handlers = after calls := by
  induction calls using List.reverseRecOn with
  | nil => rfl
  | append_singleton calls call ih =>
      rw [after_concat, ← ih, run, List.foldl_append]
      cases call with
      | register handler => rfl
      | unregister handler => rfl
      | clear => rfl

theorem getHandlerCount_run [DecidableEq H] (calls : List (Change (EventHandlerPtr H))) :
    (run calls).getHandlerCount = (latest (counter calls) calls).length := by
  rw [getHandlerCount, handlers_run, after_eq_latest]

/-! ## Dispatching -/

/-- A dispatch gets past a handler: a null one is not asked, one that does not
    match is not called, and one that is called succeeds. -/
inductive PassedOne (b : EventHandlers H V E W) (event : V) (w : W) :
    EventHandlerPtr H → List H → List E → W → Prop
  | null : PassedOne b event w .null [] [] w
  | unmatched {handler : H} {w₁ : W}
      (hmatches : b.matchesEvent handler event w = (false, w₁)) :
      PassedOne b event w (.nonnull handler) [] [] w₁
  | called {handler : H} {w₁ w₂ : W} {entities : List E}
      (hmatches : b.matchesEvent handler event w = (true, w₁))
      (hhandle : b.handle handler event w₁ = (.ok entities, w₂)) :
      PassedOne b event w (.nonnull handler) [handler] entities w₂

/-- It gets past several, one after another, with the handlers it calls and
    the entities they return. -/
inductive Passed (b : EventHandlers H V E W) (event : V) :
    W → List (EventHandlerPtr H) → List H → List E → W → Prop
  | nil {w : W} : Passed b event w [] [] [] w
  | cons {w w₁ w' : W} {p : EventHandlerPtr H} {ps : List (EventHandlerPtr H)}
      {called calledRest : List H} {entities entitiesRest : List E}
      (hone : PassedOne b event w p called entities w₁)
      (hrest : Passed b event w₁ ps calledRest entitiesRest w') :
      Passed b event w (p :: ps) (called ++ calledRest) (entities ++ entitiesRest) w'

/-- **What a dispatch is to do**: get past all handlers and return what they
    returned, or get to the first that fails and return its failure. -/
inductive Dispatches (b : EventHandlers H V E W) (event : V) (w : W)
    (ps : List (EventHandlerPtr H)) : Dispatched H E W → Prop
  | all {called : List H} {entities : List E} {w' : W}
      (hpassed : Passed b event w ps called entities w') :
      Dispatches b event w ps ⟨.ok entities, called, w'⟩
  | failed {before later : List (EventHandlerPtr H)} {handler : H} {called : List H}
      {entities : List E} {w₁ w₂ w₃ : W} {e : Error}
      (hsplit : ps = before ++ .nonnull handler :: later)
      (hpassed : Passed b event w before called entities w₁)
      (hmatches : b.matchesEvent handler event w₁ = (true, w₂))
      (hhandle : b.handle handler event w₂ = (.error e, w₃)) :
      Dispatches b event w ps ⟨.error e, called ++ [handler], w₃⟩

section Loop

variable {b : EventHandlers H V E W} {event : V} {w w₁ w₂ : W} {handler : H}
  {p : EventHandlerPtr H} {ps : List (EventHandlerPtr H)} {entities allEntities : List E}

theorem dispatchLoop_passed {called : List H} (h : PassedOne b event w p called entities w₁) :
    dispatchLoop b event (p :: ps) allEntities w
      = { dispatchLoop b event ps (allEntities ++ entities) w₁ with
          called := called ++ (dispatchLoop b event ps (allEntities ++ entities) w₁).called } := by
  cases h with
  | null => rw [dispatchLoop, List.append_nil, List.nil_append]
  | unmatched hmatches => rw [dispatchLoop, hmatches, List.append_nil, List.nil_append]
  | called hmatches hhandle =>
      rw [dispatchLoop, hmatches]
      show (match b.handle _ event _ with
        | (.error e, w) => _
        | (.ok entities, w) => _) = _
      rw [hhandle]
      rfl

theorem dispatchLoop_failed {e : Error} (hmatches : b.matchesEvent handler event w = (true, w₁))
    (hhandle : b.handle handler event w₁ = (.error e, w₂)) :
    dispatchLoop b event (.nonnull handler :: ps) allEntities w
      = ⟨.error e, [handler], w₂⟩ := by
  rw [dispatchLoop, hmatches]
  show (match b.handle handler event w₁ with
    | (.error e, w) => _
    | (.ok entities, w) => _) = _
  rw [hhandle]

/-- A handler is passed or fails. -/
theorem passedOne_or_failed (b : EventHandlers H V E W) (event : V) (p : EventHandlerPtr H)
    (w : W) :
    (∃ called entities w₁, PassedOne b event w p called entities w₁)
      ∨ ∃ handler w₁ w₂ e, p = .nonnull handler
        ∧ b.matchesEvent handler event w = (true, w₁)
        ∧ b.handle handler event w₁ = (.error e, w₂) := by
  cases p with
  | null => exact Or.inl ⟨_, _, _, .null⟩
  | nonnull handler =>
      rcases hmatches : b.matchesEvent handler event w with ⟨matched, w₁⟩
      cases matched with
      | false => exact Or.inl ⟨_, _, _, .unmatched hmatches⟩
      | true =>
          rcases hhandle : b.handle handler event w₁ with ⟨result, w₂⟩
          cases result with
          | error e => exact Or.inr ⟨handler, w₁, w₂, e, rfl, hmatches, hhandle⟩
          | ok entities => exact Or.inl ⟨_, _, _, .called hmatches hhandle⟩

/-- The loop gets past all handlers, or to the first that fails. -/
theorem dispatchLoop_cases (b : EventHandlers H V E W) (event : V)
    (ps : List (EventHandlerPtr H)) (allEntities : List E) (w : W) :
    (∃ called entities w', Passed b event w ps called entities w'
      ∧ dispatchLoop b event ps allEntities w = ⟨.ok (allEntities ++ entities), called, w'⟩)
    ∨ ∃ before handler later called entities w₁ w₂ w₃ e,
        ps = before ++ .nonnull handler :: later
        ∧ Passed b event w before called entities w₁
        ∧ b.matchesEvent handler event w₁ = (true, w₂)
        ∧ b.handle handler event w₂ = (.error e, w₃)
        ∧ dispatchLoop b event ps allEntities w = ⟨.error e, called ++ [handler], w₃⟩ := by
  induction ps generalizing allEntities w with
  | nil =>
      refine Or.inl ⟨[], [], w, .nil, ?_⟩
      rw [dispatchLoop, List.append_nil]
  | cons p ps ih =>
      rcases passedOne_or_failed b event p w with hone | hfails
      · obtain ⟨called, entities, w₁, hone⟩ := hone
        rw [dispatchLoop_passed hone]
        rcases ih (allEntities ++ entities) w₁ with hall | hfailed
        · obtain ⟨calledRest, entitiesRest, w', hpassed, heq⟩ := hall
          refine Or.inl ⟨_, _, w', .cons hone hpassed, ?_⟩
          rw [heq, List.append_assoc]
        · obtain ⟨before, handler, later, calledRest, entitiesRest, v₁, v₂, v₃, e, hsplit,
            hpassed, hmatches, hhandle, heq⟩ := hfailed
          refine Or.inr ⟨p :: before, handler, later, _, _, v₁, v₂, v₃, e, ?_,
            .cons hone hpassed, hmatches, hhandle, ?_⟩
          · rw [hsplit, List.cons_append]
          · rw [heq, List.append_assoc]
      · obtain ⟨handler, w₁, w₂, e, rfl, hmatches, hhandle⟩ := hfails
        exact Or.inr ⟨[], handler, ps, [], [], w, w₁, w₂, e, rfl, .nil, hmatches, hhandle,
          dispatchLoop_failed hmatches hhandle⟩

end Loop

theorem dispatch_dispatches (d : EventDispatcher H) (b : EventHandlers H V E W) (event : V)
    (w : W) : Dispatches b event w d.handlers (d.dispatch b event w) := by
  rw [dispatch]
  rcases dispatchLoop_cases b event d.handlers [] w with hall | hfailed
  · obtain ⟨called, entities, w', hpassed, heq⟩ := hall
    rw [heq]
    exact .all hpassed
  · obtain ⟨before, handler, later, called, entities, w₁, w₂, w₃, e, hsplit, hpassed, hmatches,
      hhandle, heq⟩ := hfailed
    rw [heq]
    exact .failed hsplit hpassed hmatches hhandle

/-- The handlers of a list that are not null and accept the event. -/
def accepting (accepts : H → Bool) : List (EventHandlerPtr H) → List H
  | [] => []
  | .null :: ps => accepting accepts ps
  | .nonnull handler :: ps =>
      if accepts handler then handler :: accepting accepts ps else accepting accepts ps

/-- Where matching only depends on the handler, those called are exactly the
    ones that accept the event. -/
theorem Passed.called_eq {b : EventHandlers H V E W} {event : V} {accepts : H → Bool}
    (haccepts : ∀ handler w, b.matchesEvent handler event w = (accepts handler, w))
    {w w' : W} {ps : List (EventHandlerPtr H)} {called : List H} {entities : List E}
    (h : Passed b event w ps called entities w') : called = accepting accepts ps := by
  induction h with
  | nil => rfl
  | cons hone hrest ih =>
      cases hone with
      | null => rw [accepting, List.nil_append, ih]
      | unmatched hmatches =>
          have hnot : accepts _ = false := congrArg Prod.fst ((haccepts _ _).symm.trans hmatches)
          rw [accepting, hnot, List.nil_append, ih]
          rfl
      | called hmatches hhandle =>
          have hyes : accepts _ = true := congrArg Prod.fst ((haccepts _ _).symm.trans hmatches)
          rw [accepting, if_pos hyes, ih]
          rfl

/-- **The registrations and the dispatch.**  After any calls on a new
    dispatcher a handler, also a null one, is registered as often as its
    counter says, and of its registrations the latest are left, all of them in
    the order in which they were made.  A dispatch of any event then calls
    those that match one after another, until one fails. -/
theorem run_dispatch [DecidableEq H] (calls : List (Change (EventHandlerPtr H)))
    (b : EventHandlers H V E W) (event : V) (w : W) :
    (∀ handler, (run calls).handlers.count handler = counter calls handler)
      ∧ (run calls).handlers = latest (counter calls) calls
      ∧ Dispatches b event w (run calls).handlers ((run calls).dispatch b event w) := by
  refine ⟨?_, ?_, dispatch_dispatches _ b event w⟩
  · intro handler
    rw [handlers_run, count_after]
  · rw [handlers_run, after_eq_latest]

/-- Handler 1 is registered around handler 2; the first of its registrations
    goes. -/
example : (run [.register (.nonnull 1), .register .null, .register (.nonnull 2),
    .register (.nonnull 1), .unregister (.nonnull 1)]).handlers
    = [.null, .nonnull 2, .nonnull 1] := by decide

end EventDispatcher

end LaunchCpp
