import Mathlib.Logic.Relation
import Mathlib.Data.List.Basic

/-! # Guarded programs

    Instructions performed one after the other on a context: `run a` executes
    an action, which transforms the context and may fail, and `test c skip`
    evaluates a condition and, when it is false, leaves the next `skip`
    instructions out.  The first action that fails ends the program.

    `Performs` is the whole run with its log, `Step` one instruction.  A part
    of a program is composed with what follows it by `Leads`, which holds for
    every continuation, so that a skip cannot reach past the part. -/

namespace GuardedPrograms

inductive Instruction (α γ : Type*) where
  | run (a : α)
  | test (c : γ) (skip : Nat)

/-- What the log tells, with the context it happened in. -/
inductive Event (α γ W : Type*) where
  | ran (a : α) (w : W)
  | tested (c : γ) (w : W)

variable {α β γ W ε : Type*}

namespace Instruction

/-- The action or the condition an instruction is for. -/
def label : Instruction α γ → α ⊕ γ
  | run a => .inl a
  | test c _ => .inr c

def map (f : α → β) : Instruction α γ → Instruction β γ
  | run a => run (f a)
  | test c skip => test c skip

end Instruction

namespace Event

def label : Event α γ W → α ⊕ γ
  | ran a _ => .inl a
  | tested c _ => .inr c

def context : Event α γ W → W
  | ran _ w => w
  | tested _ w => w

def map (f : α → β) : Event α γ W → Event β γ W
  | ran a w => ran (f a) w
  | tested c w => tested c w

end Event

section Run

variable (execute : α → W → Except ε Unit × W) (evaluate : γ → W → Bool)

/-- One instruction that does not end the program. -/
inductive Step :
    List (Instruction α γ) × W → List (Instruction α γ) × W → Prop where
  | run {a p w w'} : execute a w = (.ok (), w') → Step (.run a :: p, w) (p, w')
  | enter {c skip p w} : evaluate c w = true → Step (.test c skip :: p, w) (p, w)
  | skip {c skip p w} : evaluate c w = false → Step (.test c skip :: p, w) (p.drop skip, w)

/-- The instructions still to come, and the context, at some point of a run. -/
def Reaches (p : List (Instruction α γ)) (w : W) (q : List (Instruction α γ)) (w' : W) : Prop :=
  Relation.ReflTransGen (Step execute evaluate) (p, w) (q, w')

/-- A whole run, with its log, the context it leaves and its result. -/
inductive Performs :
    List (Instruction α γ) → W → List (Event α γ W) → W → Except ε Unit → Prop where
  | done (w) : Performs [] w [] w (.ok ())
  | fail {a p w w' e} : execute a w = (.error e, w') →
      Performs (.run a :: p) w [.ran a w] w' (.error e)
  | run {a p w w' log w'' r} : execute a w = (.ok (), w') → Performs p w' log w'' r →
      Performs (.run a :: p) w (.ran a w :: log) w'' r
  | enter {c skip p w log w' r} : evaluate c w = true → Performs p w log w' r →
      Performs (.test c skip :: p) w (.tested c w :: log) w' r
  | skip {c skip p w log w' r} : evaluate c w = false → Performs (p.drop skip) w log w' r →
      Performs (.test c skip :: p) w (.tested c w :: log) w' r

/-- What an event makes of the context; a condition cannot change it. -/
def after (w : W) : Event α γ W → W
  | .ran a _ => (execute a w).2
  | .tested _ _ => w

/-- The context the actions of a log leave behind. -/
def contextAfter (w : W) (log : List (Event α γ W)) : W :=
  log.foldl (after execute) w

/-- Everything is logged in the context the actions before it made. -/
def InContext (w : W) (log : List (Event α γ W)) : Prop :=
  ∀ earlier event later, log = earlier ++ event :: later →
    event.context = contextAfter execute w earlier

/-- No action of the log failed. -/
def Succeeded (log : List (Event α γ W)) : Prop :=
  ∀ a w, Event.ran a w ∈ log → (execute a w).1 = .ok ()

end Run

variable {execute : α → W → Except ε Unit × W} {evaluate : γ → W → Bool}

/-- An instruction that succeeds in front of a log that does. -/
theorem Succeeded.cons_ran {a : α} {w : W} {log : List (Event α γ W)}
    (ha : (execute a w).1 = .ok ()) (h : Succeeded execute log) :
    Succeeded execute (.ran a w :: log) := by
  intro a' w' hran
  cases hran with
  | head => exact ha
  | tail _ hran => exact h a' w' hran

/-- A test in front of it. -/
theorem Succeeded.cons_tested {c : γ} {w : W} {log : List (Event α γ W)}
    (h : Succeeded execute log) : Succeeded execute (.tested c w :: log) := by
  intro a' w' hran
  cases hran with
  | tail _ hran => exact h a' w' hran

/-- An event in its context in front of a log in context. -/
theorem InContext.cons {event : Event α γ W} {w : W} {log : List (Event α γ W)}
    (hevent : event.context = w) (h : InContext execute (after execute w event) log) :
    InContext execute w (event :: log) := by
  intro earlier event' later hlog
  rcases List.cons_eq_append_iff.mp hlog with ⟨rfl, hhead⟩ | ⟨rest, rfl, hrest⟩
  · cases hhead
    exact hevent
  · exact h rest event' later hrest

namespace Performs

variable {p : List (Instruction α γ)} {w w' : W} {log : List (Event α γ W)}
  {r : Except ε Unit}

/-- What is logged is part of the program, in its order. -/
theorem sublist (h : Performs execute evaluate p w log w' r) :
    (log.map Event.label).Sublist (p.map Instruction.label) := by
  induction h with
  | done w => exact List.Sublist.refl _
  | fail _ => exact (List.nil_sublist _).cons_cons _
  | run _ _ ih => exact ih.cons_cons _
  | enter _ _ ih => exact ih.cons_cons _
  | skip _ _ ih => exact (ih.trans ((List.drop_sublist _ _).map _)).cons_cons _

/-- What was run is an instruction of the program. -/
theorem instruction_mem (h : Performs execute evaluate p w log w' r) {a : α} {w₁ : W}
    (hran : Event.ran a w₁ ∈ log) : Instruction.run a ∈ p := by
  have hlabel : Sum.inl a ∈ p.map Instruction.label :=
    h.sublist.subset (List.mem_map_of_mem hran)
  obtain ⟨instruction, hmem, heq⟩ := List.mem_map.mp hlabel
  cases instruction with
  | run a' =>
      cases heq
      exact hmem
  | test c skip => cases heq

/-- The context a run leaves is the one its actions made. -/
theorem context (h : Performs execute evaluate p w log w' r) :
    w' = contextAfter execute w log := by
  induction h with
  | done w => rfl
  | fail hfails => exact (congrArg Prod.snd hfails).symm
  | run hran _ ih =>
      rw [ih, contextAfter, contextAfter, List.foldl_cons, after, hran]
  | enter _ _ ih => exact ih
  | skip _ _ ih => exact ih

/-- Every event is recorded in the context that the ones before it made. -/
theorem inContext (h : Performs execute evaluate p w log w' r) : InContext execute w log := by
  induction h with
  | done w =>
      intro earlier event later hlog
      exact absurd hlog (by simp)
  | fail _ =>
      refine InContext.cons rfl ?_
      intro earlier event later hlog
      exact absurd hlog (by simp)
  | run hran _ ih =>
      refine InContext.cons rfl ?_
      rw [after, hran]
      exact ih
  | enter _ _ ih => exact InContext.cons rfl ih
  | skip _ _ ih => exact InContext.cons rfl ih

/-- A run that ends well has no action that failed. -/
theorem succeeded (h : Performs execute evaluate p w log w' r) (hr : r = .ok ()) :
    Succeeded execute log := by
  induction h with
  | done w =>
      intro a w' hran
      cases hran
  | fail _ => cases hr
  | run hran _ ih => exact (ih hr).cons_ran (by rw [hran])
  | enter _ _ ih => exact (ih hr).cons_tested
  | skip _ _ ih => exact (ih hr).cons_tested

/-- A run that ends with an error ends with the action that returned it, the
    only one that failed. -/
theorem last_failed (h : Performs execute evaluate p w log w' r) {e : ε} (hr : r = .error e) :
    ∃ earlier a w₁, log = earlier ++ [.ran a w₁] ∧ execute a w₁ = (.error e, w')
      ∧ Succeeded execute earlier := by
  induction h with
  | done w => cases hr
  | fail hfails =>
      cases hr
      refine ⟨[], _, _, rfl, hfails, ?_⟩
      intro a w' hran
      cases hran
  | run hran _ ih =>
      obtain ⟨earlier, a, w₁, rfl, hfails, hearlier⟩ := ih hr
      exact ⟨_ :: earlier, a, w₁, rfl, hfails, hearlier.cons_ran (by rw [hran])⟩
  | enter _ _ ih =>
      obtain ⟨earlier, a, w₁, rfl, hfails, hearlier⟩ := ih hr
      exact ⟨_ :: earlier, a, w₁, rfl, hfails, hearlier.cons_tested⟩
  | skip _ _ ih =>
      obtain ⟨earlier, a, w₁, rfl, hfails, hearlier⟩ := ih hr
      exact ⟨_ :: earlier, a, w₁, rfl, hfails, hearlier.cons_tested⟩

/-- What a run logs after its first instruction is the log of the rest. -/
theorem step {s t : List (Instruction α γ) × W} (hstep : Step execute evaluate s t)
    (h : Performs execute evaluate s.1 s.2 log w' r) :
    ∃ event log', log = event :: log' ∧ Performs execute evaluate t.1 t.2 log' w' r := by
  cases hstep with
  | run hran =>
      cases h with
      | fail hfails =>
          rw [hran] at hfails
          cases hfails
      | run hran' hrest =>
          rw [hran] at hran'
          cases hran'
          exact ⟨_, _, rfl, hrest⟩
  | enter htrue =>
      cases h with
      | enter _ hrest => exact ⟨_, _, rfl, hrest⟩
      | skip hfalse _ =>
          rw [htrue] at hfalse
          cases hfalse
  | skip hfalse =>
      cases h with
      | enter htrue _ =>
          rw [htrue] at hfalse
          cases hfalse
      | skip _ hrest => exact ⟨_, _, rfl, hrest⟩

/-- **An instruction whose turn comes** is run. -/
theorem mem_of_reaches {s : List (Instruction α γ) × W} {a : α} {w₁ : W}
    {rest : List (Instruction α γ)}
    (hreaches : Relation.ReflTransGen (Step execute evaluate) s (.run a :: rest, w₁))
    (h : Performs execute evaluate s.1 s.2 log w' r) : Event.ran a w₁ ∈ log := by
  induction hreaches using Relation.ReflTransGen.head_induction_on generalizing log with
  | refl =>
      cases h with
      | fail _ => exact List.mem_singleton_self _
      | run _ _ => exact List.mem_cons_self
  | head hstep _ ih =>
      obtain ⟨event, log', rfl, hrest⟩ := step hstep h
      exact List.mem_cons_of_mem _ (ih hrest)

/-- An action is executed in a context exactly if its turn comes in it. -/
theorem ran_iff (h : Performs execute evaluate p w log w' r) {a : α} {w₁ : W} :
    Event.ran a w₁ ∈ log ↔ ∃ rest, Reaches execute evaluate p w (.run a :: rest) w₁ := by
  constructor
  · intro hran
    induction h with
    | done w => cases hran
    | fail _ =>
        cases hran with
        | head => exact ⟨_, .refl⟩
        | tail _ hran => cases hran
    | run hstep _ ih =>
        cases hran with
        | head => exact ⟨_, .refl⟩
        | tail _ hran =>
            obtain ⟨rest, hreaches⟩ := ih hran
            exact ⟨rest, hreaches.head (.run hstep)⟩
    | enter htrue _ ih =>
        cases hran with
        | tail _ hran =>
            obtain ⟨rest, hreaches⟩ := ih hran
            exact ⟨rest, hreaches.head (.enter htrue)⟩
    | skip hfalse _ ih =>
        cases hran with
        | tail _ hran =>
            obtain ⟨rest, hreaches⟩ := ih hran
            exact ⟨rest, hreaches.head (.skip hfalse)⟩
  · rintro ⟨rest, hreaches⟩
    exact mem_of_reaches hreaches h

/-- Only the conditions that are tested matter, and only in the contexts they
    are tested in. -/
theorem congr {evaluate' : γ → W → Bool} (h : Performs execute evaluate p w log w' r)
    (hsame : ∀ c v, Event.tested c v ∈ log → evaluate' c v = evaluate c v) :
    Performs execute evaluate' p w log w' r := by
  induction h with
  | done w => exact .done w
  | fail hfails => exact .fail hfails
  | run hran _ ih => exact .run hran (ih fun c v hc => hsame c v (List.mem_cons_of_mem _ hc))
  | enter htrue _ ih =>
      refine .enter ?_ (ih fun c v hc => hsame c v (List.mem_cons_of_mem _ hc))
      rw [hsame _ _ List.mem_cons_self, htrue]
  | skip hfalse _ ih =>
      refine .skip ?_ (ih fun c v hc => hsame c v (List.mem_cons_of_mem _ hc))
      rw [hsame _ _ List.mem_cons_self, hfalse]

/-- A program may be renamed before it is performed. -/
theorem map {execute : β → W → Except ε Unit × W} (f : α → β)
    (h : Performs (fun a => execute (f a)) evaluate p w log w' r) :
    Performs execute evaluate (p.map (Instruction.map f)) w (log.map (Event.map f)) w' r := by
  induction h with
  | done w => exact .done w
  | fail hfails => exact .fail hfails
  | run hran _ ih => exact .run hran ih
  | enter htrue _ ih => exact .enter htrue ih
  | skip hfalse _ ih =>
      rw [List.map_drop] at ih
      exact .skip hfalse ih

end Performs

/-- The first part of a program leads to a context and a result, whatever
    follows it: an error ends the program there, and a success hands the
    context on to what follows. -/
def Leads (execute : α → W → Except ε Unit × W) (evaluate : γ → W → Bool)
    (p : List (Instruction α γ)) (w : W) (log : List (Event α γ W)) (w' : W) :
    Except ε Unit → Prop
  | .error e => ∀ rest, Performs execute evaluate (p ++ rest) w log w' (.error e)
  | .ok _ => ∀ rest log' w'' r, Performs execute evaluate rest w' log' w'' r →
      Performs execute evaluate (p ++ rest) w (log ++ log') w'' r

namespace Leads

variable {p q : List (Instruction α γ)} {w w' w'' : W} {log log' : List (Event α γ W)}
  {r : Except ε Unit} {e : ε}

/-- Nothing to do. -/
theorem nil (w : W) : Leads execute evaluate [] w [] w (.ok ()) := by
  intro rest log' w'' r h
  exact h

/-- One instruction. -/
theorem run {a : α} (h : execute a w = (r, w')) :
    Leads execute evaluate [.run a] w [.ran a w] w' r := by
  cases r with
  | error e =>
      intro rest
      exact .fail h
  | ok _ =>
      intro rest log' w'' r hrest
      exact .run h hrest

/-- After a part that succeeds comes the next. -/
theorem append (h : Leads execute evaluate p w log w' (.ok ()))
    (hnext : Leads execute evaluate q w' log' w'' r) :
    Leads execute evaluate (p ++ q) w (log ++ log') w'' r := by
  cases r with
  | error e =>
      intro rest
      rw [List.append_assoc]
      exact h _ _ _ _ (hnext rest)
  | ok _ =>
      intro rest log'' w''' r hrest
      rw [List.append_assoc, List.append_assoc]
      exact h _ _ _ _ (hnext rest log'' w''' r hrest)

/-- After a part that fails comes nothing. -/
theorem append_error (h : Leads execute evaluate p w log w' (.error e)) :
    Leads execute evaluate (p ++ q) w log w' (.error e) := by
  intro rest
  rw [List.append_assoc]
  exact h (q ++ rest)

/-- A test that holds is followed by what it guards. -/
theorem enter {c : γ} (hc : evaluate c w = true) (h : Leads execute evaluate p w log w' r) :
    Leads execute evaluate (.test c p.length :: p) w (.tested c w :: log) w' r := by
  cases r with
  | error e =>
      intro rest
      exact .enter hc (h rest)
  | ok _ =>
      intro rest log' w'' r hrest
      exact .enter hc (h rest log' w'' r hrest)

/-- A test that does not hold skips all of it. -/
theorem skip {c : γ} (hc : evaluate c w = false) :
    Leads execute evaluate (.test c p.length :: p) w [.tested c w] w (.ok ()) := by
  intro rest log' w'' r hrest
  refine .skip hc ?_
  show Performs execute evaluate ((p ++ rest).drop p.length) w log' w'' r
  rw [List.drop_left]
  exact hrest

/-- **A program that leads somewhere performs its instructions.** -/
theorem performs (h : Leads execute evaluate p w log w' r) :
    Performs execute evaluate p w log w' r := by
  cases r with
  | error e =>
      have hwhole := h []
      rw [List.append_nil] at hwhole
      exact hwhole
  | ok _ =>
      have hwhole := h [] [] w' (.ok ()) (.done w')
      rw [List.append_nil, List.append_nil] at hwhole
      exact hwhole

end Leads

/-! ## Tests decided in front -/

/-- What a program runs when its tests are decided beforehand, with the first
    `skip` instructions left out. -/
def decided (holds : γ → Bool) : Nat → List (Instruction α γ) → List α
  | _, [] => []
  | skip + 1, _ :: p => decided holds skip p
  | 0, .run a :: p => a :: decided holds 0 p
  | 0, .test c skip :: p => decided holds (if holds c then 0 else skip) p

/-- Dropping instructions is skipping them. -/
theorem decided_drop (holds : γ → Bool) (skip : Nat) (p : List (Instruction α γ)) :
    decided holds 0 (p.drop skip) = decided holds skip p := by
  induction p generalizing skip with
  | nil => rw [List.drop_nil]; cases skip <;> rfl
  | cons i p ih =>
      cases skip with
      | zero => rfl
      | succ skip => exact ih skip

/-- The action an event is of. -/
def Event.action? : Event α γ W → Option α
  | ran a _ => some a
  | tested _ _ => none

def Event.isRan (event : Event α γ W) : Bool := event.action?.isSome

theorem filterMap_filter_isRan (log : List (Event α γ W)) :
    (log.filter Event.isRan).filterMap Event.action? = log.filterMap Event.action? := by
  induction log with
  | nil => rfl
  | cons event log ih =>
      cases event with
      | ran a w => exact congrArg (List.cons a) ih
      | tested c w => exact ih

/-- **Tests that keep their answers can be decided in front**: the run is that
    of the actions they select.  `I` is what the answers rest on; only the
    selected actions have to keep it. -/
theorem Performs.decided {p : List (Instruction α γ)} {w w' : W} {log : List (Event α γ W)}
    {r : Except ε Unit} (h : Performs execute evaluate p w log w' r) (I : W → Prop)
    {holds : γ → Bool} (hI : I w)
    (hholds : ∀ c skip, .test c skip ∈ p → ∀ w, I w → evaluate c w = holds c)
    (hkeeps : ∀ a ∈ decided holds 0 p, ∀ w, I w → I (execute a w).2) :
    Performs execute evaluate ((decided holds 0 p).map .run) w (log.filter Event.isRan) w' r := by
  induction h with
  | done w => exact .done w
  | fail hfails => exact .fail hfails
  | @run a p w _ _ _ _ hran _ ih =>
      have hkept := hkeeps a List.mem_cons_self w hI
      rw [hran] at hkept
      exact .run hran (ih hkept (fun c skip hc => hholds c skip (List.mem_cons_of_mem _ hc))
        (fun a' ha' => hkeeps a' (List.mem_cons_of_mem _ ha')))
  | @enter c skip _ w _ _ _ htrue _ ih =>
      have hc : holds c = true := (hholds c skip List.mem_cons_self w hI).symm.trans htrue
      rw [GuardedPrograms.decided, if_pos hc] at hkeeps ⊢
      exact ih hI (fun c' skip' hc' => hholds c' skip' (List.mem_cons_of_mem _ hc')) hkeeps
  | @skip c skip _ w _ _ _ hfalse _ ih =>
      have hc : ¬ holds c = true := by
        rw [← hholds c skip List.mem_cons_self w hI, hfalse]
        exact Bool.false_ne_true
      rw [GuardedPrograms.decided, if_neg hc, ← decided_drop] at hkeeps ⊢
      exact ih hI (fun c' skip' hc' =>
        hholds c' skip' (List.mem_cons_of_mem _ (List.mem_of_mem_drop hc'))) hkeeps

/-- Decisions do not depend on what the instructions are called. -/
theorem decided_map (f : α → β) (holds : γ → Bool) (skip : Nat) (p : List (Instruction α γ)) :
    decided holds skip (p.map (Instruction.map f)) = (decided holds skip p).map f := by
  induction p generalizing skip with
  | nil => cases skip <;> rfl
  | cons i p ih =>
      cases skip with
      | succ skip => exact ih skip
      | zero =>
          cases i with
          | run a => exact congrArg (List.cons _) (ih 0)
          | test c skip => exact ih _

/-- A program without tests runs in order, up to the first failure. -/
theorem Performs.of_runs {actions : List α} {w w' : W} {log : List (Event α γ W)}
    {r : Except ε Unit} (h : Performs execute evaluate (actions.map .run) w log w' r) :
    ∃ performed left, actions = performed ++ left
      ∧ log.filterMap Event.action? = performed ∧ (r = .ok () → left = []) := by
  induction actions generalizing w log with
  | nil =>
      cases h
      exact ⟨[], [], rfl, rfl, fun _ => rfl⟩
  | cons a actions ih =>
      cases h with
      | fail _ => exact ⟨[a], actions, rfl, rfl, fun hr => (by cases hr)⟩
      | run _ hrest =>
          obtain ⟨performed, left, rfl, hlog, hleft⟩ := ih hrest
          exact ⟨a :: performed, left, rfl, congrArg (List.cons _) hlog, hleft⟩

end GuardedPrograms
