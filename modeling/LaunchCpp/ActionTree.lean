import LaunchCpp.LaunchService
import LaunchCpp.Library.GuardedProgram

/-! # Visiting a launch description

    Four functions walk the tree of entities: `LaunchDescription::visit`,
    `Action::visit`, `GroupAction::execute` and `TimerAction::execute`.  The
    actions of any other kind are its leaves; what they do to the context is
    a parameter, and so is what a condition says of it.

    Over the walk stands the program it performs: the tree written down in
    depth-first order, each condition in front of what it guards. -/

namespace LaunchCpp

open GuardedPrograms

/-- An action that is neither a group nor a timer, with its `condition_`. -/
structure Leaf (ι γ : Type) where
  name : ι
  condition : Option γ

/-- `Action`.  `GroupAction` and `TimerAction` are final and constructed with
    `Action()`, so that only leaves carry a `condition_`; the condition of a
    group is the one of its options.  The period of a timer is left out. -/
inductive Action (ι γ : Type) where
  | leaf (leaf : Leaf ι γ)
  | group (actions : List (Option (Action ι γ))) (condition : Option γ)
  | timer (actions : List (Option (Action ι γ)))

/-- `LaunchDescriptionEntity`; a null pointer is `none`. -/
inductive Entity (ι γ : Type) where
  | action (action : Action ι γ)
  | description (entities : List (Option (Entity ι γ)))

/-- What the leaves do to a context and what the conditions say of it. -/
structure TreeBehaviour (ι γ W : Type) where
  execute : ι → W → Result Unit × W
  evaluate : γ → W → Bool

/-- What a call returns, the context it leaves, and which leaves it executed
    and conditions it evaluated on the way. -/
structure Outcome (α ι γ W : Type) where
  result : Result α
  context : W
  log : List (Event (Leaf ι γ) γ W)

variable {α ι γ W : Type}

/-- The outcome of a call made after what is logged. -/
def Outcome.after (log : List (Event (Leaf ι γ) γ W)) (o : Outcome α ι γ W) :
    Outcome α ι γ W :=
  { o with log := log ++ o.log }

/-- `!condition || condition->evaluate(context)`. -/
def TreeBehaviour.holds (b : TreeBehaviour ι γ W) (condition : Option γ) (w : W) : Bool :=
  match condition with
  | none => true
  | some c => b.evaluate c w

/-- The evaluation of a condition that is set. -/
def evaluation (condition : Option γ) (w : W) : List (Event (Leaf ι γ) γ W) :=
  match condition with
  | none => []
  | some c => [.tested c w]

/-! ## The walk -/

mutual

/-- `Action::execute`, of each kind of action. -/
def Action.execute (b : TreeBehaviour ι γ W) : Action ι γ → W → Outcome Unit ι γ W
  | .leaf l, w => ⟨(b.execute l.name w).1, (b.execute l.name w).2, [.ran l w]⟩
  | .group actions condition, w =>
      if b.holds condition w then (executeActions b actions w).after (evaluation condition w)
      else ⟨.ok (), w, evaluation condition w⟩
  | .timer actions, w => executeActions b actions w

/-- The loop of `GroupAction::execute` and of `TimerAction::execute`: each
    action is executed without asking for its condition. -/
def executeActions (b : TreeBehaviour ι γ W) :
    List (Option (Action ι γ)) → W → Outcome Unit ι γ W
  | [], w => ⟨.ok (), w, []⟩
  | none :: rest, w => executeActions b rest w
  | some action :: rest, w =>
      match (action.execute b w).result with
      | .error e => ⟨.error e, (action.execute b w).context, (action.execute b w).log⟩
      | .ok _ => (executeActions b rest (action.execute b w).context).after
          (action.execute b w).log

end

/-- `Action::get_condition`, of the base class. -/
def Action.condition : Action ι γ → Option γ
  | .leaf l => l.condition
  | .group _ _ => none
  | .timer _ => none

/-- `LaunchDescriptionEntityVector`. -/
abbrev EntityVector (ι γ : Type) := List (Option (Entity ι γ))

/-- `Action::visit`. -/
def Action.visit (b : TreeBehaviour ι γ W) (action : Action ι γ) (w : W) :
    Outcome (EntityVector ι γ) ι γ W :=
  if b.holds action.condition w then
    Outcome.after (evaluation action.condition w)
      ⟨(action.execute b w).result.map fun _ => [], (action.execute b w).context,
        (action.execute b w).log⟩
  else ⟨.ok [], w, evaluation action.condition w⟩

mutual

/-- `LaunchDescriptionEntity::visit`: `Action::visit`, or
    `LaunchDescription::visit`. -/
def Entity.visit (b : TreeBehaviour ι γ W) : Entity ι γ → W → Outcome (EntityVector ι γ) ι γ W
  | .action action, w => action.visit b w
  | .description entities, w => visitEntities b entities [] w

/-- The loop of `LaunchDescription::visit`, with the children collected so
    far. -/
def visitEntities (b : TreeBehaviour ι γ W) :
    List (Option (Entity ι γ)) → EntityVector ι γ → W → Outcome (EntityVector ι γ) ι γ W
  | [], result, w => ⟨.ok result, w, []⟩
  | none :: rest, result, w => visitEntities b rest result w
  | some entity :: rest, result, w =>
      match (entity.visit b w).result with
      | .error e => ⟨.error e, (entity.visit b w).context, (entity.visit b w).log⟩
      | .ok children =>
          (visitEntities b rest (result ++ children.filter Option.isSome)
            (entity.visit b w).context).after (entity.visit b w).log

end

/-! ## The program the walk performs -/

/-- The turn of a leaf: contained in a group or a timer, or not. -/
structure Turn (ι γ : Type) where
  leaf : Leaf ι γ
  contained : Bool

/-- What a condition guards, with the condition in front. -/
def guarded (condition : Option γ) (body : List (Instruction α γ)) : List (Instruction α γ) :=
  match condition with
  | none => body
  | some c => .test c body.length :: body

mutual

def Action.turns (contained : Bool) : Action ι γ → List (Instruction (Turn ι γ) γ)
  | .leaf l => [.run ⟨l, contained⟩]
  | .group actions condition => guarded condition (turnsOfActions actions)
  | .timer actions => turnsOfActions actions

def turnsOfActions : List (Option (Action ι γ)) → List (Instruction (Turn ι γ) γ)
  | [] => []
  | none :: rest => turnsOfActions rest
  | some action :: rest => action.turns true ++ turnsOfActions rest

end

mutual

/-- The leaves and the conditions below an entity, depth first and from left
    to right. -/
def Entity.turns : Entity ι γ → List (Instruction (Turn ι γ) γ)
  | .action action => guarded action.condition (action.turns false)
  | .description entities => turnsOfEntities entities

def turnsOfEntities : List (Option (Entity ι γ)) → List (Instruction (Turn ι γ) γ)
  | [] => []
  | none :: rest => turnsOfEntities rest
  | some entity :: rest => entity.turns ++ turnsOfEntities rest

end

/-- The program of an entity. -/
def Entity.depthFirst (entity : Entity ι γ) : List (Instruction (Leaf ι γ) γ) :=
  entity.turns.map (Instruction.map Turn.leaf)

/-! ## The walk performs the program -/

/-- Leaves that are not contained are executed under their condition. -/
def Checked (b : TreeBehaviour ι γ W) (log : List (Event (Turn ι γ) γ W)) : Prop :=
  ∀ turn w, Event.ran turn w ∈ log → turn.contained = false →
    b.holds turn.leaf.condition w = true

/-- A call goes through the turns of a part of the tree. -/
def Outcome.Follows (b : TreeBehaviour ι γ W) (o : Outcome α ι γ W)
    (turns : List (Instruction (Turn ι γ) γ)) (w : W) : Prop :=
  ∃ log, o.log = log.map (Event.map Turn.leaf) ∧ Checked b log
    ∧ Leads (fun turn => b.execute turn.leaf.name) b.evaluate turns w log o.context
        (o.result.map fun _ => ())

/-- Two checked logs make one. -/
theorem Checked.append {b : TreeBehaviour ι γ W} {log log' : List (Event (Turn ι γ) γ W)}
    (h : Checked b log) (h' : Checked b log') : Checked b (log ++ log') := by
  intro turn w hran
  rcases List.mem_append.mp hran with hran | hran
  · exact h turn w hran
  · exact h' turn w hran

/-- A test in front of a checked log. -/
theorem Checked.tested {b : TreeBehaviour ι γ W} {c : γ} {w : W}
    {log : List (Event (Turn ι γ) γ W)} (h : Checked b log) : Checked b (.tested c w :: log) := by
  intro turn w' hran
  cases hran with
  | tail _ hran => exact h turn w' hran

theorem Checked.nil {b : TreeBehaviour ι γ W} : Checked b ([] : List (Event (Turn ι γ) γ W)) := by
  intro turn w hran
  cases hran

namespace Outcome.Follows

variable {b : TreeBehaviour ι γ W} {p q : List (Instruction (Turn ι γ) γ)} {w : W}

/-- An empty walk follows the empty program. -/
theorem nothing (x : α) : Follows b (⟨.ok x, w, []⟩ : Outcome α ι γ W) [] w :=
  ⟨[], rfl, .nil, .nil w⟩

/-- A condition that holds lets the call happen. -/
theorem guarded_true {condition : Option γ} {o : Outcome α ι γ W}
    (hcondition : b.holds condition w = true) (h : o.Follows b p w) :
    (o.after (evaluation condition w)).Follows b (guarded condition p) w := by
  cases condition with
  | none => exact h
  | some c =>
      obtain ⟨log, hlog, hchecked, hleads⟩ := h
      refine ⟨.tested c w :: log, ?_, hchecked.tested, .enter hcondition hleads⟩
      exact congrArg (List.cons _) hlog

/-- A condition that does not hold leaves out what it guards. -/
theorem guarded_false {condition : Option γ} {x : α} (hcondition : ¬ b.holds condition w = true) :
    Follows b ⟨.ok x, w, evaluation condition w⟩ (guarded condition p) w := by
  cases condition with
  | none => exact absurd rfl hcondition
  | some c =>
      have hfalse : b.evaluate c w = false := Bool.eq_false_iff.mpr hcondition
      exact ⟨[.tested c w], rfl, Checked.nil.tested, .skip hfalse⟩

/-- An error ends the loop around the call. -/
theorem error {o : Outcome α ι γ W} {e : Error} (h : o.Follows b p w)
    (hresult : o.result = .error e) {β : Type} :
    Follows b (⟨.error e, o.context, o.log⟩ : Outcome β ι γ W) (p ++ q) w := by
  obtain ⟨log, hlog, hchecked, hleads⟩ := h
  rw [hresult] at hleads
  exact ⟨log, hlog, hchecked, hleads.append_error⟩

/-- After a call that succeeds the loop goes on. -/
theorem next {β : Type} {o : Outcome α ι γ W} {x : α} {o' : Outcome β ι γ W}
    (h : o.Follows b p w) (hresult : o.result = .ok x) (h' : o'.Follows b q o.context) :
    (o'.after o.log).Follows b (p ++ q) w := by
  obtain ⟨log, hlog, hchecked, hleads⟩ := h
  obtain ⟨log', hlog', hchecked', hleads'⟩ := h'
  rw [hresult] at hleads
  refine ⟨log ++ log', ?_, hchecked.append hchecked', hleads.append hleads'⟩
  rw [List.map_append, ← hlog, ← hlog']
  rfl

/-- Passing a result on does not change what was done. -/
theorem passed_on {β : Type} {o : Outcome α ι γ W} (f : α → β) (h : o.Follows b p w) :
    Follows b (⟨o.result.map f, o.context, o.log⟩ : Outcome β ι γ W) p w := by
  obtain ⟨log, hlog, hchecked, hleads⟩ := h
  refine ⟨log, hlog, hchecked, ?_⟩
  show Leads _ _ p w log o.context ((o.result.map f).map fun _ => ())
  cases hresult : o.result with
  | error e =>
      rw [hresult] at hleads
      exact hleads
  | ok x =>
      rw [hresult] at hleads
      exact hleads

end Outcome.Follows

section Walk

variable (b : TreeBehaviour ι γ W)

/-- Executing a leaf is its turn, and it is only its visit that asks for the
    condition. -/
theorem leaf_follows {l : Leaf ι γ} {contained : Bool} {w : W}
    (h : contained = false → b.holds l.condition w = true) :
    ((Action.leaf l).execute b w).Follows b ((Action.leaf l).turns contained) w := by
  refine ⟨[.ran ⟨l, contained⟩ w], rfl, ?_, .run ?_⟩
  · intro turn w' hran hcontained
    cases hran with
    | head => exact h hcontained
    | tail _ hran => cases hran
  · show b.execute l.name w = _
    rw [Action.execute]
    cases b.execute l.name w with
    | mk result context => cases result <;> rfl

mutual

/-- **Executing an action follows its turns**, as those of a contained one. -/
theorem Action.execute_follows : (action : Action ι γ) → (w : W) →
    (action.execute b w).Follows b (action.turns true) w
  | .leaf l, w => leaf_follows b (by intro hcontained; cases hcontained)
  | .group actions condition, w => by
      rw [Action.execute]
      split
      next hholds => exact .guarded_true hholds (executeActions_follows actions w)
      next hholds => exact .guarded_false hholds
  | .timer actions, w => executeActions_follows actions w

/-- The actions of a container, one by one. -/
theorem executeActions_follows : (actions : List (Option (Action ι γ))) → (w : W) →
    (executeActions b actions w).Follows b (turnsOfActions actions) w
  | [], w => .nothing ()
  | none :: rest, w => executeActions_follows rest w
  | some action :: rest, w => by
      have hfirst := Action.execute_follows action w
      rw [executeActions, turnsOfActions]
      split
      next e herror => exact hfirst.error herror
      next hok => exact hfirst.next hok (executeActions_follows rest _)

end

/-- Visiting an action follows its turns behind its condition. -/
theorem Action.visit_follows (action : Action ι γ) (w : W) :
    (action.visit b w).Follows b (guarded action.condition (action.turns false)) w := by
  rw [Action.visit]
  split
  next hholds =>
    refine .guarded_true hholds (.passed_on _ ?_)
    cases action with
    | leaf l => exact leaf_follows b (fun _ => hholds)
    | group actions condition => exact Action.execute_follows b (.group actions condition) w
    | timer actions => exact Action.execute_follows b (.timer actions) w
  next hholds => exact .guarded_false hholds

mutual

/-- **Visiting an entity follows its turns.** -/
theorem Entity.visit_follows : (entity : Entity ι γ) → (w : W) →
    (entity.visit b w).Follows b entity.turns w
  | .action action, w => Action.visit_follows b action w
  | .description entities, w => visitEntities_follows entities [] w

/-- The entities of a description, one by one. -/
theorem visitEntities_follows : (entities : List (Option (Entity ι γ))) →
    (result : EntityVector ι γ) → (w : W) →
    (visitEntities b entities result w).Follows b (turnsOfEntities entities) w
  | [], result, w => .nothing result
  | none :: rest, result, w => visitEntities_follows rest result w
  | some entity :: rest, result, w => by
      have hfirst := Entity.visit_follows entity w
      rw [visitEntities, turnsOfEntities]
      split
      next e herror => exact hfirst.error herror
      next children hok => exact hfirst.next hok (visitEntities_follows rest _ _)

end

/-- An action has no children. -/
theorem Action.visit_children {action : Action ι γ} {w : W} {children : EntityVector ι γ}
    (h : (action.visit b w).result = .ok children) : children = [] := by
  rw [Action.visit] at h
  split at h
  next =>
    rw [Outcome.after] at h
    cases hresult : (action.execute b w).result with
    | error e =>
        rw [hresult] at h
        cases h
    | ok _ =>
        rw [hresult] at h
        cases h
        rfl
  next =>
    cases h
    rfl

mutual

/-- No entity has children to hand on. -/
theorem Entity.visit_children : (entity : Entity ι γ) → (w : W) → {children : EntityVector ι γ} →
    (entity.visit b w).result = .ok children → children = []
  | .action _, _, _, h => Action.visit_children b h
  | .description entities, w, _, h => visitEntities_children entities [] w h

/-- Entities add no children. -/
theorem visitEntities_children : (entities : List (Option (Entity ι γ))) →
    (result : EntityVector ι γ) → (w : W) → {children : EntityVector ι γ} →
    (visitEntities b entities result w).result = .ok children → children = result
  | [], result, w, _, h => by
      cases h
      rfl
  | none :: rest, result, w, _, h => visitEntities_children rest result w h
  | some entity :: rest, result, w, children, h => by
      rw [visitEntities] at h
      split at h
      next e herror => cases h
      next first hok =>
        have hfirst := Entity.visit_children entity w hok
        have hrest := visitEntities_children rest _ _ h
        rw [hrest, hfirst, List.filter_nil, List.append_nil]

end

end Walk

/-- **Entities are visited depth first.**  Visiting a launch description, or
    any entity, performs its leaves and conditions from left to right: each at
    most once, in the context the leaves before it made; a condition that does
    not hold leaves out all it guards; the first leaf that fails is the last
    thing done, and its error is returned; and if none fails, there are no
    children. -/
theorem Entity.visit_depth_first (b : TreeBehaviour ι γ W) (entity : Entity ι γ) (w : W) :
    Performs (fun leaf => b.execute leaf.name) b.evaluate entity.depthFirst w
        (entity.visit b w).log (entity.visit b w).context
        ((entity.visit b w).result.map fun _ => ())
      ∧ ((entity.visit b w).log.map Event.label).Sublist
        (entity.depthFirst.map Instruction.label)
      ∧ InContext (fun leaf => b.execute leaf.name) w (entity.visit b w).log
      ∧ (entity.visit b w).context
        = contextAfter (fun leaf => b.execute leaf.name) w (entity.visit b w).log
      ∧ (∀ error, (entity.visit b w).result = .error error →
        ∃ earlier leaf w', (entity.visit b w).log = earlier ++ [.ran leaf w']
          ∧ b.execute leaf.name w' = (.error error, (entity.visit b w).context)
          ∧ Succeeded (fun leaf => b.execute leaf.name) earlier)
      ∧ ∀ children, (entity.visit b w).result = .ok children →
        children = [] ∧ Succeeded (fun leaf => b.execute leaf.name) (entity.visit b w).log := by
  have hperforms : Performs (fun leaf => b.execute leaf.name) b.evaluate entity.depthFirst w
      (entity.visit b w).log (entity.visit b w).context
      ((entity.visit b w).result.map fun _ => ()) := by
    obtain ⟨log, hlog, -, hleads⟩ := Entity.visit_follows b entity w
    rw [hlog]
    exact Performs.map Turn.leaf hleads.performs
  refine ⟨hperforms, hperforms.sublist, hperforms.inContext, hperforms.context, ?_, ?_⟩
  · intro error hresult
    exact hperforms.last_failed (by rw [hresult]; rfl)
  · intro children hresult
    exact ⟨Entity.visit_children b entity w hresult,
      hperforms.succeeded (by rw [hresult]; rfl)⟩

/-- The turn of a leaf comes in a context. -/
def Entity.Reaches (b : TreeBehaviour ι γ W) (entity : Entity ι γ) (w : W) (turn : Turn ι γ)
    (w' : W) : Prop :=
  ∃ rest, GuardedPrograms.Reaches (fun turn => b.execute turn.leaf.name) b.evaluate
    entity.turns w (.run turn :: rest) w'

namespace Entity

variable {b : TreeBehaviour ι γ W} {entity : Entity ι γ} {w w' : W} {turn : Turn ι γ}

/-- The walk executes a leaf when one of its turns comes. -/
theorem mem_log_iff {leaf : Leaf ι γ} :
    Event.ran leaf w' ∈ (entity.visit b w).log
      ↔ ∃ contained, entity.Reaches b w ⟨leaf, contained⟩ w' := by
  obtain ⟨log, hlog, -, hleads⟩ := Entity.visit_follows b entity w
  rw [hlog, List.mem_map]
  constructor
  · rintro ⟨event, hevent, hleaf⟩
    cases event with
    | tested c w'' => cases hleaf
    | ran turn w'' =>
        cases hleaf
        exact ⟨turn.contained, hleads.performs.ran_iff.mp hevent⟩
  · rintro ⟨contained, hreaches⟩
    exact ⟨.ran ⟨leaf, contained⟩ w', hleads.performs.ran_iff.mpr hreaches, rfl⟩

/-- A leaf that is not contained has its turn under its condition. -/
theorem Reaches.holds (h : entity.Reaches b w turn w') (hturn : turn.contained = false) :
    b.holds turn.leaf.condition w' = true := by
  obtain ⟨log, -, hchecked, hleads⟩ := Entity.visit_follows b entity w
  exact hchecked turn w' (hleads.performs.ran_iff.mpr h) hturn

/-- Only what is written in the tree has a turn. -/
theorem Reaches.mem_turns (h : entity.Reaches b w turn w') :
    Instruction.run turn ∈ entity.turns := by
  obtain ⟨log, -, -, hleads⟩ := Entity.visit_follows b entity w
  exact hleads.performs.instruction_mem (hleads.performs.ran_iff.mpr h)

end Entity

/-- No contained action that carries a condition has its turn. -/
def Entity.NoneGuarded (b : TreeBehaviour ι γ W) (entity : Entity ι γ) (w : W) : Prop :=
  ∀ leaf w', entity.Reaches b w ⟨leaf, true⟩ w' → leaf.condition = none

namespace Entity

variable {b : TreeBehaviour ι γ W} {entity : Entity ι γ} {w w' : W} {leaf : Leaf ι γ}

/-- An action that is not contained is executed under its condition, and one
    that is has none. -/
theorem holds_of_noneGuarded (h : entity.NoneGuarded b w)
    (hran : Event.ran leaf w' ∈ (entity.visit b w).log) : b.holds leaf.condition w' = true := by
  obtain ⟨contained, hreaches⟩ := mem_log_iff.mp hran
  cases contained with
  | true =>
      rw [h leaf w' hreaches]
      rfl
  | false => exact hreaches.holds rfl

/-- Nothing can go wrong where no contained action has a condition. -/
theorem noneGuarded_of_uncontained
    (h : ∀ leaf, Instruction.run ⟨leaf, true⟩ ∈ entity.turns → leaf.condition = none) (w : W) :
    entity.NoneGuarded b w :=
  fun leaf _ hreaches => h leaf hreaches.mem_turns

/-- What is executed stays so when other conditions change their answers than
    those the walk asks for. -/
theorem Reaches.congr {turn : Turn ι γ} {evaluate' : γ → W → Bool}
    (h : entity.Reaches b w turn w')
    (hsame : ∀ c v, Event.tested c v ∈ (entity.visit b w).log →
      evaluate' c v = b.evaluate c v) :
    entity.Reaches ⟨b.execute, evaluate'⟩ w turn w' := by
  obtain ⟨log, hlog, -, hleads⟩ := Entity.visit_follows b entity w
  have hasked : ∀ c v, GuardedPrograms.Event.tested c v ∈ log → evaluate' c v = b.evaluate c v := by
    intro c v hc
    refine hsame c v ?_
    rw [hlog]
    exact List.mem_map.mpr ⟨.tested c v, hc, rfl⟩
  have hperforms := hleads.performs.congr hasked
  exact hperforms.ran_iff.mp (hleads.performs.ran_iff.mpr h)

end Entity

/-- **Conditions of contained actions are not asked for.**  Every action that
    is executed has its condition true in the context of that moment if no
    action in a group or a timer that carries a condition has its turn.  And
    where one has, unless somebody else asks for its condition in that same
    context, it is executed too if the condition is false there and everything
    else as it is. -/
theorem Entity.conditions_hold (b : TreeBehaviour ι γ W) (entity : Entity ι γ) (w : W) :
    (entity.NoneGuarded b w →
      ∀ leaf c w', Event.ran leaf w' ∈ (entity.visit b w).log → leaf.condition = some c →
        b.evaluate c w' = true)
    ∧ ∀ leaf c w', entity.Reaches b w ⟨leaf, true⟩ w' → leaf.condition = some c →
        Event.tested c w' ∉ (entity.visit b w).log →
        ∃ b' : TreeBehaviour ι γ W, b'.execute = b.execute
          ∧ (∀ c' v, (c', v) ≠ (c, w') → b'.evaluate c' v = b.evaluate c' v)
          ∧ b'.evaluate c w' = false ∧ Event.ran leaf w' ∈ (entity.visit b' w).log := by
  classical
  constructor
  · intro hspared leaf c w' hran hcondition
    have hholds := holds_of_noneGuarded hspared hran
    rw [hcondition] at hholds
    exact hholds
  · intro leaf c w' hreaches hcondition htested
    have hother : ∀ c' v, (c', v) ≠ (c, w') →
        (if (c', v) = (c, w') then false else b.evaluate c' v) = b.evaluate c' v :=
      fun c' v h => if_neg h
    refine ⟨⟨b.execute, fun c' v => if (c', v) = (c, w') then false else b.evaluate c' v⟩,
      rfl, hother, if_pos rfl, mem_log_iff.mpr ⟨true, hreaches.congr fun c' v hc => ?_⟩⟩
    refine hother c' v (fun heq => ?_)
    obtain ⟨rfl, rfl⟩ := Prod.mk.inj heq
    exact htested hc

/-- Leaves that work in every context, and a condition that always holds or
    never does. -/
def answering (answer : Bool) : TreeBehaviour Unit Unit Unit :=
  ⟨fun _ w => (.ok (), w), fun _ _ => answer⟩

/-- An action with a condition, and one without in a group. -/
def conditionOutside : Entity Unit Unit :=
  .description [some (.action (.leaf ⟨(), some ()⟩)),
    some (.action (.group [some (.leaf ⟨(), none⟩)] none))]

/-- In such a tree conditions are respected, whatever they say. -/
theorem Entity.conditions_hold_outside :
    ∀ answer leaf c w', Event.ran leaf w' ∈ (conditionOutside.visit (answering answer) ()).log →
      leaf.condition = some c → (answering answer).evaluate c w' = true := by
  intro answer
  refine (Entity.conditions_hold (answering answer) conditionOutside ()).1
    (noneGuarded_of_uncontained (fun leaf hmem => ?_) ())
  rcases List.mem_cons.mp hmem with h | hmem
  · cases h
  · rcases List.mem_cons.mp hmem with h | hmem
    · cases h
    · cases List.mem_singleton.mp hmem
      rfl

/-- An action with that condition, in a group without one. -/
def conditionInGroup : Entity Unit Unit :=
  .description [some (.action (.group [some (.leaf ⟨(), some ()⟩)] none))]

/-- It is executed although its condition is false. -/
theorem Entity.conditions_hold_fails :
    ¬ ∀ (b : TreeBehaviour Unit Unit Unit) (entity : Entity Unit Unit) (w : Unit) leaf c w',
      Event.ran leaf w' ∈ (entity.visit b w).log → leaf.condition = some c →
        b.evaluate c w' = true := by
  intro h
  have hran : Event.ran ⟨(), some ()⟩ () ∈ (conditionInGroup.visit (answering false) ()).log :=
    List.mem_singleton_self _
  have hheld := h (answering false) conditionInGroup () ⟨(), some ()⟩ () () hran rfl
  cases hheld

/-! ## The descriptions of launch files

    All entities of a launch file are leaves, and the service visits its
    descriptions as the walk does. -/

/-- An entity of a launch file; it is constructed without a condition. -/
def LaunchDescriptionEntity.asLeaf (entity : LaunchDescriptionEntity Empty) :
    Entity (LaunchDescriptionEntity Empty) Empty :=
  .action (.leaf ⟨entity, none⟩)

/-- What the entities of a launch file do, as leaves. -/
def Behaviour.ofLeaves (b : Behaviour Empty W) :
    TreeBehaviour (LaunchDescriptionEntity Empty) Empty W where
  execute
    | .executeProcess options, w => b.executeProcess options w
    | .declareLaunchArgument options, w => b.declareLaunchArgument options w
  evaluate c _ := c.elim

/-- The process an event executes. -/
def executedProcess :
    Event (Leaf (LaunchDescriptionEntity Empty) Empty) Empty W → Option ExecuteProcess.Options
  | .ran ⟨.executeProcess options, _⟩ _ => some options
  | _ => none

/-- An entity of a launch file is visited like a leaf. -/
theorem entityVisit_eq_asLeaf (b : Behaviour Empty W) (entity : LaunchDescriptionEntity Empty)
    (w : W) :
    (entityVisit b entity w).world = (entity.asLeaf.visit b.ofLeaves w).context
      ∧ ((entityVisit b entity w).result.map fun _ => ())
        = ((entity.asLeaf.visit b.ofLeaves w).result.map fun _ => ())
      ∧ (entityVisit b entity w).executed
        = (entity.asLeaf.visit b.ofLeaves w).log.filterMap executedProcess := by
  cases entity with
  | executeProcess options =>
      refine ⟨rfl, ?_, rfl⟩
      show ((b.executeProcess options w).1.map _).map _ = ((b.executeProcess options w).1.map _).map _
      cases (b.executeProcess options w).1 <;> rfl
  | declareLaunchArgument options =>
      refine ⟨rfl, ?_, rfl⟩
      show ((b.declareLaunchArgument options w).1.map _).map _
        = ((b.declareLaunchArgument options w).1.map _).map _
      cases (b.declareLaunchArgument options w).1 <;> rfl
  | other entity => exact entity.elim

/-- Where the visits of single entities end alike, so do the loops over them.
    What is executed is compared by any relation that goes along with
    appending. -/
theorem visitLoop_agrees {O : Type} {b : Behaviour O W} {t : TreeBehaviour ι γ W}
    {f : LaunchDescriptionEntity O → Entity ι γ}
    (Logs : List ExecuteProcess.Options → List (Event (Leaf ι γ) γ W) → Prop)
    (hnil : Logs [] [])
    (happend : ∀ l l' m m', Logs l m → Logs l' m' → Logs (l ++ l') (m ++ m'))
    (hvisit : ∀ entity w, (entityVisit b entity w).world = ((f entity).visit t w).context
      ∧ ((entityVisit b entity w).result.map fun _ => ())
        = (((f entity).visit t w).result.map fun _ => ())
      ∧ Logs (entityVisit b entity w).executed ((f entity).visit t w).log)
    (entities result : List (Option (LaunchDescriptionEntity O))) (result' : EntityVector ι γ)
    (w : W) :
    (LaunchDescription.visitLoop b entities result w).world
        = (visitEntities t (entities.map (Option.map f)) result' w).context
      ∧ ((LaunchDescription.visitLoop b entities result w).result.map fun _ => ())
        = ((visitEntities t (entities.map (Option.map f)) result' w).result.map fun _ => ())
      ∧ Logs (LaunchDescription.visitLoop b entities result w).executed
        (visitEntities t (entities.map (Option.map f)) result' w).log := by
  induction entities generalizing result result' w with
  | nil => exact ⟨rfl, rfl, hnil⟩
  | cons entity rest ih =>
      cases entity with
      | none => exact ih result result' w
      | some entity =>
          obtain ⟨hworld, hresult, hexecuted⟩ := hvisit entity w
          rw [LaunchDescription.visitLoop, List.map_cons, Option.map_some, visitEntities]
          cases hflat : (entityVisit b entity w).result with
          | error e =>
              cases htree : ((f entity).visit t w).result with
              | error e' =>
                  rw [hflat, htree] at hresult
                  cases hresult
                  exact ⟨hworld, congrArg (Except.map fun _ => ()) hflat, hexecuted⟩
              | ok children =>
                  rw [hflat, htree] at hresult
                  cases hresult
          | ok children =>
              cases htree : ((f entity).visit t w).result with
              | error e' =>
                  rw [hflat, htree] at hresult
                  cases hresult
              | ok children' =>
                  obtain ⟨hworlds, hresults, hexecuteds⟩ :=
                    ih (result ++ children.filter Option.isSome)
                      (result' ++ children'.filter Option.isSome)
                      (entityVisit b entity w).world
                  rw [← hworld]
                  exact ⟨hworlds, hresults, happend _ _ _ _ hexecuted hexecuteds⟩

/-- The loop the service calls is the walk over its leaves. -/
theorem visitLoop_eq_visitEntities (b : Behaviour Empty W)
    (entities result : List (Option (LaunchDescriptionEntity Empty)))
    (result' : EntityVector (LaunchDescriptionEntity Empty) Empty) (w : W) :
    (LaunchDescription.visitLoop b entities result w).world
        = (visitEntities b.ofLeaves (entities.map (Option.map (·.asLeaf))) result' w).context
      ∧ ((LaunchDescription.visitLoop b entities result w).result.map fun _ => ())
        = ((visitEntities b.ofLeaves (entities.map (Option.map (·.asLeaf))) result' w).result.map
            fun _ => ())
      ∧ (LaunchDescription.visitLoop b entities result w).executed
        = (visitEntities b.ofLeaves (entities.map (Option.map (·.asLeaf))) result' w).log.filterMap
            executedProcess := by
  refine visitLoop_agrees (fun executed log => executed = log.filterMap executedProcess)
    rfl ?_ (entityVisit_eq_asLeaf b) entities result result' w
  rintro _ _ m m' rfl rfl
  exact List.filterMap_append.symm

end LaunchCpp
