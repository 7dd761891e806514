import LaunchCpp.ActionTree

/-! # The state `LaunchService::run` leaves behind

    `run` shuts the service down behind its loop.  A visit that fails returns
    from inside the loop, past the shutdown, so that the service stays
    running.  Services are taken with whole trees of entities here, and what
    fails is an action somewhere in one of them. -/

namespace LaunchCpp

open GuardedPrograms

/-- An entity of a description: the two actions of launch files, or a tree. -/
abbrev TreeEntity (ι γ : Type) :=
  LaunchDescriptionEntity (Entity (LaunchDescriptionEntity ι) γ)

variable {ι γ W : Type}

/-- The same entity as a tree.  The actions of launch files have no
    condition. -/
def LaunchDescriptionEntity.asTree : TreeEntity ι γ → Entity (LaunchDescriptionEntity ι) γ
  | .executeProcess options => .action (.leaf ⟨.executeProcess options, none⟩)
  | .declareLaunchArgument options => .action (.leaf ⟨.declareLaunchArgument options, none⟩)
  | .other entity => entity

/-- A launch description as a tree. -/
def LaunchDescription.asTree (d : LaunchDescription (TreeEntity ι γ)) :
    Entity (LaunchDescriptionEntity ι) γ :=
  .description (d.entities.map (Option.map (·.asTree)))

/-- All that a service visits, as one tree. -/
def LaunchService.asTree (s : LaunchService (Entity (LaunchDescriptionEntity ι) γ)) :
    Entity (LaunchDescriptionEntity ι) γ :=
  .description (s.descriptions.map (Option.map (·.asTree)))

/-- The entities of a service do what the leaves of their trees do. -/
def TreeBehaviour.behaviour (t : TreeBehaviour (LaunchDescriptionEntity ι) γ W) :
    Behaviour (Entity (LaunchDescriptionEntity ι) γ) W where
  executeProcess options := t.execute (.executeProcess options)
  declareLaunchArgument options := t.execute (.declareLaunchArgument options)
  visitOther entity w :=
    ((entity.visit t w).result.map (List.map (Option.map .other)), (entity.visit t w).context)

/-! ## When a visit succeeds -/

theorem isOk_of_map_eq {α β : Type} {x : Result α} {y : Result β}
    (h : (x.map fun _ => ()) = (y.map fun _ => ())) : x.isOk = y.isOk := by
  cases x with
  | error e =>
      cases y with
      | error e' => rfl
      | ok _ => cases h
  | ok _ =>
      cases y with
      | error e' => cases h
      | ok _ => rfl

/-- A visit succeeds if and only if every action whose turn comes does. -/
theorem Entity.visit_isOk_iff (t : TreeBehaviour ι γ W) (entity : Entity ι γ) (w : W) :
    (entity.visit t w).result.isOk = true
      ↔ ∀ turn w', entity.Reaches t w turn w' → (t.execute turn.leaf.name w').1 = .ok () := by
  obtain ⟨-, -, -, -, hfailed, hsucceeded⟩ := entity.visit_depth_first t w
  constructor
  · intro hok turn w' hreaches
    cases hresult : (entity.visit t w).result with
    | error e =>
        rw [hresult] at hok
        cases hok
    | ok children =>
        exact (hsucceeded children hresult).2 turn.leaf w'
          (mem_log_iff.mpr ⟨turn.contained, hreaches⟩)
  · intro hall
    cases hresult : (entity.visit t w).result with
    | error e =>
        -- the error is that of a leaf, and the leaf had its turn
        obtain ⟨earlier, leaf, w', hlog, hexecute, -⟩ := hfailed e hresult
        have hran : Event.ran leaf w' ∈ (entity.visit t w).log := by
          rw [hlog]
          exact List.mem_append_right _ (List.mem_singleton_self _)
        obtain ⟨contained, hreaches⟩ := mem_log_iff.mp hran
        have hleaf := hall ⟨leaf, contained⟩ w' hreaches
        rw [hexecute] at hleaf
        cases hleaf
    | ok children => rfl

/-! ## The loops of the service -/

theorem entityVisit_eq_asTree (t : TreeBehaviour (LaunchDescriptionEntity ι) γ W)
    (entity : TreeEntity ι γ) (w : W) :
    (entityVisit t.behaviour entity w).world = (entity.asTree.visit t w).context
      ∧ ((entityVisit t.behaviour entity w).result.map fun _ => ())
        = ((entity.asTree.visit t w).result.map fun _ => ()) := by
  cases entity with
  | executeProcess options =>
      refine ⟨rfl, ?_⟩
      show ((t.execute (.executeProcess options) w).1.map _).map _
        = ((t.execute (.executeProcess options) w).1.map _).map _
      cases (t.execute (.executeProcess options) w).1 <;> rfl
  | declareLaunchArgument options =>
      refine ⟨rfl, ?_⟩
      show ((t.execute (.declareLaunchArgument options) w).1.map _).map _
        = ((t.execute (.declareLaunchArgument options) w).1.map _).map _
      cases (t.execute (.declareLaunchArgument options) w).1 <;> rfl
  | other entity =>
      refine ⟨rfl, ?_⟩
      show ((entity.visit t w).result.map _).map _ = (entity.visit t w).result.map _
      cases (entity.visit t w).result <;> rfl

/-- `LaunchDescription::visit`, called by the service or inside a tree. -/
theorem LaunchDescription.visit_eq_asTree (t : TreeBehaviour (LaunchDescriptionEntity ι) γ W)
    (d : LaunchDescription (TreeEntity ι γ)) (w : W) :
    (d.visit t.behaviour w).world = (d.asTree.visit t w).context
      ∧ (d.visit t.behaviour w).result.isOk = (d.asTree.visit t w).result.isOk := by
  obtain ⟨hworld, hresult, -⟩ := visitLoop_agrees (fun _ _ => True) trivial
    (fun _ _ _ _ _ _ => trivial)
    (fun entity w => ⟨(entityVisit_eq_asTree t entity w).1, (entityVisit_eq_asTree t entity w).2,
      trivial⟩) d.entities [] [] w
  exact ⟨hworld, isOk_of_map_eq hresult⟩

/-- The loop of `run` gets through when the tree of all descriptions does. -/
theorem LaunchService.runLoop_eq_asTree (t : TreeBehaviour (LaunchDescriptionEntity ι) γ W)
    (descriptions : List (Option (LaunchDescription (TreeEntity ι γ)))) (i : Nat)
    (result : EntityVector (LaunchDescriptionEntity ι) γ) (w : W) :
    (LaunchService.runLoop t.behaviour i descriptions w).1
      = (visitEntities t (descriptions.map (Option.map (·.asTree))) result w).result.isOk := by
  induction descriptions generalizing i result w with
  | nil => rfl
  | cons desc rest ih =>
      cases desc with
      | none => exact ih (i + 1) result w
      | some desc =>
          obtain ⟨hworld, hok⟩ := desc.visit_eq_asTree t w
          rw [LaunchService.runLoop, List.map_cons, Option.map_some, visitEntities]
          cases hflat : (desc.visit t.behaviour w).result with
          | error e =>
              cases htree : (desc.asTree.visit t w).result with
              | error e' => rfl
              | ok children =>
                  rw [hflat, htree] at hok
                  cases hok
          | ok _ =>
              cases htree : (desc.asTree.visit t w).result with
              | error e' =>
                  rw [hflat, htree] at hok
                  cases hok
              | ok children =>
                  rw [← hworld]
                  exact ih (i + 1) (result ++ children.filter Option.isSome) _

/-! ## The end of a run -/

namespace LaunchService

variable {O : Type}

/-- What the members of the service are after a run, and its exit code. -/
theorem run_of_idle {s : LaunchService O} (hidle : s.status = .idle) (b : Behaviour O W) (w : W) :
    ((runLoop b 0 s.descriptions w).1 = true ∧ (s.run b true w).exitCode = 0
        ∧ (s.run b true w).service = { s with status := .stopped, shutdownRequested := true })
      ∨ ((runLoop b 0 s.descriptions w).1 = false ∧ (s.run b true w).exitCode = 1
        ∧ (s.run b true w).service = { s with status := .running }) := by
  rw [run]
  rw [if_neg (not_not_intro hidle)]
  simp only
  rcases runLoop b 0 s.descriptions w with ⟨_ | _, w', executed⟩
  · exact Or.inr ⟨rfl, rfl, rfl⟩
  · exact Or.inl ⟨rfl, rfl, rfl⟩

/-- Every exit path but the one of a failed visit shuts the service down. -/
theorem run_stops_iff_runLoop {s : LaunchService O} (hidle : s.status = .idle)
    (b : Behaviour O W) (w : W) :
    ((s.run b true w).service.status = .stopped
        ∧ (s.run b true w).service.shutdownRequested = true)
      ↔ (runLoop b 0 s.descriptions w).1 = true := by
  rcases run_of_idle hidle b w with ⟨hloop, -, hservice⟩ | ⟨hloop, -, hservice⟩
  · rw [hservice, hloop]
    exact ⟨fun _ => rfl, fun _ => ⟨rfl, rfl⟩⟩
  · rw [hservice, hloop]
    constructor
    · rintro ⟨hstatus, -⟩
      cases hstatus
    · intro h
      cases h

/-- **`run(true)` shuts down only when nothing fails.**  A run of an idle
    service leaves it stopped, with the shutdown requested, if and only if
    every action whose turn comes succeeds, in whatever description, group or
    timer it is. -/
theorem run_stops_iff (t : TreeBehaviour (LaunchDescriptionEntity ι) γ W)
    (s : LaunchService (Entity (LaunchDescriptionEntity ι) γ)) (hidle : s.status = .idle)
    (w : W) :
    ((s.run t.behaviour true w).service.status = .stopped
        ∧ (s.run t.behaviour true w).service.shutdownRequested = true)
      ↔ ∀ turn w', s.asTree.Reaches t w turn w' → (t.execute turn.leaf.name w').1 = .ok () := by
  rw [run_stops_iff_runLoop hidle]
  rw [runLoop_eq_asTree t s.descriptions 0 [] w]
  exact s.asTree.visit_isOk_iff t w

/-- Processes that only fail when they have no command. -/
def startsCommands : TreeBehaviour (LaunchDescriptionEntity Empty) Empty Unit where
  execute
    | .executeProcess options, w =>
        (if options.cmd.isEmpty then .error ⟨.invalidArgument, "Empty command".toList⟩ else .ok (),
          w)
    | .declareLaunchArgument _, w => (.ok (), w)
  evaluate c _ := c.elim

/-- A service of one launch description with one process. -/
def oneProcess (cmd : List (Option Substitution)) :
    LaunchService (Entity (LaunchDescriptionEntity Empty) Empty) where
  descriptions := [some { entities := [some (.executeProcess { cmd })] }]

theorem run_stops_iff_one :
    (oneProcess [some (textSubstitution "true".toList)]).status = .idle
      ∧ ((oneProcess [some (textSubstitution "true".toList)]).run startsCommands.behaviour
          true ()).service.status = .stopped
      ∧ ((oneProcess [some (textSubstitution "true".toList)]).run startsCommands.behaviour
          true ()).service.shutdownRequested = true := by
  refine ⟨rfl, (run_stops_iff startsCommands
    (oneProcess [some (textSubstitution "true".toList)]) rfl ()).mpr ?_⟩
  intro turn w' hreaches
  obtain rfl := GuardedPrograms.Instruction.run.inj (List.mem_singleton.mp hreaches.mem_turns)
  rfl

/-- A process without a command leaves the service running. -/
theorem run_true_leaves_running :
    (oneProcess []).status = .idle
      ∧ ((oneProcess []).run startsCommands.behaviour true ()).exitCode = 1
      ∧ ¬ (((oneProcess []).run startsCommands.behaviour true ()).service.status = .stopped
        ∧ ((oneProcess []).run startsCommands.behaviour true ()).service.shutdownRequested
          = true) := by
  refine ⟨rfl, rfl, ?_⟩
  rintro ⟨hstatus, -⟩
  cases hstatus

/-- Nothing shuts the service down afterwards but a call of `shutdown`: a
    second run finds it running. -/
theorem run_again {s : LaunchService O} (hidle : s.status = .idle) (b b' : Behaviour O W)
    (w w' : W) (hfailed : (runLoop b 0 s.descriptions w).1 = false) :
    ((s.run b true w).service.run b' true w').exitCode = 1
      ∧ ((s.run b true w).service.run b' true w').service = (s.run b true w).service := by
  rcases run_of_idle hidle b w with ⟨hloop, -, -⟩ | ⟨-, -, hservice⟩
  · rw [hfailed] at hloop
    cases hloop
  · rw [hservice, run]
    rw [if_pos (fun h => by cases h)]
    exact ⟨rfl, rfl⟩

end LaunchService

end LaunchCpp
