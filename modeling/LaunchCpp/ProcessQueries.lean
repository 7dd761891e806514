import LaunchCpp.ProcessLifecycle

/-! # What is reported of a launched process

    `is_running` and `get_return_code`, asked about a child that `execute` has
    launched, in any interleaving of the questions with its exit.  With safety
    a zombie is reported to run, and on both paths whoever has been given the
    pid (`isRunning_right_iff`); the exit status is lost unless
    `Process::wait` was the one to reap the child (`getReturnCode_right_iff`). -/

namespace LaunchCpp

open TransitionSystems

variable {options : ExecuteProcess.Options} {w : World} {pid : ProcessId}

/-! ## Is it running? -/

theorem PosixProcessExecutor.isRunning_iff :
    (isRunning pid w).1 = .ok true ↔ w.pidTaken pid = true := by
  rw [isRunning, World.kill, World.killed, World.refused]
  simp only [ne_eq, not_true_eq_false, false_and, if_false]
  cases w.pidTaken pid with
  | true => cases w.moment.denied <;> exact iff_of_true rfl rfl
  | false => exact iff_of_false (by simp) (by simp)

/-- The poll says that the child is running: it is, or another child of the
    launcher has its pid. -/
def World.SeenRunning (w : World) (pid : ProcessId) : Prop :=
  w.tick.children pid = .running ∨ w.ChildTaken pid

theorem onSafetyPath_actionWith (hpos : 0 < pid) :
    (actionWith options (some pid)).onSafetyPath = options.enableSafety := by
  cases hsafety : options.enableSafety with
  | true => simpa [ExecuteProcess.onSafetyPath, actionWith, hsafety] using hpos.ne'
  | false => simp [ExecuteProcess.onSafetyPath, actionWith, hsafety]

/-- What `is_running` answers: with safety, whether a process has the pid;
    without, whether a child with this pid is running. -/
theorem isRunning_iff (hpos : 0 < pid) :
    ((actionWith options (some pid)).isRunning posixSystem w).1 = true
      ↔ if options.enableSafety then w.pidTaken pid = true else w.SeenRunning pid := by
  rw [ExecuteProcess.isRunning, onSafetyPath_actionWith hpos]
  cases hsafety : options.enableSafety with
  | true =>
      have hid : (actionWith options (some pid)).processId = pid := by
        simp [actionWith, hsafety]
      rw [if_pos rfl, if_pos rfl, ← PosixProcessExecutor.isRunning_iff, hid]
      simp only [posixSystem]
      generalize PosixProcessExecutor.isRunning pid w = answer
      rcases answer with ⟨message | running, w'⟩
      · simp
      · simp
  | false =>
      rw [if_neg (by simp), if_neg (by simp), World.SeenRunning,
        ← World.waitNoHang_eq_zero_iff hpos.ne']
      simp [posixSystem, Process.isRunning]

/-- The system call behind `is_running`. -/
theorem isRunning_world (hpos : 0 < pid) :
    ((actionWith options (some pid)).isRunning posixSystem w).2
      = if options.enableSafety then (w.kill pid 0).2 else (w.waitNoHang pid).2 := by
  rw [ExecuteProcess.isRunning, onSafetyPath_actionWith hpos]
  cases hsafety : options.enableSafety with
  | true =>
      have hid : (actionWith options (some pid)).processId = pid := by
        simp [actionWith, hsafety]
      rw [if_pos rfl, if_pos rfl, hid]
      simp only [posixSystem, PosixProcessExecutor.isRunning]
      generalize w.kill pid 0 = answer
      rcases answer with ⟨_ | errno, w'⟩
      · rfl
      · cases errno <;> rfl
  | false => rfl

/-- A successful `execute` has launched a child. -/
theorem Session.launched {script : Nat → Moment} {s₀ : Session World} {context : LaunchContext}
    {fuel : Nat} (hreach : Steps (Session.Step posixSystem) (Session.start options script) s₀)
    (hstarts : (s₀.execute posixSystem context fuel).result = some (.ok ())) :
    ∃ pid, (Session.after (s₀.execute posixSystem context fuel)).self = actionWith options (some pid)
      ∧ Launched options pid (Session.after (s₀.execute posixSystem context fuel)).world := by
  obtain ⟨process, hpos, hself⟩ := inv_of_steps hreach
  rw [execute, hself] at hstarts ⊢
  have hreturns : ((actionWith options process).execute posixSystem.posix fuel context
      s₀.world).result ≠ none := by
    rw [hstarts]
    exact Option.some_ne_none _
  obtain ⟨w₁, hexecuted, -⟩ := executed hpos fuel context s₀.world hreturns
  exact hexecuted.launched hstarts

/-- A query that is made of a launched process. -/
def Session.Query (s : Session World) (call : Call) (t : Session World) : Prop :=
  call = .isRunning ∧ s.Step posixSystem call t

/-- What queries leave as it is. -/
structure Session.Asked (options : ExecuteProcess.Options) (pid : ProcessId) (s : Session World) :
    Prop where
  pos : 0 < pid
  self_eq : s.self = actionWith options (some pid)
  last : s.world.forked = some pid

theorem Session.Asked.step {s t : Session World} {call : Call} (h : s.Asked options pid)
    (hstep : s.Query call t) : t.Asked options pid := by
  obtain ⟨rfl, hstep⟩ := hstep
  cases hstep with
  | isRunning =>
      refine ⟨h.pos, h.self_eq, ?_⟩
      show (s.self.isRunning posixSystem s.world).2.forked = some pid
      rw [h.self_eq, isRunning_world h.pos]
      split
      · exact h.last
      · rw [World.waitNoHang_forked]
        exact h.last

/-- **`is_running`, asked any number of times about a process that was just
    started**, tells whether that child is running exactly if it is, or if
    nobody has its pid: with safety no process, without it no other running
    child of the launcher. -/
theorem isRunning_right_iff (options : ExecuteProcess.Options) (script : Nat → Moment)
    {s₀ : Session World} (hreach : Steps (Session.Step posixSystem) (Session.start options script) s₀)
    (context : LaunchContext) (fuel : Nat)
    (hstarts : (s₀.execute posixSystem context fuel).result = some (.ok ())) :
    ∃ pid, ∀ s, Steps Session.Query (.after (s₀.execute posixSystem context fuel)) s →
      s.world.forked = some pid
      ∧ (((s.self.isRunning posixSystem s.world).1 = true
            ↔ s.world.tick.children pid = .running)
          ↔ (s.world.tick.children pid ≠ .running →
              if options.enableSafety then s.world.pidTaken pid = false
              else ¬ s.world.ChildTaken pid)) := by
  obtain ⟨pid, hpid, hlaunched⟩ := Session.launched hreach hstarts
  refine ⟨pid, ?_⟩
  intro s hrun
  have hasked : s.Asked options pid := hrun.invariant (fun h hstep => h.step hstep)
    ⟨hlaunched.pos, hpid, hlaunched.last⟩
  refine ⟨hasked.last, ?_⟩
  rw [hasked.self_eq, isRunning_iff hasked.pos]
  cases hsafety : options.enableSafety with
  | false =>
      simp only [Bool.false_eq_true, if_false, World.SeenRunning]
      by_cases hrunning : s.world.tick.children pid = .running
      · simp [hrunning]
      · simp [hrunning]
  | true =>
      simp only [if_true]
      by_cases hrunning : s.world.tick.children pid = .running
      · have htaken : s.world.pidTaken pid = true := by
          simp [World.pidTaken, hrunning, ChildState.holdsPid]
        simp [hrunning, htaken]
      · simp [hrunning]

/-- Queries leave the script as it is. -/
theorem Session.script_of_queries {s t : Session World} (h : s.Asked options pid)
    (hrun : Steps Session.Query s t) : t.world.script = s.world.script := by
  refine (hrun.invariant (P := fun t => t.Asked options pid ∧ t.world.script = s.world.script)
    ?_ ⟨h, rfl⟩).2
  rintro t u call ⟨hasked, hscript⟩ hstep
  refine ⟨hasked.step hstep, ?_⟩
  obtain ⟨rfl, hstep⟩ := hstep
  cases hstep with
  | isRunning =>
      show (t.self.isRunning posixSystem t.world).2.script = _
      rw [hasked.self_eq, isRunning_world hasked.pos, ← hscript]
      split
      · rfl
      · rcases @World.waitNoHang_world t.world pid with hworld | ⟨_, _, hworld⟩ <;>
          rw [hworld] <;> rfl

/-- Without safety, on a system where no pid is given out a second time. -/
theorem isRunning_right_fork : ∃ pid, ∀ s, Steps Session.Query
    (.after ((Session.start
        { cmd := [some (textSubstitution "true".toList)], output := "log".toList }
        (fun _ => { forked := .ok 7 })).execute posixSystem LaunchContext.empty 1)) s →
    s.world.forked = some pid
    ∧ ((s.self.isRunning posixSystem s.world).1 = true
      ↔ s.world.tick.children pid = .running) := by
  obtain ⟨pid, hright⟩ := isRunning_right_iff
    { cmd := [some (textSubstitution "true".toList)], output := "log".toList }
    (fun _ => { forked := .ok 7 }) .refl LaunchContext.empty 1 (by decide +kernel)
  obtain ⟨pid', hself, hlaunched⟩ := @Session.launched
    { cmd := [some (textSubstitution "true".toList)], output := "log".toList }
    (fun _ => { forked := .ok 7 }) _ LaunchContext.empty 1 .refl (by decide +kernel)
  refine ⟨pid, ?_⟩
  intro s hrun
  obtain ⟨hlast, hanswer⟩ := hright s hrun
  have hscript : s.world.script = fun _ => { forked := .ok 7 } :=
    Session.script_of_queries ⟨hlaunched.pos, hself, hlaunched.last⟩ hrun
  refine ⟨hlast, hanswer.mpr (fun _ => ?_)⟩
  rintro ⟨-, htaken⟩
  rw [World.moment, hscript] at htaken
  cases htaken

/-- A child that wrote to the log and has exited is still reported running. -/
theorem isRunning_right_log : ∃ s, Steps (Session.Step posixSystem)
    (Session.start
      { cmd := [some (textSubstitution "true".toList)], output := "log".toList
        enableSafety := true }
      (fun n =>
        { forked := .ok 7, exits := fun _ => if n = 2 then some (.exited 0) else none })) s
    ∧ s.world.forked = some 7
    ∧ ¬ ((s.self.isRunning posixSystem s.world).1 = true
        ↔ s.world.tick.children 7 = .running) :=
  ⟨_, Steps.single (@Session.Step.execute _ posixSystem _ LaunchContext.empty 1 (by decide +kernel)),
    by decide +kernel, by decide +kernel⟩

/-! ## The return code -/

/-- A question about the process. -/
inductive Inquiry where
  | isRunning
  | getPid
  | getReturnCode

/-- The last child has exited. -/
def World.childExited (w : World) : Bool :=
  w.forked.any (fun pid => (w.children pid).status.isSome)

/-- What an inquiry does, together with whether its caller has been told that
    the child has exited: `is_running` tells so by answering `false`. -/
inductive Session.Inquired : Session World × Bool → Inquiry → Session World × Bool → Prop where
  | isRunning {s : Session World} {told : Bool} :
      Inquired (s, told) .isRunning
        (⟨s.self, (s.self.isRunning posixSystem s.world).2⟩,
          told || (!(s.self.isRunning posixSystem s.world).1
            && (s.self.isRunning posixSystem s.world).2.childExited))
  | getPid {s : Session World} {told : Bool} : Inquired (s, told) .getPid (s, told)
  | getReturnCode {s : Session World} {told : Bool} : Inquired (s, told) .getReturnCode (s, told)

/-- What inquiries about a launched process keep: who waited for it knows its
    status, otherwise only the query without safety reaps it and then tells. -/
structure Session.Told (options : ExecuteProcess.Options) (pid : ProcessId)
    (s : Session World × Bool) : Prop where
  pos : 0 < pid
  self_eq : s.1.self = actionWith options (some pid)
  last : s.1.world.forked = some pid
  waited : options.output = "screen".toList → s.2 = true
    ∧ ∃ status, s.1.world.children pid = .reaped status
      ∧ (options.enableSafety = true → s.1.world.returnCode pid = -1)
      ∧ (options.enableSafety = false →
          ∀ code : UInt8, status = .exited code → s.1.world.returnCode pid = code.toNat)
  started : options.output ≠ "screen".toList → s.1.world.returnCode pid = -1
    ∧ s.2 = (s.1.world.children pid).isReaped
    ∧ (options.enableSafety = true → (s.1.world.children pid).isReaped = false)

theorem Launched.told (h : Launched options pid w) {self : ExecuteProcess World}
    (hself : self = actionWith options (some pid)) :
    Session.Told options pid (⟨self, w⟩, decide (options.output = "screen".toList)) := by
  refine ⟨h.pos, hself, h.last, fun hscreen => ⟨?_, h.waited hscreen⟩, ?_⟩
  · exact decide_eq_true hscreen
  · intro hother
    obtain ⟨hrunning, hcode⟩ := h.started hother
    refine ⟨hcode, ?_, ?_⟩
    · rw [decide_eq_false hother, hrunning]
      rfl
    · intro _
      rw [hrunning]
      rfl

/-- A reaped child stays as it is. -/
theorem World.children_of_isReaped {status : ExitStatus} (h : w.children pid = .reaped status) :
    w.tick.children pid = .reaped status := by
  show exit w.moment pid (w.children pid) = .reaped status
  rw [h]
  rfl

/-- What a poll makes of the child it finds. -/
theorem World.waitNoHang_children : (w.waitNoHang pid).2.children pid
    = match w.tick.children pid with
      | .zombie status => .reaped status
      | state => state := by
  rw [waitNoHang]
  cases hc : w.tick.children pid with
  | zombie status => exact Function.update_self pid _ _
  | running => exact hc
  | noChild => cases w.moment.stranger <;> exact hc
  | reaped status => cases w.moment.stranger <;> exact hc

/-- With safety `is_running` leaves the child alone, and has something to tell
    only when it was reaped before. -/
theorem Session.Told.safety {told : Bool} {self : ExecuteProcess World}
    (h : Told options pid (⟨self, w⟩, told)) (hsafety : options.enableSafety = true)
    (hother : options.output ≠ "screen".toList) :
    ((w.kill pid 0).2.children pid).isReaped = false
    ∧ (w.pidTaken pid = true ∨ (w.kill pid 0).2.childExited = false) := by
  have hreaped : (w.tick.children pid).isReaped = false := by
    rw [World.isReaped_tick]
    exact (h.started hother).2.2 hsafety
  refine ⟨hreaped, ?_⟩
  have hlast : (w.kill pid 0).2.forked = some pid := h.last
  have hchildren : (w.kill pid 0).2.children pid = w.tick.children pid := rfl
  rw [World.childExited, hlast, Option.any_some, hchildren, World.pidTaken]
  cases hc : w.tick.children pid with
  | running => exact Or.inl rfl
  | zombie status => exact Or.inl rfl
  | noChild => exact Or.inr rfl
  | reaped status => simp [hc, ChildState.isReaped] at hreaped

/-- Without it the poll that finds the child gone reaps it; a poll that finds
    another child with its pid tells nothing new. -/
theorem Session.Told.poll {told answer : Bool} {self : ExecuteProcess World}
    (h : Told options pid (⟨self, w⟩, told)) (hother : options.output ≠ "screen".toList)
    (hanswer : answer = true ↔ w.SeenRunning pid) :
    (told || (!answer && (w.waitNoHang pid).2.childExited))
      = ((w.waitNoHang pid).2.children pid).isReaped := by
  have hlast : (w.waitNoHang pid).2.forked = some pid := by
    rw [World.waitNoHang_forked]
    exact h.last
  have htold : told = (w.tick.children pid).isReaped := by
    rw [World.isReaped_tick]
    exact (h.started hother).2.1
  rw [World.SeenRunning, World.ChildTaken, ← World.holdsPid_tick] at hanswer
  rw [World.childExited, hlast, Option.any_some, World.waitNoHang_children, htold]
  cases hc : w.tick.children pid with
  | running =>
      rw [hc] at hanswer
      rw [hanswer.mpr (Or.inl rfl)]
      rfl
  | zombie status =>
      rw [hc] at hanswer
      have hfalse : answer = false := by
        by_contra htrue
        rcases hanswer.mp (Bool.eq_true_of_not_eq_false htrue) with h | h
        · cases h
        · cases h.1
      rw [hfalse]
      rfl
  | noChild => exact Bool.and_false _
  | reaped status => exact Bool.true_or _

/-- The query with safety. -/
theorem Session.Told.asked {told : Bool}
    (h : Told options pid (⟨actionWith options (some pid), w⟩, told))
    (hsafety : options.enableSafety = true) :
    Told options pid (⟨actionWith options (some pid), (w.kill pid 0).2⟩,
      told || (!w.pidTaken pid && (w.kill pid 0).2.childExited)) := by
  refine ⟨h.pos, rfl, h.last, ?_, ?_⟩
  · intro hscreen
    obtain ⟨htold, status, hreaped, hcode⟩ := h.waited hscreen
    refine ⟨?_, status, World.children_of_isReaped hreaped, hcode⟩
    rw [show told = true from htold, Bool.true_or]
  · intro hother
    obtain ⟨hkept, htell⟩ := h.safety hsafety hother
    obtain ⟨hcode, htold, hnot⟩ := h.started hother
    refine ⟨hcode, ?_, fun _ => hkept⟩
    rw [show told = (w.children pid).isReaped from htold, hnot hsafety, hkept]
    rcases htell with htaken | hexited
    · simp [htaken]
    · simp [hexited]

/-- The query without it. -/
theorem Session.Told.polled {told answer : Bool}
    (h : Told options pid (⟨actionWith options (some pid), w⟩, told))
    (hsafety : options.enableSafety = false) (hanswer : answer = true ↔ w.SeenRunning pid) :
    Told options pid (⟨actionWith options (some pid), (w.waitNoHang pid).2⟩,
      told || (!answer && (w.waitNoHang pid).2.childExited)) := by
  refine ⟨h.pos, rfl, ?_, ?_, ?_⟩
  · exact World.waitNoHang_forked.trans h.last
  · intro hscreen
    obtain ⟨htold, status, hreaped, hcode⟩ := h.waited hscreen
    refine ⟨?_, status, ?_, ?_⟩
    · rw [show told = true from htold, Bool.true_or]
    · rw [World.waitNoHang_children, World.children_of_isReaped hreaped]
    · rw [World.waitNoHang_returnCode]
      exact hcode
  · intro hother
    refine ⟨?_, h.poll hother hanswer, ?_⟩
    · rw [World.waitNoHang_returnCode]
      exact (h.started hother).1
    · intro hon
      rw [hsafety] at hon
      cases hon

theorem Session.Told.step {s t : Session World × Bool} {inquiry : Inquiry}
    (h : Told options pid s) (hstep : Inquired s inquiry t) : Told options pid t := by
  cases hstep with
  | getPid => exact h
  | getReturnCode => exact h
  | @isRunning s told =>
      obtain ⟨self, w⟩ := s
      have hself : self = actionWith options (some pid) := h.self_eq
      subst hself
      have hworld : ((actionWith options (some pid)).isRunning posixSystem w).2
          = if options.enableSafety then (w.kill pid 0).2 else (w.waitNoHang pid).2 :=
        isRunning_world h.pos
      have hanswer : ((actionWith options (some pid)).isRunning posixSystem w).1 = true
          ↔ if options.enableSafety then w.pidTaken pid = true else w.SeenRunning pid :=
        isRunning_iff h.pos
      cases hsafety : options.enableSafety with
      | true =>
          rw [hsafety, if_pos rfl] at hworld hanswer
          simp only
          rw [Bool.eq_iff_iff.mpr hanswer, hworld]
          exact h.asked hsafety
      | false =>
          rw [hsafety, if_neg (by simp)] at hworld hanswer
          simp only
          rw [hworld]
          exact h.polled hsafety hanswer

theorem getReturnCode_eq (pid : ProcessId) (w : World) :
    (actionWith options (some pid)).getReturnCode posixSystem w = .ok (w.returnCode pid) := by
  rw [ExecuteProcess.getReturnCode]
  split <;> rfl

/-- **The return code.**  After a successful `execute`, whatever is asked: who
    has been told that the child has exited, and asks for the return code,
    gets it exactly if `Process::wait` has collected it (output to the screen,
    no safety); with other output the answer is only right as long as nobody
    has been told, that is until `is_running` has reaped the child. -/
theorem getReturnCode_right_iff (options : ExecuteProcess.Options) (script : Nat → Moment)
    {s₀ : Session World} (hreach : Steps (Session.Step posixSystem) (Session.start options script) s₀)
    (context : LaunchContext) (fuel : Nat)
    (hstarts : (s₀.execute posixSystem context fuel).result = some (.ok ())) :
    ∃ pid, ∀ s told, Steps Session.Inquired
        (.after (s₀.execute posixSystem context fuel), decide (options.output = "screen".toList))
        (s, told) →
      s.world.forked = some pid
      ∧ ∀ code : UInt8, (s.world.children pid).status = some (.exited code) →
        ((told = true → s.self.getReturnCode posixSystem s.world = .ok code.toNat)
          ↔ if options.output = "screen".toList then options.enableSafety = false
            else (s.world.children pid).isReaped = false) := by
  obtain ⟨pid, hpid, hlaunched⟩ := Session.launched hreach hstarts
  refine ⟨pid, ?_⟩
  intro s told hrun
  have htold : Session.Told options pid (s, told) :=
    hrun.invariant (fun h hstep => h.step hstep) (hlaunched.told hpid)
  refine ⟨htold.last, ?_⟩
  intro code hexited
  have hself : s.self = actionWith options (some pid) := htold.self_eq
  rw [hself, getReturnCode_eq]
  have hminus : ∀ {r : Int}, r = -1 →
      ¬ (Except.ok r : Result Int) = .ok (code.toNat : Int) := by
    intro r hr heq
    have := Except.ok.inj heq
    omega
  by_cases hscreen : options.output = "screen".toList
  · rw [if_pos hscreen]
    obtain ⟨hinformed, status, hreaped, hon, hoff⟩ := htold.waited hscreen
    have hstatus : status = .exited code := by
      have hexited' : (s.world.children pid).status = some (.exited code) := hexited
      rw [show s.world.children pid = .reaped status from hreaped] at hexited'
      exact Option.some.inj hexited'
    rw [imp_iff_right hinformed]
    cases hsafety : options.enableSafety with
    | true => exact iff_of_false (hminus (hon hsafety)) (by simp)
    | false => exact iff_of_true (congrArg Except.ok (hoff hsafety code hstatus)) rfl
  · rw [if_neg hscreen]
    obtain ⟨hcode, hinformed, -⟩ := htold.started hscreen
    rw [show told = (s.world.children pid).isReaped from hinformed]
    cases (s.world.children pid).isReaped with
    | true => exact iff_of_false (fun h => hminus hcode (h rfl)) (by simp)
    | false => exact iff_of_true (fun h => by cases h) rfl

theorem getReturnCode_right_fork : ∃ pid, ∀ s told, Steps Session.Inquired
    (.after ((Session.start
        { cmd := [some (textSubstitution "true".toList)], output := "screen".toList }
        (fun _ => { forked := .ok 7, ended := .exited 3 })).execute posixSystem LaunchContext.empty 1),
      true) (s, told) →
    s.world.forked = some pid
    ∧ ∀ code : UInt8, (s.world.children pid).status = some (.exited code) → told = true →
      s.self.getReturnCode posixSystem s.world = .ok code.toNat := by
  obtain ⟨pid, hright⟩ := getReturnCode_right_iff
    { cmd := [some (textSubstitution "true".toList)], output := "screen".toList }
    (fun _ => { forked := .ok 7, ended := .exited 3 }) .refl LaunchContext.empty 1
    (by decide +kernel)
  refine ⟨pid, ?_⟩
  intro s told hrun
  obtain ⟨hlast, hcode⟩ := hright s told hrun
  exact ⟨hlast, fun code hexited => (hcode code hexited).mpr rfl⟩

/-- With safety nobody keeps the status of a child that was waited for. -/
theorem getReturnCode_right_safety : ∃ s, Steps (Session.Step posixSystem)
    (Session.start
      { cmd := [some (textSubstitution "true".toList)], output := "screen".toList
        enableSafety := true }
      (fun _ => { forked := .ok 7, ended := .exited 3 })) s
    ∧ s.world.forked = some 7 ∧ (s.world.children 7).status = some (.exited 3)
    ∧ s.self.getReturnCode posixSystem s.world ≠ .ok 3 :=
  ⟨_, Steps.single (@Session.Step.execute _ posixSystem _ LaunchContext.empty 1 (by decide +kernel)),
    by decide +kernel, by decide +kernel, by decide +kernel⟩

end LaunchCpp
