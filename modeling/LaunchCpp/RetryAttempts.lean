import LaunchCpp.RegisteredNodes
import Mathlib.Data.List.Chain

/-! # The attempts of `execute_with_retry`

    `recordedLoop` is the retry loop with a record of its attempts: the
    counter, and the state each of them starts in.  A run that returns is a
    derivation of `Retried`, whose steps are clean-ups (`Attempt.Next`); what
    holds of such a run is proved by induction on it.  Every error of an
    attempt may be retried, so the only way out without a process is the limit
    (`retryLoop_outcome`).  The counter is a `uint32_t`: the limit ends the
    loop unless it is the largest of them (`retryLoop_terminates_iff`). -/

namespace LaunchCpp

namespace ExecuteProcess

/-- An attempt of the retry loop: the counter, and what it starts from. -/
structure Attempt (W : Type*) where
  attempt : Nat
  self : ExecuteProcess W
  world : W

variable {W : Type*}

section Loop

variable (posix : Posix W) (cmd : List Str)

/-- The run an attempt is. -/
def Attempt.run (a : Attempt W) : Run W := a.self.executeSingleAttempt posix cmd a.world

def Attempt.Succeeds (a : Attempt W) : Prop := (a.run posix cmd).result = some (.ok ())

def Attempt.Fails (a : Attempt W) : Prop := ∃ e, (a.run posix cmd).result = some (.error e)

/-- The action and the world after the clean-up behind an attempt. -/
def Attempt.cleaned (a : Attempt W) : ExecuteProcess W × W :=
  (a.run posix cmd).self.cleanupBeforeRetry posix (a.run posix cmd).world

/-- `retryLoop`, with a record of its attempts. -/
def recordedLoop : Nat → Nat → ExecuteProcess W → W → List (Attempt W) × Run W
  | 0, _, self, w => ([], { result := none, self, world := w })
  | fuel + 1, attempt, self, w =>
      let last := self.executeSingleAttempt posix cmd w
      match last.result with
      | some (.error e) =>
          let next := (attempt + 1) % 2 ^ 32
          if self.options.maxRetries < next then
            ([⟨attempt, self, w⟩],
              { last with result := some (.error ⟨.maxRetriesExceeded,
                  "Max retry attempts exceeded".toList⟩) })
          else if ¬ isRetryableError e.code then ([⟨attempt, self, w⟩], last)
          else
            match last.self.cleanupBeforeRetry posix last.world with
            | (self', w') =>
                match recordedLoop fuel next self' w' with
                | (attempts, run) =>
                    (⟨attempt, self, w⟩ :: attempts,
                      { run with
                        started := last.started ++ run.started
                        starts := last.starts ++ run.starts })
      | _ => ([⟨attempt, self, w⟩], last)

/-- The attempts of a run of the loop, in their order. -/
def attempts (fuel attempt : Nat) (self : ExecuteProcess W) (w : W) : List (Attempt W) :=
  (recordedLoop posix cmd fuel attempt self w).1

variable {posix cmd}

/-- The record changes nothing about the loop. -/
theorem recordedLoop_run (fuel attempt : Nat) (self : ExecuteProcess W) (w : W) :
    (recordedLoop posix cmd fuel attempt self w).2 = retryLoop posix cmd fuel attempt self w := by
  induction fuel generalizing attempt self w with
  | zero => rfl
  | succ fuel ih =>
      rw [recordedLoop, retryLoop]
      rcases executeSingleAttempt_cases posix self cmd w with
        ⟨⟨e, hresult⟩, -, -⟩ | ⟨hresult, -⟩
      · simp only [hresult]
        by_cases hlimit : self.options.maxRetries < (attempt + 1) % 2 ^ 32
        · rw [if_pos hlimit, if_pos hlimit]
        · rw [if_neg hlimit, if_neg hlimit]
          by_cases hretryable : ¬ isRetryableError e.code
          · rw [if_pos hretryable, if_pos hretryable]
          · rw [if_neg hretryable, if_neg hretryable, ← ih]
      · simp only [hresult]

/-- Whatever goes wrong in an attempt, it may be retried. -/
theorem executeSingleAttempt_retryable {self : ExecuteProcess W} {w : W} {e : Error}
    (h : (self.executeSingleAttempt posix cmd w).result = some (.error e)) :
    isRetryableError e.code = true := by
  have hspawn : e.code = .processSpawnFailed := by
    rw [executeSingleAttempt] at h
    split at h
    · cases h
      rfl
    · split at h
      · simp only at h
        split at h
        · cases h
          rfl
        · cases h
      · simp only at h
        split at h
        · cases h
          rfl
        · cases h
  rw [isRetryableError, hspawn]
  rfl

theorem Attempt.fails_or_succeeds (a : Attempt W) : a.Fails posix cmd ∨ a.Succeeds posix cmd := by
  rcases executeSingleAttempt_cases posix a.self cmd a.world with ⟨hfails, -, -⟩ | ⟨hsucceeds, -⟩
  · exact Or.inl hfails
  · exact Or.inr hsucceeds

/-- A failed attempt stores no process. -/
theorem Attempt.Fails.self_eq {a : Attempt W} (h : a.Fails posix cmd) :
    (a.run posix cmd).self = a.self := by
  rcases executeSingleAttempt_cases posix a.self cmd a.world with ⟨-, hself, -⟩ | ⟨hsucceeds, -⟩
  · exact hself
  · obtain ⟨e, he⟩ := h
    rw [Attempt.run, hsucceeds] at he
    cases he

theorem Attempt.Fails.not_succeeds {a : Attempt W} (h : a.Fails posix cmd) :
    ¬ a.Succeeds posix cmd := by
  intro hsucceeds
  obtain ⟨e, he⟩ := h
  rw [Attempt.Succeeds, he] at hsucceeds
  cases hsucceeds

/-- The next attempt: the counter is one higher, unless it wraps, and within
    the limit, and what was left behind has been cleaned up. -/
structure Attempt.Next (posix : Posix W) (cmd : List Str) (a b : Attempt W) : Prop where
  fails : a.Fails posix cmd
  attempt : b.attempt = (a.attempt + 1) % 2 ^ 32
  limit : b.attempt ≤ a.self.options.maxRetries
  cleaned : (b.self, b.world) = a.cleaned posix cmd

theorem Attempt.Next.self_eq {a b : Attempt W} (h : Next posix cmd a b) :
    b.self = { a.self with process := none, processId := 0 } := by
  have hself : b.self = (a.cleaned posix cmd).1 := congrArg Prod.fst h.cleaned
  rw [hself, ← h.fails.self_eq]
  rfl

/-- **A run of the loop that returns**: its attempts, its result, and the
    action it leaves behind. -/
inductive Retried (posix : Posix W) (cmd : List Str) :
    Attempt W → List (Attempt W) → Result Unit → ExecuteProcess W → Prop where
  | succeeded {a : Attempt W} (hsucceeds : a.Succeeds posix cmd) :
      Retried posix cmd a [a] (.ok ()) (a.run posix cmd).self
  | exceeded {a : Attempt W} (hfails : a.Fails posix cmd)
      (hlimit : a.self.options.maxRetries < (a.attempt + 1) % 2 ^ 32) :
      Retried posix cmd a [a]
        (.error ⟨.maxRetriesExceeded, "Max retry attempts exceeded".toList⟩) a.self
  | retried {a b : Attempt W} {attempts : List (Attempt W)} {result : Result Unit}
      {self : ExecuteProcess W} (hnext : a.Next posix cmd b)
      (hrest : Retried posix cmd b attempts result self) :
      Retried posix cmd a (a :: attempts) result self

theorem retried {fuel attempt : Nat} {self : ExecuteProcess W} {w : W} {result : Result Unit}
    (hresult : (retryLoop posix cmd fuel attempt self w).result = some result) :
    Retried posix cmd ⟨attempt, self, w⟩ (attempts posix cmd fuel attempt self w) result
      (retryLoop posix cmd fuel attempt self w).self := by
  rw [← recordedLoop_run] at hresult ⊢
  rw [attempts]
  induction fuel generalizing attempt self w with
  | zero => cases hresult
  | succ fuel ih =>
      rw [recordedLoop] at hresult ⊢
      have hcases : Attempt.Fails posix cmd ⟨attempt, self, w⟩
          ∨ Attempt.Succeeds posix cmd ⟨attempt, self, w⟩ := Attempt.fails_or_succeeds _
      rcases hcases with hfails | hsucceeds
      · obtain ⟨e, he⟩ := hfails
        have hretryable := executeSingleAttempt_retryable he
        rw [Attempt.run] at he
        simp only [he] at hresult ⊢
        by_cases hlimit : self.options.maxRetries < (attempt + 1) % 2 ^ 32
        · rw [if_pos hlimit] at hresult ⊢
          cases hresult
          have hself := Attempt.Fails.self_eq (a := ⟨attempt, self, w⟩) ⟨e, he⟩
          have hexceeded := Retried.exceeded (a := ⟨attempt, self, w⟩) ⟨e, he⟩ hlimit
          rw [← hself] at hexceeded
          exact hexceeded
        · rw [if_neg hlimit, if_neg (not_not_intro hretryable)] at hresult ⊢
          exact .retried ⟨⟨e, he⟩, rfl, Nat.not_lt.mp hlimit, rfl⟩ (ih hresult)
      · have hok := hsucceeds
        rw [Attempt.Succeeds, Attempt.run] at hok
        simp only [hok] at hresult ⊢
        cases hresult
        exact .succeeded hsucceeds

namespace Retried

variable {a : Attempt W} {attempts : List (Attempt W)} {result : Result Unit}
  {self : ExecuteProcess W}

/-- All attempts but the last have failed; the last decides. -/
theorem last_decides (h : Retried posix cmd a attempts result self) :
    ∃ failed last, attempts = failed ++ [last] ∧ (∀ b ∈ failed, b.Fails posix cmd)
      ∧ (result = .ok () ↔ last.Succeeds posix cmd) := by
  induction h with
  | succeeded hsucceeds =>
      exact ⟨[], _, rfl, List.forall_mem_nil _, fun _ => hsucceeds, fun _ => rfl⟩
  | exceeded hfails _ =>
      refine ⟨[], _, rfl, List.forall_mem_nil _, ?_⟩
      constructor
      · intro h
        cases h
      · intro hsucceeds
        exact absurd hsucceeds hfails.not_succeeds
  | @retried a b attempts result self hnext hrest ih =>
      obtain ⟨failed, last, rfl, hfailed, hlast⟩ := ih
      exact ⟨a :: failed, last, rfl, List.forall_mem_cons.mpr ⟨hnext.fails, hfailed⟩, hlast⟩

/-- An error is that of the limit, and leaves the action as the last clean-up
    left it, unless the first attempt was already the last. -/
theorem exhausted {e : Error} (h : Retried posix cmd a attempts (.error e) self) :
    e.code = .maxRetriesExceeded
      ∧ ((self = a.self ∧ a.self.options.maxRetries < (a.attempt + 1) % 2 ^ 32)
        ∨ (self.process = none ∧ self.processId = 0)) := by
  generalize hresult : (Except.error e : Result Unit) = result at h
  induction h with
  | succeeded _ => cases hresult
  | exceeded _ hlimit =>
      cases hresult
      exact ⟨rfl, Or.inl ⟨rfl, hlimit⟩⟩
  | retried hnext _ ih =>
      obtain ⟨hcode, ⟨hself, -⟩ | hclean⟩ := ih hresult
      · rw [hself, hnext.self_eq]
        exact ⟨hcode, Or.inr ⟨rfl, rfl⟩⟩
      · exact ⟨hcode, Or.inr hclean⟩

/-- What consecutive attempts have in common: a transitive relation that every
    step establishes, given what every step preserves, relates any two. -/
theorem pairwise {P : Attempt W → Prop} {R : Attempt W → Attempt W → Prop}
    (htrans : ∀ {a b c}, R a b → R b c → R a c)
    (hstep : ∀ {a b}, P a → a.Next posix cmd b → P b ∧ R a b)
    (h : Retried posix cmd a attempts result self) (ha : P a) :
    attempts.Pairwise R ∧ ∀ b ∈ attempts, b = a ∨ R a b := by
  induction h with
  | succeeded _ => exact ⟨List.pairwise_singleton _ _, fun b hb => Or.inl (List.mem_singleton.mp hb)⟩
  | exceeded _ _ => exact ⟨List.pairwise_singleton _ _, fun b hb => Or.inl (List.mem_singleton.mp hb)⟩
  | @retried a b attempts result self hnext _ ih =>
      obtain ⟨hb, hab⟩ := hstep ha hnext
      obtain ⟨hpairwise, hfirst⟩ := ih hb
      have hall : ∀ c ∈ attempts, R a c := by
        intro c hc
        rcases hfirst c hc with rfl | hbc
        · exact hab
        · exact htrans hab hbc
      refine ⟨List.pairwise_cons.mpr ⟨hall, hpairwise⟩, ?_⟩
      intro c hc
      rcases List.mem_cons.mp hc with rfl | hc
      · exact Or.inl rfl
      · exact Or.inr (hall c hc)

/-- Within the range of the counter it numbers the attempts. -/
theorem counters {e : Error} (h : Retried posix cmd a attempts (.error e) self)
    (hmax : a.self.options.maxRetries + 1 < 2 ^ 32)
    (hattempt : a.attempt ≤ a.self.options.maxRetries) :
    attempts.map Attempt.attempt
      = List.range' a.attempt (a.self.options.maxRetries + 1 - a.attempt) := by
  generalize hresult : (Except.error e : Result Unit) = result at h
  induction h with
  | succeeded _ => cases hresult
  | @exceeded a _ hlimit =>
      rw [Nat.mod_eq_of_lt (by omega)] at hlimit
      have hone : a.self.options.maxRetries + 1 - a.attempt = 1 := by omega
      rw [hone]
      rfl
  | @retried a b attempts result self hnext _ ih =>
      have hoptions : b.self.options = a.self.options := by rw [hnext.self_eq]
      have hcounter : b.attempt = a.attempt + 1 := by
        rw [hnext.attempt]
        exact Nat.mod_eq_of_lt (by omega)
      have hlimit := hnext.limit
      have hrest := ih (by rw [hoptions]; exact hmax) (by rw [hoptions]; exact hlimit) hresult
      rw [hoptions, hcounter] at hrest
      have hcount : a.self.options.maxRetries + 1 - a.attempt
          = a.self.options.maxRetries + 1 - (a.attempt + 1) + 1 := by omega
      rw [List.map_cons, hrest, hcount]
      rfl

/-- The limit is exceeded only by a counter that has not wrapped around. -/
theorem limit_lt {e : Error} (h : Retried posix cmd a attempts (.error e) self) :
    a.self.options.maxRetries + 1 < 2 ^ 32 := by
  generalize hresult : (Except.error e : Result Unit) = result at h
  induction h with
  | succeeded _ => cases hresult
  | @exceeded a _ hlimit =>
      have hlt : (a.attempt + 1) % 2 ^ 32 < 2 ^ 32 := Nat.mod_lt _ (by omega)
      omega
  | @retried a b attempts result self hnext _ ih =>
      have hoptions : b.self.options = a.self.options := by rw [hnext.self_eq]
      rw [← hoptions]
      exact ih hresult

end Retried

end Loop

/-! ## What the attempts of an action find -/

section Registered

open TransitionSystems

variable {V : Type*} {sys : System V} {cmd : List Str} {registry : Option (Registry V)}
  {parts : Parts V (Finset Nat)}

/-- What is not registered in front of an attempt, or was held by the action
    there, is not registered in front of a later one. -/
def Released (registry : Option (Registry V))
    (a b : Attempt (Watched V (Finset Nat))) : Prop :=
  b.self.process = none ∧ b.self.processId = 0
    ∧ (registry ≠ none → ∀ n, n ∉ a.world.nodes
        ∨ (a.self.processId ≠ 0 ∧ n = toUint32 a.self.processId) → n ∉ b.world.nodes)

theorem Released.trans {a b c : Attempt (Watched V (Finset Nat))} (h : Released registry a b)
    (h' : Released registry b c) : Released registry a c := by
  obtain ⟨-, -, hab⟩ := h
  obtain ⟨hprocess, hpid, hbc⟩ := h'
  refine ⟨hprocess, hpid, ?_⟩
  intro hsome n hn
  exact hbc hsome n (Or.inl (hab hsome n hn))

theorem unregister_nodes (hparts : parts.watchdog = registry.map Registry.watchdog)
    (hsome : registry ≠ none) {process : Option ProcessId} {processId : ProcessId}
    {w : Watched V (Finset Nat)} {n : Nat}
    (hn : n ∉ w.nodes ∨ (processId ≠ 0 ∧ n = toUint32 processId)) :
    n ∉ ((parts.action process processId).unregister w).nodes := by
  rw [unregister]
  simp only [Parts.action, hparts]
  cases registry with
  | none => exact absurd rfl hsome
  | some registry =>
      simp only [Option.map_some]
      rcases hn with hn | ⟨hpid, rfl⟩
      · split
        · exact fun h => hn (Finset.mem_of_mem_erase h)
        · exact hn
      · rw [if_pos hpid]
        exact Finset.notMem_erase _ _

/-- One clean-up. -/
theorem Attempt.Next.released (hparts : parts.watchdog = registry.map Registry.watchdog)
    {a b : Attempt (Watched V (Finset Nat))}
    (ha : ∃ process processId, a.self = parts.action process processId)
    (h : Next (Framed.system sys).posix cmd a b) :
    (∃ process processId, b.self = parts.action process processId) ∧ Released registry a b := by
  obtain ⟨process, processId, ha⟩ := ha
  have hself : b.self = parts.action none 0 := by
    rw [h.self_eq, ha]
    rfl
  refine ⟨⟨none, 0, hself⟩, ?_⟩
  rw [Released, hself]
  refine ⟨rfl, rfl, ?_⟩
  intro hsome n hn
  -- the attempt has failed, and did nothing to the nodes
  have hsame : Framed.Same a.world (a.run (Framed.system sys).posix cmd).world := by
    have htried : Parts.Tried parts process processId cmd a.world
        (a.run (Framed.system sys).posix cmd) := by
      rw [Attempt.run, ha]
      exact Parts.tried
    cases htried with
    | unhanded _ _ hsame => exact hsame
    | handed _ hresult => exact absurd hresult h.fails.not_succeeds
  have hworld : b.world = (a.cleaned (Framed.system sys).posix cmd).2 :=
    congrArg Prod.snd h.cleaned
  rw [hworld, Attempt.cleaned, h.fails.self_eq, cleanupBeforeRetry_eq]
  rw [ha] at hn ⊢
  refine unregister_nodes hparts hsome ?_
  have hleft : Framed.Same a.world ((parts.action process processId).endLeftover
      (Framed.system sys).posix (a.run (Framed.system sys).posix cmd).world) :=
    hsame.trans endLeftover_same
  rw [hleft.nodes]
  exact hn

/-- An action under a registry, whatever it was used for before. -/
def withHistory (registry : Option (Registry V)) (options : Options)
    (executor : Option (ProcessExecutor V)) (monitor : Option (ResourceMonitor V))
    (process : Option ProcessId) (processId : ProcessId) :
    ExecuteProcess (Watched V (Finset Nat)) :=
  (Registry.parts registry options executor monitor).action process processId

/-- Without a process there is nothing to ask about. -/
theorem idle_queries {W : Type*} {self : ExecuteProcess W} (sys : System W)
    (hprocess : self.process = none) (hpid : self.processId = 0) :
    (∀ w, (self.isRunning sys w).1 = false) ∧ ∃ e, self.getPid = .error e := by
  constructor
  · intro w
    rw [isRunning, onSafetyPath, hprocess, hpid]
    simp only [ne_eq, not_true_eq_false, decide_false, Bool.and_false, Bool.false_eq_true,
      if_false]
  · rw [getPid, hprocess, hpid]
    rw [if_neg (fun h => h.2 rfl)]
    exact ⟨_, rfl⟩

/-- **The outcome of the retry loop.**  When it returns, the last attempt
    decides, all others have failed; an error is that of the limit and leaves
    no process behind; and every attempt but the first finds neither a process
    nor a pid, and what an earlier one held no longer with the watchdog. -/
theorem retryLoop_outcome (sys : System V) (registry : Option (Registry V)) (options : Options)
    (executor : Option (ProcessExecutor V)) (monitor : Option (ResourceMonitor V))
    (process : Option ProcessId) (processId : ProcessId) (cmd : List Str) (fuel : Nat)
    (w : Watched V (Finset Nat)) (hretries : 0 < options.maxRetries)
    (hreturns : (retryLoop (Framed.system sys).posix cmd fuel 0
      (withHistory registry options executor monitor process processId) w).result ≠ none) :
    ∃ failed last,
      attempts (Framed.system sys).posix cmd fuel 0
          (withHistory registry options executor monitor process processId) w = failed ++ [last]
      ∧ (∀ b ∈ failed, b.Fails (Framed.system sys).posix cmd)
      ∧ ((retryLoop (Framed.system sys).posix cmd fuel 0
            (withHistory registry options executor monitor process processId) w).result
          = some (.ok ()) ↔ last.Succeeds (Framed.system sys).posix cmd)
      ∧ (∀ e, (retryLoop (Framed.system sys).posix cmd fuel 0
            (withHistory registry options executor monitor process processId) w).result
          = some (.error e) →
          e.code = .maxRetriesExceeded
          ∧ (retryLoop (Framed.system sys).posix cmd fuel 0
              (withHistory registry options executor monitor process processId) w).self.process
            = none
          ∧ (retryLoop (Framed.system sys).posix cmd fuel 0
              (withHistory registry options executor monitor process processId) w).self.processId
            = 0
          ∧ (∀ w', ((retryLoop (Framed.system sys).posix cmd fuel 0
              (withHistory registry options executor monitor process processId) w).self.isRunning
                (Framed.system sys) w').1 = false)
          ∧ ∃ e', (retryLoop (Framed.system sys).posix cmd fuel 0
              (withHistory registry options executor monitor process processId) w).self.getPid
            = .error e')
      ∧ (attempts (Framed.system sys).posix cmd fuel 0
          (withHistory registry options executor monitor process processId) w).Pairwise
            (Released registry) := by
  obtain ⟨result, hresult⟩ := Option.ne_none_iff_exists'.mp hreturns
  have h := retried hresult
  obtain ⟨failed, last, hattempts, hfailed, hlast⟩ := h.last_decides
  refine ⟨failed, last, hattempts, hfailed, ?_, ?_, ?_⟩
  · rw [hresult, Option.some.injEq]
    exact hlast
  · intro e he
    rw [hresult, Option.some.injEq] at he
    subst he
    obtain ⟨hcode, hend⟩ := h.exhausted
    -- with a retry allowed, the first attempt is not the last one
    have hclean : (retryLoop (Framed.system sys).posix cmd fuel 0
          (withHistory registry options executor monitor process processId) w).self.process = none
        ∧ (retryLoop (Framed.system sys).posix cmd fuel 0
          (withHistory registry options executor monitor process processId) w).self.processId
            = 0 := by
      rcases hend with ⟨-, hlimit⟩ | hclean
      · have hone : options.maxRetries < (0 + 1) % 2 ^ 32 := hlimit
        omega
      · exact hclean
    have hidle := idle_queries (Framed.system sys) hclean.1 hclean.2
    exact ⟨hcode, hclean.1, hclean.2, hidle⟩
  · have hparts : (Registry.parts registry options executor monitor).watchdog
        = registry.map Registry.watchdog := rfl
    exact (h.pairwise Released.trans (Attempt.Next.released hparts)
      ⟨process, processId, rfl⟩).1

/-- A system whose first `fork` fails. -/
def flakySystem : System Nat where
  posix :=
    { fork := fun _ w => (if w = 0 then -1 else 8, w + 1)
      waitpid := fun _ w => w
      isRunning := fun _ w => (true, w)
      sigterm := fun _ w => w }
  control :=
    { isRunning := fun _ w => (.ok true, w)
      terminate := fun _ _ w => (.ok (), w)
      kill := fun _ w => (.ok (), w)
      sendSignal := fun _ _ w => (.ok (), w) }
  signal _ _ w := w
  returnCode _ _ := 0
  startWatchdog w := w
  stopWatchdog w := w

/-- The second attempt, after process 7 was left over by an earlier execution
    and is still registered. -/
theorem retryLoop_outcome_flaky :
    (retryLoop (Framed.system flakySystem).posix ["ls".toList] 2 0
        (withHistory (some ⟨fun _ _ w => (true, w), fun _ w => w⟩) { maxRetries := 1 } none none
          (some 7) 7) ⟨0, {7}, [7]⟩).result ≠ none
    ∧ (attempts (Framed.system flakySystem).posix ["ls".toList] 2 0
        (withHistory (some ⟨fun _ _ w => (true, w), fun _ w => w⟩) { maxRetries := 1 } none none
          (some 7) 7) ⟨0, {7}, [7]⟩).Pairwise
            (Released (some ⟨fun _ _ w => (true, w), fun _ w => w⟩)) := by
  have hreturns : (retryLoop (Framed.system flakySystem).posix ["ls".toList] 2 0
      (withHistory (some ⟨fun _ _ w => (true, w), fun _ w => w⟩) { maxRetries := 1 } none none
        (some 7) 7) ⟨0, {7}, [7]⟩).result ≠ none := by
    intro h
    cases h
  refine ⟨hreturns, ?_⟩
  obtain ⟨failed, last, -, -, -, -, hpairwise⟩ := retryLoop_outcome flakySystem
    (some ⟨fun _ _ w => (true, w), fun _ w => w⟩) { maxRetries := 1 } none none (some 7) 7
    ["ls".toList] 2 ⟨0, {7}, [7]⟩ Nat.one_pos hreturns
  exact hpairwise

end Registered

/-! ## The limit of the counter -/

section Limit

variable (posix : Posix W) (cmd : List Str) (self : ExecuteProcess W) (w : W)

/-- The loop returns for some amount of fuel, after as many attempts as the
    limit allows, and the counter is the number of the attempt. -/
def ReturnsAtLimit : Prop :=
  ∃ fuel, (retryLoop posix cmd fuel 0 self w).result ≠ none
    ∧ (attempts posix cmd fuel 0 self w).map Attempt.attempt
      = List.range (self.options.maxRetries + 1)

variable {posix cmd self w}

/-- If every attempt fails, a run that returns has exceeded the limit. -/
theorem retried_of_fails {fuel : Nat}
    (hfails : ∀ a ∈ attempts posix cmd fuel 0 self w, a.Fails posix cmd)
    (hreturns : (retryLoop posix cmd fuel 0 self w).result ≠ none) :
    ∃ e, Retried posix cmd ⟨0, self, w⟩ (attempts posix cmd fuel 0 self w) (.error e)
      (retryLoop posix cmd fuel 0 self w).self := by
  obtain ⟨result, hresult⟩ := Option.ne_none_iff_exists'.mp hreturns
  have h := retried hresult
  obtain ⟨failed, last, hattempts, -, hlast⟩ := h.last_decides
  have hmem : last ∈ attempts posix cmd fuel 0 self w := by
    rw [hattempts]
    exact List.mem_append_right _ (List.mem_singleton.mpr rfl)
  cases result with
  | ok _ => exact absurd (hlast.mp rfl) (hfails last hmem).not_succeeds
  | error e => exact ⟨e, h⟩

variable (posix cmd self w)

/-- **The limit ends the loop unless it is the largest one**: if every attempt
    fails, there are `max_retries + 1` of them exactly when the counter has
    room for one more than the limit. -/
theorem retryLoop_terminates_iff (hmax : self.options.maxRetries < 2 ^ 32)
    (hfails : ∀ fuel, ∀ a ∈ attempts posix cmd fuel 0 self w, a.Fails posix cmd) :
    ReturnsAtLimit posix cmd self w ↔ self.options.maxRetries ≠ 2 ^ 32 - 1 := by
  constructor
  · rintro ⟨fuel, hreturns, -⟩ hlargest
    obtain ⟨e, h⟩ := retried_of_fails (hfails fuel) hreturns
    have hlt : self.options.maxRetries + 1 < 2 ^ 32 := h.limit_lt
    omega
  · intro hne
    have hlt : self.options.maxRetries + 1 < 2 ^ 32 := by omega
    have hreturns := retryLoop_returns posix cmd (self.options.maxRetries + 1) 0 self w hlt
      (Nat.zero_le _) (by omega)
    obtain ⟨e, h⟩ := retried_of_fails (hfails _) hreturns
    refine ⟨_, hreturns, ?_⟩
    rw [h.counters hlt (Nat.zero_le _), List.range_eq_range']
    rfl

/-- The options do not change from attempt to attempt. -/
theorem options_of_mem_attempts {fuel attempt : Nat} {a : Attempt W}
    (ha : a ∈ attempts posix cmd fuel attempt self w) : a.self.options = self.options := by
  rw [attempts] at ha
  induction fuel generalizing attempt self w with
  | zero => cases ha
  | succ fuel ih =>
      rw [recordedLoop] at ha
      rcases executeSingleAttempt_cases posix self cmd w with
        ⟨⟨e, hresult⟩, hself, -⟩ | ⟨hresult, -⟩
      · simp only [hresult] at ha
        by_cases hlimit : self.options.maxRetries < (attempt + 1) % 2 ^ 32
        · rw [if_pos hlimit] at ha
          rw [List.mem_singleton.mp ha]
        · rw [if_neg hlimit,
            if_neg (not_not_intro (executeSingleAttempt_retryable hresult))] at ha
          rcases List.mem_cons.mp ha with rfl | ha
          · rfl
          · rw [ih _ _ ha, hself]
            rfl
      · simp only [hresult] at ha
        rw [List.mem_singleton.mp ha]

/-- A system that starts no process any more. -/
def refusingPosix : Posix Unit where
  fork _ w := (-1, w)
  waitpid _ w := w
  isRunning _ w := (false, w)
  sigterm _ w := w

/-- An action with safety off that is retried that often. -/
def retrying (maxRetries : Nat) : ExecuteProcess Unit := { options := { maxRetries } }

theorem refusingPosix_fails (cmd : List Str) (maxRetries : Nat) :
    ∀ fuel, ∀ a ∈ attempts refusingPosix cmd fuel 0 (retrying maxRetries) (),
      a.Fails refusingPosix cmd := by
  intro fuel a ha
  have hoptions := options_of_mem_attempts _ _ _ _ ha
  have hsafety : a.self.options.enableSafety = false := by
    rw [hoptions]
    rfl
  rw [Attempt.Fails, Attempt.run, executeSingleAttempt, resourcesAvailable, safetyExecutor,
    hsafety]
  exact ⟨_, rfl⟩

theorem retryLoop_terminates_iff_two :
    (retrying 2).options.maxRetries < 2 ^ 32
    ∧ (ReturnsAtLimit refusingPosix ["true".toList] (retrying 2) ()
      ↔ (retrying 2).options.maxRetries ≠ 2 ^ 32 - 1) :=
  ⟨by decide, retryLoop_terminates_iff refusingPosix ["true".toList] (retrying 2) () (by decide)
    (refusingPosix_fails _ 2)⟩

/-- With the largest limit a system without processes is asked forever. -/
theorem retryLoop_forever :
    (∀ fuel, ∀ a ∈ attempts refusingPosix ["true".toList] fuel 0 (retrying 4294967295) (),
      a.Fails refusingPosix ["true".toList])
    ∧ ¬ ReturnsAtLimit refusingPosix ["true".toList] (retrying 4294967295) () := by
  refine ⟨refusingPosix_fails _ 4294967295, ?_⟩
  rintro ⟨fuel, hreturns, -⟩
  obtain ⟨e, h⟩ := retried_of_fails (refusingPosix_fails _ 4294967295 fuel) hreturns
  have hlt : 4294967295 + 1 < 2 ^ 32 := h.limit_lt
  omega

end Limit

end ExecuteProcess

end LaunchCpp
