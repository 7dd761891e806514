import LaunchCpp.Basic
import LaunchCpp.Library.OrderedMap
import Mathlib.Data.Int.Order.Basic
import Mathlib.Algebra.Order.Ring.Int

/-! # `PosixWatchdog`: heartbeats and timeouts

    The map of monitored nodes and the operations on it.  `steady_clock` is
    an argument of the operations that read it, in nanoseconds; a check may
    be given any reading, also one older than the last heartbeat.  A history
    lists the operations with their outcomes, the latest first, and says of
    every node what its alarm should be; the main result,
    `check_invokes_iff`, is that the watchdog does just that. -/

namespace LaunchCpp

open OrderedMaps

/-- `OsalStatus`. -/
inductive OsalStatus where
  | success
  | error
  | timeout
  | resourceExhausted
  | permissionDenied
  | notFound
  | invalidArgument
  deriving DecidableEq, Repr

/-- The status and the message of an `OsalResult` that is no success. -/
structure OsalError where
  status : OsalStatus
  message : Str
  deriving DecidableEq, Repr

/-- `OsalResult<T>`, with its status. -/
abbrev PosixWatchdog.OsalResult (α : Type) := Except OsalError α

/-- `ProcessState`, an `enum class`: any value of its underlying type is one,
    also where it has no name. -/
structure ProcessState where
  value : UInt32
  deriving DecidableEq, Repr

namespace ProcessState

def notStarted : ProcessState := ⟨0⟩
def starting : ProcessState := ⟨1⟩
def running : ProcessState := ⟨2⟩
def stopping : ProcessState := ⟨3⟩
def stopped : ProcessState := ⟨4⟩
def crashed : ProcessState := ⟨5⟩
def unknown : ProcessState := ⟨6⟩

/-- `static_cast<uint32_t>(state)`. -/
def toUInt32 (state : ProcessState) : UInt32 := state.value

end ProcessState

/-- `HeartbeatMessage`. -/
structure HeartbeatMessage where
  nodeId : UInt32 := 0
  sequence : UInt32 := 0
  timestampUs : UInt64 := 0
  state : ProcessState := .unknown
  checksum : UInt32 := 0
  deriving DecidableEq

/-- `calculate_checksum`. -/
def HeartbeatMessage.calculateChecksum (m : HeartbeatMessage) : UInt32 :=
  let sum := m.nodeId + m.sequence + (m.timestampUs &&& 0xFFFFFFFF).toUInt32
    + ((m.timestampUs >>> 32) &&& 0xFFFFFFFF).toUInt32 + m.state.toUInt32
  ~~~sum + 1

/-- `uint32_t` keys are ordered as numbers. -/
instance linearOrderUInt32 : LinearOrder UInt32 where
  le_refl := UInt32.le_refl
  le_trans _ _ _ := UInt32.le_trans
  lt_iff_le_not_ge _ _ := by
    rw [UInt32.le_iff_toNat_le, UInt32.le_iff_toNat_le, UInt32.lt_iff_toNat_lt]
    omega
  le_antisymm _ _ := UInt32.le_antisymm
  le_total := UInt32.le_total
  toDecidableLE := inferInstance
  toDecidableLT := inferInstance
  toDecidableEq := inferInstance

/-- `steady_clock::time_point`, in nanoseconds. -/
abbrev TimePoint := Int

/-- `WatchdogNode`; `C` holds the heartbeat callbacks. -/
structure WatchdogNode (C : Type) where
  nodeId : UInt32 := 0
  timeoutMs : UInt32 := 0
  heartbeatCallback : Option C := none
  lastHeartbeat : TimePoint
  registrationTime : TimePoint
  sequence : UInt32 := 0
  responsive : Bool := true
  lastState : ProcessState := .unknown

/-- The nodes, and whether a timeout callback is set. -/
structure PosixWatchdog (C : Type) where
  nodes : OrderedMap UInt32 (WatchdogNode C) := OrderedMap.empty
  timeoutCallback : Bool := false

/-- How an operation ends: its result, the nodes for which the timeout callback
    is invoked, and the invocation of a heartbeat callback. -/
structure PosixWatchdog.Outcome (C : Type) where
  result : OsalResult Unit := .ok ()
  timeouts : List UInt32 := []
  heard : Option (C × HeartbeatMessage) := none

namespace PosixWatchdog

variable {C : Type}

/-- `register_node`. -/
def registerNode (w : PosixWatchdog C) (nodeId timeoutMs : UInt32) (callback : Option C)
    (now : TimePoint) : Outcome C × PosixWatchdog C :=
  if timeoutMs = 0 then
    ({ result := .error ⟨.invalidArgument, "Timeout must be greater than 0".toList⟩ }, w)
  else
    match w.nodes.find nodeId with
    | some _ => ({ result := .error ⟨.error, "Node already registered".toList⟩ }, w)
    | none =>
        let node : WatchdogNode C :=
          { nodeId := nodeId
            timeoutMs := timeoutMs
            heartbeatCallback := callback
            lastHeartbeat := now
            registrationTime := now
            sequence := 0
            responsive := true
            lastState := .starting }
        ({}, { w with nodes := w.nodes.insert nodeId node })

/-- `unregister_node`. -/
def unregisterNode (w : PosixWatchdog C) (nodeId : UInt32) : Outcome C × PosixWatchdog C :=
  match w.nodes.find nodeId with
  | none => ({ result := .error ⟨.notFound, "Node not found".toList⟩ }, w)
  | some _ => ({}, { w with nodes := w.nodes.erase nodeId })

/-- `validate_heartbeat`. -/
def validateHeartbeat (message : HeartbeatMessage) : Bool :=
  message.checksum = message.calculateChecksum

/-- `submit_heartbeat`. -/
def submitHeartbeat (w : PosixWatchdog C) (message : HeartbeatMessage) (now : TimePoint) :
    Outcome C × PosixWatchdog C :=
  if validateHeartbeat message = false then
    ({ result := .error ⟨.invalidArgument, "Invalid heartbeat checksum".toList⟩ }, w)
  else
    match w.nodes.find message.nodeId with
    | none => ({ result := .error ⟨.notFound, "Node not registered".toList⟩ }, w)
    | some node =>
        let heard : WatchdogNode C :=
          { node with
            sequence := message.sequence
            lastHeartbeat := now
            lastState := message.state
            responsive := true }
        ({ heard := node.heartbeatCallback.map (fun callback => (callback, message)) },
          { w with nodes := w.nodes.insert message.nodeId heard })

/-- `is_responsive`. -/
def isResponsive (w : PosixWatchdog C) (nodeId : UInt32) : OsalResult Bool :=
  match w.nodes.find nodeId with
  | none => .error ⟨.notFound, "Node not found".toList⟩
  | some node => .ok node.responsive

/-- `set_timeout_callback`. -/
def setTimeoutCallback (w : PosixWatchdog C) (isSet : Bool) : PosixWatchdog C :=
  { w with timeoutCallback := isSet }

/-- The condition in the loop of `check_timeouts`: `duration_cast` rounds the
    elapsed time towards zero. -/
def timedOut (now : TimePoint) (node : WatchdogNode C) : Bool :=
  decide ((now - node.lastHeartbeat).tdiv 1000000 > (node.timeoutMs.toNat : Int))

/-- `check_timeouts`, with the clock reading it begins with. -/
def checkTimeouts (w : PosixWatchdog C) (now : TimePoint) : Outcome C × PosixWatchdog C :=
  ({ timeouts :=
      if w.timeoutCallback then
        (w.nodes.entries.filter (fun e => timedOut now e.2 && e.2.responsive)).map Prod.fst
      else [] },
    { w with
      nodes := w.nodes.mapValues
        (fun node => if timedOut now node then { node with responsive := false } else node) })

/-- The operations, with their arguments and the clock readings they make. -/
inductive Operation (C : Type) where
  | registerNode (nodeId timeoutMs : UInt32) (callback : Option C) (now : TimePoint)
  | unregisterNode (nodeId : UInt32)
  | submitHeartbeat (message : HeartbeatMessage) (now : TimePoint)
  | checkTimeouts (now : TimePoint)

/-- One operation. -/
def step (w : PosixWatchdog C) : Operation C → Outcome C × PosixWatchdog C
  | .registerNode nodeId timeoutMs callback now => w.registerNode nodeId timeoutMs callback now
  | .unregisterNode nodeId => w.unregisterNode nodeId
  | .submitHeartbeat message now => w.submitHeartbeat message now
  | .checkTimeouts now => w.checkTimeouts now

/-- The operations so far, with their outcomes, the latest first. -/
abbrev History (C : Type) := List (Operation C × Outcome C)

/-- Operations one after another, recorded on top of a history. -/
def run (w : PosixWatchdog C) (history : History C) : List (Operation C) →
    PosixWatchdog C × History C
  | [] => (w, history)
  | op :: ops => run (w.step op).2 ((op, (w.step op).1) :: history) ops

/-- **What one operation can do**: be rejected and change nothing, or change
    the nodes in its way. -/
inductive Stepped (w : PosixWatchdog C) : Operation C → Outcome C → PosixWatchdog C → Prop
  | rejected {op : Operation C} {o : Outcome C} {error : OsalError}
      (hresult : o.result = .error error) (htimeouts : o.timeouts = []) : Stepped w op o w
  | registered {nodeId timeoutMs : UInt32} {callback : Option C} {now : TimePoint}
      {node : WatchdogNode C} (htimeout : node.timeoutMs = timeoutMs)
      (hsince : node.lastHeartbeat = now) (hresponsive : node.responsive = true) :
      Stepped w (.registerNode nodeId timeoutMs callback now) {}
        { w with nodes := w.nodes.insert nodeId node }
  | unregistered {nodeId : UInt32} :
      Stepped w (.unregisterNode nodeId) {} { w with nodes := w.nodes.erase nodeId }
  | heard {message : HeartbeatMessage} {now : TimePoint} {node heard : WatchdogNode C}
      {invoked : Option (C × HeartbeatMessage)} (hfind : w.nodes.find message.nodeId = some node)
      (htimeout : heard.timeoutMs = node.timeoutMs) (hsince : heard.lastHeartbeat = now)
      (hresponsive : heard.responsive = true) :
      Stepped w (.submitHeartbeat message now) { heard := invoked }
        { w with nodes := w.nodes.insert message.nodeId heard }
  | checked {now : TimePoint} :
      Stepped w (.checkTimeouts now) (w.checkTimeouts now).1 (w.checkTimeouts now).2

/-- **What an operation does**, case by case. -/
theorem stepped (w : PosixWatchdog C) (op : Operation C) :
    Stepped w op (w.step op).1 (w.step op).2 := by
  cases op with
  | registerNode nodeId timeoutMs callback now =>
      rw [step, registerNode]
      split
      · exact .rejected rfl rfl
      · split
        · exact .rejected rfl rfl
        · exact .registered rfl rfl rfl
  | unregisterNode nodeId =>
      rw [step, unregisterNode]
      split
      · exact .rejected rfl rfl
      · exact .unregistered
  | submitHeartbeat message now =>
      rw [step, submitHeartbeat]
      split
      · exact .rejected rfl rfl
      · split
        · exact .rejected rfl rfl
        next node hfind => exact .heard hfind rfl rfl rfl
  | checkTimeouts now => exact .checked

/-! ## What a history says of a node -/

/-- An accepted registration or unregistration of a node. -/
def enrols (n : UInt32) (e : Operation C × Outcome C) : Bool :=
  e.2.result.isOk && match e.1 with
    | .registerNode nodeId _ _ _ => nodeId = n
    | .unregisterNode nodeId => nodeId = n
    | _ => false

/-- An accepted registration or heartbeat of a node. -/
def restarts (n : UInt32) (e : Operation C × Outcome C) : Bool :=
  e.2.result.isOk && match e.1 with
    | .registerNode nodeId _ _ _ => nodeId = n
    | .submitHeartbeat message _ => message.nodeId = n
    | _ => false

/-- A check that flags a node. -/
def flags (n : UInt32) (e : Operation C × Outcome C) : Bool :=
  match e.1 with
  | .checkTimeouts _ => n ∈ e.2.timeouts
  | _ => false

/-- The timeout a node is registered with, if it is registered. -/
def timeoutOf (n : UInt32) (history : History C) : Option UInt32 :=
  match history.find? (enrols n) with
  | some (.registerNode _ timeoutMs _ _, _) => some timeoutMs
  | _ => none

/-- The time of the last accepted registration or heartbeat of a node. -/
def sinceOf (n : UInt32) (history : History C) : Option TimePoint :=
  match history.find? (restarts n) with
  | some (.registerNode _ _ _ now, _) => some now
  | some (.submitHeartbeat _ now, _) => some now
  | _ => none

/-- Some check has flagged the node since that time. -/
def flaggedSince (n : UInt32) (history : History C) : Bool :=
  (history.takeWhile (fun e => !restarts n e)).any (flags n)

section History

variable {n : UInt32} {e : Operation C × Outcome C} {history : History C}

/-- Only registrations set a timeout. -/
theorem timeoutOf_of_not (h : enrols n e = false) :
    timeoutOf n (e :: history) = timeoutOf n history := by
  rw [timeoutOf, List.find?_cons, h]
  rfl

/-- Only registrations and heartbeats restart the clock. -/
theorem sinceOf_of_not (h : restarts n e = false) :
    sinceOf n (e :: history) = sinceOf n history := by
  rw [sinceOf, List.find?_cons, h]
  rfl

/-- A node is flagged by a check, until its clock is restarted. -/
theorem flaggedSince_cons :
    flaggedSince n (e :: history)
      = if restarts n e then false else flags n e || flaggedSince n history := by
  rw [flaggedSince, List.takeWhile_cons]
  cases restarts n e with
  | true => rfl
  | false => exact List.any_cons

end History

/-- What the watchdog holds of a node is what the history says of it. -/
def Agrees (n : UInt32) (history : History C) : Option (WatchdogNode C) → Prop
  | none => timeoutOf n history = none
  | some node =>
      timeoutOf n history = some node.timeoutMs ∧ sinceOf n history = some node.lastHeartbeat
        ∧ flaggedSince n history = !node.responsive

/-- **The watchdog does what the history says.** -/
structure Tracks (w : PosixWatchdog C) (history : History C) : Prop where
  callback : w.timeoutCallback = true
  agrees : ∀ n, Agrees n history (w.nodes.find n)

/-- An entry that says nothing of a node. -/
structure Silent (n : UInt32) (e : Operation C × Outcome C) : Prop where
  enrols : enrols n e = false
  restarts : restarts n e = false
  flags : flags n e = false

/-- Silence changes nothing that is known of a node. -/
theorem Agrees.silent {n : UInt32} {e : Operation C × Outcome C} {history : History C}
    {node : Option (WatchdogNode C)} (h : Agrees n history node) (he : Silent n e) :
    Agrees n (e :: history) node := by
  have hflagged : flaggedSince n (e :: history) = flaggedSince n history := by
    rw [flaggedSince_cons, he.restarts, he.flags]
    rfl
  cases node with
  | none =>
      rw [Agrees, timeoutOf_of_not he.enrols]
      exact h
  | some node =>
      rw [Agrees, timeoutOf_of_not he.enrols, sinceOf_of_not he.restarts, hflagged]
      exact h

/-- What is rejected says nothing of any node. -/
theorem silent_of_error {op : Operation C} {o : Outcome C} {error : OsalError}
    (hresult : o.result = .error error) (htimeouts : o.timeouts = []) (n : UInt32) :
    Silent n (op, o) := by
  have hok : o.result.isOk = false := by
    rw [hresult]
    rfl
  refine ⟨?_, ?_, ?_⟩
  · rw [enrols, hok, Bool.false_and]
  · rw [restarts, hok, Bool.false_and]
  · cases op with
    | checkTimeouts now =>
        rw [flags, htimeouts]
        exact decide_eq_false List.not_mem_nil
    | _ => rfl

/-- What is rejected leaves everything as it is. -/
theorem Tracks.rejected {w : PosixWatchdog C} {history : History C} (hw : Tracks w history)
    {op : Operation C} {o : Outcome C} {error : OsalError} (hresult : o.result = .error error)
    (htimeouts : o.timeouts = []) : Tracks w ((op, o) :: history) :=
  ⟨hw.callback, fun n => (hw.agrees n).silent (silent_of_error hresult htimeouts n)⟩

/-- A registration. -/
theorem Tracks.registered {w : PosixWatchdog C} {history : History C} (hw : Tracks w history)
    {nodeId timeoutMs : UInt32} {callback : Option C} {now : TimePoint} {node : WatchdogNode C}
    (htimeout : node.timeoutMs = timeoutMs) (hsince : node.lastHeartbeat = now)
    (hresponsive : node.responsive = true) :
    Tracks { w with nodes := w.nodes.insert nodeId node }
      ((.registerNode nodeId timeoutMs callback now, {}) :: history) := by
  refine ⟨hw.callback, ?_⟩
  intro n
  rw [OrderedMap.find_insert]
  by_cases hn : n = nodeId
  · subst hn
    rw [if_pos rfl]
    have hrestarts : restarts n ((.registerNode n timeoutMs callback now, {}) :
        Operation C × Outcome C) = true := decide_eq_true rfl
    have henrols : enrols n ((.registerNode n timeoutMs callback now, {}) :
        Operation C × Outcome C) = true := decide_eq_true rfl
    refine ⟨?_, ?_, ?_⟩
    · rw [timeoutOf, List.find?_cons, henrols, htimeout]
    · rw [sinceOf, List.find?_cons, hrestarts, hsince]
    · rw [flaggedSince_cons, hrestarts, hresponsive]
      rfl
  · rw [if_neg hn]
    refine (hw.agrees n).silent ⟨?_, ?_, rfl⟩
    · exact decide_eq_false (fun h => hn h.symm)
    · exact decide_eq_false (fun h => hn h.symm)

/-- A departure. -/
theorem Tracks.unregistered {w : PosixWatchdog C} {history : History C} (hw : Tracks w history)
    {nodeId : UInt32} :
    Tracks { w with nodes := w.nodes.erase nodeId } ((.unregisterNode nodeId, {}) :: history) := by
  refine ⟨hw.callback, ?_⟩
  intro n
  rw [OrderedMap.find_erase]
  by_cases hn : n = nodeId
  · subst hn
    rw [if_pos rfl]
    have henrols : enrols n ((.unregisterNode n, {}) : Operation C × Outcome C) = true :=
      decide_eq_true rfl
    rw [Agrees, timeoutOf, List.find?_cons, henrols]
  · rw [if_neg hn]
    exact (hw.agrees n).silent ⟨decide_eq_false (fun h => hn h.symm), rfl, rfl⟩

/-- A heartbeat that is accepted. -/
theorem Tracks.heard {w : PosixWatchdog C} {history : History C} (hw : Tracks w history)
    {message : HeartbeatMessage} {now : TimePoint} {node heard : WatchdogNode C}
    {invoked : Option (C × HeartbeatMessage)} (hfind : w.nodes.find message.nodeId = some node)
    (htimeout : heard.timeoutMs = node.timeoutMs) (hsince : heard.lastHeartbeat = now)
    (hresponsive : heard.responsive = true) :
    Tracks { w with nodes := w.nodes.insert message.nodeId heard }
      ((.submitHeartbeat message now, { heard := invoked }) :: history) := by
  have hrestarts : restarts message.nodeId
      ((.submitHeartbeat message now, { heard := invoked }) : Operation C × Outcome C) = true :=
    decide_eq_true rfl
  refine ⟨hw.callback, ?_⟩
  intro n
  rw [OrderedMap.find_insert]
  by_cases hn : n = message.nodeId
  · subst hn
    rw [if_pos rfl]
    have hbefore := hw.agrees message.nodeId
    rw [hfind] at hbefore
    refine ⟨?_, ?_, ?_⟩
    · rw [timeoutOf_of_not rfl, htimeout]
      exact hbefore.1
    · rw [sinceOf, List.find?_cons, hrestarts, hsince]
    · rw [flaggedSince_cons, hrestarts, hresponsive]
      rfl
  · rw [if_neg hn]
    exact (hw.agrees n).silent ⟨rfl, decide_eq_false (fun h => hn h.symm), rfl⟩

/-- The nodes a check flags. -/
theorem mem_timeouts {w : PosixWatchdog C} (hcallback : w.timeoutCallback = true)
    {n : UInt32} {now : TimePoint} :
    n ∈ (w.checkTimeouts now).1.timeouts
      ↔ ∃ node, w.nodes.find n = some node ∧ timedOut now node = true
        ∧ node.responsive = true := by
  rw [checkTimeouts]
  simp only [hcallback, if_true, List.mem_map, List.mem_filter, Bool.and_eq_true]
  constructor
  · rintro ⟨⟨k, node⟩, ⟨hmem, hflag⟩, rfl⟩
    exact ⟨node, OrderedMap.find_eq_some_iff.mpr hmem, hflag⟩
  · rintro ⟨node, hfind, hflag⟩
    exact ⟨(n, node), ⟨OrderedMap.find_eq_some_iff.mp hfind, hflag⟩, rfl⟩

/-- A check of the timeouts. -/
theorem Tracks.checkTimeouts {w : PosixWatchdog C} {history : History C} (hw : Tracks w history)
    (now : TimePoint) :
    Tracks (w.checkTimeouts now).2 ((.checkTimeouts now, (w.checkTimeouts now).1) :: history) := by
  refine ⟨hw.callback, fun n => ?_⟩
  have hagrees := hw.agrees n
  have hfind := OrderedMap.find_mapValues w.nodes
    (fun node => if timedOut now node then { node with responsive := false } else node) n
  show Agrees n _ ((w.nodes.mapValues _).find n)
  rw [hfind]
  cases hnode : w.nodes.find n with
  | none =>
      rw [hnode] at hagrees
      rw [Option.map_none, Agrees, timeoutOf_of_not rfl]
      exact hagrees
  | some node =>
      rw [hnode] at hagrees
      obtain ⟨htimeout, hsince, hflagged⟩ := hagrees
      have hflags : flags n ((.checkTimeouts now, (w.checkTimeouts now).1) :
          Operation C × Outcome C) = (timedOut now node && node.responsive) := by
        rw [flags, Bool.eq_iff_iff, decide_eq_true_iff, mem_timeouts hw.callback]
        rw [hnode, Bool.and_eq_true]
        constructor
        · rintro ⟨node', hsome, hflag⟩
          cases hsome
          exact hflag
        · exact fun hflag => ⟨node, rfl, hflag⟩
      have hnew : flaggedSince n ((.checkTimeouts now, (w.checkTimeouts now).1) :: history)
          = (timedOut now node || !node.responsive) := by
        rw [flaggedSince_cons]
        show (flags n _ || flaggedSince n history) = _
        rw [hflags, hflagged]
        cases timedOut now node <;> cases node.responsive <;> rfl
      rw [Option.map_some, Agrees, timeoutOf_of_not rfl, sinceOf_of_not rfl, hnew]
      -- a check changes the flag only
      cases timedOut now node with
      | true => exact ⟨htimeout, hsince, rfl⟩
      | false => exact ⟨htimeout, hsince, rfl⟩

/-- **Every operation keeps map and history in line.** -/
theorem Tracks.step {w : PosixWatchdog C} {history : History C} (hw : Tracks w history)
    (op : Operation C) : Tracks (w.step op).2 ((op, (w.step op).1) :: history) := by
  have hstep := stepped w op
  generalize (w.step op).1 = o at hstep ⊢
  generalize (w.step op).2 = w' at hstep ⊢
  cases hstep with
  | rejected hresult htimeouts => exact hw.rejected hresult htimeouts
  | registered htimeout hsince hresponsive => exact hw.registered htimeout hsince hresponsive
  | unregistered => exact hw.unregistered
  | heard hfind htimeout hsince hresponsive => exact hw.heard hfind htimeout hsince hresponsive
  | checked => exact hw.checkTimeouts _

/-- So does every sequence of them. -/
theorem Tracks.run {w : PosixWatchdog C} {history : History C} (hw : Tracks w history)
    (ops : List (Operation C)) : Tracks (w.run history ops).1 (w.run history ops).2 := by
  induction ops generalizing w history with
  | nil => exact hw
  | cons op ops ih => exact ih (hw.step op)

/-- A watchdog whose timeout callback is set. -/
def started : PosixWatchdog C := ({} : PosixWatchdog C).setTimeoutCallback true

/-- Nothing has happened to a new watchdog. -/
theorem tracks_started : Tracks (started : PosixWatchdog C) [] := ⟨rfl, fun _ => rfl⟩

/-- The cast counts whole milliseconds; a negative time has none. -/
theorem lt_tdiv_iff (ms : Nat) (d : Int) :
    d.tdiv 1000000 > (ms : Int) ↔ ((ms : Int) + 1) * 1000000 ≤ d := by
  rcases lt_or_ge d 0 with hnegative | hpositive
  · have hcast : d.tdiv 1000000 = -((-d) / 1000000) := by
      rw [← Int.tdiv_eq_ediv_of_nonneg (by omega), Int.neg_tdiv, Int.neg_neg]
    rw [hcast]
    omega
  · rw [Int.tdiv_eq_ediv_of_nonneg hpositive]
    omega

/-- More than the timeout has elapsed. -/
theorem timedOut_iff {now : TimePoint} {node : WatchdogNode C} :
    timedOut now node = true
      ↔ node.lastHeartbeat + (node.timeoutMs.toNat + 1) * 1000000 ≤ now := by
  rw [timedOut, decide_eq_true_iff, lt_tdiv_iff]
  exact ⟨Int.add_le_of_le_sub_left, Int.le_sub_left_of_add_le⟩

/-- What is rejected changes nothing. -/
theorem step_rejected {w : PosixWatchdog C} {op : Operation C} {error : OsalError}
    (h : (w.step op).1.result = .error error) : (w.step op).2 = w := by
  have hstep := stepped w op
  generalize (w.step op).1 = o at h hstep
  generalize (w.step op).2 = w' at hstep
  cases hstep with
  | rejected hresult htimeouts => rfl
  | _ => cases h

/-- The node an operation is for. -/
def Operation.node? : Operation C → Option UInt32
  | .registerNode nodeId _ _ _ => some nodeId
  | .unregisterNode nodeId => some nodeId
  | .submitHeartbeat message _ => some message.nodeId
  | .checkTimeouts _ => none

/-- Operations on other nodes leave a node as it is. -/
theorem find_step_other {w : PosixWatchdog C} {op : Operation C} {n m : UInt32}
    (hop : op.node? = some m) (hn : n ≠ m) : (w.step op).2.nodes.find n = w.nodes.find n := by
  have hstep := stepped w op
  generalize (w.step op).1 = o at hstep
  generalize (w.step op).2 = w' at hstep
  cases hstep with
  | rejected hresult htimeouts => rfl
  | registered htimeout hsince hresponsive =>
      cases hop
      exact (OrderedMap.find_insert _ _ _ _).trans (if_neg hn)
  | unregistered =>
      cases hop
      exact (OrderedMap.find_erase _ _ _).trans (if_neg hn)
  | heard hfind htimeout hsince hresponsive =>
      cases hop
      exact (OrderedMap.find_insert _ _ _ _).trans (if_neg hn)
  | checked => cases hop

/-- The alarm of a check, by the history. -/
theorem Tracks.mem_timeouts_iff {w : PosixWatchdog C} {history : History C}
    (hw : Tracks w history) {now : TimePoint} {n : UInt32} :
    n ∈ (w.checkTimeouts now).1.timeouts
      ↔ ∃ timeoutMs since, timeoutOf n history = some timeoutMs
        ∧ sinceOf n history = some since ∧ since + (timeoutMs.toNat + 1) * 1000000 ≤ now
        ∧ flaggedSince n history = false := by
  rw [mem_timeouts hw.callback]
  have hagrees := hw.agrees n
  constructor
  · rintro ⟨node, hfind, htimedOut, hresponsive⟩
    rw [hfind] at hagrees
    obtain ⟨htimeout, hsince, hflagged⟩ := hagrees
    refine ⟨node.timeoutMs, node.lastHeartbeat, htimeout, hsince, ?_, ?_⟩
    · exact timedOut_iff.mp htimedOut
    · rw [hflagged, hresponsive]
      rfl
  · rintro ⟨timeoutMs, since, htimeout, hsince, helapsed, hflagged⟩
    cases hfind : w.nodes.find n with
    | none =>
        rw [hfind, Agrees, htimeout] at hagrees
        cases hagrees
    | some node =>
        rw [hfind] at hagrees
        obtain ⟨htimeout', hsince', hflagged'⟩ := hagrees
        obtain rfl := Option.some.inj (htimeout'.symm.trans htimeout)
        obtain rfl := Option.some.inj (hsince'.symm.trans hsince)
        refine ⟨node, rfl, timedOut_iff.mpr helapsed, ?_⟩
        rw [hflagged] at hflagged'
        exact (Bool.not_eq_false' _).mp hflagged'.symm

/-- A node is responsive unless it has been flagged. -/
theorem Tracks.isResponsive_iff {w : PosixWatchdog C} {history : History C}
    (hw : Tracks w history) {n : UInt32} (hregistered : timeoutOf n history ≠ none) :
    w.isResponsive n = .ok false ↔ flaggedSince n history = true := by
  have hagrees := hw.agrees n
  rw [isResponsive]
  cases hfind : w.nodes.find n with
  | none =>
      rw [hfind] at hagrees
      exact absurd hagrees hregistered
  | some node =>
      rw [hfind] at hagrees
      rw [hagrees.2.2]
      cases hresponsive : node.responsive <;> simp [hresponsive]

/-- No node is flagged twice by one check. -/
theorem nodup_timeouts (w : PosixWatchdog C) (now : TimePoint) :
    (w.checkTimeouts now).1.timeouts.Nodup := by
  rw [checkTimeouts]
  show (if w.timeoutCallback then _ else _ : List UInt32).Nodup
  split
  · exact w.nodes.keys_nodup.sublist (List.filter_sublist.map _)
  · exact List.nodup_nil

/-- **When the alarm sounds**, after any operations on a watchdog whose timeout
    callback is set.  A check invokes the callback for a node, once, if and
    only if the node is registered, more than its timeout in whole
    milliseconds has passed since its registration or last accepted
    heartbeat, and no check has flagged it since then; a registered node is
    unresponsive if and only if some check has; and what is rejected, or is
    for another node, leaves the node as it is. -/
theorem check_invokes_iff {ops : List (Operation C)} {w : PosixWatchdog C}
    {history : History C} (h : run started [] ops = (w, history)) :
    (∀ now, (w.checkTimeouts now).1.timeouts.Nodup
      ∧ ∀ n, n ∈ (w.checkTimeouts now).1.timeouts
        ↔ ∃ timeoutMs since, timeoutOf n history = some timeoutMs
          ∧ sinceOf n history = some since ∧ since + (timeoutMs.toNat + 1) * 1000000 ≤ now
          ∧ flaggedSince n history = false)
    ∧ (∀ n, timeoutOf n history ≠ none →
        (w.isResponsive n = .ok false ↔ flaggedSince n history = true))
    ∧ (∀ op error, (w.step op).1.result = .error error → (w.step op).2 = w)
    ∧ ∀ op m n, Operation.node? op = some m → n ≠ m →
        (w.step op).2.nodes.find n = w.nodes.find n := by
  have hw : Tracks w history := by
    have hrun := tracks_started.run ops
    rw [h] at hrun
    exact hrun
  refine ⟨?_, ?_, ?_, ?_⟩
  · intro now
    exact ⟨nodup_timeouts w now, fun n => hw.mem_timeouts_iff⟩
  · intro n hregistered
    exact hw.isResponsive_iff hregistered
  · intro op error hresult
    exact step_rejected hresult
  · intro op m n hop hn
    exact find_step_other hop hn

/-- A heartbeat of node 7 with its checksum. -/
def heartbeat7 : HeartbeatMessage :=
  { nodeId := 7, checksum := ({ nodeId := 7 } : HeartbeatMessage).calculateChecksum }

/-- Node 7 may be silent for 100 ms; it is flagged, is heard again, and is
    silent again. -/
def silentTwice : List (Operation Unit) :=
  [.registerNode 7 100 none 0, .checkTimeouts 101000000, .submitHeartbeat heartbeat7 200000000]

/-- The second silence is reported too; until then the node is responsive. -/
theorem check_invokes_iff_node7 :
    (7 : UInt32) ∈ ((run started [] silentTwice).1.checkTimeouts 301000000).1.timeouts
      ∧ (run started [] silentTwice).1.isResponsive 7 ≠ .ok false := by
  have h := check_invokes_iff (rfl : run started [] silentTwice = (_, _))
  constructor
  · exact ((h.1 301000000).2 7).mpr ⟨100, 200000000, by decide, by decide, by decide, by decide⟩
  · intro hsilent
    exact absurd ((h.2.1 7 (by decide)).mp hsilent) (by decide)

end PosixWatchdog

end LaunchCpp
