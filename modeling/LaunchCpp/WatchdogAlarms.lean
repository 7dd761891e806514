import LaunchCpp.Watchdog
import LaunchCpp.Library.FailureDetector

/-! # What the alarms depend on

    To each node the watchdog is a failure detector, and to that detector an
    operation is a registration, a departure, a sign of life or a look at the
    clock, if it is anything at all (`seenBy`).  `party_step` says that nothing
    else of an operation reaches the detector: neither the sequence number, the
    state and the timestamp of a heartbeat nor what other nodes do.  The main
    result, `watchdog_detects`, puts with this what is reported of a node that
    falls silent, and of one that is heard in time. -/

namespace LaunchCpp.PosixWatchdog

open OrderedMaps FailureDetector

variable {C : Type}

/-- The limit in whole milliseconds, as `check_timeouts` compares it. -/
def late (timeoutMs : UInt32) (since now : TimePoint) : Bool :=
  decide ((now - since).tdiv 1000000 > (timeoutMs.toNat : Int))

/-- What the detector of a node sees of an operation. -/
def seenBy (n : UInt32) : Operation C → Input UInt32 TimePoint
  | .registerNode nodeId timeoutMs _ now =>
      if nodeId = n ∧ timeoutMs ≠ 0 then .joined timeoutMs now else .nothing
  | .unregisterNode nodeId => if nodeId = n then .left else .nothing
  | .submitHeartbeat message now =>
      if message.nodeId = n ∧ validateHeartbeat message = true then .heard now else .nothing
  | .checkTimeouts now => .checked now

/-- What the watchdog holds of a node. -/
def party (n : UInt32) (w : PosixWatchdog C) : Option (Party UInt32 TimePoint) :=
  (w.nodes.find n).map (fun node => ⟨node.timeoutMs, node.lastHeartbeat, !node.responsive⟩)

theorem party_of_find {n : UInt32} {w : PosixWatchdog C} {node : Option (WatchdogNode C)}
    (h : w.nodes.find n = node) :
    party n w
      = node.map (fun node => ⟨node.timeoutMs, node.lastHeartbeat, !node.responsive⟩) := by
  rw [party, h]

theorem party_insert (n nodeId : UInt32) (w : PosixWatchdog C) (node : WatchdogNode C) :
    party n { w with nodes := w.nodes.insert nodeId node }
      = if n = nodeId then some ⟨node.timeoutMs, node.lastHeartbeat, !node.responsive⟩
        else party n w := by
  show ((w.nodes.insert nodeId node).find n).map _ = _
  rw [OrderedMap.find_insert]
  by_cases hn : n = nodeId
  · rw [if_pos hn, if_pos hn]
    rfl
  · rw [if_neg hn, if_neg hn]
    rfl

theorem party_erase (n nodeId : UInt32) (w : PosixWatchdog C) :
    party n { w with nodes := w.nodes.erase nodeId } = if n = nodeId then none else party n w := by
  show ((w.nodes.erase nodeId).find n).map _ = _
  rw [OrderedMap.find_erase]
  by_cases hn : n = nodeId
  · rw [if_pos hn, if_pos hn]
    rfl
  · rw [if_neg hn, if_neg hn]
    rfl

/-- For each entry, whether it invokes the timeout callback for a node, the
    first entry first. -/
def alarms (n : UInt32) (history : History C) : List Bool :=
  history.reverse.map (flags n)

section Node

variable {n : UInt32} {w : PosixWatchdog C}

theorem party_register (nodeId timeoutMs : UInt32) (callback : Option C) (now : TimePoint) :
    party n (w.step (.registerNode nodeId timeoutMs callback now)).2
      = next late (party n w) (seenBy n (.registerNode nodeId timeoutMs callback now)) := by
  rw [step, registerNode, seenBy]
  by_cases hzero : timeoutMs = 0
  · rw [if_pos hzero, if_neg (fun h => h.2 hzero), next_nothing]
  · rw [if_neg hzero]
    by_cases hn : nodeId = n
    · subst hn
      rw [if_pos ⟨rfl, hzero⟩]
      cases hfind : w.nodes.find nodeId with
      | some node =>
          rw [party_of_find hfind]
          rfl
      | none =>
          rw [party_of_find hfind]
          exact (party_insert _ _ _ _).trans (if_pos rfl)
    · rw [if_neg (fun h => hn h.1), next_nothing]
      cases w.nodes.find nodeId with
      | some node => rfl
      | none => exact (party_insert _ _ _ _).trans (if_neg (Ne.symm hn))

theorem party_unregister (nodeId : UInt32) :
    party n (w.step (.unregisterNode nodeId : Operation C)).2
      = next late (party n w) (seenBy n (.unregisterNode nodeId : Operation C)) := by
  rw [step, unregisterNode, seenBy]
  by_cases hn : nodeId = n
  · subst hn
    rw [if_pos rfl]
    cases hfind : w.nodes.find nodeId with
    | none =>
        rw [party_of_find hfind]
        rfl
    | some node =>
        rw [party_of_find hfind]
        exact (party_erase _ _ _).trans (if_pos rfl)
  · rw [if_neg hn, next_nothing]
    cases w.nodes.find nodeId with
    | none => rfl
    | some node => exact (party_erase _ _ _).trans (if_neg (Ne.symm hn))

theorem party_submit (message : HeartbeatMessage) (now : TimePoint) :
    party n (w.step (.submitHeartbeat message now)).2
      = next late (party n w) (seenBy n (.submitHeartbeat message now : Operation C)) := by
  rw [step, submitHeartbeat, seenBy]
  cases hvalid : validateHeartbeat message with
  | false =>
      rw [if_pos rfl, if_neg (fun h => (by cases h.2)), next_nothing]
  | true =>
      rw [if_neg (by decide)]
      by_cases hn : message.nodeId = n
      · rw [if_pos ⟨hn, rfl⟩, hn]
        cases hfind : w.nodes.find n with
        | none =>
            rw [party_of_find hfind]
            rfl
        | some node =>
            rw [party_of_find hfind]
            exact (party_insert _ _ _ _).trans (if_pos rfl)
      · rw [if_neg (fun h => hn h.1), next_nothing]
        cases w.nodes.find message.nodeId with
        | none => rfl
        | some node => exact (party_insert _ _ _ _).trans (if_neg (Ne.symm hn))

theorem party_check (hcallback : w.timeoutCallback = true) (now : TimePoint) :
    party n (w.checkTimeouts now).2 = next late (party n w) (.checked now)
      ∧ decide (n ∈ (w.checkTimeouts now).1.timeouts) = report late (party n w) (.checked now) := by
  have hfind := OrderedMap.find_mapValues w.nodes
    (fun node => if timedOut now node then { node with responsive := false } else node) n
  constructor
  · show ((w.nodes.mapValues _).find n).map _ = _
    rw [hfind]
    cases hnode : w.nodes.find n with
    | none =>
        rw [party_of_find hnode]
        rfl
    | some node =>
        rw [party_of_find hnode]
        have hlate : late node.timeoutMs node.lastHeartbeat now = timedOut now node := rfl
        simp only [Option.map_some, next, hlate]
        cases timedOut now node <;> rfl
  · rw [Bool.eq_iff_iff, decide_eq_true_iff, mem_timeouts hcallback, party]
    cases w.nodes.find n with
    | none => exact ⟨fun ⟨_, h, _⟩ => (by cases h), fun h => (by cases h)⟩
    | some node =>
        show (∃ node', some node = some node' ∧ _) ↔ (timedOut now node && !!node.responsive) = true
        rw [Bool.not_not, Bool.and_eq_true]
        constructor
        · rintro ⟨node', hsome, hflag⟩
          cases hsome
          exact hflag
        · exact fun hflag => ⟨node, rfl, hflag⟩

/-- **To a node the watchdog is its detector**, at every operation. -/
theorem party_step (hcallback : w.timeoutCallback = true) (op : Operation C) :
    party n (w.step op).2 = next late (party n w) (seenBy n op)
      ∧ flags n (op, (w.step op).1) = report late (party n w) (seenBy n op) := by
  have hsilent : ∀ {i : Input UInt32 TimePoint}, (∀ now, i ≠ .checked now) →
      false = report late (party n w) i := by
    intro i hi
    cases i with
    | checked now => exact absurd rfl (hi now)
    | _ => cases party n w <;> rfl
  cases op with
  | registerNode nodeId timeoutMs callback now =>
      refine ⟨party_register nodeId timeoutMs callback now, hsilent (fun t => ?_)⟩
      rw [seenBy]
      split <;> exact fun h => (by cases h)
  | unregisterNode nodeId =>
      refine ⟨party_unregister nodeId, hsilent (fun t => ?_)⟩
      rw [seenBy]
      split <;> exact fun h => (by cases h)
  | submitHeartbeat message now =>
      refine ⟨party_submit message now, hsilent (fun t => ?_)⟩
      rw [seenBy]
      split <;> exact fun h => (by cases h)
  | checkTimeouts now => exact party_check hcallback now

theorem callback_step (op : Operation C) :
    (w.step op).2.timeoutCallback = w.timeoutCallback := by
  have hstep := stepped w op
  generalize (w.step op).1 = o at hstep
  generalize (w.step op).2 = w' at hstep ⊢
  cases hstep <;> rfl

/-- And over a run. -/
theorem party_run (hcallback : w.timeoutCallback = true) (history : History C)
    (ops : List (Operation C)) :
    (PosixWatchdog.run w history ops).1.timeoutCallback = true
      ∧ party n (PosixWatchdog.run w history ops).1
        = FailureDetector.run late (party n w) (ops.map (seenBy n))
      ∧ alarms n (PosixWatchdog.run w history ops).2
        = alarms n history ++ reports late (party n w) (ops.map (seenBy n)) := by
  induction ops generalizing w history with
  | nil => exact ⟨hcallback, rfl, (List.append_nil _).symm⟩
  | cons op ops ih =>
      obtain ⟨hparty, halarm⟩ := party_step (n := n) hcallback op
      obtain ⟨hafter, hrun, halarms⟩ :=
        ih ((callback_step op).trans hcallback) ((op, (w.step op).1) :: history)
      refine ⟨hafter, hrun.trans ?_, halarms.trans ?_⟩
      · rw [hparty]
        rfl
      · have hlast : alarms n ((op, (w.step op).1) :: history)
            = alarms n history ++ [report late (party n w) (seenBy n op)] := by
          rw [alarms, List.reverse_cons, List.map_append, ← halarm]
          rfl
        rw [hlast, hparty, List.append_assoc]
        rfl

theorem isResponsive_of_party {p : Party UInt32 TimePoint} (h : party n w = some p) :
    w.isResponsive n = .ok (!p.reported) := by
  rw [isResponsive]
  cases hfind : w.nodes.find n with
  | none =>
      rw [party_of_find hfind] at h
      cases h
  | some node =>
      rw [party_of_find hfind] at h
      cases h
      show (Except.ok node.responsive : OsalResult Bool) = .ok (!!node.responsive)
      rw [Bool.not_not]

end Node

/-- **A silent node is reported once, a node heard in time never**, whatever
    else goes on.  Of all operations a watchdog with its callback set has gone
    through, only what the detector of a node sees has a part in its alarms and
    in the answer of `is_responsive`.  While a node is neither heard nor gone,
    the first check beyond its limit reports it, and no other check does; as
    long as every check comes within the limit behind the last sign of life,
    none does. -/
theorem watchdog_detects (ops : List (Operation C)) (n : UInt32) :
    alarms n (PosixWatchdog.run started [] ops).2 = reports late none (ops.map (seenBy n))
      ∧ party n (PosixWatchdog.run started [] ops).1
        = FailureDetector.run late none (ops.map (seenBy n))
      ∧ ∀ w history, PosixWatchdog.run started [] ops = (w, history) →
        ∀ p, party n w = some p →
        w.isResponsive n = .ok (!p.reported)
          ∧ (∀ more : List (Operation C), (∀ op ∈ more, (seenBy n op).quiet = true) →
            (alarms n (PosixWatchdog.run w [] more).2).count true
                = (if (more.map (seenBy n)).any (finds late p.limit p.since) && !p.reported
                  then 1 else 0)
              ∧ ∀ now, n ∈ ((PosixWatchdog.run w [] more).1.checkTimeouts now).1.timeouts
                ↔ p.since + (p.limit.toNat + 1) * 1000000 ≤ now ∧ p.reported = false
                  ∧ ∀ op ∈ more, finds late p.limit p.since (seenBy n op) = false)
          ∧ ∀ more : List (Operation C), (∀ op ∈ more, seenBy n op ≠ .left) →
            (∀ before now after, more = before ++ .checkTimeouts now :: after →
              now < lastHeard p.since (before.map (seenBy n)) + (p.limit.toNat + 1) * 1000000) →
            ∀ r ∈ alarms n (PosixWatchdog.run w [] more).2, r = false := by
  obtain ⟨-, hparty, halarms⟩ := party_run (n := n) (w := started) rfl [] ops
  refine ⟨halarms, hparty, fun w history h p hp => ?_⟩
  have hcallback : w.timeoutCallback = true := by
    have hrun := (party_run (n := n) (w := started) rfl [] ops).1
    rw [h] at hrun
    exact hrun
  have hlate : ∀ limit since now, late limit since now = true
      ↔ since + (limit.toNat + 1) * 1000000 ≤ now := by
    intro limit since now
    rw [late, decide_eq_true_iff, lt_tdiv_iff]
    exact ⟨Int.add_le_of_le_sub_left, Int.le_sub_left_of_add_le⟩
  refine ⟨isResponsive_of_party hp, fun more hquiet => ?_, fun more hstays hlooks => ?_⟩
  · have hquiet' : ∀ i ∈ more.map (seenBy n), i.quiet = true := List.forall_mem_map.mpr hquiet
    obtain ⟨hafter, hrun, hmore⟩ := party_run (n := n) hcallback [] more
    rw [hp] at hrun hmore
    refine ⟨?_, fun now => ?_⟩
    · rw [hmore]
      exact count_reports_quiet hquiet'
    · have hcheck := (party_check (n := n) hafter now).2
      rw [hrun, report_run_quiet hquiet'] at hcheck
      rw [← decide_eq_true_iff (p := n ∈ _), hcheck]
      show (late p.limit p.since now && _) = true ↔ _
      rw [Bool.and_eq_true, hlate, Bool.not_eq_true', Bool.or_eq_false_iff, List.any_eq_false]
      constructor
      · rintro ⟨helapsed, hnone, hreported⟩
        refine ⟨helapsed, hreported, fun op hop => ?_⟩
        exact eq_false_of_ne_true (hnone _ (List.mem_map_of_mem hop))
      · rintro ⟨helapsed, hreported, hnone⟩
        refine ⟨helapsed, List.forall_mem_map.mpr (fun op hop => ?_), hreported⟩
        exact ne_true_of_eq_false (hnone op hop)
  · obtain ⟨-, -, hmore⟩ := party_run (n := n) hcallback [] more
    rw [hmore, hp]
    refine reports_in_time (List.forall_mem_map.mpr hstays) (fun before now after hsplit => ?_)
    obtain ⟨before', after', rfl, rfl, hafter⟩ := List.map_eq_append_iff.mp hsplit
    obtain ⟨op, after'', rfl, hop, rfl⟩ := List.map_eq_cons_iff.mp hafter
    have hcheck : op = .checkTimeouts now := by
      cases op with
      | checkTimeouts t =>
          cases hop
          rfl
      | _ =>
          rw [seenBy] at hop
          split at hop <;> cases hop
    subst hcheck
    refine eq_false_of_ne_true (fun htrue => ?_)
    exact absurd ((hlate _ _ _).mp htrue) (not_le.mpr (hlooks before' now after'' rfl))

/-- Node 7, heard at 200 ms, is looked for three times. -/
theorem watchdog_detects_node7 :
    (alarms 7 (PosixWatchdog.run (PosixWatchdog.run started [] silentTwice).1 []
      [.checkTimeouts 250000000, .checkTimeouts 301000000, .checkTimeouts 402000000]).2).count true
        = 1 := by
  obtain ⟨-, hparty, hafter⟩ := watchdog_detects silentTwice 7
  have hp : party 7 (PosixWatchdog.run started [] silentTwice).1
      = some ⟨100, 200000000, false⟩ := hparty.trans (by decide)
  obtain ⟨-, hsilent, -⟩ := hafter _ _ rfl _ hp
  obtain ⟨hcount, -⟩ := hsilent
    [.checkTimeouts 250000000, .checkTimeouts 301000000, .checkTimeouts 402000000]
    (List.forall_mem_cons.mpr ⟨rfl, List.forall_mem_cons.mpr ⟨rfl, List.forall_mem_singleton.mpr rfl⟩⟩)
  exact hcount.trans (by decide)

end LaunchCpp.PosixWatchdog
