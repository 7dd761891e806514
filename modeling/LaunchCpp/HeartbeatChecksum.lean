import LaunchCpp.Watchdog
import LaunchCpp.Library.Counting
import Mathlib.Data.UInt
import Mathlib.Algebra.BigOperators.Fin
import Mathlib.Tactic.FinCases

/-! # What the checksum of a heartbeat detects

    A `HeartbeatMessage` is six words of 32 bits, and its checksum is right
    when they add up to zero.  A sum of words notices when one of them
    changes, so the watchdog rejects, before it looks at any node, every
    message that differs from a right one in a single word
    (`submit_altered_word`). -/

namespace LaunchCpp

namespace HeartbeatMessage

/-- The words of a message, the timestamp as its lower and its upper half. -/
def words (m : HeartbeatMessage) : Fin 6 → UInt32 :=
  ![m.nodeId, m.sequence, (m.timestampUs &&& 0xFFFFFFFF).toUInt32,
    ((m.timestampUs >>> 32) &&& 0xFFFFFFFF).toUInt32, m.state.toUInt32, m.checksum]

/-- The message of six words. -/
def ofWords (v : Fin 6 → UInt32) : HeartbeatMessage where
  nodeId := v 0
  sequence := v 1
  timestampUs := UInt64.ofNat ((v 2).toNat + 2 ^ 32 * (v 3).toNat)
  state := ⟨v 4⟩
  checksum := v 5

theorem toNat_lower (t : UInt64) : (t &&& 0xFFFFFFFF).toUInt32.toNat = t.toNat % 2 ^ 32 := by
  rw [UInt64.toNat_toUInt32, UInt64.toNat_and]
  show (t.toNat &&& (2 ^ 32 - 1)) % 2 ^ 32 = _
  rw [Nat.and_two_pow_sub_one_eq_mod, Nat.mod_mod]

theorem toNat_upper (t : UInt64) :
    ((t >>> 32) &&& 0xFFFFFFFF).toUInt32.toNat = t.toNat / 2 ^ 32 := by
  rw [toNat_lower, UInt64.toNat_shiftRight]
  show (t.toNat >>> 32) % 2 ^ 32 = _
  have hlt : t.toNat < 2 ^ 64 := t.toNat_lt
  rw [Nat.shiftRight_eq_div_pow]
  omega

theorem words_ofWords (v : Fin 6 → UInt32) : (ofWords v).words = v := by
  have hlow : (v 2).toNat < 2 ^ 32 := (v 2).toNat_lt
  have hhigh : (v 3).toNat < 2 ^ 32 := (v 3).toNat_lt
  have htime : (ofWords v).timestampUs.toNat = (v 2).toNat + 2 ^ 32 * (v 3).toNat := by
    show (UInt64.ofNat _).toNat = _
    rw [UInt64.toNat_ofNat']
    omega
  ext i
  fin_cases i
  · rfl
  · rfl
  · show ((ofWords v).timestampUs &&& 0xFFFFFFFF).toUInt32.toNat = _
    rw [toNat_lower, htime]
    show _ = (v 2).toNat
    omega
  · show (((ofWords v).timestampUs >>> 32) &&& 0xFFFFFFFF).toUInt32.toNat = _
    rw [toNat_upper, htime]
    show _ = (v 3).toNat
    omega
  · rfl
  · rfl

/-- Nothing of a message is outside its words. -/
theorem ofWords_words (m : HeartbeatMessage) : ofWords m.words = m := by
  have htime : (ofWords m.words).timestampUs = m.timestampUs := by
    refine UInt64.toNat_inj.mp ?_
    show (UInt64.ofNat ((m.timestampUs &&& 0xFFFFFFFF).toUInt32.toNat
      + 2 ^ 32 * ((m.timestampUs >>> 32) &&& 0xFFFFFFFF).toUInt32.toNat)).toNat = _
    have hlt : m.timestampUs.toNat < 2 ^ 64 := m.timestampUs.toNat_lt
    rw [UInt64.toNat_ofNat', toNat_lower, toNat_upper]
    omega
  cases m
  exact congrArg (HeartbeatMessage.mk _ _ · _ _) htime

/-- The message with one of its words replaced. -/
def withWord (m : HeartbeatMessage) (i : Fin 6) (word : UInt32) : HeartbeatMessage :=
  ofWords (Function.update m.words i word)

/-- The checksum is the word that makes the sum zero. -/
theorem checksum_eq_iff (m : HeartbeatMessage) :
    m.checksum = m.calculateChecksum ↔ ∑ i, m.words i = 0 := by
  have hsum : ∑ i, m.words i = (m.nodeId + m.sequence + (m.timestampUs &&& 0xFFFFFFFF).toUInt32
      + ((m.timestampUs >>> 32) &&& 0xFFFFFFFF).toUInt32 + m.state.toUInt32) + m.checksum :=
    Fin.sum_univ_six m.words
  rw [hsum, calculateChecksum, ← UInt32.neg_eq_not_add, eq_comm, neg_eq_iff_add_eq_zero]

end HeartbeatMessage

namespace PosixWatchdog

open HeartbeatMessage

variable {C : Type}

/-- One changed word makes the checksum wrong. -/
theorem validateHeartbeat_withWord {m : HeartbeatMessage} {i : Fin 6} {word : UInt32}
    (hm : m.checksum = m.calculateChecksum) (hword : word ≠ m.words i) :
    validateHeartbeat (m.withWord i word) = false := by
  have hsum := (checksum_eq_iff m).mp hm
  refine decide_eq_false (fun h => ?_)
  have haltered := (checksum_eq_iff _).mp h
  rw [withWord, words_ofWords] at haltered
  exact Counting.sum_update_ne m.words hword (haltered.trans hsum.symm)

/-- **A heartbeat with one changed word is rejected**, whatever the watchdog
    holds: the nodes stay as they are and no callback is invoked. -/
theorem submit_altered_word (w : PosixWatchdog C) {m : HeartbeatMessage} {i : Fin 6}
    {word : UInt32} (hm : m.checksum = m.calculateChecksum) (hword : word ≠ m.words i)
    (now : TimePoint) :
    w.submitHeartbeat (m.withWord i word) now
      = ({ result := .error ⟨.invalidArgument, "Invalid heartbeat checksum".toList⟩
           timeouts := []
           heard := none }, w) := by
  rw [submitHeartbeat, if_pos (validateHeartbeat_withWord hm hword)]

/-- Nodes 7 and 8 are registered. -/
def sevenAndEight : PosixWatchdog Unit :=
  (run started [] [.registerNode 7 100 none 0, .registerNode 8 100 (some ()) 0]).1

/-- The heartbeat of node 7 that arrives as one of node 8. -/
theorem submit_altered_word_node8 :
    sevenAndEight.nodes.find 8 ≠ none
      ∧ sevenAndEight.submitHeartbeat (heartbeat7.withWord 0 8) 5
        = ({ result := .error ⟨.invalidArgument, "Invalid heartbeat checksum".toList⟩
             timeouts := []
             heard := none }, sevenAndEight) :=
  ⟨by decide, submit_altered_word sevenAndEight rfl (by decide) 5⟩

end PosixWatchdog

end LaunchCpp
