import LaunchCpp.Watchdog
import LaunchCpp.Library.ExactDoubles
import LaunchCpp.Library.FormattedInput
import LaunchCpp.Library.StringStream

/-! # CPU time from `/proc/<pid>/stat`

    `parse_process_stat` extracts the fields of a record one after another,
    the command name as one word.  A record is written here as the kernel
    writes it, with any text for a name.  The main result,
    `parseProcessStat_iff`, is that CPU time comes from the fields it should
    come from exactly when the name contains no white space. -/

namespace LaunchCpp

open ExactDoubles FormattedInput

/-- `ResourceUsage`, as far as it is filled in. -/
structure ResourceUsage where
  memoryBytes : UInt64 := 0
  virtualMemoryBytes : UInt64 := 0
  cpuPercent : Float := toDouble 0

namespace PosixResourceMonitor

/-- The extractions behind the state: `utime + stime`. -/
def readCounters : Reader UInt64 := do
  let _ppid ← readLong
  let _pgrp ← readLong
  let _session ← readLong
  let _ttyNr ← readLong
  let _tpgid ← readLong
  let _flags ← readUnsignedLong
  let _minflt ← readUnsignedLong
  let _cminflt ← readUnsignedLong
  let _majflt ← readUnsignedLong
  let _cmajflt ← readUnsignedLong
  let utime ← readUnsignedLong
  let stime ← readUnsignedLong
  pure (utime + stime)

/-- The extractions behind `pid_read`. -/
def readCommand : Reader UInt64 := do
  let _comm ← readWord
  let _state ← readChar
  readCounters

/-- `iss >> pid_read >> comm >> state >> ...`, with the `total_time`. -/
def readStat : Reader UInt64 := do
  let _pidRead ← readLong
  readCommand

/-- `static_cast<double>(total_time) / 100.0`. -/
def cpuPercent (totalTime : UInt64) : Float := toDouble totalTime.toNat / toDouble 100

/-- `parse_process_stat`, with the content of the file if it can be opened;
    `none` is `false`. -/
def parseProcessStat (stat : Option Str) : Option Float :=
  match stat with
  | none => none
  | some content =>
      let line := content.takeWhile (· ≠ '\n')
      match readStat line with
      | some (totalTime, _) => some (cpuPercent totalTime)
      | none => none

/-- `get_process_resources`, with what `parse_process_status` has read. -/
def getProcessResources (status : Option (UInt64 × UInt64)) (stat : Option Str) :
    PosixWatchdog.OsalResult ResourceUsage :=
  match status with
  | none => .error ⟨.notFound, "Failed to read process status".toList⟩
  | some (vmRss, vmSize) =>
      let usage : ResourceUsage := { memoryBytes := vmRss, virtualMemoryBytes := vmSize }
      match parseProcessStat stat with
      | some cpuPercent => .ok { usage with cpuPercent }
      | none => .ok usage

end PosixResourceMonitor

/-! ## Records -/

/-- A record as the kernel has it; the state is a letter. -/
structure StatRecord where
  pid : Int32
  comm : Str
  state : Char
  hstate : state.isAlpha = true
  ppid : Int32
  pgrp : Int32
  session : Int32
  ttyNr : Int32
  tpgid : Int32
  flags : UInt32
  minflt : UInt64
  cminflt : UInt64
  majflt : UInt64
  cmajflt : UInt64
  utime : UInt64
  stime : UInt64
  -- the fields behind `stime`
  later : List Int

namespace StatRecord

/-- The numeric fields behind the state. -/
def numbers (r : StatRecord) : List Int :=
  r.ppid.toInt :: r.pgrp.toInt :: r.session.toInt :: r.ttyNr.toInt :: r.tpgid.toInt
    :: (r.flags.toNat : Int) :: (r.minflt.toNat : Int) :: (r.cminflt.toNat : Int)
    :: (r.majflt.toNat : Int) :: (r.cmajflt.toNat : Int) :: (r.utime.toNat : Int)
    :: (r.stime.toNat : Int) :: r.later

/-- What stands behind the name. -/
def behindName (r : StatRecord) : Str := ')' :: ' ' :: r.state :: fields r.numbers

/-- The record as a line. -/
def line (r : StatRecord) : Str :=
  decimal r.pid.toInt ++ ' ' :: '(' :: (r.comm ++ r.behindName)

/-- The content of `/proc/<pid>/stat`. -/
def render (r : StatRecord) : Str := r.line ++ ['\n']

/-- The record with other CPU times. -/
def withTimes (r : StatRecord) (utime stime : UInt64) : StatRecord := { r with utime, stime }

/-- No character of the name is white space. -/
def OneWord (r : StatRecord) : Prop := ∀ c ∈ r.comm, isSpace c = false

end StatRecord

namespace PosixResourceMonitor

open StatRecord

/-! ## Names without white space -/

theorem readLong_int32 (n : Int32) (ns : List Int) :
    readLong (fields (n.toInt :: ns)) = some (n.toInt, fields ns) := by
  have hlow := n.le_toInt
  have hhigh := n.toInt_lt
  exact readLong_fields (by omega) (by omega) ns

/-- The counters are found behind the state. -/
theorem readCounters_numbers (r : StatRecord) :
    readCounters (fields r.numbers) = some (r.utime + r.stime, fields r.later) := by
  have hflags : (r.flags.toNat : Int) = (r.flags.toUInt64.toNat : Int) := by
    rw [UInt32.toNat_toUInt64]
  rw [readCounters, numbers, hflags]
  rw [bind_eq (readLong_int32 _ _), bind_eq (readLong_int32 _ _), bind_eq (readLong_int32 _ _),
    bind_eq (readLong_int32 _ _), bind_eq (readLong_int32 _ _)]
  rw [bind_eq (readUnsignedLong_fields _ _), bind_eq (readUnsignedLong_fields _ _),
    bind_eq (readUnsignedLong_fields _ _), bind_eq (readUnsignedLong_fields _ _),
    bind_eq (readUnsignedLong_fields _ _), bind_eq (readUnsignedLong_fields _ _),
    bind_eq (readUnsignedLong_fields _ _)]
  rfl

/-- A letter is neither white space nor part of a number. -/
theorem isAlpha_other {c : Char} (hc : c.isAlpha = true) :
    isSpace c = false ∧ c.isDigit = false ∧ c ≠ '-' ∧ c ≠ '+' := by
  have halpha : 65 ≤ c.toNat := by
    rcases (Bool.or_eq_true _ _).mp hc with hupper | hlower
    · exact UInt32.le_iff_toNat_le.mp (of_decide_eq_true hupper).1
    · have hle : 97 ≤ c.toNat :=
        UInt32.le_iff_toNat_le.mp (of_decide_eq_true ((Bool.and_eq_true _ _).mp hlower).1)
      omega
  refine ⟨?_, ?_, ?_, ?_⟩
  · refine Bool.eq_false_iff.mpr (fun h => ?_)
    simp only [isSpace, Bool.or_eq_true, decide_eq_true_eq] at h
    rcases h with ((((rfl | rfl) | rfl) | rfl) | rfl) | rfl <;> exact absurd halpha (by decide)
  · refine Bool.eq_false_iff.mpr (fun h => ?_)
    have hdigit : c.toNat ≤ 57 := (Char.isDigit_iff_toNat.mp h).2
    omega
  · rintro rfl
    exact absurd halpha (by decide)
  · rintro rfl
    exact absurd halpha (by decide)

theorem isSpace_of_mem : ∀ c ∈ [' '], isSpace c = true :=
  List.forall_mem_singleton.mpr rfl

/-- A name that is one word is read as one word, with its parentheses. -/
theorem readCommand_oneWord {r : StatRecord} (hr : r.OneWord) :
    readCommand (' ' :: '(' :: (r.comm ++ r.behindName))
      = some (r.utime + r.stime, fields r.later) := by
  have hword : ∀ c ∈ '(' :: (r.comm ++ [')']), isSpace c = false := by
    intro c hc
    simp only [List.mem_cons, List.mem_append, List.not_mem_nil, or_false] at hc
    rcases hc with rfl | hc | rfl
    · decide
    · exact hr c hc
    · decide
  have hcomm : readWord (' ' :: '(' :: (r.comm ++ r.behindName))
      = some ('(' :: (r.comm ++ [')']), ' ' :: r.state :: fields r.numbers) := by
    have := readWord_space (by decide : isSpace ' ' = true) (by decide : isSpace ' ' = true) hword
      (List.cons_ne_nil _ _) (r.state :: fields r.numbers)
    rwa [List.cons_append, List.append_assoc] at this
  have hstate : readChar (' ' :: r.state :: fields r.numbers)
      = some (r.state, fields r.numbers) := by
    exact readChar_space isSpace_of_mem (isAlpha_other r.hstate).1 _
  rw [readCommand, bind_eq hcomm, bind_eq hstate, readCounters_numbers]

/-! ## Names with white space -/

/-- The first of the characters of a kind. -/
theorem exists_first {p : Char → Bool} {s : Str} (h : ∃ c ∈ s, p c = true) :
    ∃ a c b, s = a ++ c :: b ∧ (∀ d ∈ a, p d = false) ∧ p c = true := by
  induction s with
  | nil =>
      obtain ⟨c, hc, -⟩ := h
      cases hc
  | cons d s ih =>
      by_cases hd : p d = true
      · exact ⟨[], d, s, rfl, (fun e he => by cases he), hd⟩
      · have hs : ∃ c ∈ s, p c = true := by
          obtain ⟨c, hc, hpc⟩ := h
          rcases List.mem_cons.mp hc with rfl | hc
          · exact absurd hpc hd
          · exact ⟨c, hc, hpc⟩
        obtain ⟨a, c, b, rfl, ha, hc⟩ := ih hs
        refine ⟨d :: a, c, b, rfl, ?_, hc⟩
        intro e he
        rcases List.mem_cons.mp he with rfl | he
        · exact Bool.eq_false_iff.mpr hd
        · exact ha e he

theorem stopsAt_readCounters : StopsAt ')' readCounters := by
  have hlong : StopsAt ')' readLong :=
    stopsAt_readLong (by decide) (by decide) (by decide) (by decide)
  have hunsigned : StopsAt ')' readUnsignedLong :=
    stopsAt_readUnsignedLong (by decide) (by decide) (by decide) (by decide)
  exact hlong.bind fun _ => hlong.bind fun _ => hlong.bind fun _ => hlong.bind fun _ =>
    hlong.bind fun _ => hunsigned.bind fun _ => hunsigned.bind fun _ => hunsigned.bind fun _ =>
    hunsigned.bind fun _ => hunsigned.bind fun _ => hunsigned.bind fun _ => hunsigned.bind fun _ =>
    stopsAt_pure _

/-- A list of white space, or one with a first other character. -/
theorem spaces_or_other (s : Str) :
    (∀ c ∈ s, isSpace c = true)
      ∨ ∃ spaces c b, s = spaces ++ c :: b ∧ (∀ d ∈ spaces, isSpace d = true)
        ∧ isSpace c = false := by
  by_cases hs : ∀ c ∈ s, isSpace c = true
  · exact Or.inl hs
  · simp only [not_forall, Bool.not_eq_true] at hs
    obtain ⟨c, hc, hspace⟩ := hs
    have hother : ∃ c ∈ s, (!isSpace c) = true := ⟨c, hc, by rw [hspace]; rfl⟩
    obtain ⟨a, d, b, rfl, ha, hd⟩ := exists_first hother
    exact Or.inr ⟨a, d, b, rfl, fun e he => (Bool.not_eq_false' _).mp (ha e he),
      (Bool.not_eq_true' _).mp hd⟩

/-- Behind a name of several words the record itself is not reached: either the
    closing parenthesis is taken for the state, and the state for a number, or
    all counters are looked for in the name. -/
theorem readCommand_blind {r r' : StatRecord} (hr : ∃ c ∈ r.comm, isSpace c = true)
    (hcomm : r'.comm = r.comm) :
    (readCommand (' ' :: '(' :: (r'.comm ++ r'.behindName))).map Prod.fst
      = (readCommand (' ' :: '(' :: (r.comm ++ r.behindName))).map Prod.fst := by
  obtain ⟨a, w, b, hsplit, ha, hw⟩ := exists_first hr
  have hword : ∀ c ∈ '(' :: a, isSpace c = false := by
    intro c hc
    rcases List.mem_cons.mp hc with rfl | hc
    · decide
    · exact ha c hc
  have hname : ∀ t, readWord (' ' :: '(' :: ((a ++ w :: b) ++ t))
      = some ('(' :: a, w :: (b ++ t)) := by
    intro t
    rw [List.append_assoc]
    exact readWord_space (by decide) hw hword (List.cons_ne_nil _ _) (b ++ t)
  rw [hcomm, hsplit, readCommand, bind_eq (hname _), bind_eq (hname _)]
  rcases spaces_or_other b with hb | ⟨spaces, c, b, rfl, hspaces, hc⟩
  · have hspaces : ∀ c ∈ w :: b, isSpace c = true := List.forall_mem_cons.mpr ⟨hw, hb⟩
    have hnone : ∀ r : StatRecord,
        (readChar >>= fun _ => readCounters) (w :: (b ++ r.behindName)) = none := by
      intro r
      obtain ⟨hspace, hdigit, hminus, hplus⟩ := isAlpha_other r.hstate
      have hstate : readChar (w :: (b ++ r.behindName))
          = some (')', [' '] ++ r.state :: fields r.numbers) :=
        readChar_space hspaces (by decide) _
      rw [bind_eq hstate]
      exact bind_none (readLong_other isSpace_of_mem hspace hdigit hminus hplus _)
    rw [hnone r, hnone r']
  · have hspaces : ∀ d ∈ w :: spaces, isSpace d = true := List.forall_mem_cons.mpr ⟨hw, hspaces⟩
    have hstate : ∀ t, readChar (w :: ((spaces ++ c :: b) ++ t)) = some (c, b ++ t) := by
      intro t
      rw [List.append_assoc]
      exact readChar_space hspaces hc (b ++ t)
    rw [bind_eq (hstate _), bind_eq (hstate _)]
    exact stopsAt_readCounters.blind b _ _

/-! ## Whole records -/

theorem parseProcessStat_eq (content : Str) :
    parseProcessStat (some content)
      = ((readStat (content.takeWhile (· ≠ '\n'))).map Prod.fst).map cpuPercent := by
  rw [parseProcessStat]
  show (match readStat (content.takeWhile (· ≠ '\n')) with
    | some (totalTime, _) => some (cpuPercent totalTime)
    | none => none) = _
  cases readStat (content.takeWhile (· ≠ '\n')) with
  | none => rfl
  | some r => rfl

theorem readStat_pid (pid : Int32) (s : Str) :
    readStat (decimal pid.toInt ++ ' ' :: s) = readCommand (' ' :: s) := by
  have hlow := pid.le_toInt
  have hhigh := pid.toInt_lt
  have hended : Ended (' ' :: s) := by
    intro c hc
    obtain rfl := Option.some.inj hc
    decide
  exact bind_eq (readLong_decimal (by omega) (by omega) hended)

/-- The line that is read, where the name has no newline. -/
theorem takeWhile_render {r : StatRecord} (hr : '\n' ∉ r.comm) :
    r.render.takeWhile (· ≠ '\n') = r.line := by
  refine (StringStreams.takeWhile_cut ?_ []).1
  have hstate : '\n' ≠ r.state := by
    intro h
    have hspace := (isAlpha_other r.hstate).1
    rw [← h] at hspace
    exact absurd hspace (by decide)
  simp [line, behindName, newline_not_mem_decimal, hr, hstate, newline_not_mem_fields]

/-- Where it has one, the line ends there. -/
theorem takeWhile_render_newline {r : StatRecord} {x y : Str} (hsplit : r.comm = x ++ '\n' :: y)
    (hx : '\n' ∉ x) :
    r.render.takeWhile (· ≠ '\n') = decimal r.pid.toInt ++ ' ' :: '(' :: x := by
  have hpiece : '\n' ∉ decimal r.pid.toInt ++ ' ' :: '(' :: x := by
    simp [newline_not_mem_decimal, hx]
  have hrender : r.render = (decimal r.pid.toInt ++ ' ' :: '(' :: x)
      ++ '\n' :: (y ++ r.behindName ++ ['\n']) := by
    rw [render, line, hsplit]
    simp
  rw [hrender]
  exact (StringStreams.takeWhile_cut hpiece _).1

/-- **A name of one word leaves the fields where they are.** -/
theorem parseProcessStat_oneWord {r : StatRecord} (hr : r.OneWord) :
    parseProcessStat (some r.render) = some (cpuPercent (r.utime + r.stime)) := by
  have hnewline : '\n' ∉ r.comm := by
    intro h
    exact absurd (hr _ h) (by decide)
  rw [parseProcessStat_eq, takeWhile_render hnewline, line, readStat_pid, readCommand_oneWord hr]
  rfl

theorem getProcessResources_oneWord {r : StatRecord} (hr : r.OneWord) (vmRss vmSize : UInt64) :
    getProcessResources (some (vmRss, vmSize)) (some r.render)
      = .ok ⟨vmRss, vmSize, cpuPercent (r.utime + r.stime)⟩ := by
  rw [getProcessResources, parseProcessStat_oneWord hr]

/-- **With any other name the fields are not read.** -/
theorem parseProcessStat_blind {r r' : StatRecord} (hr : ¬ r.OneWord) (hcomm : r'.comm = r.comm) :
    parseProcessStat (some r'.render) = parseProcessStat (some r.render) := by
  rw [parseProcessStat_eq, parseProcessStat_eq]
  by_cases hnewline : '\n' ∈ r.comm
  · obtain ⟨x, y, hsplit, hx⟩ := List.eq_append_cons_of_mem hnewline
    rw [takeWhile_render_newline hsplit hx, takeWhile_render_newline (hcomm.trans hsplit) hx,
      readStat_pid, readStat_pid]
  · have hspace : ∃ c ∈ r.comm, isSpace c = true := by
      simpa [OneWord] using hr
    have hnewline' : '\n' ∉ r'.comm := by
      rw [hcomm]
      exact hnewline
    rw [takeWhile_render hnewline, takeWhile_render hnewline', line, line, readStat_pid,
      readStat_pid, readCommand_blind hspace hcomm]

/-- CPU time comes from the fields `utime` and `stime`: the record is parsed,
    and whatever they are, it is their sum. -/
def DerivesCpuTime (r : StatRecord) : Prop :=
  ∀ utime stime, parseProcessStat (some (r.withTimes utime stime).render)
    = some (cpuPercent (utime + stime))

/-- **CPU time and command names.**  CPU time comes from its fields exactly when
    the command name contains no white space.  Where it does, the outcome
    depends on the name alone, whatever else the record holds. -/
theorem parseProcessStat_iff (r : StatRecord) :
    (DerivesCpuTime r ↔ r.OneWord)
      ∧ (¬ r.OneWord → ∀ r', StatRecord.comm r' = r.comm →
        parseProcessStat (some r'.render) = parseProcessStat (some r.render)) := by
  refine ⟨⟨?_, ?_⟩, fun hr r' hcomm => parseProcessStat_blind hr hcomm⟩
  · intro hderives
    by_contra hr
    -- a second of CPU time, or none
    have hnone : parseProcessStat (some (r.withTimes 0 0).render)
        = parseProcessStat (some r.render) := parseProcessStat_blind hr rfl
    have hsecond : parseProcessStat (some (r.withTimes 100 0).render)
        = parseProcessStat (some r.render) := parseProcessStat_blind hr rfl
    have hsame := hnone.trans hsecond.symm
    rw [hderives 0 0, hderives 100 0] at hsame
    exact absurd (Option.some.inj hsame) (by decide)
  · intro hr utime stime
    exact parseProcessStat_oneWord hr

/-- A process with two words for a name. -/
def tmux : StatRecord where
  pid := 812
  comm := "tmux: server".toList
  state := 'S'
  hstate := by decide
  ppid := 1
  pgrp := 812
  session := 812
  ttyNr := 0
  tpgid := -1
  flags := 4194560
  minflt := 900
  cminflt := 0
  majflt := 3
  cmajflt := 0
  utime := 250
  stime := 50
  later := [0, 0, 20, 0]

/-- The same process under a name that looks like a record. -/
def numbered : StatRecord := { tmux with comm := "a b 1 2 3 4 5 6 7 8 9 10 11 12".toList }

/-- Its record is not parsed; under the other name it is, and what is reported
    is part of the name. -/
theorem parseProcessStat_tmux :
    parseProcessStat (some tmux.render) = none
      ∧ parseProcessStat (some numbered.render) = some (cpuPercent 23)
      ∧ cpuPercent (numbered.utime + numbered.stime) ≠ cpuPercent 23 :=
  ⟨by decide, by decide, by decide⟩

/-- The record does not yield its CPU time, and no other times change that. -/
theorem parseProcessStat_iff_tmux :
    ¬ DerivesCpuTime tmux
      ∧ parseProcessStat (some (tmux.withTimes 0 0).render) = parseProcessStat (some tmux.render) := by
  have htmux : ¬ tmux.OneWord := by
    intro h
    exact absurd (h ' ' (by decide)) (by decide)
  have hiff := parseProcessStat_iff tmux
  exact ⟨fun h => htmux (hiff.1.mp h), hiff.2 htmux (tmux.withTimes 0 0) rfl⟩

end PosixResourceMonitor

end LaunchCpp
