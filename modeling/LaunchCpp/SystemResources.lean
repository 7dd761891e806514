import LaunchCpp.ProcessStat
import LaunchCpp.RetryAttempts
import Mathlib.Logic.Relation

/-! # Memory from `/proc/meminfo` and `/proc/<pid>/status`

    Both files are read line by line, and a line is known by the word in front
    of it.  Files are written here as the kernel writes them, with whatever
    other lines.  `starts_within_memory` takes this to the end of the chain: a
    process is started only at a moment at which `/proc/meminfo` says that
    there is enough memory for it.

    A `double` is a value of any type `D`, and `> 0.8` any test of it. -/

namespace LaunchCpp

open FormattedInput StringStreams

namespace PosixResourceMonitor

/-! ## The readers -/

structure MemInfo where
  totalMemory : UInt64 := 0
  availableMemory : UInt64 := 0

/-- `iss >> key >> value >> unit`. -/
def readEntry : Reader (Str × UInt64) := do
  let key ← readWord
  let value ← readUnsignedLong
  let _unit ← readWord
  pure (key, value)

/-- The loop body of `parse_mem_info`. -/
def MemInfo.read (m : MemInfo) (line : Str) : MemInfo :=
  match readEntry line with
  | none => m
  | some ((key, value), _) =>
      if key = "MemTotal:".toList then { m with totalMemory := value * 1024 }
      else if key = "MemAvailable:".toList then { m with availableMemory := value * 1024 }
      else m

/-- `parse_mem_info`, with the content of the file if it can be opened; `none`
    is `false`. -/
def parseMemInfo (meminfo : Option Str) : Option MemInfo :=
  match meminfo with
  | none => none
  | some content =>
      let m := (linesOf content).foldl MemInfo.read {}
      if 0 < m.totalMemory then some m else none

/-- `SystemResources`, as far as somebody reads it. -/
structure SystemResources (D : Type) where
  totalMemoryBytes : UInt64
  availableMemoryBytes : UInt64
  cpuLoad1Min : D

section Available

variable {D : Type} (zero : D) (exceeds : D → Bool)

/-- `get_system_resources`, with what `parse_cpu_stat` has read. -/
def getSystemResources (meminfo : Option Str) (load1 : Option D) :
    PosixWatchdog.OsalResult (SystemResources D) :=
  match parseMemInfo meminfo with
  | none => .error ⟨.error, "Failed to parse /proc/meminfo".toList⟩
  | some m => .ok ⟨m.totalMemory, m.availableMemory, load1.getD zero⟩

/-- `are_resources_available`. -/
def areResourcesAvailable (meminfo : Option Str) (load1 : Option D) (estimatedMemory : Nat) :
    PosixWatchdog.OsalResult Bool :=
  match getSystemResources zero meminfo load1 with
  | .error e => .error e
  | .ok resources =>
      if resources.availableMemoryBytes.toNat < estimatedMemory then .ok false
      else if exceeds resources.cpuLoad1Min then .ok false
      else .ok true

/-- The monitor, on a system whose files are read off the world. -/
def onFiles {W : Type*} (meminfo : W → Option Str) (load1 : W → Option D)
    (setResourceLimits : ProcessId → Nat → Rat → W → W) : ResourceMonitor W where
  areResourcesAvailable estimatedMemory w :=
    match areResourcesAvailable zero exceeds (meminfo w) (load1 w) estimatedMemory with
    | .error e => (.error e.message, w)
    | .ok available => (.ok available, w)
  setResourceLimits := setResourceLimits

end Available

structure ProcessStatus where
  vmRss : UInt64 := 0
  vmSize : UInt64 := 0

/-- `iss >> key >> value`, where `value` held something before: it is left
    alone when nothing is there to read, set to 0 when no number is, and to
    the largest one when the number is too large. -/
def readValue (before : UInt64) (line : Str) : UInt64 :=
  match readWord line with
  | none => before
  | some (_, rest) =>
      if skipSpace rest = [] then before
      else
        match readDigits rest with
        | none => 0
        | some (r, _) => (toUnsignedLong r).getD 0xFFFFFFFFFFFFFFFF

/-- The loop body of `parse_process_status`; `value` is not initialised, and
    may be anything on any line. -/
def ProcessStatus.read (before : Str → UInt64) (s : ProcessStatus) (line : Str) : ProcessStatus :=
  if "VmRSS:".toList <+: line then { s with vmRss := readValue (before line) line * 1024 }
  else if "VmSize:".toList <+: line then { s with vmSize := readValue (before line) line * 1024 }
  else s

/-- `parse_process_status`. -/
def parseProcessStatus (before : Str → UInt64) (status : Option Str) : Option (UInt64 × UInt64) :=
  match status with
  | none => none
  | some content =>
      let s := (linesOf content).foldl (ProcessStatus.read before) {}
      some (s.vmRss, s.vmSize)

end PosixResourceMonitor

/-! ## What the kernel writes -/

/-- Names are checked by evaluation. -/
theorem noSpaces_of_any {name : Str} (h : name.any isSpace = false) :
    ∀ c ∈ name, isSpace c = false :=
  fun c hc => Bool.eq_false_iff.mpr (List.any_eq_false.mp h c hc)

/-- A line of one of the files.  The number is padded, on the left, with blanks
    or behind a tab; a number that fills its column has the tab only. -/
structure ProcEntry where
  name : Str
  hname : ∀ c ∈ name, isSpace c = false
  hcolon : ':' ∉ name
  padding : Str
  hpadding : ∀ c ∈ padding, isSpace c = true
  hpadded : padding ≠ []
  hline : '\n' ∉ padding
  value : UInt64
  -- some lines of `/proc/meminfo` count pages
  kB : Bool

namespace ProcEntry

def line (e : ProcEntry) : Str :=
  e.name ++ ':' :: (e.padding ++ (decimal (e.value.toNat : Int)
    ++ if e.kB then " kB".toList else []))

/-- A number of eight digits fills its column. -/
example : line ⟨"VmSize".toList, noSpaces_of_any (by decide), by decide,
    "\t".toList, List.all_eq_true.mp (by decide), by decide, by decide, 12614104, true⟩
      = "VmSize:\t12614104 kB".toList := rfl

/-- An entry stays on its line. -/
theorem newline_not_mem_line (e : ProcEntry) : '\n' ∉ e.line := by
  have hname : '\n' ∉ e.name := fun h => absurd (e.hname _ h) (by decide)
  have hvalue := newline_not_mem_decimal (e.value.toNat : Int)
  have hunit : '\n' ∉ (if e.kB then " kB".toList else []) := by
    cases e.kB <;> decide
  simp only [line, List.mem_append, List.mem_cons, not_or]
  exact ⟨hname, by decide, e.hline, hvalue, hunit⟩

/-- The last entry of a name with a unit. -/
def lastOf (name : Str) : List ProcEntry → Option UInt64
  | [] => none
  | e :: es => (lastOf name es).or (if e.kB = true ∧ e.name = name then some e.value else none)

/-- `/proc/meminfo`. -/
def render (es : List ProcEntry) : Str := unlines (es.map line)

/-- The key of a line. -/
def key (e : ProcEntry) : Str := e.name ++ [':']

/-- What stands behind the key. -/
def behindKey (e : ProcEntry) : Str :=
  e.padding ++ (decimal (e.value.toNat : Int) ++ if e.kB then " kB".toList else [])

/-- The key, and what stands behind it. -/
theorem line_eq (e : ProcEntry) : e.line = e.key ++ e.behindKey := by
  simp [line, key, behindKey]

/-- The key is read first. -/
theorem readWord_line (e : ProcEntry) : readWord e.line = some (e.key, e.behindKey) := by
  rw [line_eq]
  refine readWord_append (fun c hc => ?_) (List.append_ne_nil_of_right_ne_nil _ (List.cons_ne_nil _ _))
    (fun c hc => ?_)
  · rcases List.mem_append.mp hc with hc | hc
    · exact e.hname c hc
    · rw [List.mem_singleton.mp hc]
      rfl
  · refine e.hpadding c ?_
    rw [behindKey, List.head?_append_of_ne_nil _ e.hpadded] at hc
    exact List.mem_of_mem_head? hc

/-- A number ends in front of the unit. -/
theorem ended_unit (b : Bool) : Ended (if b then " kB".toList else []) := by
  cases b with
  | true =>
      intro c hc
      obtain rfl := Option.some.inj hc
      decide
  | false =>
      intro c hc
      cases hc

/-- Then the number, whatever white space stands in front of it. -/
theorem readUnsignedLong_behindKey (e : ProcEntry) :
    readUnsignedLong e.behindKey = some (e.value, if e.kB then " kB".toList else []) := by
  rw [behindKey, readUnsignedLong_spaces e.hpadding]
  exact readUnsignedLong_decimal e.value (ended_unit e.kB)

/-- Names without a colon are told apart by their keys. -/
theorem key_eq_iff (e : ProcEntry) (name : Str) : e.key = name ++ [':'] ↔ e.name = name :=
  List.append_left_inj _

end ProcEntry

namespace PosixResourceMonitor

open ProcEntry

/-! ## `/proc/meminfo` -/

/-- **An entry is read as what it says**, if it has a unit. -/
theorem readEntry_line (e : ProcEntry) :
    (readEntry e.line).map Prod.fst = if e.kB then some (e.key, e.value) else none := by
  rw [readEntry, bind_eq e.readWord_line, bind_eq e.readUnsignedLong_behindKey]
  cases e.kB <;> rfl

/-- What one entry does to the memory that is known. -/
theorem MemInfo.read_line (m : MemInfo) (e : ProcEntry) :
    m.read e.line
      = ⟨((if e.kB = true ∧ e.name = "MemTotal".toList then some e.value else none).map
            (· * 1024)).getD m.totalMemory,
          ((if e.kB = true ∧ e.name = "MemAvailable".toList then some e.value else none).map
            (· * 1024)).getD m.availableMemory⟩ := by
  have hentry := readEntry_line e
  rw [MemInfo.read]
  cases hkB : e.kB with
  | false =>
      rw [hkB] at hentry
      rw [Option.map_eq_none_iff.mp hentry]
      simp
  | true =>
      rw [hkB] at hentry
      obtain ⟨⟨entry, rest⟩, hread, hentry⟩ := Option.map_eq_some_iff.mp hentry
      obtain rfl : entry = (e.key, e.value) := hentry
      rw [hread]
      show (if e.key = "MemTotal".toList ++ [':'] then _
        else if e.key = "MemAvailable".toList ++ [':'] then _ else m) = _
      simp only [key_eq_iff]
      by_cases htotal : e.name = "MemTotal".toList
      · rw [htotal]
        rfl
      · by_cases havailable : e.name = "MemAvailable".toList
        · rw [havailable]
          rfl
        · rw [if_neg htotal, if_neg havailable, if_neg (fun h => htotal h.2),
            if_neg (fun h => havailable h.2)]
          rfl

/-- **The last entry counts**, for both amounts. -/
theorem foldl_read (es : List ProcEntry) (m : MemInfo) :
    (es.map ProcEntry.line).foldl MemInfo.read m
      = ⟨((lastOf "MemTotal".toList es).map (· * 1024)).getD m.totalMemory,
          ((lastOf "MemAvailable".toList es).map (· * 1024)).getD m.availableMemory⟩ := by
  induction es generalizing m with
  | nil => rfl
  | cons e es ih =>
      show (es.map ProcEntry.line).foldl MemInfo.read (m.read e.line) = _
      rw [ih, MemInfo.read_line, lastOf, lastOf]
      cases lastOf "MemTotal".toList es <;>
      cases lastOf "MemAvailable".toList es <;>
      rfl

/-- **What is read of `/proc/meminfo`** is the last entry of each name,
    whatever other entries there are. -/
theorem parseMemInfo_render (es : List ProcEntry) :
    parseMemInfo (some (render es))
      = if 0 < ((lastOf "MemTotal".toList es).map (· * 1024)).getD 0 then
          some ⟨((lastOf "MemTotal".toList es).map (· * 1024)).getD 0,
            ((lastOf "MemAvailable".toList es).map (· * 1024)).getD 0⟩
        else none := by
  have hlines : ∀ l ∈ es.map ProcEntry.line, '\n' ∉ l :=
    List.forall_mem_map.mpr (fun e _ => e.newline_not_mem_line)
  rw [parseMemInfo, render, linesOf_unlines hlines]
  show (if 0 < ((es.map ProcEntry.line).foldl MemInfo.read {}).totalMemory then _ else _) = _
  rw [foldl_read]

/-! ## A process is started -/

section Starts

open ExecuteProcess

variable {D : Type} {zero : D} {exceeds : D → Bool}

/-- There is enough memory, and the processor is not too busy. -/
theorem areResourcesAvailable_render {es : List ProcEntry} {load1 : Option D}
    {estimatedMemory : Nat}
    (h : areResourcesAvailable zero exceeds (some (render es)) load1 estimatedMemory = .ok true) :
    estimatedMemory ≤ ((lastOf "MemAvailable".toList es).getD 0).toNat * 1024
      ∧ exceeds (load1.getD zero) = false := by
  rw [areResourcesAvailable, getSystemResources, parseMemInfo_render] at h
  by_cases htotal : 0 < ((lastOf "MemTotal".toList es).map (· * 1024)).getD 0
  · rw [if_pos htotal] at h
    simp only at h
    have hcast : (((lastOf "MemAvailable".toList es).map (· * 1024)).getD 0).toNat
        ≤ ((lastOf "MemAvailable".toList es).getD 0).toNat * 1024 := by
      cases lastOf "MemAvailable".toList es with
      | none => exact Nat.le_refl 0
      | some value =>
          -- the product may wrap around, and is then too small
          show (value * 1024).toNat ≤ _
          rw [UInt64.toNat_mul]
          exact Nat.mod_le _ _
    split at h
    · cases h
    · split at h
      · cases h
      · next hmemory hload => exact ⟨(Nat.not_lt.mp hmemory).trans hcast, eq_false_of_ne_true hload⟩
  · rw [if_neg htotal] at h
    cases h

variable {W : Type*} {posix : Posix W} {cmd : List Str}

/-- What `execute_with_retry` starts, it starts in one of its attempts. -/
theorem retryLoop_reaches {fuel attempt : Nat} {self : ExecuteProcess W} {w : W}
    (h : (retryLoop posix cmd fuel attempt self w).started ≠ []) :
    ∃ a : Attempt W, Relation.ReflTransGen (Attempt.Next posix cmd) ⟨attempt, self, w⟩ a
      ∧ a.Succeeds posix cmd := by
  induction fuel generalizing attempt self w with
  | zero => exact absurd rfl h
  | succ fuel ih =>
      rw [retryLoop] at h
      rcases executeSingleAttempt_cases posix self cmd w with
        ⟨⟨e, hresult⟩, -, hstarted⟩ | ⟨hresult, -⟩
      · simp only [hresult, hstarted] at h
        by_cases hlimit : self.options.maxRetries < (attempt + 1) % 2 ^ 32
        · rw [if_pos hlimit] at h
          exact absurd rfl h
        · rw [if_neg hlimit, if_neg (not_not_intro (executeSingleAttempt_retryable hresult)),
            List.nil_append] at h
          obtain ⟨a, hreaches, hsucceeds⟩ := ih h
          have hnext : Attempt.Next posix cmd ⟨attempt, self, w⟩
              ⟨(attempt + 1) % 2 ^ 32,
                (Attempt.cleaned posix cmd ⟨attempt, self, w⟩).1,
                (Attempt.cleaned posix cmd ⟨attempt, self, w⟩).2⟩ :=
            ⟨⟨e, hresult⟩, rfl, Nat.not_lt.mp hlimit, rfl⟩
          exact ⟨a, hreaches.head hnext, hsucceeds⟩
      · exact ⟨_, .refl, hresult⟩

/-- An attempt that succeeds was not refused. -/
theorem resourcesAvailable_of_succeeds {a : Attempt W} (h : a.Succeeds posix cmd) :
    (a.self.resourcesAvailable a.world).1 = true := by
  rw [Attempt.Succeeds, Attempt.run, executeSingleAttempt] at h
  rcases hcheck : a.self.resourcesAvailable a.world with ⟨_ | _, w⟩
  · rw [hcheck] at h
    cases h
  · rfl

/-- What `execute` asks the monitor for. -/
def estimatedMemory (options : ExecuteProcess.Options) : Nat :=
  if 0 < options.maxMemoryBytes then options.maxMemoryBytes else 100 * 1024 * 1024

variable {meminfo : W → Option Str} {entries : W → Option (List ProcEntry)} {load1 : W → Option D}
  {limit : ProcessId → Nat → Rat → W → W}

/-- **A process is started while there is memory for it**: whatever the other
    components do, in whatever attempt it is, and whatever else stands in
    `/proc/meminfo`, at the moment of that attempt the memory the file calls
    available is no less than the limit the action was given, or 100 MiB, and
    the processor is not too busy. -/
theorem starts_within_memory {self : ExecuteProcess W} (hsafety : self.options.enableSafety = true)
    (hmonitor : self.resourceMonitor = some (onFiles zero exceeds meminfo load1 limit))
    (hmeminfo : ∀ w, meminfo w = (entries w).map render) {fuel : Nat} {context : LaunchContext}
    {w : W} (hstarted : (self.execute posix fuel context w).started ≠ []) :
    ∃ cmd a es, validateAndEscapeCommand (self.resolveCommand context) = .ok cmd
      ∧ Relation.ReflTransGen (Attempt.Next posix cmd) ⟨0, self, w⟩ a ∧ a.Succeeds posix cmd
      ∧ entries a.world = some es
      ∧ estimatedMemory self.options ≤ ((lastOf "MemAvailable".toList es).getD 0).toNat * 1024
      ∧ exceeds ((load1 a.world).getD zero) = false := by
  rw [execute] at hstarted
  cases hcmd : validateAndEscapeCommand (self.resolveCommand context) with
  | error e =>
      rw [hcmd] at hstarted
      exact absurd rfl hstarted
  | ok cmd =>
      rw [hcmd] at hstarted
      obtain ⟨a, hreaches, hsucceeds⟩ : ∃ a : Attempt W,
          Relation.ReflTransGen (Attempt.Next posix cmd) ⟨0, self, w⟩ a
            ∧ a.Succeeds posix cmd := by
        simp only at hstarted
        split at hstarted
        · exact retryLoop_reaches hstarted
        · rcases executeSingleAttempt_cases posix self cmd w with ⟨-, -, hnone⟩ | ⟨hresult, -⟩
          · exact absurd hnone hstarted
          · exact ⟨_, .refl, hresult⟩
      have hsame : a.self.options = self.options ∧ a.self.resourceMonitor = self.resourceMonitor := by
        clear hsucceeds
        induction hreaches with
        | refl => exact ⟨rfl, rfl⟩
        | tail _ hnext ih =>
            rw [hnext.self_eq]
            exact ih
      have havailable := resourcesAvailable_of_succeeds hsucceeds
      rw [resourcesAvailable, hsame.1, hsame.2, hsafety, hmonitor] at havailable
      simp only [onFiles, hmeminfo] at havailable
      cases hentries : entries a.world with
      | none =>
          rw [hentries] at havailable
          cases havailable
      | some es =>
          rw [hentries] at havailable
          have hanswer : areResourcesAvailable zero exceeds (some (render es)) (load1 a.world)
              (estimatedMemory self.options) = .ok true := by
            generalize hanswer : areResourcesAvailable zero exceeds (some (render es))
              (load1 a.world) (estimatedMemory self.options) = answer
            rw [Option.map_some] at havailable
            rw [estimatedMemory] at hanswer
            rw [hanswer] at havailable
            cases answer with
            | error e => cases havailable
            | ok available => exact congrArg Except.ok havailable
          obtain ⟨hmemory, hload⟩ := areResourcesAvailable_render hanswer
          exact ⟨cmd, a, es, rfl, hreaches, hsucceeds, hentries, hmemory, hload⟩

/-- The file of a machine with 16 GB, the same at every moment. -/
def smallMachine (_ : Nat) : Option (List ProcEntry) :=
  some [⟨"MemTotal".toList, noSpaces_of_any (by decide), by decide, "      ".toList,
      List.all_eq_true.mp (by decide), by decide, by decide, 16000000, true⟩,
    ⟨"MemAvailable".toList, noSpaces_of_any (by decide), by decide, "  ".toList,
      List.all_eq_true.mp (by decide), by decide, by decide, 9000000, true⟩]

/-- An action on it that may use 2 GB. -/
def frugal : ExecuteProcess Nat where
  options := { cmd := [some (textSubstitution "talker".toList)], enableSafety := true,
               maxMemoryBytes := 2000000000 }
  processExecutor := some countingExecutor
  resourceMonitor := some (onFiles 0 (fun load => decide (load > 80))
    (fun w => (smallMachine w).map render) (fun _ => some 15) (fun _ _ _ w => w))

/-- A frugal process is started while there is memory. -/
theorem starts_within_memory_frugal :
    ∃ w es, smallMachine w = some es
      ∧ estimatedMemory frugal.options
          ≤ ((lastOf "MemAvailable".toList es).getD 0).toNat * 1024 := by
  have hsafety : frugal.options.enableSafety = true := rfl
  have hmeminfo : ∀ w, (smallMachine w).map render = (smallMachine w).map render := fun _ => rfl
  have hstarted : (frugal.execute idleSystem.posix 1 LaunchContext.empty 0).started ≠ [] := by
    decide +kernel
  obtain ⟨cmd, a, es, -, -, -, hentries, hmemory, -⟩ :=
    starts_within_memory hsafety rfl hmeminfo hstarted
  exact ⟨a.world, es, hentries, hmemory⟩

end Starts

/-! ## `/proc/<pid>/status` -/

end PosixResourceMonitor

/-- A line of `/proc/<pid>/status` that is not about memory, such as the one
    with the name of the command. -/
structure ProcText where
  line : Str
  hrss : ¬ "VmRSS:".toList <+: line
  hsize : ¬ "VmSize:".toList <+: line
  hline : '\n' ∉ line

/-- `/proc/<pid>/status`. -/
abbrev StatusRecord := List (ProcEntry ⊕ ProcText)

namespace StatusRecord

def line : ProcEntry ⊕ ProcText → Str
  | .inl e => e.line
  | .inr t => t.line

def render (r : StatusRecord) : Str := unlines (r.map line)

/-- The last entry of a name. -/
def lastOf (name : Str) : StatusRecord → Option UInt64
  | [] => none
  | .inl e :: r => (lastOf name r).or (if e.name = name then some e.value else none)
  | .inr _ :: r => lastOf name r

/-- The value of one entry. -/
theorem lastOf_entry (name : Str) (e : ProcEntry) :
    lastOf name [.inl e] = if e.name = name then some e.value else none :=
  Option.none_or

/-- An entry behind counts more than one in front. -/
theorem lastOf_cons (name : Str) (l : ProcEntry ⊕ ProcText) (r : StatusRecord) :
    lastOf name (l :: r) = (lastOf name r).or (lastOf name [l]) := by
  cases l with
  | inl e => rfl
  | inr t => exact Option.or_none.symm

end StatusRecord

namespace PosixResourceMonitor

/-- `find` at 0. -/
theorem key_prefix_iff {name t rest : Str} (hname : ':' ∉ name) (ht : ':' ∉ t) :
    t ++ [':'] <+: name ++ ':' :: rest ↔ name = t := by
  constructor
  · rintro ⟨u, hu⟩
    rw [List.append_assoc, List.singleton_append] at hu
    rw [← (takeWhile_cut hname rest).1, ← hu, (takeWhile_cut ht u).1]
  · rintro rfl
    exact ⟨rest, by rw [List.append_assoc, List.singleton_append]⟩

/-- A conversion reads what it converts. -/
theorem convert_eq_some {α β : Type} {f : Reader α} {g : α → Option β} {s rest : Str} {b : β}
    (h : convert f g s = some (b, rest)) : ∃ a, f s = some (a, rest) ∧ g a = some b := by
  rw [convert] at h
  cases hf : f s with
  | none =>
      rw [hf] at h
      cases h
  | some r =>
      rw [hf] at h
      obtain ⟨b', hg, heq⟩ := Option.map_eq_some_iff.mp h
      cases heq
      exact ⟨r.1, rfl, hg⟩

/-- The value of an entry is read, whatever was there before. -/
theorem readValue_line (before : UInt64) (e : ProcEntry) : readValue before e.line = e.value := by
  obtain ⟨r, hdigits, hvalue⟩ := convert_eq_some e.readUnsignedLong_behindKey
  have hne : skipSpace e.behindKey ≠ [] := by
    intro hnil
    rw [readDigits, hnil] at hdigits
    cases hdigits
  rw [readValue, e.readWord_line]
  show (if skipSpace e.behindKey = [] then before else _) = _
  rw [if_neg hne, hdigits]
  show (toUnsignedLong r).getD _ = _
  rw [hvalue]
  rfl

/-- What one line does to the memory that is known. -/
theorem ProcessStatus.read_line (before : Str → UInt64) (s : ProcessStatus)
    (l : ProcEntry ⊕ ProcText) :
    s.read before (StatusRecord.line l)
      = ⟨((StatusRecord.lastOf "VmRSS".toList [l]).map (· * 1024)).getD s.vmRss,
          ((StatusRecord.lastOf "VmSize".toList [l]).map (· * 1024)).getD s.vmSize⟩ := by
  have hrss : ':' ∉ "VmRSS".toList := by decide
  have hsize : ':' ∉ "VmSize".toList := by decide
  rw [ProcessStatus.read]
  cases l with
  | inl e =>
      show (if "VmRSS".toList ++ [':'] <+: e.name ++ ':' :: _ then _
        else if "VmSize".toList ++ [':'] <+: e.name ++ ':' :: _ then _ else s) = _
      simp only [key_prefix_iff e.hcolon hrss, key_prefix_iff e.hcolon hsize]
      rw [StatusRecord.line, readValue_line, StatusRecord.lastOf_entry, StatusRecord.lastOf_entry]
      by_cases hname : e.name = "VmRSS".toList
      · rw [hname]
        rfl
      · by_cases hname' : e.name = "VmSize".toList
        · rw [hname']
          rfl
        · rw [if_neg hname, if_neg hname', if_neg hname, if_neg hname']
          rfl
  | inr t =>
      show (if "VmRSS:".toList <+: t.line then _ else if "VmSize:".toList <+: t.line then _ else s)
        = _
      rw [if_neg t.hrss, if_neg t.hsize]
      rfl

/-- **The last line counts**, for both amounts. -/
theorem foldl_statusRead (before : Str → UInt64) (r : StatusRecord) (s : ProcessStatus) :
    (r.map StatusRecord.line).foldl (ProcessStatus.read before) s
      = ⟨((StatusRecord.lastOf "VmRSS".toList r).map (· * 1024)).getD s.vmRss,
          ((StatusRecord.lastOf "VmSize".toList r).map (· * 1024)).getD s.vmSize⟩ := by
  induction r generalizing s with
  | nil => rfl
  | cons l r ih =>
      show (r.map StatusRecord.line).foldl _ (s.read before (StatusRecord.line l)) = _
      rw [ih, ProcessStatus.read_line, StatusRecord.lastOf_cons _ l r,
        StatusRecord.lastOf_cons "VmSize".toList l r]
      cases StatusRecord.lastOf "VmRSS".toList r <;>
      cases StatusRecord.lastOf "VmSize".toList r <;>
      rfl

/-- **The memory of a process is that of its record**, whatever the process is
    called and whatever else stands there: the last of the entries, times 1024
    in 64 bits, and 0 where there is none.  It does not depend on what `value`
    held before, nor on the record of its CPU time. -/
theorem memory_from_record (before : Str → UInt64) (r : StatusRecord) (stat : Option Str) :
    getProcessResources (parseProcessStatus before (some r.render)) stat
      = .ok { memoryBytes := ((StatusRecord.lastOf "VmRSS".toList r).map (· * 1024)).getD 0
              virtualMemoryBytes := ((StatusRecord.lastOf "VmSize".toList r).map (· * 1024)).getD 0
              cpuPercent := (parseProcessStat stat).getD (ExactDoubles.toDouble 0) } := by
  have hlines : ∀ l ∈ r.map StatusRecord.line, '\n' ∉ l := by
    refine List.forall_mem_map.mpr (fun l _ => ?_)
    cases l with
    | inl e => exact e.newline_not_mem_line
    | inr t => exact t.hline
  have hstatus : parseProcessStatus before (some r.render)
      = some (((StatusRecord.lastOf "VmRSS".toList r).map (· * 1024)).getD 0,
        ((StatusRecord.lastOf "VmSize".toList r).map (· * 1024)).getD 0) := by
    rw [parseProcessStatus, StatusRecord.render, linesOf_unlines hlines]
    simp only [foldl_statusRead]
  rw [hstatus, getProcessResources]
  cases parseProcessStat stat <;> rfl

end PosixResourceMonitor

end LaunchCpp
