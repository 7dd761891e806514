import LaunchCpp.ExecuteProcess
import LaunchCpp.Library.ShellWords

/-! # Substitutions that ask the system

    `Command` has a shell run a line and takes what it prints, `FindExecutable`
    searches the `PATH`.  What the system answers is a parameter: the output of
    a line, and the type and mode of a file.

    A command is a list of substitutions of which only a line is left, and its
    output comes back in pieces of a buffer.  `command_performs` says when
    neither can be seen. -/

namespace LaunchCpp

namespace Command

/-- The loop of `perform` over `command_`. -/
def buildLine (context : LaunchContext) : Str → List (Option Substitution) → Str
  | cmd, [] => cmd
  | cmd, none :: rest => buildLine context cmd rest
  | cmd, some sub :: rest =>
      buildLine context ((if cmd = [] then cmd else cmd ++ [' ']) ++ sub.perform context) rest

/-- What `fgets` takes: at most `n` characters, and none behind a newline. -/
def takeLine : Nat → Str → Str × Str
  | 0, stream => ([], stream)
  | _ + 1, [] => ([], [])
  | n + 1, c :: stream =>
      if c = '\n' then ([c], stream)
      else (c :: (takeLine n stream).1, (takeLine n stream).2)

/-- `fgets`; null at the end of the output. -/
def fgets (size : Nat) (stream : Str) : Option (Str × Str) :=
  if stream = [] then none else some (takeLine (size - 1) stream)

/-- A line and what is behind it make up the stream. -/
theorem takeLine_append (n : Nat) (stream : Str) :
    (takeLine n stream).1 ++ (takeLine n stream).2 = stream := by
  induction stream generalizing n with
  | nil => cases n <;> rfl
  | cons c stream ih =>
      cases n with
      | zero => rfl
      | succ n =>
          rw [takeLine]
          split_ifs
          · rfl
          · exact congrArg (List.cons c) (ih n)

/-- There is something on the line if there is something on the stream. -/
theorem takeLine_ne_nil {n : Nat} {stream : Str} (hn : 0 < n) (hne : stream ≠ []) :
    (takeLine n stream).1 ≠ [] := by
  obtain ⟨n, rfl⟩ := Nat.exists_eq_succ_of_ne_zero hn.ne'
  obtain ⟨c, stream, rfl⟩ := List.exists_cons_of_ne_nil hne
  rw [takeLine]
  split_ifs
  · exact List.cons_ne_nil _ _
  · exact List.cons_ne_nil _ _

/-- What `fgets` reads is taken from the stream. -/
theorem fgets_eq_some {size : Nat} {stream buffer rest : Str} (hsize : 1 < size)
    (h : fgets size stream = some (buffer, rest)) : buffer ++ rest = stream ∧ buffer ≠ [] := by
  rw [fgets] at h
  split_ifs at h with hnil
  have htaken := Option.some.inj h
  have hbuffer : (takeLine (size - 1) stream).1 = buffer := congrArg Prod.fst htaken
  have hrest : (takeLine (size - 1) stream).2 = rest := congrArg Prod.snd htaken
  rw [← hbuffer, ← hrest]
  exact ⟨takeLine_append _ _, takeLine_ne_nil (by omega) hnil⟩

/-- So the stream gets shorter. -/
theorem length_lt_of_fgets {size : Nat} {stream buffer rest : Str} (hsize : 1 < size)
    (h : fgets size stream = some (buffer, rest)) : rest.length < stream.length := by
  obtain ⟨happend, hne⟩ := fgets_eq_some hsize h
  have hlength := congrArg List.length happend
  have hpos := List.length_pos_iff.mpr hne
  rw [List.length_append] at hlength
  omega

/-- The reading loop: a buffer is appended up to its first NUL. -/
def readLoop (result stream : Str) : Str :=
  match h : fgets 128 stream with
  | none => result
  | some (buffer, rest) =>
      have := length_lt_of_fgets (by decide) h
      readLoop (result ++ cStr buffer) rest
termination_by stream.length

/-- `perform`. -/
def perform (popen : Str → Option Str) (command : List (Option Substitution))
    (context : LaunchContext) : Str :=
  let cmd := buildLine context [] command
  if cmd = [] then []
  else
    match popen (cStr cmd) with
    | none => []
    | some stream =>
        let result := readLoop [] stream
        if result ≠ [] ∧ result.getLast? = some '\n' then result.dropLast else result

/-! ### The line -/

/-- What the substitutions of a command are performed to. -/
def values (command : List (Option Substitution)) (context : LaunchContext) : List Str :=
  command.filterMap (·.map (·.perform context))

/-- A line that has begun goes on with the values. -/
theorem buildLine_of_ne_nil {context : LaunchContext} {cmd : Str} (h : cmd ≠ [])
    (command : List (Option Substitution)) :
    buildLine context cmd command = List.intercalate [' '] (cmd :: values command context) := by
  induction command generalizing cmd with
  | nil => exact List.intercalate_singleton.symm
  | cons sub rest ih =>
      cases sub with
      | none => exact ih h
      | some sub =>
          rw [buildLine, if_neg h, ih (by simp)]
          show _ = List.intercalate [' '] (cmd :: sub.perform context :: values rest context)
          rw [List.intercalate_cons_cons]
          cases values rest context with
          | nil => rw [List.intercalate_singleton, List.intercalate_singleton]
          | cons v vs =>
              rw [List.intercalate_cons_cons, List.intercalate_cons_cons]
              simp only [List.append_assoc]

/-- The line is the values with a blank between them; in front, empty ones get
    lost. -/
theorem buildLine_eq (context : LaunchContext) (command : List (Option Substitution)) :
    buildLine context [] command
      = List.intercalate [' '] ((values command context).dropWhile (· = [])) := by
  induction command with
  | nil => rfl
  | cons sub rest ih =>
      cases sub with
      | none => exact ih
      | some sub =>
          show buildLine context (sub.perform context) rest
            = List.intercalate [' '] ((sub.perform context :: values rest context).dropWhile _)
          by_cases hempty : sub.perform context = []
          · rw [hempty, List.dropWhile_cons_of_pos (by rfl)]
            exact ih
          · rw [List.dropWhile_cons_of_neg (by simpa using hempty)]
            exact buildLine_of_ne_nil hempty rest

/-- A shell reads the words of the values, one after the other. -/
theorem words_buildLine {command : List (Option Substitution)} {context : LaunchContext}
    {f : Str → List Str} (h : ∀ v ∈ values command context, ShellWords.words v = .ok (f v)) :
    ShellWords.words (buildLine context [] command)
      = .ok ((values command context).flatMap f) := by
  rw [buildLine_eq]
  -- what is dropped reads as nothing
  obtain ⟨dropped, hdropped, hvalues⟩ : ∃ dropped : List Str, (∀ v ∈ dropped, v = [])
      ∧ values command context = dropped ++ (values command context).dropWhile (· = []) := by
    refine ⟨(values command context).takeWhile (· = []), ?_,
      List.takeWhile_append_dropWhile.symm⟩
    intro v hv
    simpa using List.mem_takeWhile_imp hv
  have hnothing : dropped.flatMap f = [] := by
    refine List.flatMap_eq_nil_iff.mpr ?_
    intro v hv
    have hmem : v ∈ values command context := by
      rw [hvalues]
      exact List.mem_append_left _ hv
    have hwords := h v hmem
    rw [hdropped v hv] at hwords ⊢
    exact (Except.ok.inj hwords).symm
  rw [ShellWords.words_intercalate (fun v hv => h v ((List.dropWhile_sublist _).subset hv))]
  refine congrArg Except.ok ?_
  conv_rhs => rw [hvalues]
  rw [List.flatMap_append, hnothing, List.nil_append]

/-- The line is empty when all values are. -/
theorem buildLine_eq_nil_iff {command : List (Option Substitution)} {context : LaunchContext} :
    buildLine context [] command = [] ↔ ∀ v ∈ values command context, v = [] := by
  rw [buildLine_eq]
  constructor
  · intro hline v hv
    cases hkept : (values command context).dropWhile (· = []) with
    | nil => exact of_decide_eq_true (List.dropWhile_eq_nil_iff.mp hkept v hv)
    | cons w ws =>
        -- the first value that is kept is not empty
        have hw : w ≠ [] := by
          have hsome : (values command context).dropWhile (· = []) ≠ [] := by
            rw [hkept]
            exact List.cons_ne_nil _ _
          have hhead := List.head_dropWhile_not (· = []) hsome
          simp only [hkept, List.head_cons] at hhead
          exact of_decide_eq_false hhead
        rw [hkept] at hline
        cases ws with
        | nil =>
            rw [List.intercalate_singleton] at hline
            exact absurd hline hw
        | cons x xs =>
            rw [List.intercalate_cons_cons] at hline
            simp at hline
  · intro hall
    rw [List.dropWhile_eq_nil_iff.mpr (fun v hv => decide_eq_true (hall v hv))]
    rfl

/-- The line has no NUL when no value has one. -/
theorem nul_not_mem_buildLine {command : List (Option Substitution)} {context : LaunchContext}
    (h : ∀ v ∈ values command context, '\x00' ∉ v) :
    '\x00' ∉ buildLine context [] command := by
  rw [buildLine_eq]
  generalize hkept : (values command context).dropWhile (· = []) = kept
  have hall : ∀ v ∈ kept, '\x00' ∉ v := by
    rw [← hkept]
    exact fun v hv => h v ((List.dropWhile_sublist _).subset hv)
  clear hkept
  induction kept with
  | nil => exact List.not_mem_nil
  | cons v vs ih =>
      have hrest := ih (fun w hw => hall w (List.mem_cons_of_mem _ hw))
      cases vs with
      | nil =>
          rw [List.intercalate_singleton]
          exact hall v List.mem_cons_self
      | cons w ws =>
          rw [List.intercalate_cons_cons, List.append_assoc]
          simp only [List.mem_append, not_or]
          exact ⟨hall v List.mem_cons_self, by decide, hrest⟩

/-! ### The output -/

/-- At the end of the output nothing is added. -/
theorem readLoop_of_none {result stream : Str} (h : fgets 128 stream = none) :
    readLoop result stream = result := by
  rw [readLoop]
  split
  · rfl
  · next hsome => rw [h] at hsome; cases hsome

/-- Every buffer is added up to its first NUL. -/
theorem readLoop_of_some {result stream buffer rest : Str}
    (h : fgets 128 stream = some (buffer, rest)) :
    readLoop result stream = readLoop (result ++ cStr buffer) rest := by
  rw [readLoop]
  split
  · next hnone => rw [h] at hnone; cases hnone
  · next hsome =>
      rw [h] at hsome
      cases hsome
      rfl

/-- Without NUL nothing is lost between the buffers. -/
theorem readLoop_eq {stream : Str} (h : '\x00' ∉ stream) (result : Str) :
    readLoop result stream = result ++ stream := by
  induction hn : stream.length using Nat.strong_induction_on generalizing stream result with
  | _ n ih =>
      cases hfgets : fgets 128 stream with
      | none =>
          have hnil : stream = [] := by
            rw [fgets] at hfgets
            split_ifs at hfgets with hnil
            exact hnil
          rw [readLoop_of_none hfgets, hnil, List.append_nil]
      | some taken =>
          obtain ⟨buffer, rest⟩ := taken
          obtain ⟨happend, -⟩ := fgets_eq_some (by decide) hfgets
          have hless := length_lt_of_fgets (by decide) hfgets
          rw [← happend] at h
          have hbuffer : '\x00' ∉ buffer := fun hmem => h (List.mem_append_left _ hmem)
          have hrest : '\x00' ∉ rest := fun hmem => h (List.mem_append_right _ hmem)
          rw [readLoop_of_some hfgets, ih _ (hn ▸ hless) hrest _ rfl,
            cStr_eq_self_iff.mpr hbuffer, List.append_assoc, happend]

/-- A NUL never comes through. -/
theorem nul_not_mem_readLoop {result : Str} (h : '\x00' ∉ result) (stream : Str) :
    '\x00' ∉ readLoop result stream := by
  induction hn : stream.length using Nat.strong_induction_on generalizing stream result with
  | _ n ih =>
      cases hfgets : fgets 128 stream with
      | none => rwa [readLoop_of_none hfgets]
      | some taken =>
          obtain ⟨buffer, rest⟩ := taken
          have hless := length_lt_of_fgets (by decide) hfgets
          rw [readLoop_of_some hfgets]
          refine ih _ (hn ▸ hless) ?_ rest rfl
          simp only [List.mem_append, not_or]
          exact ⟨h, nul_not_mem_cStr buffer⟩

/-- An output without the newline it ends in. -/
def withoutNewline (output : Str) : Str :=
  if output.getLast? = some '\n' then output.dropLast else output

/-- Only a newline is taken off. -/
theorem mem_withoutNewline {c : Char} (hc : c ≠ '\n') {output : Str} (h : c ∈ output) :
    c ∈ withoutNewline output := by
  rw [withoutNewline]
  split_ifs with hlast
  · obtain ⟨front, rfl⟩ := List.getLast?_eq_some_iff.mp hlast
    rw [List.dropLast_concat]
    rcases List.mem_append.mp h with hfront | hend
    · exact hfront
    · exact absurd (List.mem_singleton.mp hend) hc
  · exact h

/-- **What is printed comes back** as the loop reads it. -/
theorem perform_of_output {popen : Str → Option Str} {command : List (Option Substitution)}
    {context : LaunchContext} {output : Str} (hline : buildLine context [] command ≠ [])
    (hpopen : popen (cStr (buildLine context [] command)) = some output) :
    perform popen command context = withoutNewline (readLoop [] output) := by
  rw [perform]
  simp only [if_neg hline, hpopen]
  rw [withoutNewline]
  by_cases hlast : (readLoop [] output).getLast? = some '\n'
  · have hne : readLoop [] output ≠ [] := by
      intro hnil
      rw [hnil] at hlast
      cases hlast
    rw [if_pos ⟨hne, hlast⟩, if_pos hlast]
  · rw [if_neg (fun h => hlast h.2), if_neg hlast]

/-- **A command runs its words and is what they print.**  A system that runs the
    words of a line, where the first of them names a command, is given the
    words of the values, whatever the values are quoted as; nothing is run
    where all of them are empty; and the output comes back without its last
    newline, exactly if there is no NUL in it. -/
theorem command_performs {popen : Str → Option Str} {run : List Str → Option Str}
    (hpopen : ∀ line ws, ShellWords.words line = .ok ws → ShellWords.RunsWords ws →
      popen line = run ws)
    {command : List (Option Substitution)} {context : LaunchContext} {f : Str → List Str}
    (hwords : ∀ v ∈ values command context, ShellWords.words v = .ok (f v))
    (hruns : ShellWords.RunsWords ((values command context).flatMap f))
    (hnul : ∀ v ∈ values command context, '\x00' ∉ v) :
    ((∀ v ∈ values command context, v = []) → perform popen command context = [])
      ∧ ((∃ v ∈ values command context, v ≠ []) →
        (run ((values command context).flatMap f) = none → perform popen command context = [])
        ∧ ∀ output, run ((values command context).flatMap f) = some output →
          (perform popen command context = withoutNewline output ↔ '\x00' ∉ output)) := by
  have hrun : popen (cStr (buildLine context [] command))
      = run ((values command context).flatMap f) := by
    rw [cStr_eq_self_iff.mpr (nul_not_mem_buildLine hnul)]
    exact hpopen _ _ (words_buildLine hwords) hruns
  refine ⟨?_, ?_⟩
  · intro hempty
    rw [perform]
    simp only [if_pos (buildLine_eq_nil_iff.mpr hempty)]
  · rintro ⟨v, hv, hne⟩
    have hline : buildLine context [] command ≠ [] :=
      fun hnil => hne (buildLine_eq_nil_iff.mp hnil v hv)
    refine ⟨?_, ?_⟩
    · intro hnone
      rw [perform]
      simp only [if_neg hline, hrun, hnone]
    · intro output houtput
      rw [perform_of_output hline (hrun.trans houtput)]
      constructor
      · intro heq hmem
        -- the NUL would have come through
        have hthrough := mem_withoutNewline (by decide) hmem
        rw [← heq, withoutNewline] at hthrough
        refine nul_not_mem_readLoop List.not_mem_nil output ?_
        split_ifs at hthrough
        · exact (List.dropLast_sublist _).subset hthrough
        · exact hthrough
      · intro hno
        rw [readLoop_eq hno, List.nil_append]

/-- What `echo` prints. -/
def echo (ws : List Str) : Option Str :=
  if ws.head? = some "echo".toList then some (List.intercalate [' '] ws.tail ++ ['\n']) else none

/-- A system that has nothing but `echo`. -/
def echoSystem (line : Str) : Option Str :=
  match ShellWords.words line with
  | .ok ws => echo ws
  | .error _ => none

/-- The quotes are the shell's, and the newline is that of `echo`. -/
theorem command_performs_echo :
    perform echoSystem [some (textSubstitution "echo".toList), none,
        some (textSubstitution "\"two  words\"".toList)] LaunchContext.empty
      = "two  words".toList := by
  have hpopen : ∀ line ws, ShellWords.words line = .ok ws → ShellWords.RunsWords ws →
      echoSystem line = echo ws := by
    intro line ws h _
    rw [echoSystem, h]
  have hwords : ∀ v ∈ values [some (textSubstitution "echo".toList), none,
      some (textSubstitution "\"two  words\"".toList)] LaunchContext.empty,
      ShellWords.words v = .ok ((ShellWords.words v).toOption.getD []) := by
    intro v hv
    rcases List.mem_cons.mp hv with rfl | hv
    · rfl
    · cases List.mem_singleton.mp hv
      rfl
  have hnul : ∀ v ∈ values [some (textSubstitution "echo".toList), none,
      some (textSubstitution "\"two  words\"".toList)] LaunchContext.empty, '\x00' ∉ v := by
    intro v hv
    rcases List.mem_cons.mp hv with rfl | hv
    · decide
    · cases List.mem_singleton.mp hv
      decide
  have hrun := (command_performs hpopen hwords (by decide +kernel) hnul).2
    ⟨"echo".toList, List.mem_cons_self, by decide⟩
  have houtput := hrun.2 "two  words\n".toList (by decide +kernel)
  rw [houtput.mpr (by decide)]
  decide

/-- `Command`. -/
def toSubstitution (popen : Str → Option Str) (command : List (Option Substitution)) :
    Substitution := ⟨perform popen command⟩

end Command

/-! ## `FindExecutable` -/

namespace FindExecutable

/-- What `perform` looks at of `struct stat`. -/
structure Stat where
  isReg : Bool
  ixusr : Bool
  deriving DecidableEq, Repr

/-- What `std::getline` yields up to each `:`; nothing behind the last one is no
    entry. -/
def entriesOf (path : Str) : List Str :=
  let pieces := path.splitOn ':'
  if pieces.getLast? = some [] then pieces.dropLast else pieces

/-- The loop over the entries. -/
def search (stat : Str → Option Stat) (name : Str) : List Str → Str
  | [] => []
  | path :: rest =>
      let fullPath := path ++ "/".toList ++ name
      match stat (cStr fullPath) with
      | none => search stat name rest
      | some st => if st.isReg && st.ixusr then fullPath else search stat name rest

/-- `perform`. -/
def perform (stat : Str → Option Stat) (name : Str) (context : LaunchContext) : Str :=
  match context.getenv "PATH".toList with
  | none => name
  | some pathEnv => search stat name (entriesOf pathEnv)

/-- A list of directories is read back from the `PATH` it is written as, unless
    it ends in an empty one. -/
theorem entriesOf_intercalate {paths : List Str} (h : ∀ path ∈ paths, ':' ∉ path)
    (hlast : paths.getLast? ≠ some []) : entriesOf (List.intercalate [':'] paths) = paths := by
  by_cases hnil : paths = []
  · rw [hnil]
    rfl
  · rw [entriesOf, List.splitOn_intercalate ':' h hnil]
    exact if_neg hlast

/-- The file of a directory can be executed. -/
def Executable (stat : Str → Option Stat) (name path : Str) : Prop :=
  stat (cStr (path ++ "/".toList ++ name)) = some ⟨true, true⟩

/-- A file that cannot be executed is passed over. -/
theorem search_of_not {stat : Str → Option Stat} {name path : Str} {rest : List Str}
    (h : ¬ Executable stat name path) : search stat name (path :: rest) = search stat name rest := by
  rw [search]
  cases hstat : stat (cStr (path ++ "/".toList ++ name)) with
  | none => rfl
  | some st =>
      obtain ⟨isReg, ixusr⟩ := st
      cases isReg with
      | false => rfl
      | true =>
          cases ixusr with
          | false => rfl
          | true => exact absurd hstat h

/-- **The first executable counts**: of the directories before it none has one. -/
theorem search_eq {stat : Str → Option Stat} {name : Str} {before after : List Str} {path : Str}
    (hbefore : ∀ p ∈ before, ¬ Executable stat name p) (hpath : Executable stat name path) :
    search stat name (before ++ path :: after) = path ++ "/".toList ++ name := by
  induction before with
  | nil =>
      rw [List.nil_append, search, hpath]
      rfl
  | cons p before ih =>
      rw [List.cons_append, search_of_not (hbefore p List.mem_cons_self)]
      exact ih (fun q hq => hbefore q (List.mem_cons_of_mem _ hq))

/-- Where there is none, nothing is found. -/
theorem search_eq_nil {stat : Str → Option Stat} {name : Str} {paths : List Str}
    (h : ∀ p ∈ paths, ¬ Executable stat name p) : search stat name paths = [] := by
  induction paths with
  | nil => rfl
  | cons p paths ih =>
      rw [search_of_not (h p List.mem_cons_self)]
      exact ih (fun q hq => h q (List.mem_cons_of_mem _ hq))

/-- **The first directory that has the file is taken**, and without one there is
    no result. -/
theorem perform_eq {stat : Str → Option Stat} {name : Str} {context : LaunchContext}
    {paths : List Str} (hpath : context.getenv "PATH".toList = some (List.intercalate [':'] paths))
    (hcolon : ∀ path ∈ paths, ':' ∉ path) (hlast : paths.getLast? ≠ some []) :
    ((∀ p ∈ paths, ¬ Executable stat name p) → perform stat name context = [])
      ∧ ∀ before path after, paths = before ++ path :: after →
        (∀ p ∈ before, ¬ Executable stat name p) → Executable stat name path →
        perform stat name context = path ++ "/".toList ++ name := by
  have hperform : perform stat name context = search stat name paths := by
    rw [perform, hpath]
    exact congrArg (search stat name) (entriesOf_intercalate hcolon hlast)
  rw [hperform]
  refine ⟨search_eq_nil, ?_⟩
  rintro before path after rfl hbefore hexecutable
  exact search_eq hbefore hexecutable

/-- `FindExecutable`. -/
def toSubstitution (stat : Str → Option Stat) (name : Str) : Substitution := ⟨perform stat name⟩

end FindExecutable

end LaunchCpp
