import LaunchCpp.Library.Escaping

/-! # The words a POSIX shell reads

    The quoting rules of the shell command language as a machine that reads a
    line one character at a time.  It answers with the words of a simple
    command, or with the first thing that is not just text: an expansion, a
    pattern, an operator.  What follows a `$` is not looked at, since an
    unquoted or double-quoted `$` either starts an expansion or has no
    specified meaning.  Nor does the reader know the files: an unquoted `*`,
    `?` or `[` is taken for a pattern, also where no file would match it and
    where the bracket is not closed.

    The two results a program that builds command lines needs are
    `words_eq_self_iff`, which texts stand for themselves, and
    `words_quote_iff`, which texts survive between double quotes. -/

namespace ShellWords

open Escaping

/-- What a character does that is not part of a word. -/
inductive Effect where
  | expansion
  | commandSubstitution
  | globbing
  | redirection
  | commandSeparator
  | comment
  | tildeExpansion
  | incomplete
  deriving DecidableEq, Repr

/-- The quotes the reader is inside. -/
inductive Mode where
  | plain
  | escaped
  | single
  | double
  | doubleEscaped
  deriving DecidableEq, Repr

/-- The finished words, and the word being read; an empty word exists as soon
    as it is quoted. -/
structure State where
  mode : Mode
  word : Option (List Char)
  words : List (List Char)
  deriving DecidableEq, Repr

/-- In front of the first word. -/
def State.init : State := ⟨.plain, none, []⟩

/-- One more character of the word. -/
def State.add (s : State) (c : Char) : State := { s with word := some (s.word.getD [] ++ [c]) }

/-- Quotes open a word. -/
def State.enter (s : State) (mode : Mode) : State :=
  { s with mode, word := some (s.word.getD []) }

/-- A blank closes one. -/
def State.close (s : State) : State := { s with word := none, words := s.words ++ s.word.toList }

/-- The effect of an unquoted character; two of them have one only at the
    start of a word. -/
def effect (start : Bool) (c : Char) : Option Effect :=
  if c = '$' then some .expansion
  else if c = '`' then some .commandSubstitution
  else if c = '*' ∨ c = '?' ∨ c = '[' then some .globbing
  else if c = '<' ∨ c = '>' then some .redirection
  else if c = '|' ∨ c = '&' ∨ c = ';' ∨ c = '(' ∨ c = ')' ∨ c = '\n' then
    some .commandSeparator
  else if start ∧ c = '#' then some .comment
  else if start ∧ c = '~' then some .tildeExpansion
  else none

/-- Read one character. -/
def step (s : State) (c : Char) : Except Effect State :=
  match s.mode with
  | .plain =>
      if c = '\\' then .ok { s with mode := .escaped }
      else if c = '\'' then .ok (s.enter .single)
      else if c = '"' then .ok (s.enter .double)
      else if c = ' ' ∨ c = '\t' then .ok s.close
      else
        match effect s.word.isNone c with
        | some e => .error e
        | none => .ok (s.add c)
  | .escaped =>
      -- a backslash joins two lines, or makes a character part of the word
      if c = '\n' then .ok { s with mode := .plain }
      else .ok { s.add c with mode := .plain }
  | .single => if c = '\'' then .ok { s with mode := .plain } else .ok (s.add c)
  | .double =>
      if c = '"' then .ok { s with mode := .plain }
      else if c = '\\' then .ok { s with mode := .doubleEscaped }
      else if c = '$' then .error .expansion
      else if c = '`' then .error .commandSubstitution
      else .ok (s.add c)
  | .doubleEscaped =>
      if c = '\n' then .ok { s with mode := .double }
      else if c = '$' ∨ c = '`' ∨ c = '"' ∨ c = '\\' then .ok { s.add c with mode := .double }
      else .ok { (s.add '\\').add c with mode := .double }

/-- Read a line. -/
def run : State → List Char → Except Effect State
  | s, [] => .ok s
  | s, c :: rest =>
      match step s c with
      | .error e => .error e
      | .ok s' => run s' rest

/-- The words at the end of a line; an open quote waits for more. -/
def State.finish (s : State) : Except Effect (List (List Char)) :=
  if s.mode = .plain then .ok (s.words ++ s.word.toList) else .error .incomplete

/-- The words of a line. -/
def words (line : List Char) : Except Effect (List (List Char)) :=
  match run .init line with
  | .error e => .error e
  | .ok s => s.finish

/-- The words that are not the name of a command where a command is expected,
    unless they are quoted; the last line has those that some shells add. -/
def reserved : List (List Char) :=
  ["!", "\x7b", "\x7d", "case", "do", "done", "elif", "else", "esac", "fi", "for", "if", "in", "then",
    "until", "while",
    "[[", "]]", "coproc", "function", "namespace", "select", "time"].map String.toList

/-- The first word names a command, also if it is not quoted: it is no
    assignment and not reserved.  Such a line runs its words. -/
def RunsWords (ws : List (List Char)) : Prop := ∀ w ∈ ws.head?, '=' ∉ w ∧ w ∉ reserved

instance decidableRunsWords (ws : List (List Char)) : Decidable (RunsWords ws) :=
  inferInstanceAs (Decidable (∀ w ∈ ws.head?, '=' ∉ w ∧ w ∉ reserved))

/-! ## Runs -/

/-- A line is read character by character. -/
theorem run_cons_of_ok {s s' : State} {c : Char} (h : step s c = .ok s') (rest : List Char) :
    run s (c :: rest) = run s' rest := by
  rw [run, h]

/-- The first effect ends the reading. -/
theorem run_cons_of_error {s : State} {c : Char} {e : Effect} (h : step s c = .error e)
    (rest : List Char) : run s (c :: rest) = .error e := by
  rw [run, h]

/-- A run that goes through goes through its first step. -/
theorem run_cons_eq_ok {s u : State} {c : Char} {rest : List Char}
    (h : run s (c :: rest) = .ok u) : ∃ t, step s c = .ok t ∧ run t rest = .ok u := by
  cases hc : step s c with
  | error e =>
      rw [run_cons_of_error hc] at h
      cases h
  | ok t =>
      rw [run_cons_of_ok hc] at h
      exact ⟨t, rfl, h⟩

/-- What is behind is read from where the front ends. -/
theorem run_append_of_ok {s s' : State} {a : List Char} (h : run s a = .ok s')
    (b : List Char) : run s (a ++ b) = run s' b := by
  induction a generalizing s with
  | nil =>
      obtain rfl : s = s' := by simpa [run] using h
      rfl
  | cons c a ih =>
      obtain ⟨t, hstep, hrest⟩ := run_cons_eq_ok h
      rw [List.cons_append, run_cons_of_ok hstep]
      exact ih hrest

/-- A line that is read has a front that is read. -/
theorem run_append_eq_ok {s u : State} {a b : List Char} (h : run s (a ++ b) = .ok u) :
    ∃ t, run s a = .ok t ∧ run t b = .ok u := by
  induction a generalizing s with
  | nil => exact ⟨s, rfl, h⟩
  | cons c a ih =>
      rw [List.cons_append] at h
      obtain ⟨t, hstep, hrest⟩ := run_cons_eq_ok h
      rw [run_cons_of_ok hstep]
      exact ih hrest

/-- The words at the end, outside all quotes. -/
theorem words_eq_ok_iff {line : List Char} {ws : List (List Char)} :
    words line = .ok ws
      ↔ ∃ s, run .init line = .ok s ∧ s.mode = .plain ∧ s.words ++ s.word.toList = ws := by
  rw [words]
  cases run State.init line with
  | error e => simp
  | ok s =>
      simp only [Except.ok.injEq, exists_eq_left', State.finish]
      by_cases h : s.mode = .plain
      · simp [h]
      · simp [h]

/-! ## Two parts of a line -/

/-- The same state behind more finished words. -/
def State.behind (ws : List (List Char)) (s : State) : State := { s with words := ws ++ s.words }

/-- A character does not look at the words that are finished. -/
theorem step_behind (ws : List (List Char)) (s : State) (c : Char) :
    step (s.behind ws) c = (step s c).map (State.behind ws) := by
  obtain ⟨mode, word, done⟩ := s
  cases mode with
  | plain =>
      simp only [step, State.behind]
      split_ifs <;> try rfl
      · simp [State.close, Except.map, State.behind]
      · cases effect word.isNone c <;> rfl
  | escaped => simp only [step, State.behind]; split_ifs <;> rfl
  | single => simp only [step, State.behind]; split_ifs <;> rfl
  | double => simp only [step, State.behind]; split_ifs <;> rfl
  | doubleEscaped => simp only [step, State.behind]; split_ifs <;> rfl

/-- Nor does a line. -/
theorem run_behind (ws : List (List Char)) (line : List Char) (s : State) :
    run (s.behind ws) line = (run s line).map (State.behind ws) := by
  induction line generalizing s with
  | nil => rfl
  | cons c line ih =>
      rw [run, run, step_behind]
      cases step s c with
      | error e => rfl
      | ok t => exact ih t

/-- What follows a part and a blank is read as if it stood alone. -/
theorem words_behind {a : List Char} {ws : List (List Char)} (ha : words a = .ok ws)
    (b : List Char) : words (a ++ ' ' :: b) = (words b).map (ws ++ ·) := by
  obtain ⟨s, hs, hmode, hws⟩ := words_eq_ok_iff.mp ha
  have hblank : step s ' ' = .ok (State.init.behind ws) := by
    obtain ⟨mode, word, done⟩ := s
    obtain rfl : mode = .plain := hmode
    simp [step, State.close, State.behind, State.init, ← hws]
  rw [words, run_append_of_ok hs, run_cons_of_ok hblank, run_behind, words]
  cases run State.init b with
  | error e => rfl
  | ok t =>
      show (t.behind ws).finish = t.finish.map (ws ++ ·)
      rw [State.finish, State.finish]
      by_cases hplain : t.mode = .plain
      · have hbehind : (t.behind ws).mode = .plain := hplain
        rw [if_pos hplain, if_pos hbehind]
        exact congrArg Except.ok (List.append_assoc _ _ _)
      · have hbehind : ¬ (t.behind ws).mode = .plain := hplain
        rw [if_neg hplain, if_neg hbehind]
        rfl

/-- **A blank between two parts** keeps their words apart. -/
theorem words_append {a b : List Char} {ws ws' : List (List Char)} (ha : words a = .ok ws)
    (hb : words b = .ok ws') : words (a ++ ' ' :: b) = .ok (ws ++ ws') := by
  rw [words_behind ha, hb]
  rfl

/-- The same for any number of parts in front; `f` is what each of them reads
    as. -/
theorem words_intercalate_append {f : List Char → List (List Char)}
    {parts rest : List (List Char)} (h : ∀ part ∈ parts, words part = .ok (f part)) :
    words (List.intercalate [' '] (parts ++ rest))
      = (words (List.intercalate [' '] rest)).map (parts.flatMap f ++ ·) := by
  induction parts with
  | nil =>
      rw [List.nil_append]
      cases words (List.intercalate [' '] rest) <;> rfl
  | cons part parts ih =>
      have hfirst := h part List.mem_cons_self
      by_cases hnil : parts ++ rest = []
      · obtain ⟨rfl, rfl⟩ := List.append_eq_nil_iff.mp hnil
        rw [List.append_nil, List.intercalate_singleton, hfirst]
        show Except.ok (f part) = .ok ((f part ++ []) ++ [])
        rw [List.append_nil, List.append_nil]
      · rw [List.cons_append, List.intercalate_cons_of_ne_nil hnil, List.append_assoc]
        show words (part ++ ' ' :: List.intercalate [' '] (parts ++ rest)) = _
        rw [words_behind hfirst, ih (fun p hp => h p (List.mem_cons_of_mem _ hp))]
        cases words (List.intercalate [' '] rest) with
        | error e => rfl
        | ok ws => exact congrArg Except.ok (List.append_assoc _ _ _).symm

/-- **Parts with blanks between them** are read one by one. -/
theorem words_intercalate {f : List Char → List (List Char)} {parts : List (List Char)}
    (h : ∀ part ∈ parts, words part = .ok (f part)) :
    words (List.intercalate [' '] parts) = .ok (parts.flatMap f) := by
  have hall : words (List.intercalate [' '] (parts ++ [])) = .ok (parts.flatMap f ++ []) :=
    words_intercalate_append h
  rwa [List.append_nil, List.append_nil] at hall

/-! ## Texts that stand for themselves -/

/-- An unquoted character that is just itself. -/
def ordinary (c : Char) : Bool :=
  ¬ (c = '\\' ∨ c = '\'' ∨ c = '"' ∨ c = ' ' ∨ c = '\t') ∧ effect false c = none

/-- A backslash between double quotes may still turn out to be text. -/
def Mode.pending : Mode → Nat
  | .doubleEscaped => 1
  | _ => 0

/-- How many characters of text a state holds. -/
def State.size (s : State) : Nat :=
  (s.words.map List.length).sum + (s.word.getD []).length + s.mode.pending

/-- The characters without an effect. -/
theorem effect_eq_none_iff {start : Bool} {c : Char} :
    effect start c = none
      ↔ c ∉ ['$', '`', '*', '?', '[', '<', '>', '|', '&', ';', '(', ')', '\n']
        ∧ (start = true → c ≠ '#' ∧ c ≠ '~') := by
  simp only [effect, List.mem_cons, List.not_mem_nil, or_false]
  grind

/-- A character that has none at the start of a word has none inside. -/
theorem effect_eq_none_of_start {c : Char} (h : effect true c = none) : effect false c = none :=
  effect_eq_none_iff.mpr ⟨(effect_eq_none_iff.mp h).1, nofun⟩

/-- Such a character is part of the word. -/
theorem step_ordinary {s : State} {c : Char} (hmode : s.mode = .plain) (hc : ordinary c = true)
    (hstart : s.word = none → effect true c = none) : step s c = .ok (s.add c) := by
  obtain ⟨hquote, heff⟩ : _ ∧ effect false c = none := by simpa [ordinary] using hc
  have hnone : effect s.word.isNone c = none := by
    cases hw : s.word with
    | none => exact hstart hw
    | some w => exact heff
  simp only [step, hmode]
  simp [hquote, hnone]

/-- A run over ordinary characters, in the middle of a word. -/
theorem run_ordinary (ws : List (List Char)) (p : List Char) :
    ∀ w, (∀ c ∈ p, ordinary c = true) →
      run ⟨.plain, some w, ws⟩ p = .ok ⟨.plain, some (w ++ p), ws⟩ := by
  induction p with
  | nil =>
      intro w _
      rw [List.append_nil]
      rfl
  | cons c p ih =>
      intro w hall
      have hstep : step ⟨.plain, some w, ws⟩ c = .ok ⟨.plain, some (w ++ [c]), ws⟩ :=
        step_ordinary rfl (hall c List.mem_cons_self) nofun
      rw [run_cons_of_ok hstep, ih _ (fun d hd => hall d (List.mem_cons_of_mem _ hd)),
        List.append_assoc]
      rfl

/-- A run over ordinary characters that starts a word. -/
theorem run_ordinary_start {c : Char} (hc : effect true c = none) (p : List Char)
    (hall : ∀ d ∈ c :: p, ordinary d = true) :
    run .init (c :: p) = .ok ⟨.plain, some (c :: p), []⟩ := by
  have hstep : step .init c = .ok ⟨.plain, some [c], []⟩ :=
    step_ordinary rfl (hall c List.mem_cons_self) (fun _ => hc)
  rw [run_cons_of_ok hstep]
  exact run_ordinary [] p [c] (fun d hd => hall d (List.mem_cons_of_mem _ hd))

@[simp] theorem size_add (s : State) (c : Char) : (s.add c).size = s.size + 1 := by
  simp only [State.size, State.add, Option.getD_some, List.length_append, List.length_singleton]
  omega

/-- Closing a word loses nothing. -/
theorem size_close (s : State) : s.close.size = s.size := by
  obtain ⟨mode, word, ws⟩ := s
  cases word <;> simp [State.size, State.close]

/-- Outside a pending backslash a change of mode adds no text. -/
theorem size_mode (s : State) {mode : Mode} (hs : s.mode.pending = 0) (hmode : mode.pending = 0) :
    State.size { s with mode } = s.size := by
  simp [State.size, hs, hmode]

/-- An unquoted character that is not ordinary adds no text. -/
theorem size_step_of_not_ordinary {s s' : State} {c : Char} (hmode : s.mode = .plain)
    (hc : ordinary c = false) (h : step s c = .ok s') : s'.size = s.size := by
  have hpending : s.mode.pending = 0 := by rw [hmode]; rfl
  simp only [step, hmode] at h
  split_ifs at h with h1 h2 h3 h4
  · cases h
    exact size_mode s hpending rfl
  · cases h
    simp [State.size, State.enter, hmode, Mode.pending]
  · cases h
    simp [State.size, State.enter, hmode, Mode.pending]
  · cases h
    exact size_close s
  · -- the character is not a quote, so it has an effect
    exfalso
    cases heff : effect s.word.isNone c with
    | some e => simp [heff] at h
    | none =>
        have hnone : effect false c = none := by
          cases hw : s.word with
          | none =>
              rw [hw] at heff
              exact effect_eq_none_of_start heff
          | some w =>
              rw [hw] at heff
              exact heff
        simp [ordinary, h1, h2, h3, not_or.mp h4, hnone] at hc

/-- A character is at most one character of text. -/
theorem size_step_le {s s' : State} {c : Char} (h : step s c = .ok s') :
    s'.size ≤ s.size + 1 := by
  obtain ⟨mode, word, ws⟩ := s
  cases mode with
  | plain =>
      simp only [step] at h
      split_ifs at h
      · cases h; simp [State.size, Mode.pending]
      · cases h; simp [State.size, State.enter, Mode.pending]
      · cases h; simp [State.size, State.enter, Mode.pending]
      · cases h; rw [size_close]; exact Nat.le_succ _
      · cases heff : effect word.isNone c with
        | some e => simp [heff] at h
        | none =>
            simp only [heff] at h
            cases h
            rw [size_add]
  | escaped =>
      simp only [step] at h
      split_ifs at h
      · cases h; simp [State.size, Mode.pending]
      · cases h; simp [State.size, State.add, Mode.pending]; omega
  | single =>
      simp only [step] at h
      split_ifs at h
      · cases h; simp [State.size, Mode.pending]
      · cases h; simp [State.size, State.add, Mode.pending]; omega
  | double =>
      simp only [step] at h
      split_ifs at h
      · cases h; simp [State.size, Mode.pending]
      · cases h; simp [State.size, Mode.pending]
      · cases h; simp [State.size, State.add, Mode.pending]; omega
  | doubleEscaped =>
      simp only [step] at h
      split_ifs at h
      · cases h; simp [State.size, Mode.pending]; omega
      · cases h; simp [State.size, State.add, Mode.pending]; omega
      · cases h; simp [State.size, State.add, Mode.pending]; omega

/-- No line has more characters in its words than it has itself. -/
theorem size_run_le {s s' : State} {line : List Char} (h : run s line = .ok s') :
    s'.size ≤ s.size + line.length := by
  induction line generalizing s with
  | nil =>
      obtain rfl : s = s' := by simpa [run] using h
      exact Nat.le_add_right _ _
  | cons c line ih =>
      obtain ⟨t, hstep, hrest⟩ := run_cons_eq_ok h
      have hsize := size_step_le hstep
      have hle := ih hrest
      rw [List.length_cons]
      omega

/-- All that was read is in the words. -/
theorem size_of_finish {s : State} (hmode : s.mode = .plain) :
    s.size = ((s.words ++ s.word.toList).map List.length).sum := by
  obtain ⟨mode, word, ws⟩ := s
  obtain rfl : mode = .plain := hmode
  cases word <;> simp [State.size, Mode.pending]

/-- The first character of a word has no effect there. -/
theorem effect_start_of_step {s : State} {c : Char} (hc : ordinary c = true)
    (h : step .init c = .ok s) : effect true c = none := by
  obtain ⟨hquote, -⟩ : _ ∧ effect false c = none := by simpa [ordinary] using hc
  cases heff : effect true c with
  | none => rfl
  | some e =>
      simp only [step, State.init] at h
      simp [hquote, heff] at h

/-- Ordinary characters can only be text. -/
theorem run_ordinary_inv {p : List Char} (hall : ∀ d ∈ p, ordinary d = true) {s : State}
    (h : run .init p = .ok s) : s.mode = .plain ∧ s.size = p.length
      ∧ ∀ c r, p = c :: r → effect true c = none := by
  cases p with
  | nil =>
      obtain rfl : State.init = s := by simpa [run] using h
      exact ⟨rfl, rfl, fun c r hp => by cases hp⟩
  | cons c r =>
      obtain ⟨t, hstep, -⟩ := run_cons_eq_ok h
      have heff := effect_start_of_step (hall c List.mem_cons_self) hstep
      rw [run_ordinary_start heff r hall] at h
      cases h
      refine ⟨rfl, by simp [State.size, Mode.pending], ?_⟩
      rintro d r' hp
      cases hp
      exact heff

/-- **A text stands for itself** as one word exactly if it is not empty, all
    its characters are ordinary, and the first one is so at the start of a
    word. -/
theorem words_eq_self_iff {line : List Char} :
    words line = .ok [line]
      ↔ ∃ c p, line = c :: p ∧ effect true c = none ∧ ∀ d ∈ line, ordinary d = true := by
  constructor
  · intro h
    obtain ⟨s, hrun, hmode, hwords⟩ := words_eq_ok_iff.mp h
    have hsize : s.size = line.length := by
      rw [size_of_finish hmode, hwords]
      simp
    cases hfind : line.find? (fun d => !ordinary d) with
    | none =>
        have hall : ∀ d ∈ line, ordinary d = true := by simpa using hfind
        obtain ⟨-, -, hstart⟩ := run_ordinary_inv hall hrun
        cases line with
        | nil =>
            cases hrun
            cases hwords
        | cons c p => exact ⟨c, p, rfl, hstart c p rfl, hall⟩
    | some c =>
        -- the first other character is lost, so the words are too short
        exfalso
        obtain ⟨hc, p, r, rfl, hp⟩ := List.find?_eq_some_iff_append.mp hfind
        obtain ⟨t, ht, hrest⟩ := run_append_eq_ok hrun
        obtain ⟨htmode, htsize, -⟩ := run_ordinary_inv (fun d hd => by simpa using hp d hd) ht
        obtain ⟨u, hstep, hlast⟩ := run_cons_eq_ok hrest
        have hu := size_step_of_not_ordinary htmode (by simpa using hc) hstep
        have hle := size_run_le hlast
        rw [List.length_append, List.length_cons] at hsize
        omega
  · rintro ⟨c, p, rfl, hc, hall⟩
    exact words_eq_ok_iff.mpr ⟨_, run_ordinary_start hc p hall, rfl, rfl⟩

/-! ## Texts between double quotes -/

/-- Between double quotes most characters are text. -/
theorem step_double_plain {s : State} {c : Char} (hmode : s.mode = .double)
    (hc : ¬ (c = '"' ∨ c = '\\' ∨ c = '$' ∨ c = '`')) : step s c = .ok (s.add c) := by
  simp only [not_or] at hc
  simp [step, hmode, hc]

/-- A backslash keeps the two others. -/
theorem run_double_special {w : List Char} {ws : List (List Char)} {c : Char}
    (hc : c = '"' ∨ c = '\\') (rest : List Char) :
    run ⟨.double, some w, ws⟩ ('\\' :: c :: rest) = run ⟨.double, some (w ++ [c]), ws⟩ rest := by
  rcases hc with rfl | rfl <;> rfl

/-- Escaped text without expansions is read back between double quotes. -/
theorem run_double_escape (ws : List (List Char)) (rest s : List Char) :
    ∀ w, (∀ c ∈ s, c ≠ '$' ∧ c ≠ '`') →
      run ⟨.double, some w, ws⟩ (escape '\\' '"' s ++ rest)
        = run ⟨.double, some (w ++ s), ws⟩ rest := by
  induction s with
  | nil =>
      intro w _
      rw [List.append_nil]
      rfl
  | cons c s ih =>
      intro w hall
      have hs := fun d hd => hall d (List.mem_cons_of_mem c hd)
      by_cases hc : c = '"' ∨ c = '\\'
      · rw [escape_cons_special hc, List.cons_append, List.cons_append, run_double_special hc,
          ih _ hs, List.append_assoc]
        rfl
      · have hplain : ¬ (c = '"' ∨ c = '\\' ∨ c = '$' ∨ c = '`') := by
          rintro (h | h | h | h)
          · exact hc (Or.inl h)
          · exact hc (Or.inr h)
          · exact (hall c List.mem_cons_self).1 h
          · exact (hall c List.mem_cons_self).2 h
        rw [escape_cons_plain hc, List.cons_append,
          run_cons_of_ok (step_double_plain rfl hplain)]
        exact (ih _ hs).trans (by rw [List.append_assoc]; rfl)

/-- With one it is not. -/
theorem run_double_escape_error {ws : List (List Char)} {rest s : List Char} {c : Char}
    (hmem : c ∈ s) (hc : c = '$' ∨ c = '`') :
    ∀ w, ∃ e, run ⟨.double, some w, ws⟩ (escape '\\' '"' s ++ rest) = .error e := by
  induction s with
  | nil => cases hmem
  | cons d s ih =>
      intro w
      by_cases hd : d = '"' ∨ d = '\\'
      · have hs : c ∈ s := by
          rcases List.mem_cons.mp hmem with rfl | hs
          · rcases hc with rfl | rfl <;> simp at hd
          · exact hs
        rw [escape_cons_special hd, List.cons_append, List.cons_append, run_double_special hd]
        exact ih hs _
      · rw [escape_cons_plain hd, List.cons_append]
        by_cases hexp : d = '$' ∨ d = '`'
        · rcases hexp with rfl | rfl
          · exact ⟨.expansion, rfl⟩
          · exact ⟨.commandSubstitution, rfl⟩
        · have hs : c ∈ s := by
            rcases List.mem_cons.mp hmem with rfl | hs
            · exact absurd hc hexp
            · exact hs
          have hplain : ¬ (d = '"' ∨ d = '\\' ∨ d = '$' ∨ d = '`') := by
            rw [← or_assoc]
            exact not_or.mpr ⟨hd, hexp⟩
          rw [run_cons_of_ok (step_double_plain rfl hplain)]
          exact ih hs _

/-- **A text between double quotes**, with its quotes and backslashes
    escaped, is one word equal to it exactly if it has no `$` and no
    backquote. -/
theorem words_quote_iff {s : List Char} :
    words (quote '\\' '"' s) = .ok [s] ↔ ∀ c ∈ s, c ≠ '$' ∧ c ≠ '`' := by
  constructor
  · intro h c hmem
    by_contra hno
    have hc : c = '$' ∨ c = '`' := by
      by_contra hc
      exact hno (not_or.mp hc)
    obtain ⟨t, ht, -⟩ := words_eq_ok_iff.mp h
    obtain ⟨e, he⟩ : ∃ e, run ⟨.double, some [], []⟩ (escape '\\' '"' s ++ ['"']) = .error e :=
      run_double_escape_error hmem hc []
    have hrun : run .init (quote '\\' '"' s) = .error e := he
    rw [hrun] at ht
    cases ht
  · intro hall
    refine words_eq_ok_iff.mpr ⟨⟨.plain, some s, []⟩, ?_, rfl, rfl⟩
    exact run_double_escape [] ['"'] s [] hall

end ShellWords
