import LaunchCpp.Yaml.Value

/-! # The readers as one machine over lines

    What the four readers of the parser do, without the stream: a stack of
    frames, one for each call that has not returned, is fed one line after
    another.  A line belongs to the topmost frame; a reader that ends BEFORE a
    line puts it back, so the line goes to the frame below (`dispatch`).

    Nothing is read twice here, so statements about whole documents become
    statements about `run` along a list of lines, and they compose line by
    line. -/

namespace LaunchCpp.Yaml

open OrderedMaps

/-- The reader a frame belongs to.  `closed` is an element reader that has
    left its loop and only waits for one more array to return. -/
inductive Reader where
  | object
  | array
  | element
  | closed
  | scalar
  deriving DecidableEq, Repr

/-- A call in progress: its reader, its base indent and what it collected. -/
structure Frame (D : Type) where
  reader : Reader
  base : Nat
  acc : YamlValue D

/-- What a caller does with the value a call returns. -/
inductive Slot where
  | field (key : Str)
  | element
  | dropped
  deriving DecidableEq, Repr

/-- The callers, innermost first. -/
abbrev Stack (D : Type) := List (Frame D × Slot)

/-- The machine runs, has returned from the outermost call, or has thrown. -/
inductive State (D : Type) where
  | running (top : Frame D) (below : Stack D)
  | returned (value : YamlValue D)
  | thrown

section Machine

variable {D : Type}

/-- Put a returned value where the caller wants it. -/
def Slot.put : Slot → YamlValue D → YamlValue D → YamlValue D
  | .field key, value, acc => acc.setObjectField key value
  | .element, value, acc => acc.addArrayElement value
  | .dropped, _, acc => acc

/-- A frame takes a value. -/
def Frame.put (f : Frame D) (slot : Slot) (value : YamlValue D) : Frame D :=
  { f with acc := slot.put value f.acc }

/-- A call returns to the topmost caller. -/
def State.ret (value : YamlValue D) : Stack D → State D
  | [] => .returned value
  | (f, slot) :: K => .running (f.put slot value) K

/-- At the end of the text every call returns. -/
def unwind : YamlValue D → Stack D → YamlValue D
  | value, [] => value
  | value, (f, slot) :: K => unwind (slot.put value f.acc) K

/-- The value of the outermost call at the end of the text. -/
def State.finish : State D → Option (YamlValue D)
  | .running f K => some (unwind f.acc K)
  | .returned value => some value
  | .thrown => none

/-- The reader ends before this line and puts it back. -/
def Frame.leaves (f : Frame D) (line : Str) : Bool :=
  match f.reader with
  | .array => getIndent line < f.base
  | .element => getIndent line ≤ f.base
  | .closed => true
  | _ => false

/-- A new call. -/
def Frame.start (reader : Reader) (base : Nat) : Frame D := ⟨reader, base, .null⟩

variable (stod : Str → Option D)

/-- A field of an array element: without a value, the next raw line decides
    what is read. -/
def elementField (f : Frame D) (K : Stack D) (threshold : Nat) (rest : List Str)
    (key value : Str) : State D :=
  if value = [] then
    match rest with
    | [] => .running (f.put (.field key) .null) K
    -- `next` is the raw line, so a blank one or a comment counts here
    | next :: _ =>
        if threshold < getIndent next ∧ isDash (trim next) then
          .running (.start .array (getIndent next)) ((f, .field key) :: K)
        else .running (.start .scalar 0) ((f, .field key) :: K)
  else .running (f.put (.field key) (scalarValue stod value)) K

/-- A line of an array. -/
def arrayLine (f : Frame D) (K : Stack D) (line : Str) (rest : List Str) : State D :=
  if isDash (trim line) then
    let content := trim (trim line).tail
    if content = [] then .running (.start .scalar 0) ((f, .element) :: K)
    else
      match keyValue content with
      | some (key, value) =>
          -- the first field of the element stands on the line of the dash
          elementField stod (.start .element f.base) ((f, .element) :: K) f.base rest
            key value
      | none => .running (f.put .element (scalarValue stod content)) K
  else .running f K

/-- A line of an array element; a dash closes it. -/
def elementLine (f : Frame D) (K : Stack D) (line : Str) (rest : List Str) : State D :=
  if line.length < f.base + 2 then .thrown
  else if isDash (trim line) then
    arrayLine stod (.start .array (getIndent line))
      (({ f with reader := .closed }, .dropped) :: K) line rest
  else
    match keyValue (trim line) with
    | some (key, value) => elementField stod f K (getIndent line) rest key value
    | none => .running f K

/-- A line of an object: without a value, the next line that counts decides
    what is read. -/
def objectLine (f : Frame D) (K : Stack D) (line : Str) (rest : List Str) : State D :=
  match keyValue (trim line) with
  | none => .running f K
  | some (key, value) =>
      if value = [] then
        match rest.find? (fun l => !isSkipped (trim l)) with
        | none => .running (f.put (.field key) .null) K
        | some next =>
            -- here blank lines and comments are passed over, unlike in `elementField`
            if getIndent line < getIndent next then
              .running (.start (if isDash (trim next) then .array else .object)
                (getIndent next)) ((f, .field key) :: K)
            else .running (f.put (.field key) .null) K
      else if value.head? = some '[' then
        .running (f.put (.field key) (inlineArray stod value)) K
      else .running (f.put (.field key) (scalarValue stod value)) K

/-- A line for a reader that does not put it back. -/
def readLine (f : Frame D) (K : Stack D) (line : Str) (rest : List Str) : State D :=
  match f.reader with
  | .object =>
      -- the line is read and gone, the caller goes on behind it
      if getIndent line < f.base ∧ 0 < f.base then State.ret f.acc K
      else objectLine stod f K line rest
  | .array => arrayLine stod f K line rest
  | .element => elementLine stod f K line rest
  | .closed => State.ret f.acc K
  | .scalar => State.ret (scalarValue stod (trim line)) K

/-- Hand a line down to the first reader that keeps it. -/
def dispatch (line : Str) (rest : List Str) : Frame D → Stack D → State D
  | f, [] => if f.leaves line then .returned f.acc else readLine stod f [] line rest
  | f, (g, slot) :: K =>
      if f.leaves line then dispatch line rest (g.put slot f.acc) K
      else readLine stod f ((g, slot) :: K) line rest

/-- One line that counts. -/
def State.step (line : Str) (rest : List Str) : State D → State D
  | .running f K => dispatch stod line rest f K
  | state => state

/-- All lines; blank lines and comments change nothing. -/
def run : State D → List Str → Option (YamlValue D)
  | state, [] => state.finish
  | state, line :: rest =>
      run (if isSkipped (trim line) then state else state.step stod line rest) rest

/-- A whole document. -/
def runDocument (lines : List Str) : Option (YamlValue D) :=
  run stod (.running (.start .object 0) []) lines

/-! ## Running -/

variable {stod} {f : Frame D} {K : Stack D} {line : Str} {rest : List Str}

theorem run_skipped (state : State D) (h : isSkipped (trim line) = true) :
    run stod state (line :: rest) = run stod state rest := by
  rw [run, if_pos h]

theorem run_running (h : isSkipped (trim line) = false) :
    run stod (.running f K) (line :: rest)
      = run stod (dispatch stod line rest f K) rest := by
  rw [run, if_neg (by simp [h])]
  rfl

theorem readLine_scalar (base : Nat) :
    readLine stod (.start .scalar base) K line rest
      = State.ret (scalarValue stod (trim line)) K := rfl

/-- A field of an element leaves the callers alone. -/
theorem elementField_running (f : Frame D) (K : Stack D) (threshold : Nat) (rest : List Str)
    (key value : Str) :
    ∃ f' P, elementField stod f K threshold rest key value = .running f' (P ++ K) := by
  unfold elementField
  split
  · split
    · exact ⟨_, [], rfl⟩
    · split
      · exact ⟨_, [_], rfl⟩
      · exact ⟨_, [_], rfl⟩
  · exact ⟨_, [], rfl⟩

/-- So does a line of an array. -/
theorem arrayLine_running (f : Frame D) (K : Stack D) (line : Str) (rest : List Str) :
    ∃ f' P, arrayLine stod f K line rest = .running f' (P ++ K) := by
  rw [arrayLine]
  split
  · simp only
    split
    · exact ⟨_, [_], rfl⟩
    · split
      · rename_i key value _
        obtain ⟨f', P, hfield⟩ : ∃ f' P, elementField stod (.start .element f.base)
            ((f, .element) :: K) f.base rest key value
              = .running f' (P ++ (f, .element) :: K) := elementField_running _ _ _ _ _ _
        exact ⟨f', P ++ [(f, .element)], by rw [hfield, List.append_assoc]; rfl⟩
      · exact ⟨_, [], rfl⟩
  · exact ⟨f, [], rfl⟩

/-- A state that no line changes is the state at the end. -/
theorem run_of_fixed {state : State D} (h : ∀ line rest, state.step stod line rest = state)
    (lines : List Str) : run stod state lines = state.finish := by
  induction lines with
  | nil => rfl
  | cons line rest ih =>
      rw [run, h line rest, ite_self]
      exact ih

theorem run_returned (value : YamlValue D) (lines : List Str) :
    run stod (.returned value) lines = some value :=
  run_of_fixed (fun _ _ => rfl) lines

theorem run_thrown (lines : List Str) : run stod (.thrown : State D) lines = none :=
  run_of_fixed (fun _ _ => rfl) lines

/-- Where nothing is left that counts, the text is at its end. -/
theorem run_all_skipped (state : State D) {lines : List Str}
    (h : lines.find? (fun l => !isSkipped (trim l)) = none) :
    run stod state lines = run stod state [] := by
  induction lines with
  | nil => rfl
  | cons line rest ih =>
      rw [List.find?_eq_none] at h ih
      have hskip : isSkipped (trim line) = true := by
        simpa using h line List.mem_cons_self
      rw [run_skipped _ hskip]
      exact ih (fun l hl => h l (List.mem_cons_of_mem _ hl))

theorem dispatch_reads (h : f.leaves line = false) :
    dispatch stod line rest f K = readLine stod f K line rest := by
  cases K with
  | nil => rw [dispatch, if_neg (by simp [h])]
  | cons g K => rw [dispatch, if_neg (by simp [h])]

/-- The reader that keeps a line, as it is when the line comes to it, and its
    callers. -/
def keeper (line : Str) : Frame D → Stack D → Option (Frame D × Stack D)
  | f, [] => if f.leaves line then none else some (f, [])
  | f, (g, slot) :: K =>
      if f.leaves line then keeper line (g.put slot f.acc) K else some (f, (g, slot) :: K)

/-- **Handing down**: the reader that keeps the line reads it, and without one
    every call returns. -/
theorem dispatch_eq_keeper (f : Frame D) (K : Stack D) :
    dispatch stod line rest f K
      = (keeper line f K).elim (.returned (unwind f.acc K))
          (fun p => readLine stod p.1 p.2 line rest) := by
  induction K generalizing f with
  | nil =>
      rw [dispatch, keeper]
      cases f.leaves line <;> rfl
  | cons g K ih =>
      obtain ⟨g, slot⟩ := g
      rw [dispatch, keeper]
      cases f.leaves line with
      | true => exact ih (g.put slot f.acc)
      | false => rfl

theorem leaves_of_keeper {p : Frame D × Stack D} (h : keeper line f K = some p) :
    p.1.leaves line = false := by
  induction K generalizing f with
  | nil =>
      rw [keeper] at h
      cases hleaves : f.leaves line with
      | true =>
          rw [hleaves] at h
          cases h
      | false =>
          rw [hleaves] at h
          obtain rfl := Option.some.inj h
          exact hleaves
  | cons g K ih =>
      rw [keeper] at h
      cases hleaves : f.leaves line with
      | true =>
          rw [hleaves] at h
          exact ih h
      | false =>
          rw [hleaves] at h
          obtain rfl := Option.some.inj h
          exact hleaves

/-- Only the indent of the line decides who keeps it. -/
theorem keeper_congr {line' : Str} (h : getIndent line = getIndent line') (f : Frame D)
    (K : Stack D) : keeper line f K = keeper line' f K := by
  have hleaves : ∀ g : Frame D, g.leaves line = g.leaves line' := by
    intro g
    simp only [Frame.leaves, h]
  induction K generalizing f with
  | nil => rw [keeper, keeper, hleaves]
  | cons g K ih => rw [keeper, keeper, hleaves, ih]

/-- A line the topmost reader keeps. -/
theorem run_reads (hskip : isSkipped (trim line) = false)
    (hkeep : f.leaves line = false) :
    run stod (.running f K) (line :: rest)
      = run stod (readLine stod f K line rest) rest := by
  rw [run_running hskip, dispatch_reads hkeep]

/-- **Putting a line back**: a reader that ends before a line returns, and the
    line is read again. -/
theorem run_leaves (hskip : isSkipped (trim line) = false)
    (hleave : f.leaves line = true) :
    run stod (.running f K) (line :: rest)
      = run stod (State.ret f.acc K) (line :: rest) := by
  rw [run_running hskip]
  cases K with
  | nil =>
      rw [dispatch, if_pos hleave, State.ret, run_returned, run_returned]
  | cons g K =>
      -- below, `dispatch` goes on with the caller as the run does
      rw [dispatch, if_pos hleave, State.ret, run_running hskip]

/-- At the end of the text, the topmost call returns first. -/
theorem run_running_nil : run stod (.running f K) [] = run stod (State.ret f.acc K) [] := by
  cases K with
  | nil => rfl
  | cons g K => rfl

/-- A closed element reader returns, whatever comes. -/
theorem run_closed (base : Nat) (acc : YamlValue D) (K : Stack D) (lines : List Str) :
    run stod (.running ⟨.closed, base, acc⟩ K) lines = run stod (State.ret acc K) lines := by
  induction lines with
  | nil => exact run_running_nil
  | cons line rest ih =>
      by_cases hskip : isSkipped (trim line) = true
      · rw [run_skipped _ hskip, run_skipped _ hskip, ih]
      · exact run_leaves (by simpa using hskip) rfl

/-- A dash in an element closes it: the line goes to an array whose value is
    dropped. -/
theorem run_element_dash {base : Nat} {acc : YamlValue D}
    (hskip : isSkipped (trim line) = false) (hindent : ¬ getIndent line ≤ base)
    (hlength : ¬ line.length < base + 2) (hdash : isDash (trim line) = true) :
    run stod (.running ⟨.element, base, acc⟩ K) (line :: rest)
      = run stod (.running (.start .array (getIndent line))
          ((⟨.closed, base, acc⟩, .dropped) :: K)) (line :: rest) := by
  have hread : readLine stod ⟨.element, base, acc⟩ K line rest
      = readLine stod (.start .array (getIndent line))
          ((⟨.closed, base, acc⟩, .dropped) :: K) line rest := by
    show elementLine stod ⟨.element, base, acc⟩ K line rest = _
    rw [elementLine, if_neg hlength, if_pos hdash]
    rfl
  rw [run_reads hskip (by simpa [Frame.leaves] using hindent), hread]
  exact (run_reads hskip (by simp [Frame.leaves, Frame.start])).symm

/-- On the last line such an array comes too late. -/
theorem run_dropped_last (base indent : Nat) (acc : YamlValue D)
    (hskip : isSkipped (trim line) = false) (hindent : indent ≤ getIndent line) :
    run stod (.running (.start .array indent)
        ((⟨.closed, base, acc⟩, .dropped) :: K)) [line]
      = run stod (State.ret acc K) [] := by
  have hkeep : (Frame.start .array indent : Frame D).leaves line = false :=
    decide_eq_false (Nat.not_lt.mpr hindent)
  rw [run_reads hskip hkeep, ← run_running_nil (f := ⟨.closed, base, acc⟩)]
  show run stod (arrayLine stod _ _ line []) [] = _
  unfold arrayLine elementField
  split
  · simp only
    split
    · rfl
    · split
      · split
        · rfl
        · rfl
      · rfl
  · rfl

end Machine

end LaunchCpp.Yaml
