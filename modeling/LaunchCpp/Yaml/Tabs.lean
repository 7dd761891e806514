import LaunchCpp.Yaml.SkippedLines

/-! # Lines indented with tabs

    `get_indent` counts columns, two for a tab, and `substr` counts bytes.  An
    element reader cuts `base_indent + 2` bytes off every line it keeps, and
    it keeps a line by its columns.  This file follows a text line by line and
    says when a line is cut behind its end; without the exception `parse`
    returns. -/

namespace LaunchCpp.Yaml

open StringStreams

section Columns

variable {D : Type}

/-- The base indent of an element reader. -/
def Frame.column (f : Frame D) : Option Nat :=
  match f.reader with
  | .element => some f.base
  | _ => none

/-- The base indent of the element that keeps a line, as `dispatch` finds
    it. -/
def columnAt (line : Str) : Frame D → Stack D → Option Nat
  | f, [] => if f.leaves line then none else f.column
  | f, (g, _) :: K => if f.leaves line then columnAt line g K else f.column

def State.column (line : Str) : State D → Option Nat
  | .running f K => if isSkipped (trim line) then none else columnAt line f K
  | _ => none

variable (stod : Str → Option D)

/-- Along a run, every line that an element keeps reaches two bytes past the
    base indent of the element. -/
def LongEnough : State D → List Str → Prop
  | _, [] => True
  | state, line :: rest =>
      (∀ base ∈ state.column line, base + 2 ≤ line.length)
        ∧ LongEnough (state.next stod line rest) rest

end Columns

section Machine

variable {D : Type} {stod : Str → Option D}

theorem running_ne_thrown (f : Frame D) (K : Stack D) : State.running f K ≠ .thrown := by
  intro h
  cases h

theorem ret_ne_thrown (value : YamlValue D) (K : Stack D) : State.ret value K ≠ .thrown := by
  intro h
  cases K <;> cases h

theorem elementField_ne_thrown (f : Frame D) (K : Stack D) (threshold : Nat)
    (rest : List Str) (key value : Str) :
    elementField stod f K threshold rest key value ≠ .thrown := by
  obtain ⟨f', P, hrun⟩ : ∃ f' P, elementField stod f K threshold rest key value
      = State.running f' (P ++ K) := elementField_running f K threshold rest key value
  rw [hrun]
  exact running_ne_thrown _ _

theorem arrayLine_ne_thrown (f : Frame D) (K : Stack D) (line : Str) (rest : List Str) :
    arrayLine stod f K line rest ≠ .thrown := by
  obtain ⟨f', P, hrun⟩ : ∃ f' P, arrayLine stod f K line rest = State.running f' (P ++ K) :=
    arrayLine_running f K line rest
  rw [hrun]
  exact running_ne_thrown _ _

/-- An element throws on the lines that are too short for it, and on no
    other. -/
theorem elementLine_ne_thrown {f : Frame D} (K : Stack D) {line : Str} (rest : List Str)
    (hlength : ¬ line.length < f.base + 2) : elementLine stod f K line rest ≠ .thrown := by
  rw [elementLine, if_neg hlength]
  by_cases hdash : isDash (trim line) = true
  · rw [if_pos hdash]
    exact arrayLine_ne_thrown _ _ _ _
  · rw [if_neg hdash]
    cases keyValue (trim line) with
    | none => exact running_ne_thrown _ _
    | some field => exact elementField_ne_thrown _ _ _ _ _ _

theorem objectLine_ne_thrown (f : Frame D) (K : Stack D) (line : Str) (rest : List Str) :
    objectLine stod f K line rest ≠ .thrown := by
  unfold objectLine
  split
  · exact running_ne_thrown _ _
  · split
    · split
      · exact running_ne_thrown _ _
      · split <;> exact running_ne_thrown _ _
    · split <;> exact running_ne_thrown _ _

theorem columnAt_eq_keeper (line : Str) (f : Frame D) (K : Stack D) :
    columnAt line f K = (keeper line f K).bind (fun p => p.1.column) := by
  induction K generalizing f with
  | nil =>
      rw [columnAt, keeper]
      cases f.leaves line <;> rfl
  | cons g K ih =>
      obtain ⟨g, slot⟩ := g
      -- what a reader has collected does not matter
      have hput : columnAt line (g.put slot f.acc) K = columnAt line g K := by
        cases K <;> rfl
      rw [columnAt, keeper, ← hput]
      cases f.leaves line with
      | true => exact ih (g.put slot f.acc)
      | false => rfl

/-- A kept line throws in an element that it is too short for. -/
theorem readLine_thrown_iff (f : Frame D) (K : Stack D) (line : Str) (rest : List Str) :
    readLine stod f K line rest = .thrown ↔ ∃ base ∈ f.column, line.length < base + 2 := by
  obtain ⟨reader, base, acc⟩ := f
  cases reader with
  | object =>
      refine iff_of_false ?_ (by simp [Frame.column])
      show (if getIndent line < base ∧ 0 < base then State.ret acc K
        else objectLine stod ⟨.object, base, acc⟩ K line rest) ≠ .thrown
      split
      · exact ret_ne_thrown acc K
      · exact objectLine_ne_thrown _ _ _ _
  | array => exact iff_of_false (arrayLine_ne_thrown _ _ _ _) (by simp [Frame.column])
  | element =>
      have hcolumn : (∃ b ∈ (⟨.element, base, acc⟩ : Frame D).column, line.length < b + 2)
          ↔ line.length < base + 2 := by
        simp [Frame.column]
      rw [hcolumn]
      show elementLine stod ⟨.element, base, acc⟩ K line rest = .thrown ↔ _
      by_cases hlength : line.length < base + 2
      · rw [elementLine]
        exact iff_of_true (if_pos hlength) hlength
      · exact iff_of_false (elementLine_ne_thrown K rest hlength) hlength
  | closed => exact iff_of_false (ret_ne_thrown acc K) (by simp [Frame.column])
  | scalar => exact iff_of_false (ret_ne_thrown _ K) (by simp [Frame.column])

theorem dispatch_thrown_iff (line : Str) (rest : List Str) (f : Frame D) (K : Stack D) :
    dispatch stod line rest f K = .thrown
      ↔ ∃ base ∈ columnAt line f K, line.length < base + 2 := by
  rw [dispatch_eq_keeper, columnAt_eq_keeper]
  cases keeper line f K with
  | none => simp
  | some p => exact readLine_thrown_iff p.1 p.2 line rest

/-- **One line** throws exactly if it is too short for the element that keeps
    it. -/
theorem next_thrown_iff {state : State D} (hstate : state ≠ .thrown) (line : Str)
    (rest : List Str) :
    state.next stod line rest = .thrown ↔ ∃ base ∈ state.column line, line.length < base + 2 := by
  rw [State.next]
  by_cases hskip : isSkipped (trim line) = true
  · rw [if_pos hskip]
    refine iff_of_false hstate ?_
    cases state <;> simp [State.column, hskip]
  · rw [if_neg hskip]
    cases state with
    | running f K =>
        show dispatch stod line rest f K = .thrown ↔ _
        rw [dispatch_thrown_iff, State.column, if_neg hskip]
    | returned value => exact iff_of_false hstate (by simp [State.column])
    | thrown => exact absurd rfl hstate

/-- **All lines.** -/
theorem run_ne_none_iff {lines : List Str} {state : State D} (hstate : state ≠ .thrown) :
    run stod state lines ≠ none ↔ LongEnough stod state lines := by
  induction lines generalizing state with
  | nil =>
      refine iff_of_true ?_ trivial
      cases state with
      | running f K => exact Option.some_ne_none _
      | returned value => exact Option.some_ne_none _
      | thrown => exact absurd rfl hstate
  | cons line rest ih =>
      show run stod (state.next stod line rest) rest ≠ none ↔ _
      have hthrown : state.next stod line rest = .thrown ↔ _ :=
        next_thrown_iff hstate line rest
      by_cases hnext : state.next stod line rest = .thrown
      · obtain ⟨base, hbase, hshort⟩ := hthrown.mp hnext
        rw [hnext, run_thrown]
        refine iff_of_false (fun h => h rfl) (fun h => ?_)
        have hlong := h.1 base hbase
        omega
      · rw [ih hnext]
        refine ⟨fun h => ⟨fun base hbase => ?_, h⟩, And.right⟩
        by_contra hshort
        exact hnext (hthrown.mpr ⟨base, hbase, by omega⟩)

/-- An element keeps only lines indented deeper than its base. -/
theorem columnAt_lt_getIndent {line : Str} {f : Frame D} {K : Stack D} {base : Nat}
    (h : base ∈ columnAt line f K) : base < getIndent line := by
  rw [columnAt_eq_keeper] at h
  obtain ⟨⟨⟨reader, b, acc⟩, L⟩, hkeeper, hbase⟩ := Option.bind_eq_some_iff.mp h
  have hkeep := leaves_of_keeper hkeeper
  cases reader with
  | element =>
      obtain rfl : b = base := Option.some.inj hbase
      exact Nat.not_le.mp (of_decide_eq_false hkeep)
  | _ => cases hbase

/-- Where every line is longer than its indent, no line is too short. -/
theorem longEnough_of_length {lines : List Str}
    (h : ∀ line ∈ lines, isSkipped (trim line) = false → getIndent line < line.length)
    (state : State D) : LongEnough stod state lines := by
  induction lines generalizing state with
  | nil => exact trivial
  | cons line rest ih =>
      refine ⟨fun base hbase => ?_, ih (fun l hl => h l (List.mem_cons_of_mem _ hl)) _⟩
      cases state with
      | running f K =>
          rw [State.column] at hbase
          cases hskip : isSkipped (trim line) with
          | true =>
              rw [hskip] at hbase
              cases hbase
          | false =>
              rw [hskip] at hbase
              have hindent := columnAt_lt_getIndent hbase
              have hlength := h line List.mem_cons_self hskip
              omega
      | returned value => cases hbase
      | thrown => cases hbase

end Machine

section Parser

variable {D : Type} (stod : Str → Option D)

/-- **`parse` returns** on every text in which the lines of array elements are
    long enough, however they are indented, and throws on every other. -/
theorem parse_returns_iff (content : Str) :
    (∃ r, parse stod content = .ok r)
      ↔ LongEnough stod (.running (.start .object 0) []) (linesOf content) := by
  rw [← run_ne_none_iff (running_ne_thrown (.start .object 0) [])]
  rw [parse_eq_runDocument, runDocument]
  cases run stod (.running (.start .object 0) []) (linesOf content) with
  | none => simp
  | some v => simp

/-- Tabs do no harm where there is more behind them: a text is parsed to a
    value if every line that counts is longer than its indent. -/
theorem parse_value_of_length {content : Str}
    (h : ∀ line ∈ linesOf content, isSkipped (trim line) = false →
      getIndent line < line.length) : ∃ v, parse stod content = .ok (.ok v) := by
  have hlong : LongEnough stod (.running (.start .object 0) []) (linesOf content) :=
    longEnough_of_length h _
  have hdocument := (run_ne_none_iff (running_ne_thrown (.start .object 0) [])).mpr hlong
  obtain ⟨v, hv⟩ := Option.ne_none_iff_exists'.mp hdocument
  refine ⟨v, ?_⟩
  rw [parse_eq_runDocument, runDocument, hv]

/-- A line of two tabs and one character, in an element one tab deep. -/
theorem parse_returns_two_tabs :
    parse (fun _ => (none : Option Nat)) "k:\n\t- a: b\n\t\tc\n".toList = .error .outOfRange := by
  rw [parse_eq_runDocument]
  rfl

end Parser

end LaunchCpp.Yaml
