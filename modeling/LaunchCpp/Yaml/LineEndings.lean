import LaunchCpp.Yaml.Total

/-! # Line endings

    Of a line the readers see the trimmed text, the indent and, in an element,
    whether the line is too short.  Without tabs the last question never
    comes up, so lines that agree in the first two are read alike.  A carriage
    return in front of a newline is one that `trim` removes, and a newline at
    the end of a text adds no line. -/

namespace LaunchCpp.Yaml

open StringStreams

/-- Two lines without tabs that are read alike. -/
structure Alike (l l' : Str) : Prop where
  trim_eq : trim l = trim l'
  indent_eq : getIndent l = getIndent l'
  no_tab : '\t' ∉ l
  no_tab' : '\t' ∉ l'

theorem Alike.refl {l : Str} (h : '\t' ∉ l) : Alike l l := ⟨rfl, rfl, h, h⟩

/-- The same answer from two searches for a line. -/
def Found (o o' : Option Str) : Prop :=
  (o = none ∧ o' = none) ∨ ∃ l l', o = some l ∧ o' = some l' ∧ Alike l l'

section Machine

variable {D : Type} {stod : Str → Option D} {l l' : Str} {ls ls' : List Str}

/-! ## One line -/

/-- The next lines that count are alike. -/
theorem found_find (h : List.Forall₂ Alike ls ls') :
    Found (ls.find? (fun l => !isSkipped (trim l)))
      (ls'.find? (fun l => !isSkipped (trim l))) := by
  induction h with
  | nil => exact Or.inl ⟨rfl, rfl⟩
  | @cons x y xs ys hl _ ih =>
      cases hskip : isSkipped (trim x) with
      | true =>
          rw [List.find?_cons_of_neg (by simp [hskip]),
            List.find?_cons_of_neg (by simp [← hl.trim_eq, hskip])]
          exact ih
      | false =>
          rw [List.find?_cons_of_pos (by simp [hskip]),
            List.find?_cons_of_pos (by simp [← hl.trim_eq, hskip])]
          exact Or.inr ⟨x, y, rfl, rfl, hl⟩

/-- A line that counts and is kept by an element is long enough for it. -/
theorem not_short {base : Nat} (htab : '\t' ∉ l) (hne : trim l ≠ [])
    (hkeep : ¬ getIndent l ≤ base) : ¬ l.length < base + 2 := by
  have hlt := getIndent_lt_length htab hne
  omega

/-- Fields with alike lines behind them are read alike. -/
theorem elementField_alike (f : Frame D) (K : Stack D) (threshold : Nat)
    (h : List.Forall₂ Alike ls ls') (key value : Str) :
    elementField stod f K threshold ls key value = elementField stod f K threshold ls' key value := by
  cases h with
  | nil => rfl
  | cons hl _ => simp only [elementField, hl.indent_eq, hl.trim_eq]

/-- So are items. -/
theorem arrayLine_alike (f : Frame D) (K : Stack D) (hl : Alike l l')
    (h : List.Forall₂ Alike ls ls') :
    arrayLine stod f K l ls = arrayLine stod f K l' ls' := by
  simp only [arrayLine, hl.trim_eq, elementField_alike _ _ _ h]

/-- So are lines of an element. -/
theorem elementLine_alike (f : Frame D) (K : Stack D) (hl : Alike l l') (hne : trim l ≠ [])
    (hkeep : ¬ getIndent l ≤ f.base) (h : List.Forall₂ Alike ls ls') :
    elementLine stod f K l ls = elementLine stod f K l' ls' := by
  have hlength := not_short hl.no_tab hne hkeep
  have hlength' := not_short hl.no_tab' (hl.trim_eq ▸ hne) (hl.indent_eq ▸ hkeep)
  rw [elementLine, elementLine, if_neg hlength, if_neg hlength', ← hl.trim_eq, ← hl.indent_eq,
    arrayLine_alike _ _ hl h]
  cases keyValue (trim l) with
  | none => rfl
  | some field => simp only [elementField_alike _ _ _ h]

/-- So are lines of an object. -/
theorem objectLine_alike (f : Frame D) (K : Stack D) (hl : Alike l l')
    (h : List.Forall₂ Alike ls ls') :
    objectLine stod f K l ls = objectLine stod f K l' ls' := by
  unfold objectLine
  rw [← hl.trim_eq, ← hl.indent_eq]
  rcases found_find h with ⟨hnone, hnone'⟩ | ⟨next, next', hnext, hnext', halike⟩
  · rw [hnone, hnone']
  · rw [hnext, hnext']
    simp only [halike.trim_eq, halike.indent_eq]

/-- **Alike lines are read alike**, whoever keeps them. -/
theorem readLine_alike (f : Frame D) (K : Stack D) (hl : Alike l l') (hne : trim l ≠ [])
    (hkeep : f.leaves l = false) (h : List.Forall₂ Alike ls ls') :
    readLine stod f K l ls = readLine stod f K l' ls' := by
  obtain ⟨reader, base, acc⟩ := f
  cases reader with
  | object =>
      show (if getIndent l < base ∧ 0 < base then State.ret acc K
          else objectLine stod ⟨.object, base, acc⟩ K l ls)
        = if getIndent l' < base ∧ 0 < base then State.ret acc K
          else objectLine stod ⟨.object, base, acc⟩ K l' ls'
      rw [hl.indent_eq, objectLine_alike _ _ hl h]
  | array => exact arrayLine_alike _ _ hl h
  | element => exact elementLine_alike _ _ hl hne (of_decide_eq_false hkeep) h
  | closed => rfl
  | scalar =>
      show State.ret (scalarValue stod (trim l)) K = State.ret (scalarValue stod (trim l')) K
      rw [hl.trim_eq]

/-- The same reader keeps them. -/
theorem dispatch_alike (hl : Alike l l') (hne : trim l ≠ []) (h : List.Forall₂ Alike ls ls')
    (f : Frame D) (K : Stack D) : dispatch stod l ls f K = dispatch stod l' ls' f K := by
  rw [dispatch_eq_keeper, dispatch_eq_keeper, ← keeper_congr hl.indent_eq]
  cases hkeeper : keeper l f K with
  | none => rfl
  | some p => exact readLine_alike p.1 p.2 hl hne (leaves_of_keeper hkeeper) h

/-- **One line** read alike leads to the same state. -/
theorem step_alike (hl : Alike l l') (hne : trim l ≠ []) (h : List.Forall₂ Alike ls ls')
    (state : State D) : state.step stod l ls = state.step stod l' ls' := by
  cases state with
  | running f K => exact dispatch_alike hl hne h f K
  | returned value => rfl
  | thrown => rfl

/-- **All lines** read alike lead to the same value. -/
theorem run_alike (h : List.Forall₂ Alike ls ls') (state : State D) :
    run stod state ls = run stod state ls' := by
  induction h generalizing state with
  | nil => rfl
  | @cons l l' ls ls' hl hls ih =>
      rw [run, run, ← hl.trim_eq]
      by_cases hskip : isSkipped (trim l) = true
      · rw [if_pos hskip, if_pos hskip, ih]
      · rw [if_neg hskip, if_neg hskip, step_alike hl (ne_nil_of_not_isSkipped hskip) hls, ih]

end Machine

/-! ## Texts -/

/-- The text with a carriage return in front of every newline. -/
def withCarriageReturns (content : Str) : Str :=
  content.flatMap (fun c => if c = '\n' then ['\r', '\n'] else [c])

/-- Returns are put in line by line. -/
theorem withCarriageReturns_append (s t : Str) :
    withCarriageReturns (s ++ t) = withCarriageReturns s ++ withCarriageReturns t :=
  List.flatMap_append

/-- A text without newlines gets none. -/
theorem withCarriageReturns_of_no_newline {s : Str} (h : '\n' ∉ s) :
    withCarriageReturns s = s := by
  induction s with
  | nil => rfl
  | cons c s ih =>
      have hc : c ≠ '\n' := fun heq => h (heq ▸ List.mem_cons_self)
      rw [withCarriageReturns, List.flatMap_cons, if_neg hc]
      exact congrArg (c :: ·) (ih (fun hm => h (List.mem_cons_of_mem _ hm)))

/-- A character `trim` removes makes no difference at the end. -/
theorem trim_concat_space {c : Char} (hc : isSpace c = true) (s : Str) :
    trim (s ++ [c]) = trim s := by
  rw [trim, trim, List.dropWhile_append]
  cases hdrop : s.dropWhile isSpace with
  | nil => simp [hc]
  | cons d ds =>
      rw [if_neg (by simp)]
      exact List.rdropWhile_concat_pos _ _ _ hc

/-- A return at its end does not indent a line. -/
theorem getIndent_concat_return (s : Str) : getIndent (s ++ ['\r']) = getIndent s := by
  induction s with
  | nil => rfl
  | cons c s ih =>
      by_cases hspace : c = ' '
      · subst hspace
        exact congrArg (· + 1) ih
      · by_cases htab : c = '\t'
        · subst htab
          exact congrArg (· + 2) ih
        · rw [List.cons_append, getIndent_cons hspace htab, getIndent_cons hspace htab]

theorem alike_return {l : Str} (h : '\t' ∉ l) : Alike l (l ++ ['\r']) :=
  ⟨(trim_concat_space (by decide) l).symm, (getIndent_concat_return l).symm, h, by simpa using h⟩

/-- **The lines of both texts are alike.** -/
theorem linesOf_withCarriageReturns {content : Str} (htab : '\t' ∉ content) :
    List.Forall₂ Alike (linesOf content) (linesOf (withCarriageReturns content)) := by
  induction content using cut_induction '\n' with
  | piece content hno =>
      rw [withCarriageReturns_of_no_newline hno, List.forall₂_same]
      intro x hx
      exact Alike.refl (fun hm => htab (mem_of_mem_linesOf hx hm))
  | cut l rest hno ih =>
      have hreturns : withCarriageReturns (l ++ '\n' :: rest)
          = (l ++ ['\r']) ++ '\n' :: withCarriageReturns rest := by
        rw [withCarriageReturns_append, withCarriageReturns_of_no_newline hno]
        simp [withCarriageReturns]
      rw [hreturns, linesOf_append_newline hno, linesOf_append_newline (by simpa using hno)]
      exact List.Forall₂.cons (alike_return (fun hm => htab (by simp [hm])))
        (ih (fun hm => htab (by simp [hm])))

/-- A newline behind an unterminated last line adds no line. -/
theorem linesOf_append_last_newline {content : Str} (hne : content ≠ [])
    (hlast : content.getLast? ≠ some '\n') :
    linesOf (content ++ ['\n']) = linesOf content := by
  induction content using cut_induction '\n' with
  | piece content hno =>
      rw [linesOf_append_newline hno, linesOf_of_no_newline hno hne]
      rfl
  | cut l rest hno ih =>
      have hrest : rest ≠ [] := by
        rintro rfl
        simp at hlast
      have hrest_last : rest.getLast? ≠ some '\n' := by
        intro heq
        refine hlast ?_
        rw [List.getLast?_append, List.getLast?_cons, heq]
        simp
      rw [List.append_assoc, List.cons_append, linesOf_append_newline hno,
        linesOf_append_newline hno, ih hrest hrest_last]

/-- **Line endings make no difference**: neither carriage returns in front of
    the newlines of a text without tabs, nor the newline at its end. -/
theorem parse_line_endings {D : Type} (stod : Str → Option D) {content : Str}
    (htab : '\t' ∉ content) :
    parse stod (withCarriageReturns content) = parse stod content
      ∧ (content.getLast? ≠ some '\n' →
          parse stod (content ++ ['\n']) = parse stod content) := by
  refine ⟨?_, fun hlast => ?_⟩
  · have hrun : runDocument stod (linesOf content)
        = runDocument stod (linesOf (withCarriageReturns content)) :=
      run_alike (linesOf_withCarriageReturns htab) _
    rw [parse_eq_runDocument, parse_eq_runDocument, hrun]
  · by_cases hne : content = []
    · -- the one line of this text is blank
      subst hne
      rw [parse_eq_runDocument, parse_eq_runDocument]
      rfl
    · rw [parse_eq_runDocument, parse_eq_runDocument,
        linesOf_append_last_newline hne hlast]

/-- A text with a dedent and no newline at its end. -/
theorem parse_line_endings_dedent :
    parse (fun _ => (none : Option Nat)) "e:\r\n  - a: 1\r\n    b: c\r\nd: x".toList
      = parse (fun _ => (none : Option Nat)) "e:\n  - a: 1\n    b: c\nd: x".toList :=
  (parse_line_endings (fun _ => (none : Option Nat))
    (show '\t' ∉ "e:\n  - a: 1\n    b: c\nd: x".toList by decide)).1

end LaunchCpp.Yaml
