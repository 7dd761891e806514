import LaunchCpp.Yaml.ParserRefinement

/-! # Blank lines and comments

    What happens to a text when lines are put in that the readers skip.  Three
    of the four readers do not notice.  The reader of array elements looks at
    the one raw line behind a key without a value, to see whether an array
    begins there, and takes a blank line or a comment for "no".  The main
    result is `parse_inserted`: texts with such lines put in anywhere else are
    parsed to the same value. -/

namespace LaunchCpp.Yaml

open StringStreams

/-- Lines put in that the readers skip. -/
inductive Inserted : List Str → List Str → Prop
  | nil : Inserted [] []
  | keep (l : Str) {ls ls' : List Str} : Inserted ls ls' → Inserted (l :: ls) (l :: ls')
  | skip {l : Str} {ls ls' : List Str} : isSkipped (trim l) = true → Inserted ls ls' →
      Inserted ls (l :: ls')

theorem Inserted.refl (ls : List Str) : Inserted ls ls := by
  induction ls with
  | nil => exact Inserted.nil
  | cons l ls ih => exact Inserted.keep l ih

theorem Inserted.append {ls ls' rs rs' : List Str} (hl : Inserted ls ls')
    (hr : Inserted rs rs') : Inserted (ls ++ rs) (ls' ++ rs') := by
  induction hl with
  | nil => exact hr
  | keep l _ ih => exact Inserted.keep l ih
  | skip hskip _ ih => exact Inserted.skip hskip ih

/-- A line put in at a line boundary of a text. -/
theorem inserted_linesOf {t₁ l : Str} (t₂ : Str) (hbound : t₁ = [] ∨ t₁.getLast? = some '\n')
    (hline : '\n' ∉ l) (hskip : isSkipped (trim l) = true) :
    Inserted (linesOf (t₁ ++ t₂)) (linesOf (t₁ ++ (l ++ '\n' :: t₂))) := by
  rw [linesOf_append hbound, linesOf_append hbound, linesOf_append_newline hline]
  exact (Inserted.refl _).append (Inserted.skip hskip (Inserted.refl _))

/-- The first line that counts is the same. -/
theorem Inserted.find_eq {ls ls' : List Str} (h : Inserted ls ls') :
    ls'.find? (fun l => !isSkipped (trim l)) = ls.find? (fun l => !isSkipped (trim l)) := by
  induction h with
  | nil => rfl
  | keep l _ ih => rw [List.find?_cons, List.find?_cons, ih]
  | skip hskip _ ih => rw [List.find?_cons_of_neg (by simp [hskip]), ih]

/-! ## Where a line must not be put in -/

section Awaits

variable {D : Type}

/-- A reader of array elements finds a key without a value on this line; an
    array below it has to be indented by more than this. -/
def Frame.awaits (f : Frame D) (line : Str) : Option Nat :=
  match f.reader with
  | .array =>
      if isDash (trim line) then
        match keyValue (trim (trim line).tail) with
        | some (_, []) => some f.base
        | _ => none
      else none
  | .element =>
      -- a line too short for the element throws before anything is looked at
      if line.length < f.base + 2 then none
      else
        match keyValue (if isDash (trim line) then trim (trim line).tail else trim line) with
        | some (_, []) => some (getIndent line)
        | _ => none
  | _ => none

/-- The reader that keeps a line, as `dispatch` finds it. -/
def awaitsAt (line : Str) : Frame D → Stack D → Option Nat
  | f, [] => if f.leaves line then none else f.awaits line
  | f, (g, _) :: K => if f.leaves line then awaitsAt line g K else f.awaits line

def State.awaits (line : Str) : State D → Option Nat
  | .running f K => if isSkipped (trim line) then none else awaitsAt line f K
  | _ => none

/-- An array that begins right behind the line still does. -/
def Attached (threshold : Option Nat) (rest rest' : List Str) : Prop :=
  ∀ n ∈ threshold, ∀ next ∈ rest.head?,
    n < getIndent next → isDash (trim next) = true → rest'.head? = some next

variable (stod : Str → Option D)

/-- The state behind a line. -/
def State.next (line : Str) (rest : List Str) (state : State D) : State D :=
  if isSkipped (trim line) then state else state.step stod line rest

/-- Lines put in along a run, none of them between a key without a value that
    a reader of array elements reads and an array that begins right there. -/
inductive InsertedApart : State D → List Str → List Str → Prop
  | nil (state : State D) : InsertedApart state [] []
  | keep {state : State D} {l : Str} {ls ls' : List Str} :
      Attached (state.awaits l) ls ls' → InsertedApart (state.next stod l ls) ls ls' →
      InsertedApart state (l :: ls) (l :: ls')
  | skip {state : State D} {l : Str} {ls ls' : List Str} :
      isSkipped (trim l) = true → InsertedApart state ls ls' →
      InsertedApart state ls (l :: ls')

end Awaits

section Run

variable {D : Type} {stod : Str → Option D}

/-- What a reader has collected does not matter. -/
theorem awaitsAt_put (line : Str) (g : Frame D) (slot : Slot) (value : YamlValue D)
    (K : Stack D) : awaitsAt line (g.put slot value) K = awaitsAt line g K := by
  cases K <;> rfl

theorem awaitsAt_eq_keeper (line : Str) (f : Frame D) (K : Stack D) :
    awaitsAt line f K = (keeper line f K).bind (fun p => p.1.awaits line) := by
  induction K generalizing f with
  | nil =>
      rw [awaitsAt, keeper]
      cases f.leaves line <;> rfl
  | cons g K ih =>
      obtain ⟨g, slot⟩ := g
      rw [awaitsAt, keeper, ← awaitsAt_put line g slot f.acc]
      cases f.leaves line with
      | true => exact ih (g.put slot f.acc)
      | false => rfl

theorem InsertedApart.inserted {state : State D} {ls ls' : List Str}
    (h : InsertedApart stod state ls ls') : Inserted ls ls' := by
  induction h with
  | nil => exact Inserted.nil
  | keep _ _ ih => exact Inserted.keep _ ih
  | skip hskip _ ih => exact Inserted.skip hskip ih

/-- At the end of a text a field that waits for its value has none. -/
theorem run_field_end (f : Frame D) (K : Stack D) (key : Str) {ls : List Str}
    (h : ls.find? (fun l => !isSkipped (trim l)) = none) :
    run stod (.running (.start .scalar 0) ((f, .field key) :: K)) ls
      = run stod (.running (f.put (.field key) .null) K) ls := by
  rw [run_all_skipped _ h, run_all_skipped _ h]
  -- both states are unwound, and a scalar never begun is null too
  rfl

theorem not_isDash_of_isSkipped {t : Str} (h : isSkipped t = true) : isDash t = false := by
  rw [isSkipped] at h
  rw [isDash]
  rcases Bool.or_eq_true_iff.mp h with h | h
  · rw [of_decide_eq_true h]
    rfl
  · rw [of_decide_eq_true h]
    rfl

/-- A field of an element does not notice lines put in, unless an array begins
    right behind it. -/
theorem run_elementField_inserted {f : Frame D} {K : Stack D} {threshold : Nat}
    {key value : Str} {ls ls' : List Str} (hins : Inserted ls ls')
    (hattached : value = [] → Attached (some threshold) ls ls') :
    run stod (elementField stod f K threshold ls' key value) ls'
      = run stod (elementField stod f K threshold ls key value) ls' := by
  unfold elementField
  by_cases hvalue : value = []
  · rw [if_pos hvalue, if_pos hvalue]
    have hscalar : ∀ next, isDash (trim next) = false →
        (if threshold < getIndent next ∧ isDash (trim next) = true then
          State.running (.start .array (getIndent next)) ((f, .field key) :: K)
        else .running (.start .scalar 0) ((f, .field key) :: K))
          = .running (.start .scalar 0) ((f, .field key) :: K) := by
      intro next hdash
      exact if_neg (fun h => by simp [hdash] at h)
    cases hins with
    | nil => rfl
    | keep l _ => rfl
    | skip hskip hrest =>
        simp only [hscalar _ (not_isDash_of_isSkipped hskip)]
        cases ls with
        | nil =>
            refine run_field_end f K key ?_
            rw [(Inserted.skip hskip hrest).find_eq]
            rfl
        | cons next ls =>
            simp only
            by_cases harray : threshold < getIndent next ∧ isDash (trim next) = true
            · -- the array would begin on the next line, and that is the one put in
              have hhead := hattached hvalue threshold rfl next rfl harray.1 harray.2
              obtain rfl := Option.some.inj hhead
              rw [not_isDash_of_isSkipped hskip] at harray
              exact absurd harray.2 (by simp)
            · rw [if_neg harray]
  · rw [if_neg hvalue, if_neg hvalue]

theorem run_arrayLine_inserted {f : Frame D} {K : Stack D} {line : Str} {ls ls' : List Str}
    (hins : Inserted ls ls')
    (hattached : isDash (trim line) = true → ∀ key,
      keyValue (trim (trim line).tail) = some (key, []) → Attached (some f.base) ls ls') :
    run stod (arrayLine stod f K line ls') ls' = run stod (arrayLine stod f K line ls) ls' := by
  unfold arrayLine
  by_cases hdash : isDash (trim line) = true
  · rw [if_pos hdash, if_pos hdash]
    simp only
    by_cases hcontent : trim (trim line).tail = []
    · rw [if_pos hcontent, if_pos hcontent]
    · rw [if_neg hcontent, if_neg hcontent]
      cases hfield : keyValue (trim (trim line).tail) with
      | none => rfl
      | some field =>
          obtain ⟨key, value⟩ := field
          refine run_elementField_inserted hins (fun hvalue => ?_)
          exact hattached hdash key (by rw [hfield, hvalue])
  · rw [if_neg hdash, if_neg hdash]

theorem run_elementLine_inserted {f : Frame D} {K : Stack D} {line : Str} {ls ls' : List Str}
    (hins : Inserted ls ls')
    (hattached : ¬ line.length < f.base + 2 →
      ∀ key, keyValue (if isDash (trim line) then trim (trim line).tail
        else trim line) = some (key, []) → Attached (some (getIndent line)) ls ls') :
    run stod (elementLine stod f K line ls') ls'
      = run stod (elementLine stod f K line ls) ls' := by
  unfold elementLine
  by_cases hlength : line.length < f.base + 2
  · rw [if_pos hlength, if_pos hlength]
  · rw [if_neg hlength, if_neg hlength]
    have hattached := hattached hlength
    by_cases hdash : isDash (trim line) = true
    · rw [if_pos hdash, if_pos hdash]
      rw [if_pos hdash] at hattached
      exact run_arrayLine_inserted hins (fun _ => hattached)
    · rw [if_neg hdash, if_neg hdash]
      rw [if_neg hdash] at hattached
      cases hfield : keyValue (trim line) with
      | none => rfl
      | some field =>
          obtain ⟨key, value⟩ := field
          refine run_elementField_inserted hins (fun hvalue => ?_)
          exact hattached key (by rw [hfield, hvalue])

/-- A field of an object looks at the next line that counts. -/
theorem objectLine_inserted (f : Frame D) (K : Stack D) (line : Str) {ls ls' : List Str}
    (hins : Inserted ls ls') : objectLine stod f K line ls' = objectLine stod f K line ls := by
  unfold objectLine
  rw [hins.find_eq]

theorem run_readLine_inserted {f : Frame D} {K : Stack D} {line : Str} {ls ls' : List Str}
    (hins : Inserted ls ls') (hattached : Attached (f.awaits line) ls ls') :
    run stod (readLine stod f K line ls') ls' = run stod (readLine stod f K line ls) ls' := by
  obtain ⟨reader, base, acc⟩ := f
  cases reader with
  | object =>
      unfold readLine
      simp only [objectLine_inserted _ K line hins]
  | array =>
      refine run_arrayLine_inserted hins (fun hdash key hkey => ?_)
      simpa only [Frame.awaits, hdash, if_true, hkey] using hattached
  | element =>
      refine run_elementLine_inserted hins (fun hlength key hkey => ?_)
      simpa only [Frame.awaits, if_neg hlength, hkey] using hattached
  | closed => rfl
  | scalar => rfl

theorem run_dispatch_inserted {line : Str} {ls ls' : List Str} (hins : Inserted ls ls')
    (f : Frame D) (K : Stack D) (hattached : Attached (awaitsAt line f K) ls ls') :
    run stod (dispatch stod line ls' f K) ls' = run stod (dispatch stod line ls f K) ls' := by
  rw [dispatch_eq_keeper, dispatch_eq_keeper]
  rw [awaitsAt_eq_keeper] at hattached
  cases hkeeper : keeper line f K with
  | none => rfl
  | some p =>
      rw [hkeeper] at hattached
      exact run_readLine_inserted hins hattached

/-- **One line**: the state behind it does not depend on lines put in behind
    it, as far as the rest of the run goes. -/
theorem run_next_inserted (state : State D) {line : Str} {ls ls' : List Str}
    (hins : Inserted ls ls') (hattached : Attached (state.awaits line) ls ls') :
    run stod (state.next stod line ls') ls' = run stod (state.next stod line ls) ls' := by
  unfold State.next
  by_cases hskip : isSkipped (trim line) = true
  · rw [if_pos hskip, if_pos hskip]
  · rw [if_neg hskip, if_neg hskip]
    cases state with
    | running f K =>
        rw [State.awaits] at hattached
        simp only [if_neg hskip] at hattached
        exact run_dispatch_inserted hins f K hattached
    | returned value => rfl
    | thrown => rfl

/-- **All lines.** -/
theorem run_inserted {state : State D} {ls ls' : List Str}
    (h : InsertedApart stod state ls ls') : run stod state ls' = run stod state ls := by
  induction h with
  | nil state => rfl
  | keep hattached hrest ih =>
      refine (run_next_inserted _ hrest.inserted hattached).trans ?_
      exact ih
  | skip hskip _ ih => exact (run_skipped _ hskip).trans ih

/-- **Blank lines and comments do not change a text**, as long as none comes
    between a key without a value that the reader of array elements reads and
    an array that begins on the next line. -/
theorem parse_inserted {content content' : Str}
    (h : InsertedApart stod (.running (.start .object 0) []) (linesOf content)
      (linesOf content')) : parse stod content' = parse stod content := by
  rw [parse_eq_runDocument, parse_eq_runDocument]
  unfold runDocument
  rw [run_inserted h]

theorem parse_inserted_comment :
    parse (fun _ => (none : Option Nat)) "e:\n\n  - k: 1\n  # end\n".toList
      = parse (fun _ => (none : Option Nat)) "e:\n  - k: 1\n".toList :=
  parse_inserted (show InsertedApart _ _ (linesOf "e:\n  - k: 1\n".toList)
      (linesOf "e:\n\n  - k: 1\n  # end\n".toList) from
    .keep (fun _ h => (nomatch h)) (.skip rfl
      (.keep (fun _ h => (nomatch h)) (.skip rfl (.nil _)))))

/-- A blank line in front of an array below the first key of an element. -/
theorem parse_inserted_blank :
    Inserted (linesOf "e:\n  - k:\n      - a\n".toList)
        (linesOf "e:\n  - k:\n\n      - a\n".toList)
      ∧ parse (fun _ => (none : Option Nat)) "e:\n  - k:\n\n      - a\n".toList
        ≠ parse (fun _ => none) "e:\n  - k:\n      - a\n".toList := by
  have hbound : "e:\n  - k:\n".toList.getLast? = some '\n' := rfl
  have hinserted : Inserted (linesOf ("e:\n  - k:\n".toList ++ "      - a\n".toList))
      (linesOf ("e:\n  - k:\n".toList ++ ([] ++ '\n' :: "      - a\n".toList))) :=
    inserted_linesOf _ (Or.inr hbound) List.not_mem_nil rfl
  refine ⟨hinserted, ?_⟩
  have hblank : runDocument (fun _ => (none : Option Nat))
      (linesOf "e:\n  - k:\n\n      - a\n".toList)
      = some (.object [("e".toList, .array [.object [("k".toList, .string "- a".toList)]])]) :=
    rfl
  have hplain : runDocument (fun _ => (none : Option Nat))
      (linesOf "e:\n  - k:\n      - a\n".toList)
      = some (.object [("e".toList, .array [.object
          [("k".toList, .array [.string "a".toList])]])]) := rfl
  rw [parse_eq_runDocument, parse_eq_runDocument, hblank, hplain]
  simp

end Run

end LaunchCpp.Yaml
