import LaunchCpp.Yaml.Document
import Mathlib.Algebra.Ring.Parity

/-! # Elements with empty fields

    Entities of the documented indents, whose field values may be left empty.
    A field without a value looks at the next line only, and where that is
    another field or the next entity it takes the WHOLE line as its value.
    Seen line by line this is a small automaton (`Cursor`), and the question
    whether the entities of two lists stay apart is whether the first list
    leaves a field waiting. -/

namespace LaunchCpp.Yaml

open OrderedMaps StringStreams

/-- What may stand behind a key on its line: one line without white space at
    its ends, or nothing. -/
abbrev InlineValue := { v : Str // Trimmed v ∧ '\n' ∉ v }

/-- A line of an entity; `dash` marks its first one. -/
structure FieldLine where
  dash : Bool
  key : Key
  value : InlineValue

/-- How the line is written. -/
def FieldLine.text (l : FieldLine) : Str :=
  if l.dash then dashAt 2 (fieldText l.key l.value) else lineAt 4 (fieldText l.key l.value)

/-- The line behind its indent. -/
def FieldLine.content (l : FieldLine) : Str :=
  if l.dash then '-' :: ' ' :: fieldText l.key l.value else fieldText l.key l.value

/-- An entity: fields on lines of their own. -/
abbrev EntityBlock := Block (Key × InlineValue)

def EntityBlock.lines (e : EntityBlock) : List FieldLine :=
  ⟨true, e.first.1, e.first.2⟩ :: e.others.map (fun f => ⟨false, f.1, f.2⟩)

/-- The lines of a list of entities. -/
def entityLines (es : List EntityBlock) : List FieldLine := es.flatMap EntityBlock.lines

/-- `entities:` and a list of entities. -/
def entitiesText (es : Block EntityBlock) : Str :=
  unlines ("entities:".toList :: (entityLines es.toList).map FieldLine.text)

/-! ## The automaton -/

variable {D : Type}

/-- Where the readers are between two lines: at the array, in an element, or
    at a field that waits for its value. -/
inductive Cursor (D : Type) where
  | array (es : List (YamlValue D))
  | element (es : List (YamlValue D)) (obj : YamlValue D)
  | waiting (es : List (YamlValue D)) (obj : YamlValue D) (key : Str)

/-- The elements at the end of the text. -/
def Cursor.elements : Cursor D → List (YamlValue D)
  | .array es => es
  | .element es obj => es ++ [obj]
  | .waiting es obj key => es ++ [obj.setObjectField key .null]

/-- A field of the element `obj`. -/
def Cursor.field (stod : Str → Option D) (es : List (YamlValue D)) (obj : YamlValue D)
    (l : FieldLine) : Cursor D :=
  if l.value.val = [] then .waiting es obj l.key.text
  else .element es (obj.setObjectField l.key.text (scalarValue stod l.value))

/-- One line; the array meets only lines with a dash. -/
def Cursor.step (stod : Str → Option D) : Cursor D → FieldLine → Cursor D
  | .array es, l => .field stod es .null l
  | .element es obj, l =>
      if l.dash then .field stod (es ++ [obj]) .null l else .field stod es obj l
  | .waiting es obj key, l =>
      -- `parse_scalar` takes the line as it stands, dash and key included
      .element es (obj.setObjectField key (scalarValue stod l.content))

/-- The state of the readers at a cursor. -/
def Cursor.state (K : Stack D) : Cursor D → State D
  | .array es => .running ⟨.array, 2, YamlValue.null.addElements es⟩ K
  | .element es obj =>
      .running ⟨.element, 2, obj⟩ ((⟨.array, 2, YamlValue.null.addElements es⟩, .element) :: K)
  | .waiting es obj key =>
      .running (.start .scalar 0) ((⟨.element, 2, obj⟩, .field key)
        :: (⟨.array, 2, YamlValue.null.addElements es⟩, .element) :: K)

/-- One element more at the end. -/
theorem YamlValue.addElements_concat (acc v : YamlValue D) (es : List (YamlValue D)) :
    (acc.addElements es).addArrayElement v = acc.addElements (es ++ [v]) := by
  simp [YamlValue.addElements]

/-- At the end of the text the readers return the elements. -/
theorem run_cursor_nil (stod : Str → Option D) (c : Cursor D) (K : Stack D) :
    run stod (c.state K) []
      = run stod (State.ret (YamlValue.null.addElements c.elements) K) [] := by
  cases c with
  | array es => exact run_running_nil
  | element es obj =>
      show some (unwind ((YamlValue.null.addElements es).addArrayElement obj) K) = _
      rw [YamlValue.addElements_concat]
      exact run_running_nil (f := ⟨.array, 2, _⟩)
  | waiting es obj key =>
      show some (unwind ((YamlValue.null.addElements es).addArrayElement
        (obj.setObjectField key .null)) K) = _
      rw [YamlValue.addElements_concat]
      exact run_running_nil (f := ⟨.array, 2, _⟩)

section Lines

variable (l : FieldLine)

/-- The first line of an element. -/
theorem FieldLine.text_of_dash (h : l.dash = true) :
    l.text = dashAt 2 (fieldText l.key l.value) := if_pos h

/-- The other lines of an element. -/
theorem FieldLine.text_of_not_dash (h : ¬ l.dash = true) :
    l.text = lineAt 4 (fieldText l.key l.value) := if_neg h

/-- Behind its indent stands its content. -/
theorem FieldLine.trim_text : trim l.text = l.content := by
  have h := fieldText_trimmed l.key l.value.property.1
  rw [FieldLine.text, FieldLine.content]
  split
  · exact trim_dashAt 2 h (fieldText_ne_nil _ _)
  · exact trim_lineAt 4 h

/-- No line of a field is passed over. -/
theorem FieldLine.isSkipped_text : isSkipped (trim l.text) = false := by
  rw [l.trim_text]
  rw [FieldLine.content]
  split
  · rfl
  · exact isSkipped_fieldText _ _

/-- Such a line can be written to a text and read back. -/
theorem FieldLine.writable : Writable l.text := by
  have h := no_newline_fieldText l.key l.value.property.2
  rw [FieldLine.text]
  split
  · exact writable_dashAt 2 h
  · exact writable_lineAt 4 (fieldText_ne_nil _ _) h

/-- No line of an entity is taken for an array below a field. -/
theorem FieldLine.not_nested {threshold : Nat} (h : 2 ≤ threshold) :
    ¬ (threshold < getIndent l.text ∧ isDash (trim l.text) = true) := by
  rintro ⟨hlt, hdash⟩
  rw [l.trim_text] at hdash
  rw [FieldLine.text] at hlt
  rw [FieldLine.content] at hdash
  by_cases hd : l.dash = true
  · rw [if_pos hd, getIndent_dashAt] at hlt
    omega
  · rw [if_neg hd, isDash_fieldText] at hdash
    cases hdash

end Lines

variable {stod : Str → Option D} {K : Stack D}

/-- A field of the element on top, as the automaton sees it. -/
theorem run_elementField_cursor (l : FieldLine) (ls : List FieldLine) {threshold : Nat}
    (hthreshold : 2 ≤ threshold) (es : List (YamlValue D)) (obj : YamlValue D) :
    run stod (elementField stod ⟨.element, 2, obj⟩
        ((⟨.array, 2, YamlValue.null.addElements es⟩, .element) :: K) threshold
        (ls.map FieldLine.text) l.key.text l.value) (ls.map FieldLine.text)
      = run stod ((Cursor.field stod es obj l).state K) (ls.map FieldLine.text) := by
  unfold Cursor.field elementField
  by_cases hv : l.value.val = []
  · rw [if_pos hv, if_pos hv]
    cases ls with
    | nil => rfl
    | cons m ms =>
        rw [List.map_cons]
        simp only
        rw [if_neg (m.not_nested hthreshold)]
        rfl
  · rw [if_neg hv, if_neg hv]
    rfl

/-- A dash closes the element before it. -/
theorem step_element_dash {l : FieldLine} (h : l.dash = true) (es : List (YamlValue D))
    (obj : YamlValue D) :
    (Cursor.element es obj).step stod l = .field stod (es ++ [obj]) .null l := if_pos h

/-- A line without a dash is the next field of the element. -/
theorem step_element_field {l : FieldLine} (h : ¬ l.dash = true)
    (es : List (YamlValue D)) (obj : YamlValue D) :
    (Cursor.element es obj).step stod l = .field stod es obj l := if_neg h

/-- **One line of the text is one step of the automaton.** -/
theorem run_cursor_cons (c : Cursor D) (l : FieldLine) (ls : List FieldLine)
    (hfirst : ∀ es, c = .array es → l.dash = true) :
    run stod (c.state K) (l.text :: ls.map FieldLine.text)
      = run stod ((c.step stod l).state K) (ls.map FieldLine.text) := by
  have htrim := l.value.property.1
  cases c with
  | array es =>
      have hdash := hfirst es rfl
      rw [l.text_of_dash hdash]
      show run stod (.running ⟨.array, 2, _⟩ K) _ = _
      rw [run_array_field htrim le_rfl]
      exact run_elementField_cursor l ls le_rfl es .null
  | element es obj =>
      by_cases hdash : l.dash = true
      -- the dash stands left of the fields, so the element ends before it
      · have hends : Ends 3 (l.text :: ls.map FieldLine.text) := by
          rw [l.text_of_dash hdash]
          exact ends_dashAt (fieldText_trimmed _ htrim) (fieldText_ne_nil _ _) (by omega) _
        rw [step_element_dash hdash]
        show run stod (.running ⟨.element, 2, obj⟩ _) _ = _
        rw [run_element_ends hends]
        show run stod (.running ⟨.array, 2, (YamlValue.null.addElements es).addArrayElement
          obj⟩ K) _ = _
        rw [YamlValue.addElements_concat, l.text_of_dash hdash, run_array_field htrim le_rfl]
        exact run_elementField_cursor l ls le_rfl (es ++ [obj]) .null
      · rw [step_element_field hdash, l.text_of_not_dash hdash]
        show run stod (.running ⟨.element, 2, obj⟩ _) _ = _
        rw [run_element_field htrim (by omega)]
        exact run_elementField_cursor l ls (by omega) es obj
  | waiting es obj key =>
      show run stod (.running (.start .scalar 0) _) _ = _
      -- whatever the line says, the waiting field takes it
      rw [run_reads l.isSkipped_text rfl, readLine_scalar, l.trim_text]
      rfl

/-- Behind a field the automaton is inside an element. -/
theorem field_ne_array (es es' : List (YamlValue D)) (obj : YamlValue D) (l : FieldLine) :
    Cursor.field stod es obj l ≠ .array es' := by
  rw [Cursor.field]
  by_cases hv : l.value.val = []
  · rw [if_pos hv]
    intro h
    cases h
  · rw [if_neg hv]
    intro h
    cases h

/-- Once an element has begun, the readers are in one. -/
theorem step_ne_array (c : Cursor D) (l : FieldLine) (es : List (YamlValue D)) :
    c.step stod l ≠ .array es := by
  cases c with
  | array es' => exact field_ne_array _ _ _ _
  | element es' obj =>
      by_cases hdash : l.dash = true
      · rw [step_element_dash hdash]
        exact field_ne_array _ _ _ _
      · rw [step_element_field hdash]
        exact field_ne_array _ _ _ _
  | waiting es' obj key =>
      intro h
      cases h

/-- **The readers are the automaton** on the lines of entities. -/
theorem run_cursor (c : Cursor D) (ls : List FieldLine)
    (hfirst : ∀ es, c = .array es → ∀ l ∈ ls.head?, l.dash = true) :
    run stod (c.state K) (ls.map FieldLine.text)
      = run stod (State.ret (YamlValue.null.addElements
          (ls.foldl (Cursor.step stod) c).elements) K) [] := by
  induction ls generalizing c with
  | nil => exact run_cursor_nil stod c K
  | cons l ls ih =>
      rw [List.map_cons, run_cursor_cons c l ls (fun es hc => hfirst es hc l rfl),
        List.foldl_cons]
      exact ih _ (fun es hc => absurd hc (step_ne_array c l es))

/-- The elements of the entities with these lines. -/
def elementsOf (stod : Str → Option D) (ls : List FieldLine) : List (YamlValue D) :=
  (ls.foldl (Cursor.step stod) (.array [])).elements

/-- Inside an element there is an element. -/
theorem elements_ne_nil (c : Cursor D) (hc : ∀ es, c ≠ .array es) : c.elements ≠ [] := by
  cases c with
  | array es => exact absurd rfl (hc es)
  | element es obj => exact List.concat_ne_nil obj es
  | waiting es obj key => exact List.concat_ne_nil _ es

/-- No line leads out of the elements. -/
theorem foldl_step_ne_array (ls : List FieldLine) (c : Cursor D)
    (hc : ∀ es, c ≠ .array es) (es : List (YamlValue D)) :
    ls.foldl (Cursor.step stod) c ≠ .array es := by
  induction ls generalizing c with
  | nil => exact hc es
  | cons l ls ih => exact ih _ (step_ne_array c l)

/-- Lines make elements. -/
theorem elementsOf_ne_nil {ls : List FieldLine} (h : ls ≠ []) :
    elementsOf stod ls ≠ [] := by
  obtain ⟨l, ls, rfl⟩ := List.exists_cons_of_ne_nil h
  exact elements_ne_nil _ (foldl_step_ne_array ls _ (step_ne_array _ l))

/-! ## Whole texts -/

/-- A list of entities begins with a dash. -/
theorem entityLines_cons (es : Block EntityBlock) :
    ∃ l ls, entityLines es.toList = l :: ls ∧ l.dash = true :=
  ⟨_, _, rfl, rfl⟩

/-- The text of a list of entities is parsed to the elements the automaton
    collects. -/
theorem parse_entitiesText (stod : Str → Option D) (es : Block EntityBlock) :
    parse stod (entitiesText es)
      = .ok (.ok (.object [("entities".toList,
          .array (elementsOf stod (entityLines es.toList)))])) := by
  obtain ⟨l, ls, hlines, hdash⟩ := entityLines_cons es
  have hwritable : ∀ t ∈ "entities:".toList :: (entityLines es.toList).map FieldLine.text,
      '\n' ∉ t := by
    intro t ht
    rcases List.mem_cons.mp ht with rfl | ht
    · decide
    · obtain ⟨m, -, rfl⟩ := List.mem_map.mp ht
      exact m.writable.2
  have hindent : getIndent l.text = 2 := by
    rw [l.text_of_dash hdash, getIndent_dashAt]
  have hisDash : isDash (trim l.text) = true := by
    rw [l.trim_text]
    rw [FieldLine.content]
    rw [if_pos hdash]
    rfl
  have hrun : runDocument stod
      ("entities:".toList :: (entityLines es.toList).map FieldLine.text)
        = some (.object [("entities".toList,
            .array (elementsOf stod (entityLines es.toList)))]) := by
    rw [runDocument]
    rw [hlines, List.map_cons,
      show "entities:".toList = lineAt 0 (fieldText entitiesKey []) from rfl, Frame.start,
      run_object_nested (Or.inl rfl) l.isSkipped_text (by rw [hindent]; omega),
      hisDash, hindent]
    refine (run_cursor (.array []) (l :: ls)
      (fun _ _ m hm => by rw [← Option.some.inj hm]; exact hdash)).trans ?_
    rw [show (l :: ls).foldl (Cursor.step stod) (.array [])
        = (entityLines es.toList).foldl (Cursor.step stod) (.array []) by rw [hlines],
      ← hlines]
    show run stod (State.ret (YamlValue.null.addElements
      (elementsOf stod (entityLines es.toList))) _) [] = _
    rw [YamlValue.addElements_null (elementsOf_ne_nil (by rw [hlines]; simp))]
    rfl
  rw [entitiesText]
  rw [parse_eq_runDocument, linesOf_unlines hwritable, hrun]

/-! ## Two lists of entities -/

/-- The fields without a value at the very end of a list of lines. -/
def emptyAtEnd (ls : List FieldLine) : Nat :=
  (ls.rtakeWhile (fun l => l.value.val = [])).length

/-- A field waits for its value. -/
def Cursor.isWaiting : Cursor D → Bool
  | .waiting _ _ _ => true
  | _ => false

/-- The automaton waits for a value exactly behind an empty field. -/
theorem isWaiting_field (es : List (YamlValue D)) (obj : YamlValue D) (l : FieldLine) :
    (Cursor.field stod es obj l).isWaiting = decide (l.value.val = []) := by
  rw [Cursor.field]
  by_cases hv : l.value.val = []
  · rw [if_pos hv, decide_eq_true hv]; rfl
  · rw [if_neg hv, decide_eq_false hv]; rfl

/-- A line makes a field wait if it has no value and is not one itself. -/
theorem isWaiting_step (c : Cursor D) (l : FieldLine) :
    (c.step stod l).isWaiting = (!c.isWaiting && decide (l.value.val = [])) := by
  cases c with
  | array es => exact isWaiting_field es .null l
  | element es obj =>
      by_cases hdash : l.dash = true
      · rw [step_element_dash hdash]
        exact isWaiting_field _ _ l
      · rw [step_element_field hdash]
        exact isWaiting_field _ _ l
  | waiting es obj key => rfl

/-- Empty fields at the end are counted from the last line on. -/
theorem emptyAtEnd_concat (ls : List FieldLine) (l : FieldLine) :
    emptyAtEnd (ls ++ [l]) = if l.value.val = [] then emptyAtEnd ls + 1 else 0 := by
  unfold emptyAtEnd
  rw [List.rtakeWhile_concat]
  by_cases hv : l.value.val = []
  · rw [if_pos (by simpa using hv), if_pos hv]
    simp
  · rw [if_neg (by simpa using hv), if_neg hv]
    rfl

/-- A list of lines leaves a field waiting exactly when an odd number of
    empty fields ends it. -/
theorem isWaiting_foldl (ls : List FieldLine) (es : List (YamlValue D)) :
    (ls.foldl (Cursor.step stod) (.array es)).isWaiting = decide (Odd (emptyAtEnd ls)) := by
  induction ls using List.reverseRecOn with
  | nil => rfl
  | append_singleton ls l ih =>
      -- the last line decides together with the rest in front of it
      rw [List.foldl_append, List.foldl_cons, List.foldl_nil, isWaiting_step, ih,
        emptyAtEnd_concat]
      by_cases hv : l.value.val = []
      · rw [if_pos hv, decide_eq_true hv, Bool.and_true, ← decide_not]
        exact decide_eq_decide.mpr Nat.odd_add_one.symm
      · rw [if_neg hv]
        simp [hv]

/-- More elements in front. -/
def Cursor.behind (before : List (YamlValue D)) : Cursor D → Cursor D
  | .array es => .array (before ++ es)
  | .element es obj => .element (before ++ es) obj
  | .waiting es obj key => .waiting (before ++ es) obj key

/-- What stands in front of a field stays in front of it. -/
theorem field_behind (before es : List (YamlValue D)) (obj : YamlValue D)
    (l : FieldLine) :
    Cursor.field stod (before ++ es) obj l = (Cursor.field stod es obj l).behind before := by
  unfold Cursor.field
  by_cases hv : l.value.val = []
  · rw [if_pos hv, if_pos hv]; rfl
  · rw [if_neg hv, if_neg hv]; rfl

/-- A step does not look at the elements in front. -/
theorem step_behind (before : List (YamlValue D)) (c : Cursor D) (l : FieldLine) :
    (c.behind before).step stod l = (c.step stod l).behind before := by
  cases c with
  | array es => exact field_behind before es .null l
  | element es obj =>
      show (Cursor.element (before ++ es) obj).step stod l = _
      by_cases hdash : l.dash = true
      · rw [step_element_dash hdash, step_element_dash hdash, List.append_assoc,
          field_behind]
      · rw [step_element_field hdash, step_element_field hdash, field_behind]
  | waiting es obj key => rfl

/-- Nor does a run. -/
theorem foldl_behind (before : List (YamlValue D)) (ls : List FieldLine) (c : Cursor D) :
    ls.foldl (Cursor.step stod) (c.behind before)
      = (ls.foldl (Cursor.step stod) c).behind before := by
  induction ls generalizing c with
  | nil => rfl
  | cons l ls ih => rw [List.foldl_cons, step_behind, ih, List.foldl_cons]

/-- They come first when all is collected. -/
theorem elements_behind (before : List (YamlValue D)) (c : Cursor D) :
    (c.behind before).elements = before ++ c.elements := by
  cases c with
  | array es => rfl
  | element es obj => exact List.append_assoc _ _ _
  | waiting es obj key => exact List.append_assoc _ _ _

/-- Where no field waits, the next dash begins a new element. -/
theorem elementsOf_append_of_not_waiting {ls : List FieldLine} {m : FieldLine}
    {ms : List FieldLine} (hdash : m.dash = true)
    (h : (ls.foldl (Cursor.step stod) (.array [])).isWaiting = false) :
    elementsOf stod (ls ++ m :: ms) = elementsOf stod ls ++ elementsOf stod (m :: ms) := by
  have hnext : ∀ c : Cursor D, c.isWaiting = false →
      c.step stod m = ((Cursor.array []).behind c.elements).step stod m := by
    intro c hc
    cases c with
    | array es =>
        show Cursor.field stod es .null m = Cursor.field stod (es ++ []) .null m
        rw [List.append_nil]
    | element es obj =>
        rw [step_element_dash hdash]
        show _ = Cursor.field stod ((es ++ [obj]) ++ []) .null m
        rw [List.append_nil]
    | waiting es obj key => cases hc
  unfold elementsOf
  rw [List.foldl_append, List.foldl_cons, hnext _ h, ← List.foldl_cons, foldl_behind,
    elements_behind]

/-- A field of `obj` that is not null. -/
def HasValue (obj : YamlValue D) (key : Str) : Prop :=
  ∃ v, obj.field? key = some v ∧ v ≠ .null

/-- A key that is set has a value. -/
theorem HasValue.set_self (obj : YamlValue D) (key : Str) {v : YamlValue D} (h : v ≠ .null) :
    HasValue (obj.setObjectField key v) key :=
  ⟨v, YamlValue.field?_setObjectField_self obj v key, h⟩

/-- Setting another key does not take it away. -/
theorem HasValue.set {obj : YamlValue D} {key : Str} (h : HasValue obj key) (k : Str)
    {v : YamlValue D} (hv : v ≠ .null) : HasValue (obj.setObjectField k v) key := by
  by_cases hk : key = k
  · subst hk
    exact HasValue.set_self obj key hv
  · obtain ⟨w, hw, hne⟩ := h
    exact ⟨w, (YamlValue.field?_setObjectField_ne obj v hk).trans hw, hne⟩

/-- The element behind `es` is open and has a value at `key`, or is complete
    and has one. -/
def Cursor.Keeps (es : List (YamlValue D)) (key : Str) (c : Cursor D) : Prop :=
  match c with
  | .array es' => ∃ o, es'[es.length]? = some o ∧ HasValue o key
  | .element es' obj | .waiting es' obj _ =>
      (es' = es ∧ HasValue obj key) ∨ ∃ o, es'[es.length]? = some o ∧ HasValue o key

/-- A field keeps the value that is there. -/
theorem Cursor.Keeps.field {es es' : List (YamlValue D)} {key : Str} {obj : YamlValue D}
    (h : (es' = es ∧ HasValue obj key) ∨ ∃ o, es'[es.length]? = some o ∧ HasValue o key)
    (l : FieldLine) : (Cursor.field stod es' obj l).Keeps es key := by
  rw [Cursor.field]
  by_cases hv : l.value.val = []
  · rw [if_pos hv]
    exact h
  · rw [if_neg hv]
    rcases h with ⟨heq, hobj⟩ | hdone
    · exact Or.inl ⟨heq, hobj.set _ (scalarValue_ne_null stod _)⟩
    · exact Or.inr hdone

/-- Elements in front stay where they are. -/
theorem getElem?_concat_of_some {es : List (YamlValue D)} {n : Nat} {o : YamlValue D}
    (h : es[n]? = some o) (obj : YamlValue D) : (es ++ [obj])[n]? = some o := by
  obtain ⟨hlt, -⟩ := List.getElem?_eq_some_iff.mp h
  rw [List.getElem?_append_left hlt, h]

/-- A step keeps it. -/
theorem Cursor.Keeps.step {es : List (YamlValue D)} {key : Str} {c : Cursor D}
    (h : c.Keeps es key) (l : FieldLine) : (c.step stod l).Keeps es key := by
  cases c with
  | array es' => exact Cursor.Keeps.field (Or.inr h) l
  | element es' obj =>
      by_cases hdash : l.dash = true
      · rw [step_element_dash hdash]
        refine Cursor.Keeps.field (Or.inr ?_) l
        rcases h with ⟨rfl, hobj⟩ | ⟨o, ho, hval⟩
        · exact ⟨obj, by simp, hobj⟩
        · exact ⟨o, getElem?_concat_of_some ho obj, hval⟩
      · rw [step_element_field hdash]
        exact Cursor.Keeps.field h l
  | waiting es' obj k =>
      rcases h with ⟨heq, hobj⟩ | hdone
      · exact Or.inl ⟨heq, hobj.set _ (scalarValue_ne_null stod _)⟩
      · exact Or.inr hdone

/-- A run keeps it. -/
theorem Cursor.Keeps.foldl {es : List (YamlValue D)} {key : Str} (ls : List FieldLine)
    {c : Cursor D} (h : c.Keeps es key) :
    (ls.foldl (Cursor.step stod) c).Keeps es key := by
  induction ls generalizing c with
  | nil => exact h
  | cons l ls ih => exact ih (Cursor.Keeps.step h l)

/-- At the end the element is the last one, or it still has its value. -/
theorem Cursor.Keeps.elements {es : List (YamlValue D)} {key : Str} {c : Cursor D}
    (h : c.Keeps es key) :
    c.elements.length = es.length + 1
      ∨ ∃ o, c.elements[es.length]? = some o ∧ HasValue o key := by
  cases c with
  | array es' => exact Or.inr h
  | element es' obj =>
      rcases h with ⟨rfl, -⟩ | ⟨o, ho, hval⟩
      · exact Or.inl (by simp [Cursor.elements])
      · exact Or.inr ⟨o, getElem?_concat_of_some ho _, hval⟩
  | waiting es' obj k =>
      rcases h with ⟨rfl, -⟩ | ⟨o, ho, hval⟩
      · exact Or.inl (by simp [Cursor.elements])
      · exact Or.inr ⟨o, getElem?_concat_of_some ho _, hval⟩

/-- A field that waits takes the next line, and the two lists bleed into each
    other. -/
theorem elementsOf_append_of_waiting {ls : List FieldLine} (m : FieldLine)
    (ms : List FieldLine)
    (h : (ls.foldl (Cursor.step stod) (.array [])).isWaiting = true) :
    elementsOf stod (ls ++ m :: ms) ≠ elementsOf stod ls ++ elementsOf stod (m :: ms) := by
  unfold elementsOf at *
  rw [List.foldl_append, List.foldl_cons]
  cases hc : ls.foldl (Cursor.step stod) (Cursor.array []) with
  | array es => rw [hc] at h; cases h
  | element es obj => rw [hc] at h; cases h
  | waiting es obj key =>
      intro heq
      -- the element at index `es.length` keeps the value the line gave it, but the
      -- first list alone leaves null there
      have hkeeps : ((Cursor.waiting es obj key).step stod m).Keeps es key :=
        Or.inl ⟨rfl, HasValue.set_self _ _ (scalarValue_ne_null stod _)⟩
      have hnext : elementsOf stod (m :: ms) ≠ [] := elementsOf_ne_nil (by simp)
      rcases Cursor.Keeps.elements (Cursor.Keeps.foldl ms hkeeps) with hlen | ⟨o, ho, v, hv, hne⟩
      · have hpos := List.length_pos_of_ne_nil hnext
        rw [elementsOf] at hpos
        rw [heq, List.length_append, show (Cursor.waiting es obj key).elements
          = es ++ [obj.setObjectField key .null] from rfl, List.length_append,
          List.length_singleton] at hlen
        omega
      · rw [heq, Cursor.elements, List.append_assoc,
          List.getElem?_append_right (le_refl _)] at ho
        have hobj : obj.setObjectField key .null = o := by simpa using ho
        rw [← hobj, YamlValue.field?_setObjectField_self] at hv
        exact hne (Option.some.inj hv).symm

/-- **When two lists read like one**: exactly if an even number of empty fields
    stands at the end of the first. -/
theorem elementsOf_append_iff {ls : List FieldLine} {m : FieldLine} (ms : List FieldLine)
    (hdash : m.dash = true) :
    elementsOf stod (ls ++ m :: ms) = elementsOf stod ls ++ elementsOf stod (m :: ms)
      ↔ Even (emptyAtEnd ls) := by
  have hwaiting : (ls.foldl (Cursor.step stod) (.array [])).isWaiting
      = decide (Odd (emptyAtEnd ls)) := isWaiting_foldl ls []
  rw [← Nat.not_odd_iff_even]
  by_cases hodd : Odd (emptyAtEnd ls)
  · rw [decide_eq_true hodd] at hwaiting
    exact iff_of_false (elementsOf_append_of_waiting m ms hwaiting) (fun h => h hodd)
  · rw [decide_eq_false hodd] at hwaiting
    exact iff_of_true (elementsOf_append_of_not_waiting hdash hwaiting) hodd

/-- Two lists of entities, one behind the other. -/
def Block.append {α : Type} (b c : Block α) : Block α := ⟨b.first, b.others ++ c.toList⟩

/-- **Entities stay apart** exactly when an even number of empty fields ends
    the first list. -/
theorem parse_entities_append_iff (stod : Str → Option D) (es₁ es₂ : Block EntityBlock) :
    ∃ a₁ a₂ a : List (YamlValue D),
      parse stod (entitiesText es₁) = .ok (.ok (.object [("entities".toList, .array a₁)]))
      ∧ parse stod (entitiesText es₂) = .ok (.ok (.object [("entities".toList, .array a₂)]))
      ∧ parse stod (entitiesText (es₁.append es₂))
          = .ok (.ok (.object [("entities".toList, .array a)]))
      ∧ (a = a₁ ++ a₂ ↔ Even (emptyAtEnd (entityLines es₁.toList))) := by
  refine ⟨_, _, _, parse_entitiesText stod es₁, parse_entitiesText stod es₂,
    parse_entitiesText stod (es₁.append es₂), ?_⟩
  obtain ⟨m, ms, hlines, hdash⟩ := entityLines_cons es₂
  have happend : entityLines (es₁.append es₂).toList
      = entityLines es₁.toList ++ m :: ms := by
    rw [← hlines]
    show (es₁.toList ++ es₂.toList).flatMap EntityBlock.lines = _
    exact List.flatMap_append
  rw [happend, hlines]
  exact elementsOf_append_iff ms hdash

/-- An entity with the one field `k`. -/
def oneField (value : InlineValue) : Block EntityBlock :=
  ⟨⟨(.ofText "k".toList (by decide), value), []⟩, []⟩

/-- An empty field at the end of the first list swallows the second one. -/
theorem parse_entities_empty_field :
    ∃ a₁ a₂ : List (YamlValue Nat),
      parse (fun _ => none) (entitiesText (oneField ⟨[], by decide⟩))
        = .ok (.ok (.object [("entities".toList, .array a₁)]))
      ∧ parse (fun _ => none) (entitiesText (oneField ⟨"x".toList, by decide⟩))
        = .ok (.ok (.object [("entities".toList, .array a₂)]))
      ∧ parse (fun _ => none) (entitiesText
          ((oneField ⟨[], by decide⟩).append (oneField ⟨"x".toList, by decide⟩)))
        ≠ .ok (.ok (.object [("entities".toList, .array (a₁ ++ a₂))])) := by
  refine ⟨_, _, parse_entitiesText _ _, parse_entitiesText _ _, fun h => ?_⟩
  rw [parse_entitiesText] at h
  have heq := YamlValue.array.inj (Prod.mk.inj (List.cons.inj (YamlValue.object.inj
    (Except.ok.inj (Except.ok.inj h)))).1).2
  exact absurd (congrArg List.length heq) (by decide)

end LaunchCpp.Yaml
