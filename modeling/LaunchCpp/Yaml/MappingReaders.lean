import LaunchCpp.Yaml.Reading
import LaunchCpp.Yaml.Document

/-! # The two mapping readers

    A mapping is read by `parse_object` where it is a document and by
    `parse_array_element_object` where it is an element of an array.  Run on
    the same block of fields, once by itself and once behind a dash, the two
    go through the same states line by line, up to the column, if and only if
    each line THEY read is one both know: a scalar, or a key with a deeper `-`
    right below it (`known_iff_inStepAlong`).  The readers of nested sequences
    are the same functions in both cases.  The main result is `readers_agree`. -/

namespace LaunchCpp.Yaml

open OrderedMaps StringStreams

/-! ## Blocks of fields -/

/-- A line of a block: how far it is indented in the block, and what it says. -/
structure BlockLine where
  offset : Nat
  content : Str
  trimmed : Trimmed content
  counts : isSkipped content = false
  no_newline : '\n' ∉ content

/-- The line in a block at column `n`. -/
def BlockLine.at (n : Nat) (l : BlockLine) : Str := lineAt (n + l.offset) l.content

/-- What can stand behind a key: a scalar, or an inline array. -/
abbrev InlineText := { t : Str // t ≠ [] ∧ Trimmed t ∧ '\n' ∉ t }

/-- The value of a field: behind the key, or in a deeper block below it. -/
inductive FieldBody where
  | inline (text : InlineText)
  | nested (lines : Block { l : BlockLine // 0 < l.offset })

def FieldBody.text : FieldBody → Str
  | .inline text => text.val
  | .nested _ => []

def FieldBody.below : FieldBody → List BlockLine
  | .inline _ => []
  | .nested lines => lines.toList.map Subtype.val

/-- What stands behind a key has no blanks at its ends. -/
theorem FieldBody.text_trimmed (v : FieldBody) : Trimmed v.text := by
  cases v with
  | inline text => exact text.property.2.1
  | nested lines => exact trimmed_nil

/-- It stays on its line. -/
theorem FieldBody.text_no_newline (v : FieldBody) : '\n' ∉ v.text := by
  cases v with
  | inline text => exact text.property.2.2
  | nested lines => exact List.not_mem_nil

/-- The line of a key. -/
def keyLine (f : Key × FieldBody) : BlockLine where
  offset := 0
  content := fieldText f.1 f.2.text
  trimmed := fieldText_trimmed f.1 f.2.text_trimmed
  counts := isSkipped_fieldText f.1 f.2.text
  no_newline := no_newline_fieldText f.1 f.2.text_no_newline

/-- A block of fields `key: value` at one column. -/
abbrev MappingBlock := Block (Key × FieldBody)

/-- The lines behind the first one. -/
def MappingBlock.rest (b : MappingBlock) : List BlockLine :=
  b.first.2.below ++ b.others.flatMap (fun f => keyLine f :: f.2.below)

/-- The block as a document. -/
def MappingBlock.objectText (b : MappingBlock) (n : Nat) : Str :=
  unlines ((keyLine b.first :: b.rest).map (BlockLine.at n))

/-- The block as the element of an array under a key: the first line behind a
    dash at column `c`, the other ones at column `m`. -/
def MappingBlock.elementText (b : MappingBlock) (key : Key) (c m : Nat) : Str :=
  unlines (lineAt 0 (fieldText key []) :: dashAt c (keyLine b.first).content
    :: b.rest.map (BlockLine.at m))

/-! ## Lines that both readers know -/

section Alike

variable {D : Type}

/-- The line comes to the outermost reader. -/
def comesToOwner (line : Str) : Frame D → Stack D → Bool
  | _, [] => true
  | f, (g, _) :: K => f.leaves line && comesToOwner line g K

/-- A line both mapping readers treat alike: no dash; a value that is no inline
    array; and for a key without a value nothing more, or a deeper dash on the
    next line. -/
def knownLine (line : Str) (rest : List Str) : Bool :=
  !isDash (trim line) &&
    match keyValue (trim line) with
    | none => true
    | some (_, value) =>
        if value = [] then
          rest.head?.all (fun next => getIndent line < getIndent next && isDash (trim next))
        else value.head? ≠ some '['

variable (stod : Str → Option D)

/-- Along a run, every line that comes to the outermost reader is a known one. -/
def knownLines : State D → List Str → Bool
  | .running f K, line :: rest =>
      (!comesToOwner line f K || knownLine line rest)
        && knownLines (dispatch stod line rest f K) rest
  | _, _ => true

/-- The lines of the block that `parse_object` itself reads are known ones. -/
def MappingBlock.Known (b : MappingBlock) (n : Nat) : Prop :=
  knownLines stod (.running (.start .object 0) [])
    ((keyLine b.first :: b.rest).map (BlockLine.at n)) = true

end Alike

/-! ## One line -/

section Lines

variable (n : Nat) (l : BlockLine)

/-- Behind its indent stands its content. -/
theorem BlockLine.trim_at : trim (l.at n) = l.content := trim_lineAt _ l.trimmed

/-- Its indent is that of the block and its own. -/
theorem BlockLine.getIndent_at : getIndent (l.at n) = n + l.offset :=
  getIndent_lineAt _ l.trimmed

/-- It is not passed over. -/
theorem BlockLine.isSkipped_at : isSkipped (trim (l.at n)) = false := by
  rw [l.trim_at, l.counts]

/-- A line is its indent and its content. -/
theorem BlockLine.length_at : (l.at n).length = n + l.offset + l.content.length :=
  length_lineAt _ _

/-- There is something on it. -/
theorem BlockLine.content_ne_nil : l.content ≠ [] := by
  intro h
  have hcounts := l.counts
  rw [h] at hcounts
  cases hcounts

end Lines

/-- An inline array is no scalar, whatever else it is. -/
theorem inlineElements_ne_scalarValue {D : Type} (stod : Str → Option D) (s rest : Str)
    {arr : YamlValue D} (h : arr ≠ scalarValue stod s) :
    inlineElements stod rest arr ≠ scalarValue stod s := by
  induction rest, arr using inlineElements.induct stod with
  | case1 rest arr stop hstop elem ih =>
      rw [inlineElements]
      refine ne_of_eq_of_ne (dif_pos hstop) (ih ?_)
      by_cases helem : elem = []
      · rw [dif_pos helem]
        exact h
      · rw [dif_neg helem]
        intro heq
        have harray := array?_scalarValue stod s
        rw [← heq] at harray
        cases arr <;> cases harray
  | case2 rest arr stop hstop =>
      rw [inlineElements]
      exact ne_of_eq_of_ne (dif_neg hstop) h

/-- An inline array is never what `parse_scalar` makes of a text. -/
theorem inlineArray_ne_scalarValue {D : Type} (stod : Str → Option D) (value s : Str) :
    inlineArray stod value ≠ scalarValue stod s :=
  inlineElements_ne_scalarValue stod s _ (scalarValue_ne_null stod s).symm

/-! ## Two runs in step -/

section Simulation

variable {D : Type} {n m c : Nat} {L : Stack D}

/-- Calls of a nested reader at two columns. -/
inductive SameCall (n m : Nat) : Frame D → Frame D → Prop
  | reader (r : Reader) (hr : r ≠ .object) (base : Nat) (acc : YamlValue D) :
      SameCall n m ⟨r, n + base, acc⟩ ⟨r, m + base, acc⟩
  | scalar (acc : YamlValue D) : SameCall n m ⟨.scalar, 0, acc⟩ ⟨.scalar, 0, acc⟩

/-- The same calls over the two mapping readers, which have collected the same. -/
inductive InStep (n m c : Nat) (L : Stack D) : Frame D → Stack D → Frame D → Stack D → Prop
  | owner (acc : YamlValue D) :
      InStep n m c L ⟨.object, 0, acc⟩ [] ⟨.element, c, acc⟩ L
  | nested {f₁ f₂ g₁ g₂ : Frame D} {K₁ K₂ : Stack D} (slot : Slot) :
      SameCall n m f₁ f₂ → InStep n m c L g₁ K₁ g₂ K₂ →
      InStep n m c L f₁ ((g₁, slot) :: K₁) f₂ ((g₂, slot) :: K₂)

/-- States in step. -/
inductive StatesInStep (n m c : Nat) (L : Stack D) : State D → State D → Prop
  | running {f₁ f₂ : Frame D} {K₁ K₂ : Stack D} : InStep n m c L f₁ K₁ f₂ K₂ →
      StatesInStep n m c L (.running f₁ K₁) (.running f₂ K₂)

/-- Two readers that agree get the same value. -/
theorem SameCall.put {f₁ f₂ : Frame D} (h : SameCall n m f₁ f₂) (slot : Slot)
    (v : YamlValue D) : SameCall n m (f₁.put slot v) (f₂.put slot v) := by
  cases h with
  | reader r hr base acc => exact SameCall.reader r hr base _
  | scalar acc => exact SameCall.scalar _

/-- Readers that agree have read the same. -/
theorem SameCall.acc_eq {f₁ f₂ : Frame D} (h : SameCall n m f₁ f₂) : f₁.acc = f₂.acc := by
  cases h <;> rfl

/-- Stacks stay in step when a value is put into both. -/
theorem InStep.put {f₁ f₂ : Frame D} {K₁ K₂ : Stack D} (h : InStep n m c L f₁ K₁ f₂ K₂)
    (slot : Slot) (v : YamlValue D) :
    InStep n m c L (f₁.put slot v) K₁ (f₂.put slot v) K₂ := by
  cases h with
  | owner acc => exact InStep.owner _
  | nested slot' hcall hbelow => exact InStep.nested slot' (hcall.put slot v) hbelow

/-- Values that go up both stacks come to the same. -/
theorem InStep.unwind_put {f₁ f₂ : Frame D} {K₁ K₂ : Stack D}
    (h : InStep n m c L f₁ K₁ f₂ K₂) (slot : Slot) (v : YamlValue D) :
    unwind (f₂.put slot v).acc K₂ = unwind (unwind (f₁.put slot v).acc K₁) L := by
  induction h generalizing slot v with
  | owner acc => rfl
  | nested slot' hcall hbelow ih =>
      rw [← (hcall.put slot v).acc_eq]
      exact ih slot' _

/-- At the end of the text both runs return the same to the owner. -/
theorem InStep.unwind_eq {f₁ f₂ : Frame D} {K₁ K₂ : Stack D}
    (h : InStep n m c L f₁ K₁ f₂ K₂) : unwind f₂.acc K₂ = unwind (unwind f₁.acc K₁) L :=
  h.unwind_put .dropped .null

/-- Below everything the element reader has called there is that reader. -/
theorem InStep.element_below {f₁ f₂ : Frame D} {K₁ K₂ : Stack D}
    (h : InStep n m c L f₁ K₁ f₂ K₂) :
    (K₂ = L ∧ f₂.reader = .element)
      ∨ ∃ P g slot, K₂ = P ++ (g, slot) :: L ∧ g.reader = .element := by
  induction h with
  | owner acc => exact Or.inl ⟨rfl, rfl⟩
  | @nested _ _ _ g _ _ slot hcall hbelow ih =>
      rcases ih with ⟨rfl, hg⟩ | ⟨P, g', slot', rfl, hg'⟩
      · exact Or.inr ⟨[], g, slot, rfl, hg⟩
      · exact Or.inr ⟨(g, slot) :: P, g', slot', rfl, hg'⟩

/-- One stack lies on top of the readers below the element. -/
theorem InStep.length_eq {f₁ f₂ : Frame D} {K₁ K₂ : Stack D}
    (h : InStep n m c L f₁ K₁ f₂ K₂) : K₂.length = K₁.length + L.length := by
  induction h with
  | owner acc => simp
  | nested slot hcall hbelow ih =>
      rw [List.length_cons, List.length_cons, ih]
      omega

/-- Readers in step have read the same. -/
theorem StatesInStep.acc_eq {f₁ f₂ : Frame D} {K₁ K₂ : Stack D}
    (h : StatesInStep n m c L (.running f₁ K₁) (.running f₂ K₂)) : f₁.acc = f₂.acc := by
  cases h with
  | running h =>
      cases h with
      | owner acc => rfl
      | nested slot hcall hbelow => exact hcall.acc_eq

/-- A scalar is in step with scalars only. -/
theorem StatesInStep.scalar_left {f₁ f₂ : Frame D} {K₁ K₂ : Stack D}
    (h : StatesInStep n m c L (.running f₁ K₁) (.running f₂ K₂)) (hf : f₂.reader = .scalar) :
    f₁.reader = .scalar := by
  cases h with
  | running h =>
      cases h with
      | owner acc => cases hf
      | nested slot hcall hbelow =>
          cases hcall with
          | reader r hr base acc => exact hf
          | scalar acc => rfl

/-- While the object reader reads itself, the element reader has called nothing. -/
theorem StatesInStep.not_called {f₁ f₂ : Frame D} {call : Frame D × Slot}
    (h : StatesInStep n m c L (.running f₁ []) (.running f₂ (call :: L))) : False := by
  cases h with
  | running h =>
      have hlength := h.length_eq
      simp only [List.length_cons, List.length_nil] at hlength
      omega

/-- Over a closed element reader nothing is in step. -/
theorem StatesInStep.not_closed {s : State D} {f₂ : Frame D} {P : Stack D} {base : Nat}
    {acc : YamlValue D} {slot : Slot}
    (h : StatesInStep n m c L s (.running f₂ (P ++ (⟨.closed, base, acc⟩, slot) :: L))) :
    False := by
  cases h with
  | running h =>
      rcases h.element_below with ⟨hL, -⟩ | ⟨P', g, slot', hK, hg⟩
      · have hlength := congrArg List.length hL
        simp only [List.length_append, List.length_cons] at hlength
        omega
      · obtain ⟨rfl, -⟩ := Prod.mk.inj (List.cons.inj (List.append_inj' hK rfl).2).1
        cases hg

/-- Returns from both stay in step. -/
theorem StatesInStep.ret {g₁ g₂ : Frame D} {K₁ K₂ : Stack D} (slot : Slot)
    (h : InStep n m c L g₁ K₁ g₂ K₂) (v : YamlValue D) :
    StatesInStep n m c L (State.ret v ((g₁, slot) :: K₁)) (State.ret v ((g₂, slot) :: K₂)) :=
  StatesInStep.running (h.put slot v)

variable {stod : Str → Option D} {f₁ f₂ : Frame D} {K₁ K₂ : Stack D}

/-- A field of a nested element. -/
theorem elementField_inStep (h : InStep n m c L f₁ K₁ f₂ K₂) (t : Nat)
    (rest : List BlockLine) (key value : Str) :
    StatesInStep n m c L
      (elementField stod f₁ K₁ (n + t) (rest.map (BlockLine.at n)) key value)
      (elementField stod f₂ K₂ (m + t) (rest.map (BlockLine.at m)) key value) := by
  unfold elementField
  by_cases hvalue : value = []
  · rw [if_pos hvalue, if_pos hvalue]
    cases rest with
    | nil => exact StatesInStep.running (h.put _ _)
    | cons next rest =>
        simp only [List.map_cons, BlockLine.trim_at, BlockLine.getIndent_at]
        by_cases harray : t < next.offset ∧ isDash next.content = true
        · rw [if_pos ⟨by omega, harray.2⟩, if_pos ⟨by omega, harray.2⟩]
          exact StatesInStep.running
            (InStep.nested _ (SameCall.reader .array (by decide) next.offset .null) h)
        · rw [if_neg (fun hc => harray ⟨by omega, hc.2⟩),
            if_neg (fun hc => harray ⟨by omega, hc.2⟩)]
          exact StatesInStep.running (InStep.nested _ (SameCall.scalar .null) h)
  · rw [if_neg hvalue, if_neg hvalue]
    exact StatesInStep.running (h.put _ _)

/-- A line of a nested array. -/
theorem arrayLine_inStep {base : Nat} {acc : YamlValue D}
    (h : InStep n m c L ⟨.array, n + base, acc⟩ K₁ ⟨.array, m + base, acc⟩ K₂)
    (l : BlockLine) (rest : List BlockLine) :
    StatesInStep n m c L
      (arrayLine stod ⟨.array, n + base, acc⟩ K₁ (l.at n) (rest.map (BlockLine.at n)))
      (arrayLine stod ⟨.array, m + base, acc⟩ K₂ (l.at m) (rest.map (BlockLine.at m))) := by
  unfold arrayLine
  simp only [BlockLine.trim_at]
  split
  · split
    · exact StatesInStep.running (InStep.nested _ (SameCall.scalar .null) h)
    · cases keyValue (trim l.content.tail) with
      | none => exact StatesInStep.running (h.put _ _)
      | some field =>
          exact elementField_inStep
            (InStep.nested _ (SameCall.reader .element (by decide) base .null) h) base rest _ _
  · exact StatesInStep.running h

/-- A line of a nested element. -/
theorem elementLine_inStep {base : Nat} {acc : YamlValue D} {g₁ g₂ : Frame D} {slot : Slot}
    (h : InStep n m c L g₁ K₁ g₂ K₂) (l : BlockLine) (rest : List BlockLine)
    (hkeep : base < l.offset) :
    StatesInStep n m c L
      (elementLine stod ⟨.element, n + base, acc⟩ ((g₁, slot) :: K₁) (l.at n)
        (rest.map (BlockLine.at n)))
      (elementLine stod ⟨.element, m + base, acc⟩ ((g₂, slot) :: K₂) (l.at m)
        (rest.map (BlockLine.at m))) := by
  have hlength := List.length_pos_of_ne_nil l.content_ne_nil
  unfold elementLine
  simp only [BlockLine.trim_at, BlockLine.getIndent_at, BlockLine.length_at]
  have hcall : SameCall n m ⟨.element, n + base, acc⟩ ⟨.element, m + base, acc⟩ :=
    SameCall.reader .element (by decide) base acc
  have hlong₁ : ¬ n + l.offset + l.content.length < n + base + 2 := by omega
  have hlong₂ : ¬ m + l.offset + l.content.length < m + base + 2 := by omega
  rw [if_neg hlong₁, if_neg hlong₂]
  split
  · exact arrayLine_inStep (InStep.nested _ (SameCall.reader .array (by decide) _ _)
      (InStep.nested slot (SameCall.reader .closed (by decide) base acc) h)) l rest
  · cases keyValue l.content with
    | none => exact StatesInStep.running (InStep.nested slot hcall h)
    | some field => exact elementField_inStep (InStep.nested slot hcall h) _ rest _ _

/-- A line ends both readers, or neither. -/
theorem SameCall.leaves_eq (h : SameCall n m f₁ f₂) (l : BlockLine) :
    f₁.leaves (l.at n) = f₂.leaves (l.at m) := by
  cases h with
  | scalar acc => rfl
  | reader r hr base acc =>
      unfold Frame.leaves
      simp only [BlockLine.getIndent_at]
      cases r with
      | object => exact absurd rfl hr
      | array => exact decide_eq_decide.mpr (by omega)
      | element => exact decide_eq_decide.mpr (by omega)
      | closed => rfl
      | scalar => rfl

/-- A line of a nested reader. -/
theorem readLine_inStep {g₁ g₂ : Frame D} {slot : Slot} (hcall : SameCall n m f₁ f₂)
    (h : InStep n m c L g₁ K₁ g₂ K₂) (l : BlockLine) (rest : List BlockLine)
    (hkeep : f₁.leaves (l.at n) = false) :
    StatesInStep n m c L
      (readLine stod f₁ ((g₁, slot) :: K₁) (l.at n) (rest.map (BlockLine.at n)))
      (readLine stod f₂ ((g₂, slot) :: K₂) (l.at m) (rest.map (BlockLine.at m))) := by
  cases hcall with
  | scalar acc =>
      unfold readLine
      simp only [BlockLine.trim_at]
      exact StatesInStep.ret slot h _
  | reader r hr base acc =>
      unfold readLine
      cases r with
      | object => exact absurd rfl hr
      | array => exact arrayLine_inStep (InStep.nested slot (SameCall.reader _ hr base acc) h) l rest
      | element =>
          refine elementLine_inStep h l rest ?_
          have hlt : ¬ getIndent (l.at n) ≤ n + base := of_decide_eq_false hkeep
          rw [BlockLine.getIndent_at] at hlt
          omega
      | closed => exact StatesInStep.ret slot h _
      | scalar =>
          simp only [BlockLine.trim_at]
          exact StatesInStep.ret slot h _

/-! ### The lines the two mapping readers read themselves -/

/-- **A field of the mapping itself.**  The object reader looks for the next
    line that counts and compares it with the line of the key, the element
    reader looks at the next line and compares it with `threshold`. -/
theorem ownerField_inStep_iff (acc : YamlValue D) {l : BlockLine} {rest : List BlockLine}
    {key value : Str} {threshold : Nat} (hfield : keyValue l.content = some (key, value))
    (hdash : isDash l.content = false)
    (hthreshold : ∀ d, l.offset < d → threshold < m + d) :
    StatesInStep n m c L
        (objectLine stod ⟨.object, 0, acc⟩ [] (l.at n) (rest.map (BlockLine.at n)))
        (elementField stod ⟨.element, c, acc⟩ L threshold (rest.map (BlockLine.at m))
          key value)
      ↔ knownLine (l.at n) (rest.map (BlockLine.at n)) = true := by
  simp only [objectLine, elementField, knownLine, BlockLine.trim_at, BlockLine.getIndent_at,
    hfield, hdash, Bool.not_false, Bool.true_and]
  by_cases hnil : value = []
  · simp only [if_pos hnil]
    cases rest with
    | nil => exact iff_of_true (StatesInStep.running (InStep.owner _)) rfl
    | cons next rest =>
        simp only [List.map_cons, List.find?_cons, next.counts, Bool.not_false,
          List.head?_cons, Option.all_some, BlockLine.trim_at, BlockLine.getIndent_at,
          Bool.and_eq_true, decide_eq_true_iff]
        by_cases hdeeper : n + l.offset < n + next.offset
        · have hbelow := hthreshold next.offset (by omega)
          rw [if_pos hdeeper]
          by_cases harray : isDash next.content = true
          · rw [if_pos harray, if_pos ⟨hbelow, harray⟩]
            exact iff_of_true (StatesInStep.running (InStep.nested _
              (SameCall.reader .array (by decide) next.offset .null) (InStep.owner acc)))
              ⟨hdeeper, harray⟩
          · -- a nested mapping is a scalar for the element reader
            rw [if_neg harray, if_neg (fun h => harray h.2)]
            exact iff_of_false (fun h => Reader.noConfusion (h.scalar_left rfl)) (fun h => harray h.2)
        · -- so is the next field, where the object reader takes nothing
          rw [if_neg hdeeper]
          refine iff_of_false (fun h => ?_) (fun h => hdeeper h.1)
          split at h
          · exact h.not_called
          · exact h.not_called
  · simp only [if_neg hnil]
    by_cases hbracket : value.head? = some '['
    · rw [if_pos hbracket]
      refine iff_of_false (fun h => ?_) (fun h => of_decide_eq_true h hbracket)
      have hfields := congrArg (fun v => v.field? key) h.acc_eq
      refine absurd ?_ (inlineArray_ne_scalarValue stod value value)
      simpa [Frame.put, Slot.put, YamlValue.field?_setObjectField_self] using hfields
    · rw [if_neg hbracket]
      exact iff_of_true (StatesInStep.running (InStep.owner _)) (decide_eq_true hbracket)

/-- The outermost object reader never ends before a line. -/
theorem readLine_object_zero (acc : YamlValue D) (K : Stack D) (line : Str)
    (rest : List Str) :
    readLine stod ⟨.object, 0, acc⟩ K line rest
      = objectLine stod ⟨.object, 0, acc⟩ K line rest := by
  show (if getIndent line < 0 ∧ 0 < 0 then State.ret acc K
    else objectLine stod ⟨.object, 0, acc⟩ K line rest) = _
  exact if_neg (fun h => Nat.lt_irrefl 0 h.2)

/-- **A line that comes to the mapping readers** leaves them in step if and only
    if it is a known one. -/
theorem owner_inStep_iff (hc : c < m) (acc : YamlValue D) (l : BlockLine)
    (rest : List BlockLine) :
    StatesInStep n m c L
        (readLine stod ⟨.object, 0, acc⟩ [] (l.at n) (rest.map (BlockLine.at n)))
        (readLine stod ⟨.element, c, acc⟩ L (l.at m) (rest.map (BlockLine.at m)))
      ↔ knownLine (l.at n) (rest.map (BlockLine.at n)) = true := by
  have hlength := List.length_pos_of_ne_nil l.content_ne_nil
  have hlong : ¬ m + l.offset + l.content.length < c + 2 := by omega
  rw [readLine_object_zero]
  change StatesInStep n m c L _ (elementLine stod ⟨.element, c, acc⟩ L _ _) ↔ _
  simp only [elementLine, BlockLine.trim_at, BlockLine.getIndent_at, BlockLine.length_at,
    if_neg hlong]
  cases hdash : isDash l.content with
  | true =>
      -- a dash closes the element reader
      obtain ⟨f, P, hrun⟩ : ∃ f P, arrayLine stod (.start .array (m + l.offset))
          ((⟨.closed, c, acc⟩, .dropped) :: L) (l.at m) (rest.map (BlockLine.at m))
            = .running f (P ++ (⟨.closed, c, acc⟩, .dropped) :: L) :=
        arrayLine_running _ _ _ _
      rw [if_pos rfl, hrun]
      refine iff_of_false (fun h => h.not_closed) (fun h => ?_)
      rw [knownLine, BlockLine.trim_at, hdash] at h
      cases h
  | false =>
      rw [if_neg Bool.false_ne_true]
      cases hfield : keyValue l.content with
      | none =>
          simp only [objectLine, knownLine, BlockLine.trim_at, hfield, hdash]
          exact iff_of_true (StatesInStep.running (InStep.owner acc)) rfl
      | some field =>
          exact ownerField_inStep_iff acc hfield hdash (fun d hd => by omega)

/-! ### Lines and runs -/

/-- What has been read does not decide where a line goes. -/
theorem comesToOwner_put (line : Str) (g : Frame D) (slot : Slot) (v : YamlValue D)
    (K : Stack D) : comesToOwner line (g.put slot v) K = comesToOwner line g K := by
  cases K <;> rfl

/-- **A line leaves the runs in step** if and only if it goes to a nested reader
    or is a known one. -/
theorem dispatch_inStep_iff (hc : c < m) (h : InStep n m c L f₁ K₁ f₂ K₂) (l : BlockLine)
    (rest : List BlockLine) :
    StatesInStep n m c L
        (dispatch stod (l.at n) (rest.map (BlockLine.at n)) f₁ K₁)
        (dispatch stod (l.at m) (rest.map (BlockLine.at m)) f₂ K₂)
      ↔ (!comesToOwner (l.at n) f₁ K₁ || knownLine (l.at n) (rest.map (BlockLine.at n)))
          = true := by
  induction K₁ generalizing f₁ f₂ K₂ with
  | nil =>
      cases h with
      | owner acc =>
          have hkeep : (⟨.element, c, acc⟩ : Frame D).leaves (l.at m) = false := by
            have hgt : ¬ getIndent (l.at m) ≤ c := by
              rw [BlockLine.getIndent_at]
              omega
            exact decide_eq_false hgt
          rw [dispatch_reads rfl, dispatch_reads hkeep]
          exact owner_inStep_iff hc acc l rest
  | cons g K₁ ih =>
      cases h with
      | nested slot hcall hbelow =>
          cases hleaves : f₁.leaves (l.at n) with
          | true =>
              have hleaves₂ : f₂.leaves (l.at m) = true := hcall.leaves_eq l ▸ hleaves
              rw [dispatch, if_pos hleaves, dispatch, if_pos hleaves₂, ← hcall.acc_eq,
                ih (hbelow.put slot _), comesToOwner_put, comesToOwner, hleaves, Bool.true_and]
          | false =>
              have hkeep₂ : f₂.leaves (l.at m) = false := hcall.leaves_eq l ▸ hleaves
              rw [dispatch_reads hleaves, dispatch_reads hkeep₂, comesToOwner, hleaves]
              exact iff_of_true (readLine_inStep hcall hbelow l rest hleaves) rfl

/-- The two runs are in step before every line of a block and behind the last. -/
def InStepAlong (stod : Str → Option D) (n m c : Nat) (L : Stack D) :
    State D → State D → List BlockLine → Prop
  | s₁, s₂, [] => StatesInStep n m c L s₁ s₂
  | s₁, s₂, l :: ls =>
      StatesInStep n m c L s₁ s₂
        ∧ InStepAlong stod n m c L
            (s₁.step stod (l.at n) (ls.map (BlockLine.at n)))
            (s₂.step stod (l.at m) (ls.map (BlockLine.at m))) ls

/-- A run in step begins in step. -/
theorem InStepAlong.head {s₁ s₂ : State D} {ls : List BlockLine}
    (h : InStepAlong stod n m c L s₁ s₂ ls) : StatesInStep n m c L s₁ s₂ := by
  cases ls with
  | nil => exact h
  | cons l ls => exact h.1

/-- **Runs stay in step** if and only if the lines that come to the mapping
    readers are known ones. -/
theorem inStepAlong_iff (hc : c < m) {s₁ s₂ : State D} (h : StatesInStep n m c L s₁ s₂)
    (ls : List BlockLine) :
    InStepAlong stod n m c L s₁ s₂ ls
      ↔ knownLines stod s₁ (ls.map (BlockLine.at n)) = true := by
  induction ls generalizing s₁ s₂ with
  | nil => cases h with | running h => exact iff_of_true (StatesInStep.running h) rfl
  | cons l ls ih =>
      cases h with
      | @running f₁ f₂ K₁ K₂ h =>
          rw [List.map_cons, knownLines, Bool.and_eq_true, ← dispatch_inStep_iff hc h l ls]
          constructor
          · intro hall
            exact ⟨hall.2.head, (ih hall.2.head).mp hall.2⟩
          · intro hlines
            exact ⟨StatesInStep.running h, (ih hlines.1).mpr hlines.2⟩

/-- **Runs in step end alike**: what the object reader returns is what the
    element reader hands to its caller. -/
theorem InStepAlong.run_eq {s₁ s₂ : State D} {ls : List BlockLine}
    (h : InStepAlong stod n m c L s₁ s₂ ls) :
    ∃ v, run stod s₁ (ls.map (BlockLine.at n)) = some v
      ∧ run stod s₂ (ls.map (BlockLine.at m)) = some (unwind v L) := by
  induction ls generalizing s₁ s₂ with
  | nil =>
      cases h with
      | @running f₁ f₂ K₁ K₂ h =>
          refine ⟨unwind f₁.acc K₁, rfl, ?_⟩
          rw [← h.unwind_eq]
          rfl
  | cons l ls ih =>
      obtain ⟨hnow, hrest⟩ := h
      cases hnow with
      | running hnow =>
          rw [List.map_cons, List.map_cons, run_running (l.isSkipped_at n),
            run_running (l.isSkipped_at m)]
          exact ih hrest

end Simulation

/-! ## Whole texts -/

section Texts

variable {D : Type}

/-- The lines of a block have no newline in them. -/
theorem MappingBlock.no_newline (b : MappingBlock) (n : Nat) :
    ∀ t ∈ b.rest.map (BlockLine.at n), '\n' ∉ t := by
  intro t ht
  obtain ⟨l, -, rfl⟩ := List.mem_map.mp ht
  exact no_newline_lineAt _ l.no_newline

/-- **The condition is exact, line by line**: a block's own lines are known ones
    if and only if the two readers go through it in step. -/
theorem known_iff_inStepAlong (stod : Str → Option D) (b : MappingBlock) (n : Nat)
    {c m : Nat} (hm : c < m) (L : Stack D) :
    b.Known stod n
      ↔ InStepAlong stod n m c L
          (objectLine stod (.start .object 0) [] ((keyLine b.first).at n)
            (b.rest.map (BlockLine.at n)))
          (elementField stod (.start .element c) L c (b.rest.map (BlockLine.at m))
            b.first.1.text b.first.2.text) b.rest := by
  have hline : StatesInStep n m c L
        (objectLine stod (.start .object 0) [] ((keyLine b.first).at n)
          (b.rest.map (BlockLine.at n)))
        (elementField stod (.start .element c) L c (b.rest.map (BlockLine.at m))
          b.first.1.text b.first.2.text)
      ↔ knownLine ((keyLine b.first).at n) (b.rest.map (BlockLine.at n)) = true :=
    ownerField_inStep_iff .null (keyValue_fieldText b.first.1 b.first.2.text_trimmed)
      (isDash_fieldText b.first.1 b.first.2.text) (fun d _ => by omega)
  have hdispatch : dispatch stod ((keyLine b.first).at n) (b.rest.map (BlockLine.at n))
        (.start .object 0) []
      = objectLine stod (.start .object 0) [] ((keyLine b.first).at n)
          (b.rest.map (BlockLine.at n)) :=
    (dispatch_reads rfl).trans (readLine_object_zero _ _ _ _)
  rw [MappingBlock.Known]
  rw [List.map_cons, knownLines, hdispatch, Bool.and_eq_true, comesToOwner, Bool.not_true,
    Bool.false_or]
  constructor
  · intro hknown
    exact (inStepAlong_iff hm (hline.mpr hknown.1) b.rest).mpr hknown.2
  · intro hall
    exact ⟨hline.mp hall.head, (inStepAlong_iff hm hall.head b.rest).mp hall⟩

/-- **The two mapping readers agree** on a block of fields, by itself and as
    the element of an array, if every line that `parse_object` itself reads
    there is one both know. -/
theorem readers_agree (stod : Str → Option D) (b : MappingBlock) (n : Nat) (key : Key)
    {c m : Nat} (hc : 0 < c) (hm : c < m) (hknown : b.Known stod n) :
    ∃ v, parse stod (b.objectText n) = .ok (.ok v)
      ∧ parse stod (b.elementText key c m)
        = .ok (.ok (.object [(key.text, .array [v])])) := by
  have hlinesObject : linesOf (b.objectText n)
      = (keyLine b.first :: b.rest).map (BlockLine.at n) := by
    refine linesOf_unlines (fun t ht => ?_)
    rcases List.mem_cons.mp ht with rfl | ht
    · exact no_newline_lineAt _ (keyLine b.first).no_newline
    · exact b.no_newline n t ht
  have hlinesElement : linesOf (b.elementText key c m)
      = lineAt 0 (fieldText key []) :: dashAt c (keyLine b.first).content
        :: b.rest.map (BlockLine.at m) := by
    refine linesOf_unlines (fun t ht => ?_)
    rcases List.mem_cons.mp ht with rfl | ht
    · exact no_newline_lineAt 0 (no_newline_fieldText key List.not_mem_nil)
    · rcases List.mem_cons.mp ht with rfl | ht
      · exact no_newline_dashAt c (keyLine b.first).no_newline
      · exact b.no_newline m t ht
  -- behind the first line the object and the element have read the same field
  obtain ⟨v, hobject, helement⟩ := ((known_iff_inStepAlong stod b n hm
    [(⟨.array, c, .null⟩, .element), (⟨.object, 0, .null⟩, .field key.text)]).mp hknown).run_eq
  have hrunObject : runDocument stod ((keyLine b.first :: b.rest).map (BlockLine.at n))
      = some v := by
    rw [← hobject]
    refine (run_reads ((keyLine b.first).isSkipped_at n) rfl).trans ?_
    exact congrArg (run stod · _) (readLine_object_zero _ _ _ _)
  have hrunElement : runDocument stod (lineAt 0 (fieldText key [])
      :: dashAt c (keyLine b.first).content :: b.rest.map (BlockLine.at m))
      = some (.object [(key.text, .array [v])]) := by
    have htrimmed := (keyLine b.first).trimmed
    have hne := (keyLine b.first).content_ne_nil
    rw [runDocument]
    rw [Frame.start, run_object_nested (Or.inl rfl) (isSkipped_dashAt c htrimmed hne)
      (by rw [getIndent_dashAt]; exact hc), isDash_dashAt c htrimmed hne, getIndent_dashAt]
    show run stod (.running ⟨.array, c, .null⟩ _) _ = _
    refine (run_array_field b.first.2.text_trimmed le_rfl).trans ?_
    exact helement
  refine ⟨v, ?_, ?_⟩
  · rw [parse_eq_runDocument, hlinesObject, hrunObject]
  · rw [parse_eq_runDocument, hlinesElement, hrunElement]

/-- `name: api`, and `depends_on` with an array below it. -/
def dependsOnBlock : MappingBlock :=
  ⟨(.ofText "name".toList (by decide), .inline ⟨"api".toList, by decide⟩),
    [(dependsOnKey,
      .nested ⟨⟨⟨2, "- database".toList, by decide, by decide, by decide⟩, by decide⟩, []⟩)]⟩

/-- Both readers make the same of it. -/
theorem readers_agree_depends_on :
    ∃ v, parse (fun _ => (none : Option Nat))
          "name: api\ndepends_on:\n  - database\n".toList = .ok (.ok v)
      ∧ parse (fun _ => (none : Option Nat))
          "entities:\n  - name: api\n    depends_on:\n      - database\n".toList
        = .ok (.ok (.object [("entities".toList, .array [v])])) := by
  have hobject : dependsOnBlock.objectText 0
      = "name: api\ndepends_on:\n  - database\n".toList := by decide +kernel
  have helement : dependsOnBlock.elementText entitiesKey 2 4
      = "entities:\n  - name: api\n    depends_on:\n      - database\n".toList := by
    decide +kernel
  have hknown : dependsOnBlock.Known (fun _ => (none : Option Nat)) 0 := rfl
  rw [← hobject, ← helement]
  exact readers_agree (fun _ => none) dependsOnBlock 0 entitiesKey
    (c := 2) (m := 4) (by decide) (by decide) hknown

/-- `cmd: [ls]`. -/
def inlineBlock : MappingBlock :=
  ⟨(cmdKey, .inline ⟨"[ls]".toList, by decide⟩), []⟩

/-- An inline array is an array in a mapping, and a string in an element. -/
theorem readers_agree_inline_array :
    ¬ ∃ v, parse (fun _ => (none : Option Nat)) (inlineBlock.objectText 0) = .ok (.ok v)
      ∧ parse (fun _ => (none : Option Nat)) (inlineBlock.elementText
          (.ofText "e".toList (by decide)) 2 4)
        = .ok (.ok (.object [("e".toList, .array [v])])) := by
  rintro ⟨v, hobject, helement⟩
  have hrunObject : runDocument (fun _ => (none : Option Nat))
      (linesOf (inlineBlock.objectText 0))
      = some (.object [("cmd".toList, inlineArray (fun _ => none) "[ls]".toList)]) := rfl
  have hrunElement : runDocument (fun _ => (none : Option Nat))
      (linesOf (inlineBlock.elementText
        (.ofText "e".toList (by decide)) 2 4))
      = some (.object [("e".toList, .array [.object
          [("cmd".toList, scalarValue (fun _ => none) "[ls]".toList)]])]) := rfl
  rw [parse_eq_runDocument, hrunObject] at hobject
  rw [parse_eq_runDocument, hrunElement] at helement
  obtain rfl : YamlValue.object [("cmd".toList, inlineArray (fun _ => none) "[ls]".toList)]
      = v := by simpa using hobject
  refine inlineArray_ne_scalarValue (fun _ => (none : Option Nat)) "[ls]".toList
    "[ls]".toList ?_
  simpa using helement.symm

end Texts

end LaunchCpp.Yaml
