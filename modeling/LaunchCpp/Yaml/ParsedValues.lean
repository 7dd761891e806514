import LaunchCpp.Yaml.ParserRefinement
import LaunchCpp.Yaml.Text
import Mathlib.Data.List.Infix

/-! # What a parsed value is made of

    Two invariants of the line machine, for every text.  Nothing is made up:
    every key and every string of a value is a piece of one line of the text
    (`parse_madeOf`).  Nothing is read twice: the nodes and the characters of
    a value are no more than the characters of the text (`parse_size_le`), so
    that no text unfolds into a larger value. -/

namespace LaunchCpp.Yaml

open OrderedMaps StringStreams

/-! ## Pieces of a line -/

/-- What is trimmed off stands at the two ends. -/
theorem trim_isInfix (s : Str) : trim s <:+: s :=
  (List.rdropWhile_prefix _ _).isInfix.trans (List.dropWhile_suffix _).isInfix

/-- So does what `unquote` takes off. -/
theorem unquote_isInfix (s : Str) : unquote s <:+: s := by
  rw [unquote]
  split
  · exact (List.dropLast_prefix _).isInfix.trans (List.tail_suffix _).isInfix
  · exact List.infix_refl _

/-- A text is trimmed once it has been trimmed. -/
theorem trimmed_trim (s : Str) : Trimmed (trim s) := by
  constructor
  · intro c hc
    -- a piece of the front has the first character of the whole
    obtain ⟨t, ht⟩ := List.rdropWhile_prefix (l := s.dropWhile isSpace) isSpace
    have hhead : (s.dropWhile isSpace).head? = some c := by
      rw [← ht, List.head?_append, show (List.rdropWhile isSpace _).head? = some c from hc]
      rfl
    have hnot := List.head?_dropWhile_not isSpace s
    rw [hhead] at hnot
    exact hnot
  · intro c hc
    have hne : trim s ≠ [] := fun hnil => by
      rw [hnil] at hc
      cases hc
    have hlast := List.rdropWhile_last_not isSpace (s.dropWhile isSpace) hne
    rw [List.getLast?_eq_some_getLast hne] at hc
    rw [← Option.some.inj hc]
    exact (Bool.not_eq_true _).mp hlast

/-- What the two parts of a field line are. -/
structure Split (t key value : Str) : Prop where
  trimmed_key : Trimmed key
  no_colon : ':' ∉ key
  key_isInfix : key <:+: t
  value_isInfix : value <:+: t
  length_le : key.length + 1 + value.length ≤ t.length

/-- `key: value` is a split of its text. -/
theorem keyValue_split {t key value : Str} (h : keyValue t = some (key, value)) :
    Split t key value := by
  rw [keyValue] at h
  split at h
  · rename_i hcolon
    obtain ⟨rfl, rfl⟩ := Prod.mk.inj (Option.some.inj h)
    have hkey := trim_isInfix (t.takeWhile (· ≠ ':'))
    have hvalue := trim_isInfix (t.dropWhile (· ≠ ':')).tail
    refine ⟨trimmed_trim _, ?_, ?_, ?_, ?_⟩
    · intro hmem
      have hnot := List.mem_takeWhile_imp (hkey.subset hmem)
      simp at hnot
    · exact hkey.trans (List.takeWhile_prefix _).isInfix
    · exact (hvalue.trans (List.tail_suffix _).isInfix).trans (List.dropWhile_suffix _).isInfix
    · have hne : t.dropWhile (· ≠ ':') ≠ [] := by
        intro hnil
        simpa using List.dropWhile_eq_nil_iff.mp hnil ':' hcolon
      have hlength : (t.takeWhile (· ≠ ':')).length + (t.dropWhile (· ≠ ':')).length = t.length := by
        rw [← List.length_append, List.takeWhile_append_dropWhile]
      have hpos := List.length_pos_of_ne_nil hne
      have htail : (t.dropWhile (· ≠ ':')).tail.length = (t.dropWhile (· ≠ ':')).length - 1 :=
        List.length_tail
      have hle := hkey.length_le
      have hle' := hvalue.length_le
      omega
  · cases h

/-- An element of an inline array, and what follows it. -/
structure Cut (rest elem tail : Str) : Prop where
  elem_isInfix : elem <:+: rest
  tail_isInfix : tail <:+: rest
  length_le : elem.length + 1 + tail.length ≤ rest.length

/-- An inline array is cut at its commas and its bracket. -/
theorem cut_at {stop : Char} {rest : Str} (h : stop ∈ rest) :
    Cut rest (trim (rest.takeWhile (· ≠ stop))) (rest.dropWhile (· ≠ stop)).tail := by
  have helem := trim_isInfix (rest.takeWhile (· ≠ stop))
  have hne : rest.dropWhile (· ≠ stop) ≠ [] := by
    intro hnil
    simpa using List.dropWhile_eq_nil_iff.mp hnil stop h
  have hlength : (rest.takeWhile (· ≠ stop)).length + (rest.dropWhile (· ≠ stop)).length
      = rest.length := by
    rw [← List.length_append, List.takeWhile_append_dropWhile]
  have hpos := List.length_pos_of_ne_nil hne
  have hle := helem.length_le
  refine ⟨helem.trans (List.takeWhile_prefix _).isInfix, ?_, ?_⟩
  · exact (List.tail_suffix _).isInfix.trans (List.dropWhile_suffix _).isInfix
  · rw [List.length_tail]
    omega

/-- The loop over an inline array, by its rounds. -/
theorem inlineElements_rounds {D : Type} (stod : Str → Option D)
    {P : Str → YamlValue D → Prop} {Q : YamlValue D → Prop}
    (hround : ∀ rest acc elem tail, Cut rest elem tail → P rest acc →
      P tail (if elem = [] then acc else acc.addArrayElement (scalarValue stod elem)))
    (hend : ∀ rest acc, P rest acc → Q acc) {rest : Str} {acc : YamlValue D} (h : P rest acc) :
    Q (inlineElements stod rest acc) := by
  induction rest, acc using inlineElements.induct stod with
  | case1 rest acc stop hstop elem ih =>
      have hstep : inlineElements stod rest acc
          = inlineElements stod (rest.dropWhile (· ≠ stop)).tail
              (if elem = [] then acc else acc.addArrayElement (scalarValue stod elem)) := by
        rw [inlineElements]
        exact dif_pos hstop
      rw [hstep]
      exact ih (hround rest acc elem _ (cut_at hstop) h)
  | case2 rest acc stop hstop =>
      have hstep : inlineElements stod rest acc = acc := by
        rw [inlineElements]
        exact dif_neg hstop
      rw [hstep]
      exact hend rest acc h

/-! ## What one line does

    A line that a reader keeps is a field, an item of an array, or the value a
    caller waits for. -/

section Lines

variable {D : Type} (stod : Str → Option D)

/-- A field, with its value or with a reader for the lines below it. -/
inductive FieldRead (f : Frame D) (K : Stack D) (key value : Str) : State D → Prop
  | empty : FieldRead f K key value (.running (f.put (.field key) .null) K)
  | below {reader : Reader} {base : Nat} :
      FieldRead f K key value (.running (.start reader base) ((f, .field key) :: K))
  | scalar : FieldRead f K key value (.running (f.put (.field key) (scalarValue stod value)) K)
  | inline (hne : value ≠ []) :
      FieldRead f K key value (.running (f.put (.field key) (inlineArray stod value)) K)

/-- A line of an array. -/
inductive ArrayRead (f : Frame D) (K : Stack D) (t : Str) : State D → Prop
  | passed : ArrayRead f K t (.running f K)
  | below (hne : t ≠ []) : ArrayRead f K t (.running (.start .scalar 0) ((f, .element) :: K))
  | item (hne : t ≠ []) :
      ArrayRead f K t (.running (f.put .element (scalarValue stod (trim t.tail))) K)
  | element {key value : Str} {s : State D} (hne : t ≠ [])
      (hsplit : Split (trim t.tail) key value)
      (hfield : FieldRead stod (.start .element f.base) ((f, .element) :: K) key value s) :
      ArrayRead f K t s

/-- **What a line that counts can do** to the reader that keeps it. -/
inductive LineRead (f : Frame D) (K : Stack D) (line : Str) : State D → Prop
  | passed : LineRead f K line (.running f K)
  | field {key value : Str} {s : State D} (hsplit : Split (trim line) key value)
      (hfield : FieldRead stod f K key value s) : LineRead f K line s
  | array {s : State D} (h : ArrayRead stod f K (trim line) s) : LineRead f K line s
  -- a dash in an element: the array it starts is dropped
  | closed {s : State D} (hindent : 0 < getIndent line)
      (h : ArrayRead stod (.start .array (getIndent line))
        (({ f with reader := .closed }, .dropped) :: K) (trim line) s) : LineRead f K line s
  | ended : LineRead f K line (State.ret f.acc K)
  | waited : LineRead f K line (State.ret (scalarValue stod (trim line)) K)
  | thrown : LineRead f K line .thrown

variable {f : Frame D} {K : Stack D} {line : Str} {rest : List Str}

/-- What the reader of elements makes of a field. -/
theorem elementField_read (f : Frame D) (K : Stack D) (threshold : Nat) (rest : List Str)
    (key value : Str) :
    FieldRead stod f K key value (elementField stod f K threshold rest key value) := by
  unfold elementField
  split
  · split
    · exact .empty
    · split
      · exact .below
      · exact .below
  · exact .scalar

/-- What the reader of arrays makes of a line. -/
theorem arrayLine_read (f : Frame D) (K : Stack D) (line : Str) (rest : List Str) :
    ArrayRead stod f K (trim line) (arrayLine stod f K line rest) := by
  rw [arrayLine]
  split
  · rename_i hdash
    have hne : trim line ≠ [] := by
      intro hnil
      rw [hnil] at hdash
      cases hdash
    simp only
    split
    · exact .below hne
    · split
      · rename_i hkey
        exact .element hne (keyValue_split hkey) (elementField_read stod _ _ _ _ _ _)
      · exact .item hne
  · exact .passed

/-- What the reader of elements makes of a line. -/
theorem elementLine_read (hkeep : 0 < getIndent line) (rest : List Str) :
    LineRead stod f K line (elementLine stod f K line rest) := by
  rw [elementLine]
  split
  · exact .thrown
  · split
    · exact .closed hkeep (arrayLine_read stod _ _ _ _)
    · split
      · rename_i hkey
        exact .field (keyValue_split hkey) (elementField_read stod _ _ _ _ _ _)
      · exact .passed

/-- What the reader of objects makes of a line. -/
theorem objectLine_read (f : Frame D) (K : Stack D) (line : Str) (rest : List Str) :
    LineRead stod f K line (objectLine stod f K line rest) := by
  rw [objectLine]
  split
  · exact .passed
  · rename_i hkey
    refine .field (keyValue_split hkey) ?_
    split
    · split
      · exact .empty
      · split
        · exact .below
        · exact .empty
    · rename_i hne
      split
      · exact .inline hne
      · exact .scalar

/-- **What any reader makes of a line** it keeps. -/
theorem readLine_read (hkeep : f.leaves line = false) (rest : List Str) :
    LineRead stod f K line (readLine stod f K line rest) := by
  obtain ⟨reader, base, acc⟩ := f
  cases reader with
  | object =>
      show LineRead stod _ K line (if _ then _ else _)
      split
      · exact .ended
      · exact objectLine_read stod _ K line rest
  | array => exact .array (arrayLine_read stod _ K line rest)
  | element =>
      have hindent : ¬ getIndent line ≤ base := of_decide_eq_false hkeep
      exact elementLine_read stod (Nat.lt_of_le_of_lt (Nat.zero_le base) (Nat.not_le.mp hindent))
        rest
  | closed => exact .ended
  | scalar => exact .waited

/-! ## Invariants of a run -/

variable {stod}

/-- What returning calls preserve holds for the reader that keeps a line. -/
theorem of_keeper {P : State D → Prop}
    (hret : ∀ f K, P (.running f K) → P (State.ret f.acc K)) {p : Frame D × Stack D}
    (h : P (.running f K)) (hkeeper : keeper line f K = some p) : P (.running p.1 p.2) := by
  induction K generalizing f with
  | nil =>
      rw [keeper] at hkeeper
      split at hkeeper
      · cases hkeeper
      · obtain rfl := Option.some.inj hkeeper
        exact h
  | cons g K ih =>
      rw [keeper] at hkeeper
      split at hkeeper
      · exact ih (hret f _ h) hkeeper
      · obtain rfl := Option.some.inj hkeeper
        exact h

/-- What every return keeps holds when all readers have returned. -/
theorem of_unwind {P : State D → Prop}
    (hret : ∀ f K, P (.running f K) → P (State.ret f.acc K)) (h : P (.running f K)) :
    P (.returned (unwind f.acc K)) := by
  induction K generalizing f with
  | nil => exact hret f [] h
  | cons g K ih => exact ih (f := g.1.put g.2 f.acc) (hret f _ h)

variable (stod) in
/-- **The invariant rule of the machine.**  What skipping a line, returning
    from a call and reading a line preserve holds of the value of a document. -/
theorem run_invariant {P : List Str → State D → Prop}
    (hskip : ∀ line rest s, P (line :: rest) s → P rest s)
    (hret : ∀ lines f K, P lines (.running f K) → P lines (State.ret f.acc K))
    (hread : ∀ line rest f K s, P (line :: rest) (.running f K) → LineRead stod f K line s →
      P rest s)
    {lines : List Str} {s : State D} {v : YamlValue D} (h : P lines s)
    (hrun : run stod s lines = some v) : P [] (.returned v) := by
  induction lines generalizing s with
  | nil =>
      cases s with
      | running f K =>
          obtain rfl := Option.some.inj hrun
          exact of_unwind (hret []) h
      | returned w =>
          obtain rfl := Option.some.inj hrun
          exact h
      | thrown => cases hrun
  | cons line rest ih =>
      rw [run] at hrun
      split at hrun
      · exact ih (hskip line rest s h) hrun
      · refine ih ?_ hrun
        cases s with
        | running f K =>
            show P rest (dispatch stod line rest f K)
            rw [dispatch_eq_keeper]
            cases hkeeper : keeper line f K with
            | none => exact hskip line rest _ (of_unwind (hret _) h)
            | some p =>
                exact hread line rest p.1 p.2 _ (of_keeper (hret _) h hkeeper)
                  (readLine_read stod (leaves_of_keeper hkeeper) rest)
        | returned w => exact hskip line rest _ h
        | thrown => exact hskip line rest _ h

end Lines

/-! ## Nothing is made up -/

/-- A piece of one of the lines. -/
def PieceOf (lines : List Str) (s : Str) : Prop := ∃ line ∈ lines, s <:+: line

/-- A text that a field can have as its key. -/
structure KeyOf (lines : List Str) (key : Str) : Prop where
  trimmed : Trimmed key
  no_colon : ':' ∉ key
  piece : PieceOf lines key

variable {D : Type} {stod : Str → Option D}

/-- A value that some of the lines were read as: keys stand in order, each
    once, and no array and no object is empty. -/
inductive MadeOf (lines : List Str) : YamlValue D → Prop
  | null : MadeOf lines .null
  | string {s : Str} (hs : PieceOf lines s) : MadeOf lines (.string s)
  | number {n : D} : MadeOf lines (.number n)
  | boolean {b : Bool} : MadeOf lines (.boolean b)
  | array {elements : List (YamlValue D)} (hne : elements ≠ [])
      (helements : ∀ v ∈ elements, MadeOf lines v) : MadeOf lines (.array elements)
  | object {fields : List (Str × YamlValue D)} (hne : fields ≠ []) (hsorted : SortedKeys fields)
      (hkeys : ∀ key ∈ fields.map Prod.fst, KeyOf lines key)
      (hvalues : ∀ v ∈ fields.map Prod.snd, MadeOf lines v) : MadeOf lines (.object fields)

variable {lines : List Str} {line : Str}

/-- A piece of a piece is a piece. -/
theorem PieceOf.within {s t : Str} (ht : PieceOf lines t) (h : s <:+: t) : PieceOf lines s := by
  obtain ⟨line, hline, hinfix⟩ := ht
  exact ⟨line, hline, h.trans hinfix⟩

/-- The text in front of a colon is a key. -/
theorem Split.keyOf {t key value : Str} (h : Split t key value) (ht : PieceOf lines t) :
    KeyOf lines key :=
  ⟨h.trimmed_key, h.no_colon, ht.within h.key_isInfix⟩

namespace MadeOf

variable {acc value : YamlValue D} {key : Str}

/-- An element of an array may be anything that is made of the lines. -/
theorem addArrayElement (hacc : MadeOf lines acc) (hvalue : MadeOf lines value) :
    MadeOf lines (acc.addArrayElement value) := by
  cases hacc with
  | array hne helements =>
      refine .array (List.append_ne_nil_of_right_ne_nil _ (List.cons_ne_nil _ _)) ?_
      exact List.forall_mem_append.mpr ⟨helements, List.forall_mem_singleton.mpr hvalue⟩
  | _ => exact .array (List.cons_ne_nil _ _) (List.forall_mem_singleton.mpr hvalue)

/-- So may the value of a field, under a key of the lines. -/
theorem setObjectField (hacc : MadeOf lines acc) (hkey : KeyOf lines key)
    (hvalue : MadeOf lines value) : MadeOf lines (acc.setObjectField key value) := by
  cases hacc with
  | @object fields hne hsorted hkeys hvalues =>
      have hmem : key ∈ (insertEntry key value fields).map Prod.fst :=
        mem_keys_insertEntry.mpr (Or.inl rfl)
      refine .object ?_ (hsorted.insertEntry key value) ?_ ?_
      · intro hnil
        rw [hnil] at hmem
        cases hmem
      · intro k hk
        rcases mem_keys_insertEntry.mp hk with rfl | hk
        · exact hkey
        · exact hkeys k hk
      · intro v hv
        rcases mem_values_insertEntry hv with rfl | hv
        · exact hvalue
        · exact hvalues v hv
  | _ =>
      refine .object (List.cons_ne_nil _ _) (List.pairwise_singleton _ _) ?_ ?_
      · exact List.forall_mem_singleton.mpr hkey
      · exact List.forall_mem_singleton.mpr hvalue

/-- A scalar is the text it is read from, unquoted. -/
theorem scalar (stod : Str → Option D) {s : Str} (hs : PieceOf lines s) :
    MadeOf lines (scalarValue stod s) := by
  unfold scalarValue
  simp only
  split
  · exact .boolean
  · split
    · exact .boolean
    · split
      · exact .number
      · exact .string (hs.within ((unquote_isInfix _).trans (trim_isInfix _)))

/-- An inline array is made of the pieces between its commas. -/
theorem inlineArray (stod : Str → Option D) {s : Str} (hs : PieceOf lines s) :
    MadeOf lines (inlineArray stod s) := by
  refine inlineElements_rounds stod (P := fun rest acc => PieceOf lines rest ∧ MadeOf lines acc)
    ?_ (fun _ _ h => h.2) ⟨hs.within (List.tail_suffix _).isInfix, .null⟩
  rintro rest acc elem tail hcut ⟨hrest, hacc⟩
  refine ⟨hrest.within hcut.tail_isInfix, ?_⟩
  split
  · exact hacc
  · exact hacc.addArrayElement (.scalar stod (hrest.within hcut.elem_isInfix))

end MadeOf

/-- What a caller waits for a value for. -/
def SlotOf (lines : List Str) : Slot → Prop
  | .field key => KeyOf lines key
  | _ => True

/-- Callers that have collected what the lines say. -/
def StackOf (lines : List Str) (K : Stack D) : Prop :=
  ∀ p ∈ K, MadeOf lines p.1.acc ∧ SlotOf lines p.2

/-- The whole machine. -/
inductive StateOf (lines : List Str) : State D → Prop
  | running {f : Frame D} {K : Stack D} (hf : MadeOf lines f.acc) (hK : StackOf lines K) :
      StateOf lines (.running f K)
  | returned {v : YamlValue D} (hv : MadeOf lines v) : StateOf lines (.returned v)
  | thrown : StateOf lines .thrown

variable {f : Frame D} {K : Stack D} {acc value : YamlValue D} {slot : Slot} {s : State D}

/-- Putting a value into its slot makes up nothing. -/
theorem MadeOf.put (hacc : MadeOf lines acc) (hslot : SlotOf lines slot)
    (hvalue : MadeOf lines value) : MadeOf lines (slot.put value acc) := by
  cases slot with
  | field key => exact hacc.setObjectField hslot hvalue
  | element => exact hacc.addArrayElement hvalue
  | dropped => exact hacc

/-- One more reader on the stack. -/
theorem StackOf.cons (hK : StackOf lines K) (hf : MadeOf lines f.acc) (hslot : SlotOf lines slot) :
    StackOf lines ((f, slot) :: K) :=
  List.forall_mem_cons.mpr ⟨⟨hf, hslot⟩, hK⟩

/-- Returning a value makes up nothing. -/
theorem StateOf.ret (hvalue : MadeOf lines value) (hK : StackOf lines K) :
    StateOf lines (State.ret value K) := by
  cases K with
  | nil => exact .returned hvalue
  | cons p K =>
      obtain ⟨⟨hp, hslot⟩, hK⟩ := List.forall_mem_cons.mp hK
      exact .running (hp.put hslot hvalue) hK

/-- A field is read without making up anything. -/
theorem FieldRead.stateOf {key value : Str} (h : FieldRead stod f K key value s)
    (hf : MadeOf lines f.acc) (hK : StackOf lines K) (hkey : KeyOf lines key)
    (hvalue : PieceOf lines value) : StateOf lines s := by
  cases h with
  | empty => exact .running (hf.setObjectField hkey .null) hK
  | below => exact .running .null (hK.cons hf hkey)
  | scalar => exact .running (hf.setObjectField hkey (.scalar stod hvalue)) hK
  | inline hne => exact .running (hf.setObjectField hkey (.inlineArray stod hvalue)) hK

/-- So is a line of an array. -/
theorem ArrayRead.stateOf {t : Str} (h : ArrayRead stod f K t s) (hf : MadeOf lines f.acc)
    (hK : StackOf lines K) (ht : PieceOf lines t) : StateOf lines s := by
  have hcontent : PieceOf lines (trim t.tail) :=
    ht.within ((trim_isInfix _).trans (List.tail_suffix _).isInfix)
  cases h with
  | passed => exact .running hf hK
  | below hne => exact .running .null (hK.cons hf trivial)
  | item hne => exact .running (hf.addArrayElement (.scalar stod hcontent)) hK
  | element hne hsplit hfield =>
      exact hfield.stateOf .null (hK.cons hf trivial) (hsplit.keyOf hcontent)
        (hcontent.within hsplit.value_isInfix)

/-- **No line makes up anything**, whatever reader keeps it. -/
theorem LineRead.stateOf (h : LineRead stod f K line s) (hf : MadeOf lines f.acc)
    (hK : StackOf lines K) (hline : line ∈ lines) : StateOf lines s := by
  have ht : PieceOf lines (trim line) := ⟨line, hline, trim_isInfix line⟩
  cases h with
  | passed => exact .running hf hK
  | field hsplit hfield =>
      exact hfield.stateOf hf hK (hsplit.keyOf ht) (ht.within hsplit.value_isInfix)
  | array h => exact h.stateOf hf hK ht
  | closed hindent h => exact h.stateOf .null (hK.cons hf trivial) ht
  | ended => exact .ret hf hK
  | waited => exact .ret (.scalar stod ht) hK
  | thrown => exact .thrown

/-- The value of a text, if `parse` returns one, is what the machine makes of
    its lines. -/
theorem runDocument_of_parse {content : Str} {v : YamlValue D}
    (h : parse stod content = .ok (.ok v)) : runDocument stod (linesOf content) = some v := by
  rw [parse_eq_runDocument] at h
  split at h
  · rename_i w hrun
    rw [hrun, Except.ok.inj (Except.ok.inj h)]
  · cases h

/-- **Nothing is made up**: whatever text is parsed, every key and every
    string of the value, at any depth, is a piece of a single line of it; a
    key has no colon and no white space at its ends, and stands once in its
    object; and no array and no object is empty. -/
theorem parse_madeOf {content : Str} {v : YamlValue D} (h : parse stod content = .ok (.ok v)) :
    MadeOf (linesOf content) v := by
  have hend : (∀ line ∈ ([] : List Str), line ∈ linesOf content)
      ∧ StateOf (linesOf content) (.returned v) := by
    refine run_invariant stod
      (P := fun rest s => (∀ line ∈ rest, line ∈ linesOf content) ∧ StateOf (linesOf content) s)
      ?_ ?_ ?_ ⟨fun _ hline => hline, ?_⟩ (runDocument_of_parse h)
    · rintro line rest s ⟨hlines, hs⟩
      exact ⟨(List.forall_mem_cons.mp hlines).2, hs⟩
    · rintro lines f K ⟨hlines, hs⟩
      cases hs with
      | running hf hK => exact ⟨hlines, .ret hf hK⟩
    · rintro line rest f K s ⟨hlines, hs⟩ hread
      obtain ⟨hline, hrest⟩ := List.forall_mem_cons.mp hlines
      cases hs with
      | running hf hK => exact ⟨hrest, hread.stateOf hf hK hline⟩
    · exact .running .null (List.forall_mem_nil _)
  cases hend.2 with
  | returned hv => exact hv

/-- A launch file with a field that has no value yet. -/
def unfinished : Str := "e:\n  - a: \"1\"\n    b:\n".toList

def unfinishedValue (D : Type) : YamlValue D :=
  .object [("e".toList,
    .array [.object [("a".toList, .string "1".toList), ("b".toList, .null)]])]

/-- A text that ends in the middle of everything. -/
theorem parse_unfinished :
    parse (fun _ => (none : Option Nat)) unfinished = .ok (.ok (unfinishedValue Nat)) := by
  rw [parse_eq_runDocument]
  rfl

/-- What has been read of it stands in its lines. -/
theorem parse_madeOf_unfinished : MadeOf (linesOf unfinished) (unfinishedValue Nat) :=
  parse_madeOf parse_unfinished

/-! ## Nothing is read twice -/

mutual

/-- The nodes of a value, and the characters of its keys and strings. -/
def YamlValue.size : YamlValue D → Nat
  | .null => 1
  | .string s => s.length + 1
  | .number _ => 1
  | .boolean _ => 1
  | .array elements => sizeElements elements + 1
  | .object fields => sizeFields fields + 1

def sizeElements : List (YamlValue D) → Nat
  | [] => 0
  | v :: vs => v.size + sizeElements vs

def sizeFields : List (Str × YamlValue D) → Nat
  | [] => 0
  | field :: fields => sizeField field + sizeFields fields

def sizeField : Str × YamlValue D → Nat
  | (key, v) => key.length + v.size

end

theorem sizeFields_cons (key : Str) (v : YamlValue D) (fields : List (Str × YamlValue D)) :
    sizeFields ((key, v) :: fields) = key.length + v.size + sizeFields fields := rfl

/-- A value is a node at least. -/
theorem YamlValue.size_pos (v : YamlValue D) : 1 ≤ v.size := by
  cases v <;> rw [YamlValue.size] <;> omega

/-- Sizes add up along a list. -/
theorem sizeElements_append (vs ws : List (YamlValue D)) :
    sizeElements (vs ++ ws) = sizeElements vs + sizeElements ws := by
  induction vs with
  | nil => exact (Nat.zero_add _).symm
  | cons v vs ih =>
      rw [List.cons_append, sizeElements, sizeElements, ih, Nat.add_assoc]

/-- Setting a key that is there replaces its value. -/
theorem sizeFields_insertEntry_le (key : Str) (v : YamlValue D)
    (fields : List (Str × YamlValue D)) :
    sizeFields (insertEntry key v fields) ≤ sizeFields fields + (key.length + v.size) := by
  induction fields with
  | nil =>
      show key.length + v.size + 0 ≤ 0 + (key.length + v.size)
      omega
  | cons field fields ih =>
      obtain ⟨k, w⟩ := field
      rw [insertEntry]
      split
      · rw [sizeFields_cons key v]
        omega
      · split
        · rename_i heq
          rw [sizeFields_cons, sizeFields_cons, heq]
          omega
        · rw [sizeFields_cons, sizeFields_cons]
          omega

/-- An element adds its size, at most. -/
theorem size_addArrayElement_le (acc v : YamlValue D) :
    (acc.addArrayElement v).size ≤ acc.size + v.size := by
  have hpos := acc.size_pos
  cases acc with
  | array elements =>
      have happend := sizeElements_append elements [v]
      have hsingle : sizeElements [v] = v.size + 0 := rfl
      show sizeElements (elements ++ [v]) + 1 ≤ sizeElements elements + 1 + v.size
      omega
  | _ =>
      show v.size + 0 + 1 ≤ _
      omega

/-- A field adds its key and its value, at most. -/
theorem size_setObjectField_le (acc v : YamlValue D) (key : Str) :
    (acc.setObjectField key v).size ≤ acc.size + (key.length + v.size) := by
  have hpos := acc.size_pos
  cases acc with
  | object fields =>
      have hle := sizeFields_insertEntry_le key v fields
      show sizeFields (insertEntry key v fields) + 1 ≤ sizeFields fields + 1 + _
      omega
  | _ =>
      show key.length + v.size + 0 + 1 ≤ _
      omega

variable (stod) in

/-- A scalar has no more characters than its text. -/
theorem size_scalarValue_le (s : Str) : (scalarValue stod s).size ≤ s.length + 1 := by
  unfold scalarValue
  simp only
  split
  · exact Nat.le_add_left _ _
  · split
    · exact Nat.le_add_left _ _
    · split
      · exact Nat.le_add_left _ _
      · exact Nat.succ_le_succ ((unquote_isInfix _).trans (trim_isInfix s)).length_le

variable (stod) in
/-- The bracket pays for the array, and every comma for an element. -/
theorem size_inlineArray_le {s : Str} (hne : s ≠ []) : (inlineArray stod s).size ≤ s.length := by
  obtain ⟨c, cs, rfl⟩ := List.exists_cons_of_ne_nil hne
  refine inlineElements_rounds stod
    (P := fun rest acc => rest.length + acc.size ≤ (c :: cs).length)
    (Q := fun acc => acc.size ≤ (c :: cs).length) ?_ ?_ ?_
  · intro rest acc elem tail hcut hle
    have hlength := hcut.length_le
    split
    · omega
    · have helem := size_scalarValue_le stod elem
      have hadd := size_addArrayElement_le acc (scalarValue stod elem)
      omega
  · intro rest acc hle
    omega
  · rw [YamlValue.size]
    exact Nat.le_refl _

def Slot.size : Slot → Nat
  | .field key => key.length
  | _ => 0

/-- What the callers have collected, with the keys they wait under. -/
def stackSize : Stack D → Nat
  | [] => 0
  | (f, slot) :: K => f.acc.size + slot.size + stackSize K

def State.size : State D → Nat
  | .running f K => f.acc.size + stackSize K
  | .returned v => v.size
  | .thrown => 0

/-- Putting a value into its slot adds no more than both are. -/
theorem size_put_le (slot : Slot) (v acc : YamlValue D) :
    (slot.put v acc).size ≤ acc.size + (slot.size + v.size) := by
  cases slot with
  | field key => exact size_setObjectField_le acc v key
  | element =>
      have hle := size_addArrayElement_le acc v
      show (acc.addArrayElement v).size ≤ acc.size + (0 + v.size)
      omega
  | dropped => exact Nat.le_add_right _ _

/-- Returning a value adds nothing. -/
theorem size_ret_le (v : YamlValue D) (K : Stack D) :
    (State.ret v K).size ≤ v.size + stackSize K := by
  cases K with
  | nil => exact Nat.le_refl _
  | cons p K =>
      have hput := size_put_le p.2 v p.1.acc
      show (p.2.put v p.1.acc).size + stackSize K
        ≤ v.size + (p.1.acc.size + p.2.size + stackSize K)
      omega

/-- A key and a value, and the colon between them. -/
theorem FieldRead.size_le {key value : Str} (h : FieldRead stod f K key value s) :
    s.size ≤ f.acc.size + stackSize K + (key.length + 1 + value.length) := by
  have hput := size_put_le (.field key) (D := D)
  cases h with
  | empty =>
      have hfield : (f.put (.field key) .null).acc.size ≤ f.acc.size + (key.length + 1) :=
        hput .null f.acc
      show (f.put (.field key) .null).acc.size + stackSize K ≤ _
      omega
  | below =>
      show 1 + (f.acc.size + key.length + stackSize K) ≤ _
      omega
  | scalar =>
      have hfield : (f.put (.field key) (scalarValue stod value)).acc.size
          ≤ f.acc.size + (key.length + (scalarValue stod value).size) := hput _ f.acc
      have hscalar := size_scalarValue_le stod value
      show (f.put (.field key) (scalarValue stod value)).acc.size + stackSize K ≤ _
      omega
  | inline hne =>
      have hfield : (f.put (.field key) (inlineArray stod value)).acc.size
          ≤ f.acc.size + (key.length + (inlineArray stod value).size) := hput _ f.acc
      have harray := size_inlineArray_le stod hne
      show (f.put (.field key) (inlineArray stod value)).acc.size + stackSize K ≤ _
      omega

/-- The dash in front of an item is gone when the item is read. -/
theorem length_trim_tail {t : Str} (hne : t ≠ []) : (trim t.tail).length + 1 ≤ t.length := by
  have hle := (trim_isInfix t.tail).length_le
  have hpos := List.length_pos_of_ne_nil hne
  rw [List.length_tail] at hle
  omega

/-- The dash pays for the item. -/
theorem ArrayRead.size_le {t : Str} (h : ArrayRead stod f K t s) :
    s.size ≤ f.acc.size + stackSize K + t.length := by
  cases h with
  | passed => exact Nat.le_add_right _ _
  | below hne =>
      have hpos := List.length_pos_of_ne_nil hne
      show 1 + (f.acc.size + 0 + stackSize K) ≤ _
      omega
  | item hne =>
      have hlength := length_trim_tail hne
      have hscalar := size_scalarValue_le stod (trim t.tail)
      have hadd := size_addArrayElement_le f.acc (scalarValue stod (trim t.tail))
      show (f.acc.addArrayElement (scalarValue stod (trim t.tail))).size + stackSize K ≤ _
      omega
  | element hne hsplit hfield =>
      have hlength := length_trim_tail hne
      have hsplit := hsplit.length_le
      have hle : s.size ≤ 1 + (f.acc.size + 0 + stackSize K) + _ := hfield.size_le
      omega

/-- An indent is at least one character. -/
theorem length_trim_of_indent (h : 0 < getIndent line) : (trim line).length + 1 ≤ line.length := by
  cases line with
  | nil => exact absurd h (Nat.lt_irrefl _)
  | cons c cs =>
      have hspace : isSpace c = true := by
        by_contra hc
        have hblank : c ≠ ' ' := fun heq => hc (heq ▸ rfl)
        have htab : c ≠ '\t' := fun heq => hc (heq ▸ rfl)
        rw [getIndent_cons hblank htab] at h
        exact Nat.lt_irrefl _ h
      have htrim : trim (c :: cs) = trim cs := by
        rw [trim, trim, List.dropWhile_cons_of_pos hspace]
      rw [htrim]
      exact Nat.succ_le_succ (trim_isInfix cs).length_le

/-- What a line adds is no more than its length. -/
theorem LineRead.size_le (h : LineRead stod f K line s) :
    s.size ≤ f.acc.size + stackSize K + line.length := by
  have htrim := (trim_isInfix line).length_le
  cases h with
  | passed => exact Nat.le_add_right _ _
  | field hsplit hfield =>
      have hle := hfield.size_le
      have hlength := hsplit.length_le
      omega
  | array h =>
      have hle := h.size_le
      omega
  | closed hindent h =>
      have hle : s.size ≤ 1 + (f.acc.size + 0 + stackSize K) + (trim line).length := h.size_le
      have hlength := length_trim_of_indent hindent
      omega
  | ended =>
      have hle := size_ret_le f.acc K
      omega
  | waited =>
      have hpos := f.acc.size_pos
      have hle := size_ret_le (scalarValue stod (trim line)) K
      have hscalar := size_scalarValue_le stod (trim line)
      omega
  | thrown => exact Nat.zero_le _

/-- The characters of some lines. -/
def charsOf (lines : List Str) : Nat := (lines.map List.length).sum

/-- The lines of a text have no more characters than it. -/
theorem charsOf_linesOf_le (content : Str) : charsOf (linesOf content) ≤ content.length := by
  induction content with
  | nil => exact Nat.le_refl _
  | cons c cs ih =>
      rw [linesOf]
      split
      · show 0 + charsOf (linesOf cs) ≤ _
        rw [List.length_cons]
        omega
      · cases hlines : linesOf cs with
        | nil =>
            show 1 + 0 ≤ _
            rw [List.length_cons]
            omega
        | cons l ls =>
            rw [hlines] at ih
            have hcons : charsOf (l :: ls) = l.length + charsOf ls := rfl
            show (l.length + 1) + charsOf ls ≤ _
            rw [List.length_cons]
            omega

/-- **Nothing is read twice**: whatever text is parsed, the nodes of the value
    and the characters of its keys and strings are together no more than the
    characters of the text, and one. -/
theorem parse_size_le {content : Str} {v : YamlValue D} (h : parse stod content = .ok (.ok v)) :
    v.size ≤ content.length + 1 := by
  have hend : charsOf [] + (State.returned v).size ≤ charsOf (linesOf content) + 1 := by
    refine run_invariant stod
      (P := fun rest s => charsOf rest + s.size ≤ charsOf (linesOf content) + 1)
      ?_ ?_ ?_ ?_ (runDocument_of_parse h)
    · intro line rest s hs
      have hcons : charsOf (line :: rest) = line.length + charsOf rest := rfl
      omega
    · intro lines f K hs
      have hret := size_ret_le f.acc K
      have hrunning : (State.running f K).size = f.acc.size + stackSize K := rfl
      omega
    · intro line rest f K s hs hread
      have hcons : charsOf (line :: rest) = line.length + charsOf rest := rfl
      have hrunning : (State.running f K).size = f.acc.size + stackSize K := rfl
      have hle := hread.size_le
      omega
    · exact Nat.le_refl _
  have hchars := charsOf_linesOf_le content
  have hvalue : charsOf [] + (State.returned v).size = 0 + v.size := rfl
  omega

/-- The size of what is read of that text. -/
theorem parse_size_le_unfinished :
    (unfinishedValue Nat).size = 9 ∧ (unfinishedValue Nat).size ≤ unfinished.length + 1 :=
  ⟨rfl, parse_size_le parse_unfinished⟩

end LaunchCpp.Yaml
