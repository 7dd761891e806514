import LaunchCpp.Yaml.Document

/-! # Arrays of quoted strings

    The two ways to write an array, with every item between double quotes.
    Neither reader knows about quotes: a block item is classified by a search
    for a colon, an inline array is cut at commas and, behind the last one, at
    brackets.  Both readers are followed here on arbitrary contents, so that
    it can be said exactly which contents come back. -/

namespace LaunchCpp.Yaml

open StringStreams

section Items

variable {D : Type} (stod : Str → Option D)

/-! ## Block sequences -/

/-- What `parse_array` makes of a quoted item: a string, or an object when
    the string has a colon. -/
def itemValue (s : Str) : YamlValue D :=
  match keyValue (quote s) with
  | some (key, value) => .object [(key, scalarValue stod value)]
  | none => .string s

/-- The lines of a block sequence of quoted strings under a key. -/
def sequenceLines (key : Key) (ss : List Str) : List Str :=
  lineAt 0 (fieldText key []) :: ss.map (fun s => dashAt 2 (quote s))

/-- A text with more than blanks on it is not trimmed away. -/
theorem trim_ne_nil {t : Str} {c : Char} (hmem : c ∈ t) (hc : isSpace c = false) :
    trim t ≠ [] := by
  intro h
  rw [trim, List.rdropWhile_eq_nil_iff] at h
  have hdrop : t.dropWhile isSpace = [] := by
    refine List.eq_nil_iff_forall_not_mem.mpr ?_
    intro d hd
    -- the first character that is left is no space
    obtain ⟨e, es, hes⟩ := List.exists_cons_of_ne_nil (List.ne_nil_of_mem hd)
    have hspace := h e (by rw [hes]; exact List.mem_cons_self)
    have hno := List.dropWhile_get_zero_not isSpace t (by rw [hes]; simp)
    simp [hes, hspace] at hno
  have hall := List.dropWhile_eq_nil_iff.mp hdrop c hmem
  rw [hc] at hall
  cases hall

/-- The value behind a colon of a quoted string is not empty: it ends with
    the quote. -/
theorem keyValue_quote {s : Str} (h : ':' ∈ s) :
    ∃ key value, keyValue (quote s) = some (key, value) ∧ value ≠ [] := by
  obtain ⟨a, b, rfl, hno⟩ := List.eq_append_cons_of_mem h
  have hsplit : quote (a ++ ':' :: b) = ('"' :: a) ++ ':' :: (b ++ ['"']) := by
    simp [quote]
  rw [hsplit, keyValue_colon (by simpa using hno)]
  refine ⟨_, _, rfl, ?_⟩
  exact trim_ne_nil (c := '"') (by simp) (by decide)

/-- An item without a colon is a string. -/
theorem itemValue_plain {s : Str} (h : ':' ∉ s) : itemValue stod s = .string s := by
  rw [itemValue, keyValue_none (by simpa [quote] using h)]

/-- An item with one is read as an object of one field. -/
theorem itemValue_colon {s : Str} (h : ':' ∈ s) :
    ∃ key value, itemValue stod s = .object [(key, value)] := by
  obtain ⟨key, value, hkv, -⟩ := keyValue_quote h
  exact ⟨key, scalarValue stod value, by rw [itemValue, hkv]⟩

section Machine

variable {stod} {K : Stack D} {acc : YamlValue D} {rest : List Str}

/-- One item; an item with a colon opens an element, and what follows closes
    it. -/
theorem run_array_item {s : Str} (hs : '\n' ∉ s) (hends : Ends 3 rest) :
    run stod (.running ⟨.array, 2, acc⟩ K) (dashAt 2 (quote s) :: rest)
      = run stod (.running ⟨.array, 2, acc.addArrayElement (itemValue stod s)⟩ K) rest := by
  have htoken := isToken_quote hs
  rw [run_array_dash htoken.trimmed htoken.ne_nil le_rfl]
  by_cases hcolon : ':' ∈ s
  · obtain ⟨key, value, hkv, hne⟩ := keyValue_quote hcolon
    rw [itemValue, hkv]
    simp only
    rw [elementField_scalar _ _ _ hne]
    exact run_element_ends hends
  · rw [itemValue_plain stod hcolon, keyValue_none (by simpa [quote] using hcolon)]
    simp only
    rw [scalarValue_quote stod hs]

/-- **Items are read one by one**, each as what `itemValue` says. -/
theorem run_array_items {ss : List Str} (h : ∀ s ∈ ss, '\n' ∉ s) :
    run stod (.running ⟨.array, 2, acc⟩ K) (ss.map (fun s => dashAt 2 (quote s)))
      = run stod (.running ⟨.array, 2, acc.addElements (ss.map (itemValue stod))⟩ K) [] := by
  induction ss generalizing acc with
  | nil => rfl
  | cons s ss ih =>
      have htail : Ends 3 (ss.map (fun s => dashAt 2 (quote s))) := by
        cases ss with
        | nil => exact Ends.nil
        | cons t ts =>
            have ht := isToken_quote (h t (List.mem_cons_of_mem _ List.mem_cons_self))
            exact ends_dashAt ht.trimmed ht.ne_nil (by omega) _
      rw [List.map_cons, run_array_item (h s List.mem_cons_self) htail,
        ih (fun x hx => h x (List.mem_cons_of_mem _ hx))]
      rfl

end Machine

/-- A key with items below it. -/
theorem runDocument_sequenceLines (key : Key) {ss : List Str} (hne : ss ≠ [])
    (h : ∀ s ∈ ss, '\n' ∉ s) :
    runDocument stod (sequenceLines key ss)
      = some (.object [(key.text, .array (ss.map (itemValue stod)))]) := by
  obtain ⟨s, ss, rfl⟩ := List.exists_cons_of_ne_nil hne
  have htoken := isToken_quote (h s List.mem_cons_self)
  have hdash := isDash_dashAt 2 htoken.trimmed htoken.ne_nil
  rw [runDocument, sequenceLines, Frame.start, List.map_cons]
  rw [run_object_nested (Or.inl rfl) (isSkipped_dashAt 2 htoken.trimmed htoken.ne_nil)
    (by rw [getIndent_dashAt]; omega), hdash, getIndent_dashAt]
  show run stod (.running ⟨.array, 2, .null⟩ _)
    ((s :: ss).map (fun s => dashAt 2 (quote s))) = _
  rw [run_array_items h, YamlValue.addElements_null (by simp)]
  rfl

/-- The lines that were written are those that are read. -/
theorem linesOf_of_writable {ls : List Str} (h : ∀ l ∈ ls, Writable l) {content : Str}
    (hcontent : content = unlines ls ∨ content = (unlines ls).dropLast) :
    linesOf content = ls := by
  rcases hcontent with rfl | rfl
  · exact linesOf_unlines (fun l hl => (h l hl).2)
  · exact linesOf_unlines_dropLast h

/-- **A block sequence of quoted strings** comes back exactly if none of them
    has a colon. -/
theorem parse_sequence_iff (key : Key) (ss : List Str) (hne : ss ≠ [])
    (h : ∀ s ∈ ss, '\n' ∉ s) (content : Str)
    (hcontent : content = unlines (sequenceLines key ss)
      ∨ content = (unlines (sequenceLines key ss)).dropLast) :
    (∃ v, parse stod content = .ok (.ok v) ∧ v.field? key.text = some (.array (ss.map .string)))
      ↔ ∀ s ∈ ss, ':' ∉ s := by
  have hwritable : ∀ l ∈ sequenceLines key ss, Writable l := by
    intro l hl
    rcases List.mem_cons.mp hl with rfl | hl
    · exact writable_lineAt 0 (fieldText_ne_nil _ _) (no_newline_fieldText _ List.not_mem_nil)
    · obtain ⟨s, hs, rfl⟩ := List.mem_map.mp hl
      exact writable_dashAt 2 (isToken_quote (h s hs)).no_newline
  have hparse : parse stod content
      = .ok (.ok (.object [(key.text, .array (ss.map (itemValue stod)))])) := by
    rw [parse_eq_runDocument, linesOf_of_writable hwritable hcontent,
      runDocument_sequenceLines stod key hne h]
  have hfield : (YamlValue.object [(key.text, .array (ss.map (itemValue stod)))]).field? key.text
      = some (.array (ss.map (itemValue stod))) :=
    YamlValue.field?_setObjectField_self .null _ key.text
  constructor
  · rintro ⟨v, hv, harray⟩ s hs hcolon
    rw [hparse] at hv
    cases hv
    rw [hfield] at harray
    have hmap := YamlValue.array.inj (Option.some.inj harray)
    obtain ⟨k, value, hitem⟩ := itemValue_colon stod hcolon
    have heq := List.map_inj_left.mp hmap s hs
    rw [hitem] at heq
    cases heq
  · intro hplain
    refine ⟨_, hparse, ?_⟩
    rw [hfield, List.map_congr_left (fun s hs => itemValue_plain stod (hplain s hs))]

/-- A flag with brackets is an argument like any other. -/
theorem parse_sequence_iff_arguments :
    ∃ v, parse (fun _ => (none : Option Nat)) "k:\n  - \"talker\"\n  - \"-v [2]\"\n".toList
        = .ok (.ok v)
      ∧ v.field? "k".toList = some (.array [.string "talker".toList, .string "-v [2]".toList]) :=
  (parse_sequence_iff (fun _ => (none : Option Nat)) (Key.ofText "k".toList (by decide))
    ["talker".toList, "-v [2]".toList] (by simp) (by decide) _ (Or.inl (by decide))).mpr
      (by decide)

/-- A remapping becomes an object with the key `"__node`. -/
theorem parse_sequence_remapping :
    ¬ ∃ v, parse (fun _ => (none : Option Nat)) "k:\n  - \"__node:=talker\"\n".toList
        = .ok (.ok v)
      ∧ v.field? "k".toList = some (.array [.string "__node:=talker".toList]) := by
  have hlines : linesOf "k:\n  - \"__node:=talker\"\n".toList
      = sequenceLines (Key.ofText "k".toList (by decide)) ["__node:=talker".toList] := by
    decide
  rintro ⟨v, hv, hfield⟩
  rw [parse_eq_runDocument, hlines,
    runDocument_sequenceLines _ _ (by simp) (by decide)] at hv
  cases hv
  cases hfield

end Items

/-! ## Inline arrays -/

/-- What follows the opening bracket of an inline array of quoted strings. -/
def inlineBody : List Str → Str
  | [] => [']']
  | [s] => quote s ++ [']']
  | s :: t :: ss => quote s ++ ',' :: ' ' :: inlineBody (t :: ss)

/-- The one line of a field with such an array. -/
def inlineLine (key : Key) (ss : List Str) : Str := fieldText key ('[' :: inlineBody ss)

/-- Nothing in the contents looks like the end of an item. -/
def InlineFits (ss : List Str) : Prop :=
  (∀ s ∈ ss, ',' ∉ s) ∧ ∀ s ∈ ss.getLast?, ']' ∉ s

section Inline

variable {D : Type} (stod : Str → Option D)

/-- One piece of the text between two cuts. -/
def addPiece (arr : YamlValue D) (piece : Str) : YamlValue D :=
  if trim piece = [] then arr else arr.addArrayElement (scalarValue stod (trim piece))

/-- How many elements a value has as an array. -/
def elementCount (v : YamlValue D) : Nat := (v.array?.getD []).length

variable {stod} {arr : YamlValue D} {piece rest : Str}

/-- The cut of one step of the loop. -/
theorem inlineElements_cut {stop : Char} (h : stop ∉ piece)
    (hstop : (if ',' ∈ piece ++ stop :: rest then ',' else ']') = stop) :
    inlineElements stod (piece ++ stop :: rest) arr
      = inlineElements stod rest (addPiece stod arr piece) := by
  obtain ⟨htake, hdrop⟩ := takeWhile_cut h rest
  rw [inlineElements]
  simp only [hstop]
  rw [dif_pos (by simp), htake, hdrop]
  rfl

/-- A comma ends a piece. -/
theorem inlineElements_comma (h : ',' ∉ piece) :
    inlineElements stod (piece ++ ',' :: rest) arr
      = inlineElements stod rest (addPiece stod arr piece) :=
  inlineElements_cut h (if_pos (by simp))

/-- Behind the last comma the text is cut at brackets. -/
theorem inlineElements_bracket (h : ']' ∉ piece) (hcomma : ',' ∉ piece ++ ']' :: rest) :
    inlineElements stod (piece ++ ']' :: rest) arr
      = inlineElements stod rest (addPiece stod arr piece) :=
  inlineElements_cut h (if_neg hcomma)

/-- The bracket ends the array. -/
theorem inlineElements_end (hcomma : ',' ∉ rest) (hbracket : ']' ∉ rest) :
    inlineElements stod rest arr = arr := by
  rw [inlineElements]
  simp only [if_neg hcomma]
  rw [dif_neg hbracket]

/-- A space in front of a piece makes no difference. -/
theorem inlineElements_space :
    inlineElements stod (' ' :: rest) arr = inlineElements stod rest arr := by
  have hpiece : ∀ p, addPiece stod arr (' ' :: p) = addPiece stod arr p := by
    intro p
    rw [addPiece, trim_space_cons]
    rfl
  by_cases hcomma : ',' ∈ rest
  · obtain ⟨p, r, rfl, hno⟩ := List.eq_append_cons_of_mem hcomma
    rw [← List.cons_append, inlineElements_comma (by simpa using hno),
      inlineElements_comma hno, hpiece]
  · by_cases hbracket : ']' ∈ rest
    · obtain ⟨p, r, rfl, hno⟩ := List.eq_append_cons_of_mem hbracket
      rw [← List.cons_append, inlineElements_bracket (by simpa using hno) (by simpa using hcomma),
        inlineElements_bracket hno hcomma, hpiece]
    · rw [inlineElements_end (by simpa using hcomma) (by simpa using hbracket),
        inlineElements_end hcomma hbracket]

/-! ### Counting elements -/

/-- An element more. -/
theorem elementCount_addArrayElement (v : YamlValue D) :
    elementCount (arr.addArrayElement v) = elementCount arr + 1 := by
  cases arr with
  | array es => simp [elementCount, YamlValue.addArrayElement, YamlValue.array?]
  | _ => rfl

/-- A piece with a quote in it is an element. -/
theorem addPiece_of_quote (h : '"' ∈ piece) :
    addPiece stod arr piece = arr.addArrayElement (scalarValue stod (trim piece)) :=
  if_neg (trim_ne_nil h (by decide))

/-- A quoted piece is its content. -/
theorem addPiece_quote {s : Str} (hs : '\n' ∉ s) :
    addPiece stod arr (quote s) = arr.addArrayElement (.string s) := by
  rw [addPiece_of_quote (by simp [quote]), (isToken_quote hs).trimmed.trim_eq,
    scalarValue_quote stod hs]

variable (stod arr) in

/-- No piece takes an element away. -/
theorem elementCount_addPiece_le (piece : Str) :
    elementCount arr ≤ elementCount (addPiece stod arr piece) := by
  rw [addPiece]
  split
  · exact le_rfl
  · rw [elementCount_addArrayElement]
    exact Nat.le_succ _

variable (stod) in
/-- The rest of a string behind a cut, in front of the next item. -/
theorem inlineElements_rest (rest b : Str) (arr : YamlValue D) :
    ∃ arr', elementCount arr + 1 ≤ elementCount arr'
      ∧ inlineElements stod (b ++ '"' :: ',' :: rest) arr = inlineElements stod rest arr' := by
  induction b using cut_induction ',' generalizing arr with
  | piece b hcomma =>
      refine ⟨addPiece stod arr (b ++ ['"']), ?_, ?_⟩
      · rw [addPiece_of_quote (by simp), elementCount_addArrayElement]
      · rw [List.append_cons]
        exact inlineElements_comma (by simpa using hcomma)
  | cut a b hno ih =>
      obtain ⟨arr', hcount, heq⟩ := ih (addPiece stod arr a)
      have hle := elementCount_addPiece_le stod arr a
      refine ⟨arr', by omega, ?_⟩
      rw [List.append_assoc, List.cons_append, inlineElements_comma hno]
      exact heq

variable (stod) in
/-- The rest of the last string behind the last comma. -/
theorem elementCount_rest_bracket {b : Str} (hcomma : ',' ∉ b) (arr : YamlValue D) :
    elementCount arr + 1 ≤ elementCount (inlineElements stod (b ++ ['"', ']']) arr) := by
  induction b using cut_induction ']' generalizing arr with
  | piece b hbracket =>
      have hcut : inlineElements stod ((b ++ ['"']) ++ [']']) arr
          = inlineElements stod [] (addPiece stod arr (b ++ ['"'])) :=
        inlineElements_bracket (by simpa using hbracket) (by simpa using hcomma)
      rw [List.append_cons, hcut, inlineElements_end (by simp) (by simp),
        addPiece_of_quote (by simp), elementCount_addArrayElement]
  | cut a b hno ih =>
      have hcount := ih (fun hm => hcomma (by simp [hm])) (addPiece stod arr a)
      have hle := elementCount_addPiece_le stod arr a
      rw [List.append_assoc, List.cons_append, inlineElements_bracket hno (by simpa using hcomma)]
      omega

variable (stod) in
/-- The rest of the last string behind a cut. -/
theorem elementCount_rest_last (b : Str) (arr : YamlValue D) :
    elementCount arr + 1 ≤ elementCount (inlineElements stod (b ++ ['"', ']']) arr) := by
  induction b using cut_induction ',' generalizing arr with
  | piece b hcomma => exact elementCount_rest_bracket stod hcomma arr
  | cut a b hno ih =>
      have hcount := ih (addPiece stod arr a)
      have hle := elementCount_addPiece_le stod arr a
      rw [List.append_assoc, List.cons_append, inlineElements_comma hno]
      omega

/-- A quoted string cut at one of its characters. -/
theorem quote_append_cons (a b : Str) (c : Char) (rest : Str) :
    quote (a ++ c :: b) ++ rest = ('"' :: a) ++ c :: (b ++ '"' :: rest) := by
  simp [quote]

variable (stod) in
/-- A string with a comma makes at least two elements, in front of the next
    item. -/
theorem inlineElements_comma_item {s : Str} (hcomma : ',' ∈ s) (arr : YamlValue D)
    (rest : Str) :
    ∃ arr', elementCount arr + 2 ≤ elementCount arr'
      ∧ inlineElements stod (quote s ++ ',' :: rest) arr = inlineElements stod rest arr' := by
  obtain ⟨a, b, rfl, hno⟩ := List.eq_append_cons_of_mem hcomma
  obtain ⟨arr', hcount, heq⟩ := inlineElements_rest stod rest b
    (addPiece stod arr ('"' :: a))
  refine ⟨arr', ?_, ?_⟩
  · rw [addPiece_of_quote (by simp), elementCount_addArrayElement] at hcount
    exact hcount
  · rw [← heq, ← inlineElements_comma (by simpa using hno), quote_append_cons]

variable (stod) in
/-- The last one does so with a bracket, too. -/
theorem elementCount_last_item {s : Str} (h : ',' ∈ s ∨ ']' ∈ s) (arr : YamlValue D) :
    elementCount arr + 2 ≤ elementCount (inlineElements stod (quote s ++ [']']) arr) := by
  by_cases hcomma : ',' ∈ s
  · obtain ⟨a, b, rfl, hno⟩ := List.eq_append_cons_of_mem hcomma
    have hcount := elementCount_rest_last stod b (addPiece stod arr ('"' :: a))
    rw [← inlineElements_comma (by simpa using hno), addPiece_of_quote (by simp),
      elementCount_addArrayElement] at hcount
    rw [quote_append_cons]
    exact hcount
  · obtain ⟨a, b, rfl, hno⟩ := List.eq_append_cons_of_mem (h.resolve_left hcomma)
    have hcount := elementCount_rest_last stod b (addPiece stod arr ('"' :: a))
    rw [← inlineElements_bracket (by simpa using hno) (by simpa using hcomma),
      addPiece_of_quote (by simp), elementCount_addArrayElement] at hcount
    rw [quote_append_cons]
    exact hcount

/-- An item without a comma is one element. -/
theorem inlineElements_item {s : Str} (hs : '\n' ∉ s) (hcomma : ',' ∉ s) (arr : YamlValue D)
    (rest : Str) :
    inlineElements stod (quote s ++ ',' :: rest) arr
      = inlineElements stod rest (arr.addArrayElement (.string s)) := by
  rw [inlineElements_comma (by simpa [quote] using hcomma), addPiece_quote hs]

/-- The last item ends at the bracket. -/
theorem inlineElements_last_item {s : Str} (hs : '\n' ∉ s) (hcomma : ',' ∉ s)
    (hbracket : ']' ∉ s) (arr : YamlValue D) :
    inlineElements stod (quote s ++ [']']) arr = arr.addArrayElement (.string s) := by
  rw [inlineElements_bracket (by simpa [quote] using hbracket) (by simpa [quote] using hcomma),
    addPiece_quote hs, inlineElements_end (by simp) (by simp)]

/-- No item but the last may have a comma. -/
theorem inlineFits_cons {s t : Str} {ss : List Str} :
    InlineFits (s :: t :: ss) ↔ ',' ∉ s ∧ InlineFits (t :: ss) := by
  rw [InlineFits, InlineFits, List.forall_mem_cons, List.getLast?_cons_cons, and_assoc]

/-- Without an item there is no element. -/
theorem inlineElements_empty : inlineElements stod (inlineBody []) .null = .null := by
  show inlineElements stod ([] ++ [']']) .null = .null
  rw [inlineElements_bracket (by simp) (by simp), inlineElements_end (by simp) (by simp)]
  rfl

/-- Where everything fits, the strings come back. -/
theorem inlineElements_fits {ss : List Str} (hne : ss ≠ []) (h : ∀ s ∈ ss, '\n' ∉ s)
    (hfits : InlineFits ss) :
    ∀ arr, inlineElements stod (inlineBody ss) arr = arr.addElements (ss.map .string) := by
  induction ss with
  | nil => exact absurd rfl hne
  | cons s ss ih =>
      intro arr
      have hs := h s List.mem_cons_self
      cases ss with
      | nil =>
          exact inlineElements_last_item hs (hfits.1 s List.mem_cons_self) (hfits.2 s rfl) arr
      | cons t ts =>
          obtain ⟨hcomma, hrest⟩ := inlineFits_cons.mp hfits
          rw [inlineBody, inlineElements_item hs hcomma, inlineElements_space,
            ih (by simp) (fun x hx => h x (List.mem_cons_of_mem _ hx)) hrest]
          rfl

variable (stod) in
/-- There are never fewer elements than strings, and more where something does
    not fit. -/
theorem elementCount_inlineBody {ss : List Str} (hne : ss ≠ []) (h : ∀ s ∈ ss, '\n' ∉ s) :
    ∀ arr, elementCount arr + ss.length ≤ elementCount (inlineElements stod (inlineBody ss) arr)
      ∧ (¬ InlineFits ss →
          elementCount arr + ss.length < elementCount (inlineElements stod (inlineBody ss) arr)) := by
  induction ss with
  | nil => exact absurd rfl hne
  | cons s ss ih =>
      intro arr
      have hs := h s List.mem_cons_self
      cases ss with
      | nil =>
          by_cases hbad : ',' ∈ s ∨ ']' ∈ s
          · have hcount := elementCount_last_item stod hbad arr
            exact ⟨Nat.le_of_succ_le hcount, fun _ => hcount⟩
          · obtain ⟨hcomma, hbracket⟩ := not_or.mp hbad
            rw [inlineBody, inlineElements_last_item hs hcomma hbracket,
              elementCount_addArrayElement]
            refine ⟨le_rfl, fun hno => absurd ⟨?_, ?_⟩ hno⟩
            · exact List.forall_mem_singleton.mpr hcomma
            · rintro x hx
              cases hx
              exact hbracket
      | cons t ts =>
          have hrest := ih (by simp) (fun x hx => h x (List.mem_cons_of_mem _ hx))
          rw [inlineBody, inlineFits_cons]
          by_cases hcomma : ',' ∈ s
          · obtain ⟨arr', hcount, heq⟩ := inlineElements_comma_item stod hcomma arr
              (' ' :: inlineBody (t :: ts))
            rw [heq, inlineElements_space]
            have hle := (hrest arr').1
            rw [List.length_cons]
            exact ⟨by omega, fun _ => by omega⟩
          · rw [inlineElements_item hs hcomma, inlineElements_space]
            have hle := hrest (arr.addArrayElement (.string s))
            rw [elementCount_addArrayElement] at hle
            rw [List.length_cons]
            refine ⟨by omega, fun hno => ?_⟩
            have hlt := hle.2 (fun hfits => hno ⟨hcomma, hfits⟩)
            omega

/-- An inline array has no blanks at its ends. -/
theorem trimmed_inline (ss : List Str) : Trimmed ('[' :: inlineBody ss) := by
  have hlast : ∀ ss : List Str, ∃ b, inlineBody ss = b ++ [']'] := by
    intro ss
    induction ss with
    | nil => exact ⟨[], rfl⟩
    | cons s ss ih =>
        cases ss with
        | nil => exact ⟨quote s, rfl⟩
        | cons t ts =>
            obtain ⟨b, hb⟩ := ih
            exact ⟨quote s ++ ',' :: ' ' :: b, by rw [inlineBody, hb]; simp⟩
  obtain ⟨b, hb⟩ := hlast ss
  have hopen : Trimmed ['['] := by decide
  have hclose : Trimmed [']'] := by decide
  rw [hb]
  exact hopen.append hclose (by simp) (by simp) b

/-- It stays on its line. -/
theorem no_newline_inlineBody {ss : List Str} (h : ∀ s ∈ ss, '\n' ∉ s) :
    '\n' ∉ inlineBody ss := by
  induction ss with
  | nil => decide
  | cons s ss ih =>
      have hs := (isToken_quote (h s List.mem_cons_self)).no_newline
      cases ss with
      | nil => simpa [inlineBody] using hs
      | cons t ts =>
          have hrest := ih (fun x hx => h x (List.mem_cons_of_mem _ hx))
          simpa [inlineBody] using ⟨hs, hrest⟩

/-- A key with an inline array behind it. -/
theorem runDocument_inlineLine (key : Key) (ss : List Str) :
    runDocument stod [inlineLine key ss]
      = some (.object [(key.text, inlineElements stod (inlineBody ss) .null)]) := by
  have htrim := trimmed_inline ss
  have hline : inlineLine key ss = lineAt 0 (fieldText key ('[' :: inlineBody ss)) := rfl
  rw [runDocument, hline, Frame.start, run_object_line htrim (Or.inl rfl), objectLine,
    trim_lineAt 0 (fieldText_trimmed key htrim), keyValue_fieldText key htrim]
  rfl

variable (stod) in
/-- **An inline array of quoted strings** comes back exactly if it is not
    empty, no string has a comma, and the last one has no bracket. -/
theorem parse_inline_iff (key : Key) (ss : List Str) (h : ∀ s ∈ ss, '\n' ∉ s) (content : Str)
    (hcontent : content = unlines [inlineLine key ss]
      ∨ content = (unlines [inlineLine key ss]).dropLast) :
    (∃ v, parse stod content = .ok (.ok v) ∧ v.field? key.text = some (.array (ss.map .string)))
      ↔ ss ≠ [] ∧ (∀ s ∈ ss, ',' ∉ s) ∧ ∀ s ∈ ss.getLast?, ']' ∉ s := by
  have hwritable : ∀ l ∈ [inlineLine key ss], Writable l := by
    refine List.forall_mem_singleton.mpr ?_
    exact ⟨fieldText_ne_nil _ _,
      no_newline_fieldText _ (by simpa using no_newline_inlineBody h)⟩
  have hparse : parse stod content
      = .ok (.ok (.object [(key.text, inlineElements stod (inlineBody ss) .null)])) := by
    rw [parse_eq_runDocument, linesOf_of_writable hwritable hcontent,
      runDocument_inlineLine key ss]
  have hfield : (YamlValue.object
        [(key.text, inlineElements stod (inlineBody ss) .null)]).field? key.text
      = some (inlineElements stod (inlineBody ss) .null) :=
    YamlValue.field?_setObjectField_self .null _ key.text
  constructor
  · rintro ⟨v, hv, harray⟩
    rw [hparse] at hv
    cases hv
    rw [hfield] at harray
    have helements := Option.some.inj harray
    have hne : ss ≠ [] := by
      rintro rfl
      -- no element is added, and what no element was added to is no array
      rw [inlineElements_empty] at helements
      cases helements
    refine ⟨hne, by_contra (fun hno => ?_)⟩
    have hcount := (elementCount_inlineBody stod hne h .null).2 hno
    rw [helements] at hcount
    simp [elementCount, YamlValue.array?] at hcount
  · rintro ⟨hne, hfits⟩
    refine ⟨_, hparse, ?_⟩
    rw [hfield, inlineElements_fits hne h hfits, YamlValue.addElements_null (by simpa using hne)]

/-- A bracket in front of the end is read as part of the item. -/
theorem parse_inline_iff_topics :
    ∃ v, parse (fun _ => (none : Option Nat)) "k: [\"a]\", \"b: c\"]".toList = .ok (.ok v)
      ∧ v.field? "k".toList = some (.array [.string "a]".toList, .string "b: c".toList]) :=
  (parse_inline_iff (fun _ => (none : Option Nat)) (Key.ofText "k".toList (by decide))
    ["a]".toList, "b: c".toList] (by decide) _ (Or.inr (by decide))).mpr (by decide)

/-- No item, and an item with a comma. -/
theorem parse_inline_empty :
    (¬ ∃ v, parse (fun _ => (none : Option Nat)) "k: []".toList = .ok (.ok v)
        ∧ v.field? "k".toList = some (.array []))
    ∧ ¬ ∃ v, parse (fun _ => (none : Option Nat)) "k: [\"a,b\"]".toList = .ok (.ok v)
        ∧ v.field? "k".toList = some (.array [.string "a,b".toList]) := by
  have hempty : linesOf "k: []".toList
      = [inlineLine (Key.ofText "k".toList (by decide)) []] := by
    decide
  have hcomma : linesOf "k: [\"a,b\"]".toList
      = [inlineLine (Key.ofText "k".toList (by decide)) ["a,b".toList]] := by
    decide
  refine ⟨?_, ?_⟩
  · rintro ⟨v, hv, hfield⟩
    rw [parse_eq_runDocument, hempty, runDocument_inlineLine] at hv
    cases hv
    rw [inlineElements_empty] at hfield
    cases hfield
  · rintro ⟨v, hv, hfield⟩
    rw [parse_eq_runDocument, hcomma, runDocument_inlineLine] at hv
    cases hv
    -- the comma makes two elements of the one string
    have hcount := elementCount_last_item (fun _ => (none : Option Nat)) (s := "a,b".toList)
      (Or.inl (by decide)) .null
    have helements : inlineElements (fun _ => (none : Option Nat)) (inlineBody ["a,b".toList])
        .null = .array [.string "a,b".toList] := Option.some.inj hfield
    rw [show inlineBody ["a,b".toList] = quote "a,b".toList ++ [']'] from rfl] at helements
    rw [helements] at hcount
    exact absurd hcount (by decide)

end Inline

end LaunchCpp.Yaml
