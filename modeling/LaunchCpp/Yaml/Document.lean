import LaunchCpp.Yaml.Reading
import LaunchCpp.Yaml.ParserRefinement

/-! # Launch-file documents: decoding undoes encoding

    The documented shape of a launch file: top-level fields, some of them
    lists of entities, whose fields are scalars or lists of scalars.  Lists
    that must not be empty are `Block`s, and keys are distinct by
    construction.  The leaves are any types `α` (field values) and `β` (list
    items); `scalar` and `item` say how they are written. -/

namespace LaunchCpp.Yaml

open OrderedMaps StringStreams

/-- A list with at least one entry. -/
structure Block (α : Type) where
  first : α
  others : List α

def Block.toList {α : Type} (b : Block α) : List α := b.first :: b.others

def Block.map {α β : Type} (f : α → β) (b : Block α) : Block β :=
  ⟨f b.first, b.others.map f⟩

/-- The value of an entity field. -/
inductive EntityValue (α β : Type) where
  | scalar (a : α)
  | sequence (items : Block β)

/-- An entity: fields with distinct keys. -/
structure Entity (α β : Type) where
  fields : Block (Key × EntityValue α β)
  distinct : (fields.toList.map (fun f => f.1.text)).Nodup

/-- The value of a top-level field. -/
inductive TopValue (α β : Type) where
  | scalar (a : α)
  | entities (es : Block (Entity α β))

/-- A document: top-level fields with distinct keys. -/
structure Document (α β : Type) where
  fields : List (Key × TopValue α β)
  distinct : (fields.map (fun f => f.1.text)).Nodup

section Encode

variable {α β : Type} (scalar : α → Str) (item : β → Str)

/-- The text behind the key of an entity field, and the lines below it. -/
def EntityValue.text : EntityValue α β → Str
  | .scalar a => scalar a
  | .sequence _ => []

def EntityValue.below : EntityValue α β → List Str
  | .scalar _ => []
  | .sequence items => (items.map item).toList.map (dashAt 6)

/-- A field behind the first one of an entity. -/
def fieldLines (f : Key × EntityValue α β) : List Str :=
  lineAt 4 (fieldText f.1 (f.2.text scalar)) :: f.2.below item

def Entity.lines (e : Entity α β) : List Str :=
  dashAt 2 (fieldText e.fields.first.1 (e.fields.first.2.text scalar))
    :: e.fields.first.2.below item ++ e.fields.others.flatMap (fieldLines scalar item)

def TopValue.text : TopValue α β → Str
  | .scalar a => scalar a
  | .entities _ => []

def TopValue.below : TopValue α β → List Str
  | .scalar _ => []
  | .entities es => es.toList.flatMap (Entity.lines scalar item)

def topLines (f : Key × TopValue α β) : List Str :=
  lineAt 0 (fieldText f.1 (f.2.text scalar)) :: f.2.below scalar item

/-- The lines of a document. -/
def Document.lines (d : Document α β) : List Str :=
  d.fields.flatMap (topLines scalar item)

end Encode

section Decode

variable {α β D : Type} (scalar : α → YamlValue D) (item : β → YamlValue D)

def EntityValue.value : EntityValue α β → YamlValue D
  | .scalar a => scalar a
  | .sequence items => .array (items.toList.map item)

/-- The object an entity stands for. -/
def Entity.value (e : Entity α β) : YamlValue D :=
  .object (ofEntries (e.fields.toList.map (fun f => (f.1.text, f.2.value scalar item))))

def TopValue.value : TopValue α β → YamlValue D
  | .scalar a => scalar a
  | .entities es => .array (es.toList.map (Entity.value scalar item))

/-- The object a document stands for. -/
def Document.value (d : Document α β) : YamlValue D :=
  .object (ofEntries (d.fields.map (fun f => (f.1.text, f.2.value scalar item))))

end Decode

/-! ## Reading a document back -/

section RoundTrip

variable {α β D : Type} {stod : Str → Option D} {scalar : α → Str} {item : β → Str}
  {K : Stack D} {rest : List Str} {acc : YamlValue D}

/-- What `parse_scalar` makes of a written leaf. -/
def leafValue (stod : Str → Option D) {γ : Type} (text : γ → Str) (c : γ) : YamlValue D :=
  scalarValue stod (text c)

variable (hscalar : ∀ a, IsToken (scalar a)) (hitem : ∀ b, IsToken (item b) ∧ ':' ∉ item b)

include hscalar in
theorem EntityValue.text_trimmed (v : EntityValue α β) : Trimmed (v.text scalar) := by
  cases v with
  | scalar a => exact (hscalar a).trimmed
  | sequence items => exact trimmed_nil

include hscalar in
theorem TopValue.text_trimmed (v : TopValue α β) : Trimmed (v.text scalar) := by
  cases v with
  | scalar a => exact (hscalar a).trimmed
  | entities es => exact trimmed_nil

include hscalar hitem

/-- A field of an entity, from the line of its key on. -/
theorem run_entityValue (v : EntityValue α β) (f : Frame D) {threshold : Nat} (k : Str)
    (hlt : threshold < 6) (hends : Ends 5 rest) :
    run stod (elementField stod f K threshold (v.below item ++ rest) k (v.text scalar))
        (v.below item ++ rest)
      = run stod (.running (f.put (.field k)
          (v.value (leafValue stod scalar) (leafValue stod item))) K) rest := by
  cases v with
  | scalar a =>
      show run stod (elementField stod f K threshold rest k (scalar a)) rest = _
      rw [elementField_scalar f threshold k (hscalar a).ne_nil]
      rfl
  | sequence items =>
      have hitems : ∀ x ∈ item items.first :: items.others.map item, IsToken x ∧ ':' ∉ x := by
        intro x hx
        obtain ⟨b, -, rfl⟩ := List.mem_map.mp
          (show x ∈ (items.first :: items.others).map item from hx)
        exact hitem b
      refine (elementField_sequence hitems hlt (hends.mono (by omega : 5 ≤ 6))).trans ?_
      rw [show (item items.first :: items.others.map item).map (scalarValue stod)
        = items.toList.map (leafValue stod item) by
          simp [Block.toList, leafValue, Function.comp_def]]
      rfl

/-- The fields behind the first one of an entity. -/
theorem run_fieldLines (fs : List (Key × EntityValue α β)) (hends : Ends 5 rest) :
    run stod (.running ⟨.element, 2, acc⟩ K)
        (fs.flatMap (fieldLines scalar item) ++ rest)
      = run stod (.running ⟨.element, 2, acc.setFields (fs.map (fun f =>
          (f.1.text, f.2.value (leafValue stod scalar) (leafValue stod item))))⟩ K)
          rest := by
  induction fs generalizing acc with
  | nil => rfl
  | cons f fs ih =>
      have htail : Ends 5 (fs.flatMap (fieldLines scalar item) ++ rest) := by
        cases fs with
        | nil => exact hends
        | cons g gs =>
            exact ends_lineAt (fieldText_trimmed _ (g.2.text_trimmed hscalar))
              (isSkipped_fieldText _ _) (by omega) _
      rw [List.flatMap_cons, List.append_assoc]
      show run stod _ (lineAt 4 (fieldText f.1 (f.2.text scalar))
        :: (f.2.below item ++ (fs.flatMap (fieldLines scalar item) ++ rest))) = _
      rw [run_element_field (f.2.text_trimmed hscalar) (by omega),
        run_entityValue hscalar hitem f.2 _ _ (by omega) htail]
      exact ih

/-- An entity of the array. -/
theorem run_entity (e : Entity α β) (hends : Ends 3 rest) :
    run stod (.running ⟨.array, 2, acc⟩ K) (e.lines scalar item ++ rest)
      = run stod (.running ⟨.array, 2, acc.addArrayElement
          (e.value (leafValue stod scalar) (leafValue stod item))⟩ K) rest := by
  have htail : Ends 5 (e.fields.others.flatMap (fieldLines scalar item) ++ rest) := by
    cases he : e.fields.others with
    | nil => exact hends.mono (by omega)
    | cons g gs =>
        exact ends_lineAt (fieldText_trimmed _ (g.2.text_trimmed hscalar))
          (isSkipped_fieldText _ _) (by omega) _
  show run stod _ (dashAt 2 (fieldText e.fields.first.1 (e.fields.first.2.text scalar))
    :: ((e.fields.first.2.below item ++ e.fields.others.flatMap (fieldLines scalar item))
      ++ rest)) = _
  rw [run_array_field (e.fields.first.2.text_trimmed hscalar) le_rfl, List.append_assoc,
    run_entityValue hscalar hitem e.fields.first.2 _ _ (by omega) htail]
  show run stod (.running ⟨.element, 2, _⟩ _) _ = _
  rw [run_fieldLines hscalar hitem e.fields.others (hends.mono (by omega)),
    run_element_ends hends]
  show run stod (.running ⟨.array, 2, acc.addArrayElement _⟩ K) rest = _
  congr 4
  have hne : e.fields.toList.map (fun f =>
      (f.1.text, f.2.value (leafValue stod scalar) (leafValue stod item))) ≠ [] := by
    simp [Block.toList]
  exact YamlValue.setFields_null hne

theorem run_entities (es : List (Entity α β)) (hends : Ends 3 rest) :
    run stod (.running ⟨.array, 2, acc⟩ K)
        (es.flatMap (Entity.lines scalar item) ++ rest)
      = run stod (.running ⟨.array, 2, acc.addElements
          (es.map (Entity.value (leafValue stod scalar) (leafValue stod item)))⟩ K) rest := by
  induction es generalizing acc with
  | nil => rfl
  | cons e es ih =>
      -- the next entity begins left of the fields of this one
      have htail : Ends 3 (es.flatMap (Entity.lines scalar item) ++ rest) := by
        cases es with
        | nil => exact hends
        | cons g gs =>
            exact ends_dashAt
              (fieldText_trimmed _ (g.fields.first.2.text_trimmed hscalar))
              (fieldText_ne_nil _ _) (by omega) _
      rw [List.flatMap_cons, List.append_assoc, run_entity hscalar hitem e htail]
      exact ih

/-- A top-level field. -/
theorem run_topLines (f : Key × TopValue α β) (hends : Ends 1 rest) :
    run stod (.running ⟨.object, 0, acc⟩ K) (topLines scalar item f ++ rest)
      = run stod (.running ⟨.object, 0, acc.setObjectField f.1.text
          (f.2.value (leafValue stod scalar) (leafValue stod item))⟩ K) rest := by
  obtain ⟨key, v⟩ := f
  cases v with
  | scalar a => exact run_object_scalar (hscalar a) (Or.inl rfl)
  | entities es =>
      have hfirst := es.first.fields.first.2.text_trimmed hscalar
      show run stod _ (lineAt 0 (fieldText key [])
        :: dashAt 2 (fieldText es.first.fields.first.1 (es.first.fields.first.2.text scalar))
        :: _) = _
      rw [run_object_nested (Or.inl rfl)
          (isSkipped_dashAt 2 (fieldText_trimmed _ hfirst) (fieldText_ne_nil _ _))
          (by rw [getIndent_dashAt]; omega),
        isDash_dashAt 2 (fieldText_trimmed _ hfirst) (fieldText_ne_nil _ _),
        getIndent_dashAt]
      show run stod (.running ⟨.array, 2, .null⟩ _)
        (es.toList.flatMap (Entity.lines scalar item) ++ rest) = _
      rw [run_entities hscalar hitem es.toList (hends.mono (by omega)),
        run_array_ends (hends.mono (by omega)),
        YamlValue.addElements_null (by simp [Block.toList])]
      rfl

theorem run_document (fs : List (Key × TopValue α β)) :
    run stod (.running ⟨.object, 0, acc⟩ K) (fs.flatMap (topLines scalar item))
      = run stod (.running ⟨.object, 0, acc.setFields (fs.map (fun f =>
          (f.1.text, f.2.value (leafValue stod scalar) (leafValue stod item))))⟩ K) [] := by
  induction fs generalizing acc with
  | nil => rfl
  | cons f fs ih =>
      have htail : Ends 1 (fs.flatMap (topLines scalar item)) := by
        cases fs with
        | nil => exact Ends.nil
        | cons g gs =>
            exact ends_lineAt (fieldText_trimmed _ (g.2.text_trimmed hscalar))
              (isSkipped_fieldText _ _) (by omega) _
      rw [List.flatMap_cons, run_topLines hscalar hitem f htail]
      exact ih

/-- **Decoding undoes encoding** on the lines of a document. -/
theorem runDocument_lines (d : Document α β) (hne : d.fields ≠ []) :
    runDocument stod (d.lines scalar item)
      = some (d.value (leafValue stod scalar) (leafValue stod item)) := by
  rw [runDocument, Document.lines]
  rw [Frame.start, run_document hscalar hitem d.fields,
    YamlValue.setFields_null (by simpa using hne)]
  rfl

/-! ## Texts -/

omit hitem in
theorem EntityValue.no_newline_text (v : EntityValue α β) : '\n' ∉ v.text scalar := by
  cases v with
  | scalar a => exact (hscalar a).no_newline
  | sequence items => exact List.not_mem_nil

omit hscalar in
theorem EntityValue.writable_below (v : EntityValue α β) :
    ∀ l ∈ v.below item, Writable l := by
  cases v with
  | scalar a => intro l hl; cases hl
  | sequence items =>
      intro l hl
      obtain ⟨t, ht, rfl⟩ := List.mem_map.mp hl
      obtain ⟨b, -, rfl⟩ := List.mem_map.mp
        (show t ∈ items.toList.map item from ht)
      exact writable_dashAt 6 (hitem b).1.no_newline

theorem writable_fieldLines (f : Key × EntityValue α β) :
    ∀ l ∈ fieldLines scalar item f, Writable l := by
  intro l hl
  rcases List.mem_cons.mp hl with rfl | hl
  · exact writable_lineAt 4 (fieldText_ne_nil _ _)
      (no_newline_fieldText _ (f.2.no_newline_text hscalar))
  · exact f.2.writable_below hitem l hl

theorem writable_entity (e : Entity α β) : ∀ l ∈ e.lines scalar item, Writable l := by
  intro l hl
  rcases List.mem_append.mp hl with hl | hl
  · rcases List.mem_cons.mp hl with rfl | hl
    · exact writable_dashAt 2 (no_newline_fieldText _
        (e.fields.first.2.no_newline_text hscalar))
    · exact e.fields.first.2.writable_below hitem l hl
  · obtain ⟨f, -, hl⟩ := List.mem_flatMap.mp hl
    exact writable_fieldLines hscalar hitem f l hl

theorem writable_lines (d : Document α β) : ∀ l ∈ d.lines scalar item, Writable l := by
  intro l hl
  obtain ⟨⟨key, v⟩, -, hl⟩ := List.mem_flatMap.mp hl
  cases v with
  | scalar a =>
      obtain rfl := List.mem_singleton.mp hl
      exact writable_lineAt 0 (fieldText_ne_nil _ _)
        (no_newline_fieldText _ (hscalar a).no_newline)
  | entities es =>
      rcases List.mem_cons.mp hl with rfl | hl
      · exact writable_lineAt 0 (fieldText_ne_nil _ _)
          (no_newline_fieldText _ List.not_mem_nil)
      · obtain ⟨e, -, hl⟩ := List.mem_flatMap.mp hl
        exact writable_entity hscalar hitem e l hl

/-- The text of a document, with or without its last newline, is parsed to
    the object it stands for. -/
theorem parse_lines (d : Document α β) (hne : d.fields ≠ []) {content : Str}
    (h : content = unlines (d.lines scalar item)
      ∨ content = (unlines (d.lines scalar item)).dropLast) :
    parse stod content
      = .ok (.ok (d.value (leafValue stod scalar) (leafValue stod item))) := by
  have hlines : linesOf content = d.lines scalar item := by
    have hw := writable_lines hscalar hitem d
    rcases h with rfl | rfl
    · exact linesOf_unlines (fun l hl => (hw l hl).2)
    · exact linesOf_unlines_dropLast hw
  rw [parse_eq_runDocument, hlines, runDocument_lines hscalar hitem d hne]

end RoundTrip

/-! ## Documents of double-quoted strings -/

/-- A string content: one line. -/
abbrev Content := { s : Str // '\n' ∉ s }

/-- The content of a list item. -/
abbrev ItemContent := { s : Str // '\n' ∉ s ∧ ':' ∉ s }

/-- The text of a document of double-quoted strings. -/
def Document.render (d : Document Content ItemContent) : Str :=
  unlines (d.lines (fun s => quote s.val) (fun s => quote s.val))

/-- The object it stands for. -/
def Document.decoded (D : Type) (d : Document Content ItemContent) : YamlValue D :=
  d.value (fun s => .string s.val) (fun s => .string s.val)

/-- **`parse` undoes the rendering** of every document with a field, whatever
    the strings are, with or without the last newline. -/
theorem parse_render {D : Type} (stod : Str → Option D)
    (d : Document Content ItemContent) (hne : d.fields ≠ []) :
    parse stod d.render = .ok (.ok (d.decoded D))
      ∧ parse stod d.render.dropLast = .ok (.ok (d.decoded D)) := by
  have hscalar : ∀ a : Content, IsToken (quote a.val) := fun a => isToken_quote a.property
  have hitem : ∀ b : ItemContent, IsToken (quote b.val) ∧ ':' ∉ quote b.val := by
    intro b
    exact ⟨isToken_quote b.property.1, by simpa [quote] using b.property.2⟩
  have hvalue : d.value (leafValue stod fun s : Content => quote s.val)
      (leafValue stod fun s : ItemContent => quote s.val) = d.decoded D := by
    have h1 : (leafValue stod fun s : Content => quote s.val)
        = fun s => .string s.val := by
      funext s
      exact scalarValue_quote stod s.property
    have h2 : (leafValue stod fun s : ItemContent => quote s.val)
        = fun s => .string s.val := by
      funext s
      exact scalarValue_quote stod s.property.1
    rw [h1, h2, Document.decoded]
  rw [← hvalue]
  exact ⟨parse_lines hscalar hitem d hne (Or.inl rfl),
    parse_lines hscalar hitem d hne (Or.inr rfl)⟩

/-! ## A launch file -/

/-- The key of the list of entities. -/
def entitiesKey : Key := .ofText "entities".toList (by decide)

def typeKey : Key := .ofText "type".toList (by decide)

def cmdKey : Key := .ofText "cmd".toList (by decide)

def dependsOnKey : Key := .ofText "depends_on".toList (by decide)

/-- A version and one entity, the command of which is a sequence of two words. -/
def echoDocument : Document Content ItemContent where
  fields :=
    [(.ofText "version".toList (by decide), .scalar ⟨"1.0".toList, by decide⟩),
      (entitiesKey, .entities
        ⟨⟨⟨(typeKey, .scalar ⟨"execute_process".toList, by decide⟩),
          [(cmdKey, .sequence ⟨⟨"echo".toList, by decide⟩, [⟨"true".toList, by decide⟩]⟩)]⟩,
          by decide⟩, []⟩)]
  distinct := by decide

theorem parse_render_echo :
    parse (fun _ => (none : Option Nat))
        ("version: \"1.0\"\nentities:\n  - type: \"execute_process\"\n    cmd:\n"
          ++ "      - \"echo\"\n      - \"true\"\n").toList
      = .ok (.ok (.object
        [("entities".toList, .array [.object
          [("cmd".toList, .array [.string "echo".toList, .string "true".toList]),
            ("type".toList, .string "execute_process".toList)]]),
          ("version".toList, .string "1.0".toList)])) :=
  (parse_render (fun _ => (none : Option Nat)) echoDocument (List.cons_ne_nil _ _)).1

/-- Without a field there is nothing that makes the value an object. -/
theorem parse_render_no_fields :
    parse (fun _ => (none : Option Nat))
        (⟨[], List.nodup_nil⟩ : Document Content ItemContent).render
      ≠ .ok (.ok ((⟨[], List.nodup_nil⟩ : Document Content ItemContent).decoded Nat)) := by
  intro h
  cases (Except.ok.inj (Except.ok.inj h) : (YamlValue.null : YamlValue Nat) = .object [])

end LaunchCpp.Yaml
