import LaunchCpp.Yaml.Document

/-! # Nested mappings

    Mappings within mappings, two more spaces for each level.  An object
    reader that meets a dedented line returns WITHOUT putting the line back,
    so the field behind a nested mapping is lost; the text is read back
    exactly when no field follows a nested one.

    For that direction of the equivalence in which something is lost, fields
    are counted: reading a line makes at most one field, a line that ends a
    nested object makes none, and a mapping with distinct keys has as many
    fields as lines. -/

namespace LaunchCpp.Yaml

open OrderedMaps StringStreams

/-- A mapping: one field or more, each a string or a mapping. -/
inductive Mapping where
  | lastLeaf (key : Key) (s : Content)
  | lastNested (key : Key) (below : Mapping)
  | leaf (key : Key) (s : Content) (rest : Mapping)
  | nested (key : Key) (below rest : Mapping)

namespace Mapping

/-- The keys of the mapping itself. -/
def keys : Mapping → List Str
  | lastLeaf key _ => [key.text]
  | lastNested key _ => [key.text]
  | leaf key _ rest => key.text :: rest.keys
  | nested key _ rest => key.text :: rest.keys

/-- Keys are distinct within every mapping. -/
def Distinct : Mapping → Prop
  | lastLeaf _ _ => True
  | lastNested _ below => below.Distinct
  | leaf key _ rest => key.text ∉ rest.keys ∧ rest.Distinct
  | nested key below rest => key.text ∉ rest.keys ∧ below.Distinct ∧ rest.Distinct

/-- Only the last field of every mapping may be a mapping. -/
def NestedLast : Mapping → Prop
  | lastLeaf _ _ => True
  | lastNested _ below => below.NestedLast
  | leaf _ _ rest => rest.NestedLast
  | nested _ _ _ => False

/-- The lines of a mapping at an indent. -/
def lines : Mapping → Nat → List Str
  | lastLeaf key s, n => [lineAt n (fieldText key (quote s))]
  | lastNested key below, n => lineAt n (fieldText key []) :: below.lines (n + 2)
  | leaf key s rest, n => lineAt n (fieldText key (quote s)) :: rest.lines n
  | nested key below rest, n =>
      lineAt n (fieldText key []) :: (below.lines (n + 2) ++ rest.lines n)

/-- The fields it stands for. -/
def fields (D : Type) : Mapping → List (Str × YamlValue D)
  | lastLeaf key s => [(key.text, .string s)]
  | lastNested key below => [(key.text, .object (ofEntries (below.fields D)))]
  | leaf key s rest => (key.text, .string s) :: rest.fields D
  | nested key below rest =>
      (key.text, .object (ofEntries (below.fields D))) :: rest.fields D

/-- The object it stands for. -/
def value (D : Type) (m : Mapping) : YamlValue D := .object (ofEntries (m.fields D))

/-- The text of a document that is this mapping. -/
def text (m : Mapping) : Str := unlines (m.lines 0)

variable {D : Type}

/-- A mapping is not empty. -/
theorem fields_ne_nil (m : Mapping) : m.fields D ≠ [] := by
  cases m with
  | lastLeaf key s => exact List.cons_ne_nil _ _
  | lastNested key below => exact List.cons_ne_nil _ _
  | leaf key s rest => exact List.cons_ne_nil _ _
  | nested key below rest => exact List.cons_ne_nil _ _

/-- Its keys are those of its fields. -/
theorem map_fst_fields (m : Mapping) : (m.fields D).map Prod.fst = m.keys := by
  induction m with
  | lastLeaf key s => rfl
  | lastNested key below _ => rfl
  | leaf key s rest ih => exact congrArg _ ih
  | nested key below rest _ ih => exact congrArg _ ih

/-- No key stands twice in a mapping of distinct keys. -/
theorem Distinct.nodup_keys {m : Mapping} (h : m.Distinct) : m.keys.Nodup := by
  induction m with
  | lastLeaf key s => exact List.nodup_singleton _
  | lastNested key below _ => exact List.nodup_singleton _
  | leaf key s rest ih => exact List.nodup_cons.mpr ⟨h.1, ih h.2⟩
  | nested key below rest _ ih => exact List.nodup_cons.mpr ⟨h.1, ih h.2.2⟩

end Mapping

/-! ## Lines of mappings -/

/-- A field with a string, or without a value. -/
def MappingLine (l : Str) : Prop :=
  ∃ (n : Nat) (key : Key) (v : Str), l = lineAt n (fieldText key v)
    ∧ (v = [] ∨ ∃ s : Content, v = quote s)

/-- A line of a mapping is read, and is no item. -/
theorem MappingLine.counts {l : Str} (h : MappingLine l) :
    isSkipped (trim l) = false ∧ isDash (trim l) = false := by
  obtain ⟨n, key, v, rfl, hv⟩ := h
  have htrim : Trimmed v := by
    rcases hv with rfl | ⟨s, rfl⟩
    · exact trimmed_nil
    · exact (isToken_quote s.property).trimmed
  rw [trim_lineAt n (fieldText_trimmed key htrim)]
  exact ⟨isSkipped_fieldText key v, isDash_fieldText key v⟩

/-- A scalar field is such a line. -/
theorem mappingLine_leaf (n : Nat) (key : Key) (s : Content) :
    MappingLine (lineAt n (fieldText key (quote s))) :=
  ⟨n, key, _, rfl, Or.inr ⟨s, rfl⟩⟩

/-- A key with a mapping below it, too. -/
theorem mappingLine_nested (n : Nat) (key : Key) :
    MappingLine (lineAt n (fieldText key [])) :=
  ⟨n, key, _, rfl, Or.inl rfl⟩

namespace Mapping

variable {D : Type} {stod : Str → Option D} {K : Stack D} {rest : List Str}

/-- All lines of a mapping are. -/
theorem mappingLine_of_mem {m : Mapping} {n : Nat} {l : Str} (h : l ∈ m.lines n) :
    MappingLine l := by
  induction m generalizing n with
  | lastLeaf key s =>
      rw [List.mem_singleton.mp h]
      exact mappingLine_leaf n key s
  | lastNested key below ih =>
      rcases List.mem_cons.mp h with rfl | h
      · exact mappingLine_nested n key
      · exact ih h
  | leaf key s rest ih =>
      rcases List.mem_cons.mp h with rfl | h
      · exact mappingLine_leaf n key s
      · exact ih h
  | nested key below rest ihb ihr =>
      rcases List.mem_cons.mp h with rfl | h
      · exact mappingLine_nested n key
      · rcases List.mem_append.mp h with h | h
        · exact ihb h
        · exact ihr h

/-- The first line of a mapping stands at its indent. -/
theorem lines_eq_cons (m : Mapping) (n : Nat) :
    ∃ l ls, m.lines n = l :: ls ∧ MappingLine l ∧ getIndent l = n := by
  have hleaf : ∀ (key : Key) (s : Content),
      getIndent (lineAt n (fieldText key (quote s))) = n := fun key s =>
    getIndent_lineAt n (fieldText_trimmed key (isToken_quote s.property).trimmed)
  have hnested : ∀ key : Key, getIndent (lineAt n (fieldText key [])) = n := fun key =>
    getIndent_lineAt n (fieldText_trimmed key trimmed_nil)
  cases m with
  | lastLeaf key s => exact ⟨_, _, rfl, mappingLine_leaf n key s, hleaf key s⟩
  | lastNested key below => exact ⟨_, _, rfl, mappingLine_nested n key, hnested key⟩
  | leaf key s rest => exact ⟨_, _, rfl, mappingLine_leaf n key s, hleaf key s⟩
  | nested key below rest => exact ⟨_, _, rfl, mappingLine_nested n key, hnested key⟩

/-! ## Reading where nothing follows a nested mapping -/

/-- The readers behind the lines of a mapping: those of the last nested
    mappings are still open. -/
def opened : Mapping → Nat → YamlValue D → Stack D → Frame D × Stack D
  | lastLeaf key s, n, acc, K => (⟨.object, n, acc.setObjectField key.text (.string s)⟩, K)
  | lastNested key below, n, acc, K =>
      below.opened (n + 2) .null ((⟨.object, n, acc⟩, .field key.text) :: K)
  | leaf key s rest, n, acc, K =>
      rest.opened n (acc.setObjectField key.text (.string s)) K
  -- not `NestedLast`: no run is described by this case
  | nested _ _ _, n, acc, K => (⟨.object, n, acc⟩, K)

/-- A scalar is set where it stands. -/
theorem run_leaf_line (key : Key) (s : Content) (n : Nat) (acc : YamlValue D) :
    run stod (.running ⟨.object, n, acc⟩ K)
        (lineAt n (fieldText key (quote s)) :: rest)
      = run stod (.running ⟨.object, n, acc.setObjectField key.text (.string s)⟩ K)
          rest := by
  rw [run_object_scalar (isToken_quote s.property) (Or.inr le_rfl),
    scalarValue_quote stod s.property]

/-- A key without a value opens the mapping below it. -/
theorem run_nested_line (key : Key) (below : Mapping) (n : Nat) (acc : YamlValue D) :
    run stod (.running ⟨.object, n, acc⟩ K)
        (lineAt n (fieldText key []) :: (below.lines (n + 2) ++ rest))
      = run stod (.running ⟨.object, n + 2, .null⟩
          ((⟨.object, n, acc⟩, .field key.text) :: K)) (below.lines (n + 2) ++ rest) := by
  obtain ⟨l, ls, hlines, hline, hindent⟩ := below.lines_eq_cons (n + 2)
  obtain ⟨hskip, hdash⟩ := hline.counts
  rw [hlines, List.cons_append,
    run_object_nested (Or.inr le_rfl) hskip (by rw [hindent]; omega), hdash, hindent]
  rfl

/-- **A mapping whose last fields are nested** leaves all of them open. -/
theorem run_opened {m : Mapping} (h : m.NestedLast) (n : Nat) (acc : YamlValue D)
    (K : Stack D) :
    run stod (.running ⟨.object, n, acc⟩ K) (m.lines n ++ rest)
      = run stod (.running (m.opened n acc K).1 (m.opened n acc K).2) rest := by
  induction m generalizing n acc K with
  | lastLeaf key s => exact run_leaf_line key s n acc
  | lastNested key below ih => exact (run_nested_line key below n acc).trans (ih h _ _ _)
  | leaf key s r ih => exact (run_leaf_line key s n acc).trans (ih h _ _ _)
  | nested key below r => exact absurd h not_false

/-- At the end of the text the open readers return the mapping. -/
theorem unwind_opened {m : Mapping} (h : m.NestedLast) (n : Nat) (acc : YamlValue D)
    (K : Stack D) :
    unwind (m.opened n acc K).1.acc (m.opened n acc K).2
      = unwind (acc.setFields (m.fields D)) K := by
  induction m generalizing n acc K with
  | lastLeaf key s => rfl
  | lastNested key below ih =>
      refine (ih h (n + 2) .null _).trans ?_
      rw [YamlValue.setFields_null below.fields_ne_nil]
      rfl
  | leaf key s r ih => exact ih h n _ K
  | nested key below r => exact absurd h not_false

/-- **Such a document is read as what it says.** -/
theorem runDocument_of_nestedLast {m : Mapping} (h : m.NestedLast) :
    runDocument stod (m.lines 0) = some (m.value D) := by
  have hrun : run stod (.running ⟨.object, 0, .null⟩ []) (m.lines 0 ++ []) = _ :=
    run_opened h 0 .null []
  rw [List.append_nil] at hrun
  refine hrun.trans ?_
  show some (unwind (m.opened 0 .null []).1.acc (m.opened 0 .null []).2) = _
  rw [unwind_opened h, YamlValue.setFields_null m.fields_ne_nil]
  rfl

end Mapping

/-! ## Counting fields -/

section Counting

variable {D : Type}

mutual

/-- The fields of all objects in a value. -/
def fieldCount : YamlValue D → Nat
  | .array es => elementsCount es
  | .object fs => entriesCount fs
  | _ => 0

def elementsCount : List (YamlValue D) → Nat
  | [] => 0
  | v :: vs => fieldCount v + elementsCount vs

def entriesCount : List (Str × YamlValue D) → Nat
  | [] => 0
  | (_, v) :: fs => fieldCount v + 1 + entriesCount fs

end

/-- Fields are counted one by one. -/
theorem entriesCount_eq_sum (fs : List (Str × YamlValue D)) :
    entriesCount fs = (fs.map (fun f => fieldCount f.2 + 1)).sum := by
  induction fs with
  | nil => rfl
  | cons f fs ih => rw [entriesCount, ih]; rfl

/-- In any order. -/
theorem entriesCount_perm {fs gs : List (Str × YamlValue D)} (h : fs.Perm gs) :
    entriesCount fs = entriesCount gs := by
  rw [entriesCount_eq_sum, entriesCount_eq_sum]
  exact (h.map _).sum_nat

/-- Setting a field adds that field, at most. -/
theorem entriesCount_insertEntry_le (k : Str) (v : YamlValue D)
    (fs : List (Str × YamlValue D)) :
    entriesCount (insertEntry k v fs) ≤ entriesCount fs + fieldCount v + 1 := by
  induction fs with
  | nil => simp [insertEntry, entriesCount]
  | cons f fs ih =>
      obtain ⟨k', v'⟩ := f
      rw [insertEntry]
      split
      · simp only [entriesCount]; omega
      · split
        · simp only [entriesCount]; omega
        · simp only [entriesCount]; omega

/-- A field set makes at most one field more. -/
theorem fieldCount_setObjectField_le (acc v : YamlValue D) (k : Str) :
    fieldCount (acc.setObjectField k v) ≤ fieldCount acc + fieldCount v + 1 := by
  cases acc with
  | object fs => exact entriesCount_insertEntry_le k v fs
  | _ =>
      show entriesCount (insertEntry k v []) ≤ _
      have := entriesCount_insertEntry_le k v ([] : List (Str × YamlValue D))
      simp only [entriesCount] at this
      omega

/-- What the callers have, and a field each for the call they wait for. -/
def stackCount : Stack D → Nat
  | [] => 0
  | g :: K => fieldCount g.1.acc + 1 + stackCount K

/-- The callers are object readers that wait for the value of a field. -/
def ObjectStack (K : Stack D) : Prop :=
  ∀ g ∈ K, g.1.reader = .object ∧ ∃ key, g.2 = .field key

/-- A field of an object waits on the stack. -/
theorem ObjectStack.push {K : Stack D} (hK : ObjectStack K) (base : Nat) (acc : YamlValue D)
    (key : Str) : ObjectStack ((⟨.object, base, acc⟩, .field key) :: K) := by
  intro g hg
  rcases List.mem_cons.mp hg with rfl | hg
  · exact ⟨rfl, key, rfl⟩
  · exact hK g hg

/-- Returning adds no field that was not counted. -/
theorem fieldCount_unwind_le {K : Stack D} (hK : ObjectStack K) (v : YamlValue D) :
    fieldCount (unwind v K) ≤ fieldCount v + stackCount K := by
  induction K generalizing v with
  | nil => exact le_rfl
  | cons g K ih =>
      obtain ⟨f, slot⟩ := g
      obtain ⟨-, key, hslot⟩ := hK (f, slot) List.mem_cons_self
      simp only at hslot
      subst hslot
      have hle := ih (fun x hx => hK x (List.mem_cons_of_mem _ hx))
        (f.acc.setObjectField key v)
      have hset := fieldCount_setObjectField_le f.acc v key
      show fieldCount (unwind (f.acc.setObjectField key v) K) ≤ _
      simp only [stackCount]
      omega

variable {stod : Str → Option D}

/-- The bound on what a state makes of the rest of its lines. -/
def Bounded (stod : Str → Option D) (state : State D) (ls : List Str) (n : Nat) : Prop :=
  ∃ r, run stod state ls = some r ∧ fieldCount r ≤ n

/-- A bound may be larger. -/
theorem Bounded.mono {state : State D} {ls : List Str} {n m : Nat}
    (h : Bounded stod state ls n) (hle : n ≤ m) : Bounded stod state ls m := by
  obtain ⟨r, hr, hn⟩ := h
  exact ⟨r, hr, le_trans hn hle⟩

/-- An object reader that returns hands its fields to its caller. -/
theorem bounded_ret {ls : List Str} {m : Nat}
    (h : ∀ (base : Nat) (acc : YamlValue D) (K : Stack D), ObjectStack K →
      Bounded stod (.running ⟨.object, base, acc⟩ K) ls (fieldCount acc + stackCount K + m))
    (v : YamlValue D) {K : Stack D} (hK : ObjectStack K) :
    Bounded stod (State.ret v K) ls (fieldCount v + stackCount K + m) := by
  cases K with
  | nil => exact ⟨v, run_returned v ls, by omega⟩
  | cons g K =>
      obtain ⟨⟨reader, base, acc⟩, slot⟩ := g
      obtain ⟨hreader, key, hslot⟩ := hK _ List.mem_cons_self
      simp only at hreader hslot
      subst hreader hslot
      -- the caller waits for a field, which `stackCount` has paid for
      have hset := fieldCount_setObjectField_le acc v key
      refine (h base (acc.setObjectField key v) K
        (fun x hx => hK x (List.mem_cons_of_mem _ hx))).mono ?_
      simp only [stackCount]
      omega

/-- What the object reader does with a line: it sets a field to something
    without fields, or calls a nested object reader. -/
theorem objectLine_cases (stod : Str → Option D) {l : Str} {ls : List Str}
    (hline : MappingLine l) (hrest : ∀ x ∈ ls, MappingLine x) (base : Nat)
    (acc : YamlValue D) (K : Stack D) :
    (∃ k v, fieldCount v = 0 ∧ objectLine stod ⟨.object, base, acc⟩ K l ls
        = .running ⟨.object, base, acc.setObjectField k v⟩ K)
      ∨ ∃ n k, objectLine stod ⟨.object, base, acc⟩ K l ls
        = .running ⟨.object, n, .null⟩ ((⟨.object, base, acc⟩, .field k) :: K) := by
  obtain ⟨n, key, v, rfl, rfl | ⟨s, rfl⟩⟩ := hline
  · rw [objectLine, trim_lineAt n (fieldText_trimmed key trimmed_nil),
      keyValue_fieldText key trimmed_nil]
    simp only [if_true]
    cases hfind : ls.find? (fun l => !isSkipped (trim l)) with
    | none => exact Or.inl ⟨key.text, .null, rfl, rfl⟩
    | some next =>
        -- the next line is a field, so there is no array
        simp only [(hrest next (List.mem_of_find?_eq_some hfind)).counts.2]
        split
        · exact Or.inr ⟨_, key.text, rfl⟩
        · exact Or.inl ⟨key.text, .null, rfl, rfl⟩
  · have htoken := isToken_quote s.property
    rw [objectLine, trim_lineAt n (fieldText_trimmed key htoken.trimmed),
      keyValue_fieldText key htoken.trimmed]
    simp only
    rw [if_neg htoken.ne_nil, if_neg htoken.no_bracket, scalarValue_quote stod s.property]
    exact Or.inl ⟨key.text, .string s, rfl, rfl⟩

/-- **No line makes more than one field.** -/
theorem run_mapping_lines {ls : List Str} (hls : ∀ l ∈ ls, MappingLine l) :
    ∀ (base : Nat) (acc : YamlValue D) (K : Stack D), ObjectStack K →
      Bounded stod (.running ⟨.object, base, acc⟩ K) ls
        (fieldCount acc + stackCount K + ls.length) := by
  induction ls with
  | nil =>
      intro base acc K hK
      exact ⟨_, rfl, fieldCount_unwind_le hK acc⟩
  | cons l ls ih =>
      intro base acc K hK
      have hline := hls l List.mem_cons_self
      have hrest : ∀ x ∈ ls, MappingLine x := fun x hx => hls x (List.mem_cons_of_mem _ hx)
      have hnext := ih hrest
      rw [Bounded, run_reads hline.counts.1 rfl, List.length_cons]
      show Bounded stod (readLine stod ⟨.object, base, acc⟩ K l ls) ls _
      simp only [readLine]
      by_cases hend : getIndent l < base ∧ 0 < base
      · rw [if_pos hend]
        exact (bounded_ret hnext acc hK).mono (by omega)
      · rw [if_neg hend]
        rcases objectLine_cases stod hline hrest base acc K with
          ⟨k, v, hv, hset⟩ | ⟨n, k, hcall⟩
        · have hle := fieldCount_setObjectField_le acc v k
          rw [hset]
          exact (hnext base _ K hK).mono (by omega)
        · rw [hcall]
          refine (hnext n .null _ (hK.push base acc k)).mono ?_
          simp only [stackCount, fieldCount]
          omega

end Counting

namespace Mapping

variable {D : Type} {stod : Str → Option D}

/-- **Every line of a mapping is a field of its value.** -/
theorem entriesCount_fields {m : Mapping} (h : m.Distinct) (n : Nat) :
    entriesCount (m.fields D) = (m.lines n).length := by
  have hobject : ∀ {b : Mapping}, b.Distinct →
      entriesCount (ofEntries (b.fields D)) = entriesCount (b.fields D) := by
    intro b hb
    refine entriesCount_perm (ofEntries_perm ?_)
    rw [b.map_fst_fields]
    exact hb.nodup_keys
  induction m generalizing n with
  | lastLeaf key s => rfl
  | lastNested key below ih =>
      simp only [fields, lines, entriesCount, fieldCount, List.length_cons]
      rw [hobject (b := below) h, ih h (n + 2)]
  | leaf key s rest ih =>
      simp only [fields, lines, entriesCount, fieldCount, List.length_cons]
      rw [ih h.2 n]
      omega
  | nested key below rest ihb ihr =>
      simp only [fields, lines, entriesCount, fieldCount, List.length_cons,
        List.length_append]
      rw [hobject h.2.1, ihb h.2.1 (n + 2), ihr h.2.2 n]
      omega

/-- A mapping has as many fields as lines. -/
theorem fieldCount_value {m : Mapping} (h : m.Distinct) :
    fieldCount (m.value D) = (m.lines 0).length := by
  have hperm : (ofEntries (m.fields D)).Perm (m.fields D) := by
    refine ofEntries_perm ?_
    rw [m.map_fst_fields]
    exact h.nodup_keys
  show entriesCount (ofEntries (m.fields D)) = _
  rw [entriesCount_perm hperm, entriesCount_fields h 0]

/-- The readers left open are object readers with no more fields than there
    were lines. -/
theorem opened_spec (m : Mapping) (n : Nat) (acc : YamlValue D) {K : Stack D}
    (hK : ObjectStack K) :
    (m.opened n acc K).1.reader = .object ∧ n ≤ (m.opened n acc K).1.base
      ∧ ObjectStack (m.opened n acc K).2
      ∧ fieldCount (m.opened n acc K).1.acc + stackCount (m.opened n acc K).2
          ≤ fieldCount acc + stackCount K + (m.lines n).length := by
  induction m generalizing n acc K with
  | lastLeaf key s =>
      have hle := fieldCount_setObjectField_le acc (.string s) key.text
      refine ⟨rfl, le_rfl, hK, ?_⟩
      simp only [opened, lines, List.length_singleton, fieldCount] at hle ⊢
      omega
  | lastNested key below ih =>
      obtain ⟨h1, h2, h3, h4⟩ := ih (n + 2) .null (hK.push n acc key.text)
      refine ⟨h1, by simp only [opened]; omega, h3, ?_⟩
      simp only [opened, lines, List.length_cons, stackCount, fieldCount] at h4 ⊢
      omega
  | leaf key s rest ih =>
      have hle := fieldCount_setObjectField_le acc (.string s) key.text
      obtain ⟨h1, h2, h3, h4⟩ := ih n (acc.setObjectField key.text (.string s)) hK
      refine ⟨h1, h2, h3, ?_⟩
      simp only [opened, lines, List.length_cons, fieldCount] at hle h4 ⊢
      omega
  | nested key below rest _ _ =>
      refine ⟨rfl, le_rfl, hK, ?_⟩
      simp only [opened]
      omega

/-- The line behind a nested mapping is below the base of the innermost reader
    left open, which eats it. -/
theorem run_nested_behind (stod : Str → Option D) {m : Mapping} (h : m.NestedLast) {n : Nat}
    {K : Stack D} (hK : ObjectStack K) {l : Str} {ls : List Str} (hindent : getIndent l < n)
    (hlines : ∀ x ∈ l :: ls, MappingLine x) :
    Bounded stod (.running ⟨.object, n, .null⟩ K) (m.lines n ++ l :: ls)
      (stackCount K + (m.lines n).length + ls.length) := by
  obtain ⟨f, K₁, hopened⟩ : ∃ f K₁, m.opened n .null K = (f, K₁) := ⟨_, _, rfl⟩
  obtain ⟨hreader, hbase, hstack, hcount⟩ := m.opened_spec n .null hK
  rw [hopened] at hreader hbase hstack hcount
  simp only [fieldCount] at hreader hbase hstack hcount
  have hskip := (hlines l List.mem_cons_self).counts.1
  have heat : run stod (.running f K₁) (l :: ls) = run stod (State.ret f.acc K₁) ls := by
    rw [run_reads hskip (by simp [Frame.leaves, hreader])]
    simp only [readLine, hreader]
    rw [if_pos ⟨by omega, by omega⟩]
  rw [Bounded, run_opened h, hopened, heat]
  refine Bounded.mono (bounded_ret (m := ls.length) (run_mapping_lines
    (fun x hx => hlines x (List.mem_cons_of_mem _ hx))) _ hstack) ?_
  omega

/-- **A field behind a nested mapping is lost**: the line that ends the nested
    one makes no field. -/
theorem run_of_not_nestedLast {m : Mapping} (h : ¬ m.NestedLast) (n : Nat)
    (acc : YamlValue D) {K : Stack D} (hK : ObjectStack K) {rest : List Str}
    (hrest : ∀ l ∈ rest, MappingLine l) :
    ∃ r, run stod (.running ⟨.object, n, acc⟩ K) (m.lines n ++ rest) = some r
      ∧ fieldCount r < fieldCount acc + stackCount K + (m.lines n).length + rest.length := by
  induction m generalizing n acc K rest with
  | lastLeaf key s => exact absurd trivial h
  | lastNested key below ih =>
      obtain ⟨r, hr, hlt⟩ := ih h (n + 2) .null (hK.push n acc key.text) hrest
      refine ⟨r, (run_nested_line key below n acc).trans hr, ?_⟩
      simp only [lines, List.length_cons, stackCount, fieldCount] at hlt ⊢
      omega
  | leaf key s r ih =>
      have hle := fieldCount_setObjectField_le acc (.string s) key.text
      obtain ⟨v, hv, hlt⟩ := ih h n (acc.setObjectField key.text (.string s)) hK hrest
      refine ⟨v, (run_leaf_line key s n acc).trans hv, ?_⟩
      simp only [lines, List.length_cons, fieldCount] at hle hlt ⊢
      omega
  | nested key below r ihb _ =>
      have hlines : ∀ l ∈ r.lines n ++ rest, MappingLine l := by
        intro l hl
        rcases List.mem_append.mp hl with hl | hl
        · exact mappingLine_of_mem hl
        · exact hrest l hl
      have hstart : run stod (.running ⟨.object, n, acc⟩ K)
            ((nested key below r).lines n ++ rest)
          = run stod (.running ⟨.object, n + 2, .null⟩
              ((⟨.object, n, acc⟩, .field key.text) :: K))
              (below.lines (n + 2) ++ (r.lines n ++ rest)) := by
        rw [← run_nested_line key below n acc, ← List.append_assoc]
        rfl
      have hK' := hK.push n acc key.text
      rw [hstart]
      by_cases hbelow : below.NestedLast
      -- the lost line is the one behind `below`, or one lost within it
      · obtain ⟨l, ls, hr, hline, hindent⟩ := r.lines_eq_cons n
        rw [hr, List.cons_append] at hlines
        obtain ⟨v, hv, hle⟩ := run_nested_behind stod hbelow hK'
          (show getIndent l < n + 2 by omega) hlines
        refine ⟨v, by rw [hr, List.cons_append]; exact hv, ?_⟩
        simp only [lines, List.length_cons, List.length_append, stackCount, hr] at hle ⊢
        omega
      · obtain ⟨v, hv, hlt⟩ := ihb hbelow (n + 2) .null hK' hlines
        refine ⟨v, hv, ?_⟩
        simp only [lines, List.length_cons, List.length_append, stackCount, fieldCount]
          at hlt ⊢
        omega

/-- **Nested mappings are read back** exactly when no field follows a nested
    mapping. -/
theorem parse_text_iff (stod : Str → Option D) (m : Mapping) (h : m.Distinct) :
    parse stod m.text = .ok (.ok (m.value D)) ↔ m.NestedLast := by
  have hlines : linesOf m.text = m.lines 0 := by
    refine linesOf_unlines (fun l hl => ?_)
    obtain ⟨n, key, v, rfl, hv⟩ := mappingLine_of_mem hl
    refine no_newline_lineAt n (no_newline_fieldText key ?_)
    rcases hv with rfl | ⟨s, rfl⟩
    · exact List.not_mem_nil
    · exact (isToken_quote s.property).no_newline
  rw [parse_eq_runDocument, hlines]
  by_cases hlast : m.NestedLast
  · rw [runDocument_of_nestedLast hlast]
    exact iff_of_true rfl hlast
  · obtain ⟨r, hr, hlt⟩ : ∃ r,
        run stod (.running ⟨.object, 0, .null⟩ []) (m.lines 0 ++ []) = some r ∧ _ :=
      run_of_not_nestedLast hlast 0 .null (List.forall_mem_nil _) (List.forall_mem_nil _)
    rw [List.append_nil] at hr
    have hdoc : runDocument stod (m.lines 0) = some r := hr
    rw [hdoc]
    refine iff_of_false (fun heq => ?_) hlast
    have hval : r = m.value D := by simpa using heq
    rw [hval, fieldCount_value h] at hlt
    simp only [fieldCount, stackCount, List.length_nil] at hlt
    omega

/-- A nested mapping at the end of a document. -/
theorem parse_text_nested_last :
    parse (fun _ => (none : Option Nat)) "a:\n  b: \"x\"\n".toList
      = .ok (.ok (.object [("a".toList, .object [("b".toList, .string "x".toList)])])) :=
  (parse_text_iff (fun _ => (none : Option Nat))
    (lastNested (.ofText "a".toList (by decide))
      (lastLeaf (.ofText "b".toList (by decide))
        ⟨"x".toList, by decide⟩)) trivial).mpr trivial

/-- `a` with a nested mapping, and `c` behind it. -/
def fieldBehindNested : Mapping :=
  nested (.ofText "a".toList (by decide))
    (lastLeaf (.ofText "b".toList (by decide))
      ⟨"x".toList, by decide⟩)
    (lastLeaf (.ofText "c".toList (by decide))
      ⟨"y".toList, by decide⟩)

/-- A field behind a nested mapping is lost. -/
theorem parse_text_field_behind_nested :
    fieldBehindNested.Distinct
    ∧ parse (fun _ => (none : Option Nat)) fieldBehindNested.text
        ≠ .ok (.ok (fieldBehindNested.value Nat)) := by
  refine ⟨⟨by decide, trivial, trivial⟩, fun h => ?_⟩
  have hrun : runDocument (fun _ => (none : Option Nat)) (linesOf fieldBehindNested.text)
      = some (.object [("a".toList, .object [("b".toList, .string "x".toList)])]) := rfl
  rw [parse_eq_runDocument, hrun] at h
  have hval : YamlValue.object [("a".toList, .object [("b".toList, .string "x".toList)])]
      = fieldBehindNested.value Nat := by simpa using h
  exact absurd (congrArg fieldCount hval) (by decide)

end Mapping

end LaunchCpp.Yaml
