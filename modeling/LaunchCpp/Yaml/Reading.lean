import LaunchCpp.Yaml.LineMachine
import LaunchCpp.Yaml.Text

/-! # What the machine does on written lines

    One lemma for each reader and each kind of line that a document can be
    written with: an array meets a dash with a scalar or with a field, an
    element or an object meets a field.  `Ends n rest` says that what follows
    is indented less than `n`, which is when arrays and elements return. -/

namespace LaunchCpp.Yaml

variable {D : Type} {stod : Str → Option D} {K : Stack D} {rest : List Str}
  {base n : Nat} {acc : YamlValue D} {key : Key} {value : Str}

/-- Nothing follows, or a line that counts with an indent below `n`. -/
def Ends (n : Nat) (rest : List Str) : Prop :=
  ∀ l ∈ rest.head?, isSkipped (trim l) = false ∧ getIndent l < n

theorem Ends.nil : Ends n [] := fun _ h => nomatch h

theorem Ends.mono {m : Nat} (h : Ends n rest) (hle : n ≤ m) : Ends m rest :=
  fun l hl => ⟨(h l hl).1, Nat.lt_of_lt_of_le (h l hl).2 hle⟩

theorem ends_lineAt {m : Nat} {s : Str} (hs : Trimmed s) (hskip : isSkipped s = false)
    (hlt : n < m) (rest : List Str) : Ends m (lineAt n s :: rest) := by
  intro l hl
  obtain rfl : lineAt n s = l := Option.some.inj hl
  rw [trim_lineAt n hs, getIndent_lineAt n hs]
  exact ⟨hskip, hlt⟩

theorem ends_dashAt {m : Nat} {s : Str} (hs : Trimmed s) (hne : s ≠ [])
    (hlt : n < m) (rest : List Str) : Ends m (dashAt n s :: rest) := by
  intro l hl
  obtain rfl : dashAt n s = l := Option.some.inj hl
  rw [getIndent_dashAt]
  exact ⟨isSkipped_dashAt n hs hne, hlt⟩

/-- A frame that leaves at what follows returns to its caller. -/
theorem run_ends {f : Frame D} (hleave : ∀ l, getIndent l < n → f.leaves l = true)
    (h : Ends n rest) :
    run stod (.running f K) rest = run stod (State.ret f.acc K) rest := by
  cases rest with
  | nil => exact run_running_nil
  | cons l ls =>
      obtain ⟨hskip, hlt⟩ := h l rfl
      exact run_leaves hskip (hleave l hlt)

theorem run_array_ends (h : Ends base rest) :
    run stod (.running ⟨.array, base, acc⟩ K) rest = run stod (State.ret acc K) rest :=
  run_ends (fun _ hlt => decide_eq_true hlt) h

theorem run_element_ends (h : Ends (base + 1) rest) :
    run stod (.running ⟨.element, base, acc⟩ K) rest = run stod (State.ret acc K) rest :=
  run_ends (fun _ hlt => decide_eq_true (Nat.le_of_lt_succ hlt)) h

/-! ## Arrays -/

theorem run_array_dash {s : Str} (hs : Trimmed s) (hne : s ≠ []) (hle : base ≤ n) :
    run stod (.running ⟨.array, base, acc⟩ K) (dashAt n s :: rest)
      = run stod (match keyValue s with
          | some (key, value) =>
              elementField stod (.start .element base) ((⟨.array, base, acc⟩, .element) :: K)
                base rest key value
          | none => .running ⟨.array, base, acc.addArrayElement (scalarValue stod s)⟩ K)
        rest := by
  have hkeep : (⟨.array, base, acc⟩ : Frame D).leaves (dashAt n s) = false := by
    refine decide_eq_false ?_
    rw [getIndent_dashAt]
    exact Nat.not_lt.mpr hle
  rw [run_reads (isSkipped_dashAt n hs hne) hkeep]
  show run stod (arrayLine stod _ K _ rest) rest = _
  rw [arrayLine]
  simp only [isDash_dashAt n hs hne, content_dashAt n hs hne, if_true, if_neg hne]
  rfl

/-- A dash with a scalar. -/
theorem run_array_scalar {t : Str} (ht : IsToken t) (hcolon : ':' ∉ t) (hle : base ≤ n) :
    run stod (.running ⟨.array, base, acc⟩ K) (dashAt n t :: rest)
      = run stod (.running ⟨.array, base, acc.addArrayElement (scalarValue stod t)⟩ K)
          rest := by
  rw [run_array_dash ht.trimmed ht.ne_nil hle, keyValue_none hcolon]

/-- A dash with the first field of an element. -/
theorem run_array_field (hvalue : Trimmed value) (hle : base ≤ n) :
    run stod (.running ⟨.array, base, acc⟩ K) (dashAt n (fieldText key value) :: rest)
      = run stod (elementField stod (.start .element base)
          ((⟨.array, base, acc⟩, .element) :: K) base rest key.text value) rest := by
  rw [run_array_dash (fieldText_trimmed key hvalue) (fieldText_ne_nil key value) hle,
    keyValue_fieldText key hvalue]

/-- A block sequence of scalars. -/
theorem run_array_scalars {ts : List Str} (h : ∀ t ∈ ts, IsToken t ∧ ':' ∉ t)
    (hle : base ≤ n) :
    run stod (.running ⟨.array, base, acc⟩ K) (ts.map (dashAt n) ++ rest)
      = run stod (.running ⟨.array, base, acc.addElements (ts.map (scalarValue stod))⟩ K)
          rest := by
  induction ts generalizing acc with
  | nil => rfl
  | cons t ts ih =>
      obtain ⟨htoken, hcolon⟩ := h t List.mem_cons_self
      rw [List.map_cons, List.cons_append, run_array_scalar htoken hcolon hle,
        ih (fun x hx => h x (List.mem_cons_of_mem _ hx))]
      rfl

/-! ## Elements -/

theorem length_fieldText_ge (key : Key) (value : Str) : 2 ≤ (fieldText key value).length := by
  have := List.length_pos_of_ne_nil key.ne_nil
  rw [fieldText]
  split <;> simp <;> omega

/-- A field of an element behind its first one. -/
theorem run_element_field (hvalue : Trimmed value) (hlt : base < n) :
    run stod (.running ⟨.element, base, acc⟩ K) (lineAt n (fieldText key value) :: rest)
      = run stod (elementField stod ⟨.element, base, acc⟩ K n rest key.text value)
          rest := by
  have ht := fieldText_trimmed key hvalue
  have hkeep : (⟨.element, base, acc⟩ : Frame D).leaves (lineAt n (fieldText key value))
      = false := by
    refine decide_eq_false ?_
    rw [getIndent_lineAt n ht]
    exact Nat.not_le.mpr hlt
  have hlength : ¬ (lineAt n (fieldText key value)).length < base + 2 := by
    have := length_fieldText_ge key value
    rw [length_lineAt]
    omega
  rw [run_reads (by rw [trim_lineAt n ht]; exact isSkipped_fieldText key value) hkeep]
  show run stod (elementLine stod _ K _ rest) rest = _
  rw [elementLine, if_neg hlength, trim_lineAt n ht, getIndent_lineAt n ht,
    isDash_fieldText, if_neg (by simp), keyValue_fieldText key hvalue]

theorem elementField_scalar (f : Frame D) (threshold : Nat) (k : Str) (h : value ≠ []) :
    elementField stod f K threshold rest k value
      = .running (f.put (.field k) (scalarValue stod value)) K := if_neg h

/-- A field of an element with a block sequence below it. -/
theorem elementField_sequence {f : Frame D} {threshold : Nat} {k t : Str} {ts : List Str}
    (h : ∀ x ∈ t :: ts, IsToken x ∧ ':' ∉ x) (hlt : threshold < n) (hends : Ends n rest) :
    run stod (elementField stod f K threshold ((t :: ts).map (dashAt n) ++ rest) k [])
        ((t :: ts).map (dashAt n) ++ rest)
      = run stod (.running (f.put (.field k)
          (.array ((t :: ts).map (scalarValue stod)))) K) rest := by
  obtain ⟨htoken, -⟩ := h t List.mem_cons_self
  have hfield : elementField stod f K threshold ((t :: ts).map (dashAt n) ++ rest) k []
      = .running (.start .array n) ((f, .field k) :: K) := by
    simp only [elementField, List.map_cons, List.cons_append, if_true]
    rw [if_pos ⟨by rw [getIndent_dashAt]; exact hlt,
      isDash_dashAt n htoken.trimmed htoken.ne_nil⟩, getIndent_dashAt]
  rw [hfield, Frame.start, run_array_scalars h le_rfl, run_array_ends hends,
    YamlValue.addElements_null (by simp)]
  rfl

/-! ## Objects -/

theorem run_object_line (hvalue : Trimmed value) (hbase : base = 0 ∨ base ≤ n) :
    run stod (.running ⟨.object, base, acc⟩ K) (lineAt n (fieldText key value) :: rest)
      = run stod (objectLine stod ⟨.object, base, acc⟩ K (lineAt n (fieldText key value))
          rest) rest := by
  have ht := fieldText_trimmed key hvalue
  rw [run_reads (by rw [trim_lineAt n ht]; exact isSkipped_fieldText key value) rfl]
  simp only [readLine]
  rw [if_neg (by rw [getIndent_lineAt n ht]; omega)]

/-- A field of an object with a scalar. -/
theorem run_object_scalar (htoken : IsToken value) (hbase : base = 0 ∨ base ≤ n) :
    run stod (.running ⟨.object, base, acc⟩ K) (lineAt n (fieldText key value) :: rest)
      = run stod (.running ⟨.object, base,
          acc.setObjectField key.text (scalarValue stod value)⟩ K) rest := by
  rw [run_object_line htoken.trimmed hbase, objectLine,
    trim_lineAt n (fieldText_trimmed key htoken.trimmed),
    keyValue_fieldText key htoken.trimmed]
  simp only
  rw [if_neg htoken.ne_nil, if_neg htoken.no_bracket]
  rfl

/-- A field of an object with a deeper line below it. -/
theorem run_object_nested {next : Str} {ls : List Str} (hbase : base = 0 ∨ base ≤ n)
    (hnext : isSkipped (trim next) = false) (hlt : n < getIndent next) :
    run stod (.running ⟨.object, base, acc⟩ K)
        (lineAt n (fieldText key []) :: next :: ls)
      = run stod (.running
          (.start (if isDash (trim next) then .array else .object) (getIndent next))
          ((⟨.object, base, acc⟩, .field key.text) :: K)) (next :: ls) := by
  have ht := fieldText_trimmed key trimmed_nil
  rw [run_object_line trimmed_nil hbase, objectLine, trim_lineAt n ht,
    keyValue_fieldText key trimmed_nil,
    getIndent_lineAt n ht]
  simp only [if_true, List.find?_cons, hnext, Bool.not_false]
  rw [if_pos hlt]

end LaunchCpp.Yaml
