import LaunchCpp.Basic
import LaunchCpp.Library.OrderedMap
import Mathlib.Data.List.DropRight

/-! # YAML values and the text functions of the parser

    `YamlValue` of `yaml_parser.hpp` and the functions of `YamlParser` that
    work on one line: `trim`, `get_indent`, `unquote`, `parse_scalar`, the
    split of a line at its first colon and the reading of an inline array.

    A double is a value of any type `D`, and `std::stod` is a parameter: it
    answers `none` where it throws, which `parse_scalar` catches. -/

namespace LaunchCpp.Yaml

open OrderedMaps

/-- `YamlValue`: its type and the member that type selects. -/
inductive YamlValue (D : Type) where
  | null
  | string (s : Str)
  | number (n : D)
  | boolean (b : Bool)
  | array (elements : List (YamlValue D))
  | object (fields : List (Str × YamlValue D))

namespace YamlValue

variable {D : Type}

/-- `add_array_element`.  The readers never use it on an object. -/
def addArrayElement : YamlValue D → YamlValue D → YamlValue D
  | array elements, value => array (elements ++ [value])
  | _, value => array [value]

/-- `set_object_field`.  The readers never use it on an array. -/
def setObjectField : YamlValue D → Str → YamlValue D → YamlValue D
  | object fields, key, value => object (insertEntry key value fields)
  | _, key, value => object (insertEntry key value [])

/-- Elements added one after another. -/
def addElements (acc : YamlValue D) (elements : List (YamlValue D)) : YamlValue D :=
  elements.foldl addArrayElement acc

/-- Fields set one after another. -/
def setFields (acc : YamlValue D) (fields : List (Str × YamlValue D)) : YamlValue D :=
  fields.foldl (fun acc field => acc.setObjectField field.1 field.2) acc

theorem addElements_array (elements es : List (YamlValue D)) :
    addElements (array es) elements = array (es ++ elements) := by
  induction elements generalizing es with
  | nil => simp [addElements]
  | cons v vs ih =>
      show addElements (array (es ++ [v])) vs = _
      rw [ih]
      simp

theorem addElements_null {elements : List (YamlValue D)} (h : elements ≠ []) :
    addElements null elements = array elements := by
  obtain ⟨v, vs, rfl⟩ := List.exists_cons_of_ne_nil h
  exact addElements_array vs [v]

theorem setFields_object (fields es : List (Str × YamlValue D)) :
    setFields (object es) fields = object (insertEntries fields es) := by
  induction fields generalizing es with
  | nil => rfl
  | cons f fs ih => exact ih _

theorem setFields_null {fields : List (Str × YamlValue D)} (h : fields ≠ []) :
    setFields null fields = object (ofEntries fields) := by
  obtain ⟨f, fs, rfl⟩ := List.exists_cons_of_ne_nil h
  exact setFields_object fs _

/-- The value of a field, for an object that has it. -/
def field? : YamlValue D → Str → Option (YamlValue D)
  | object fields, key => findEntry key fields
  | _, _ => none

theorem field?_setObjectField_self (acc value : YamlValue D) (key : Str) :
    (acc.setObjectField key value).field? key = some value := by
  cases acc with
  | object fields => exact findEntry_insertEntry_self key value fields
  | _ => exact findEntry_insertEntry_self key value []

theorem field?_setObjectField_ne (acc value : YamlValue D) {key k : Str} (h : k ≠ key) :
    (acc.setObjectField key value).field? k = acc.field? k := by
  cases acc with
  | object fields => exact findEntry_insertEntry_ne h value fields
  | _ => exact findEntry_insertEntry_ne h value []

/-- `is_string`. -/
def isString : YamlValue D → Bool
  | string _ => true
  | _ => false

/-- `as_string`; the member is empty when the type is another one. -/
def asString : YamlValue D → Str
  | string s => s
  | _ => []

/-- `is_array` with `as_array`. -/
def array? : YamlValue D → Option (List (YamlValue D))
  | array elements => some elements
  | _ => none

/-- `is_object` with `as_object`. -/
def object? : YamlValue D → Option (List (Str × YamlValue D))
  | object fields => some fields
  | _ => none

end YamlValue

/-- The characters `trim` removes. -/
def isSpace (c : Char) : Bool := c = ' ' || c = '\t' || c = '\r' || c = '\n'

/-- `trim`. -/
def trim (str : Str) : Str := (str.dropWhile isSpace).rdropWhile isSpace

/-- `get_indent`: a tab counts two. -/
def getIndent : Str → Nat
  | ' ' :: cs => getIndent cs + 1
  | '\t' :: cs => getIndent cs + 2
  | _ => 0

theorem getIndent_cons {c : Char} (hspace : c ≠ ' ') (htab : c ≠ '\t') (cs : Str) :
    getIndent (c :: cs) = 0 := by
  unfold getIndent
  split
  · rename_i heq
    exact absurd (List.cons.inj heq).1 hspace
  · rename_i heq
    exact absurd (List.cons.inj heq).1 htab
  · rfl

/-- `unquote`. -/
def unquote (str : Str) : Str :=
  if 2 ≤ str.length
      ∧ ((str.head? = some '"' ∧ str.getLast? = some '"')
        ∨ (str.head? = some '\'' ∧ str.getLast? = some '\'')) then
    str.tail.dropLast
  else str

/-- The loop of `parse_scalar` that looks for a number: a sign in front, one
    dot, digits. -/
def numberChars (first hasDot : Bool) : Str → Bool
  | [] => true
  | c :: cs =>
      if first && (c = '-' || c = '+') then numberChars false hasDot cs
      else if c = '.' then !hasDot && numberChars false true cs
      else c.isDigit && numberChars false hasDot cs

/-- A trimmed line that the readers skip: blank, or a comment. -/
def isSkipped (trimmed : Str) : Bool := trimmed.head? = none || trimmed.head? = some '#'

theorem ne_nil_of_not_isSkipped {trimmed : Str} (h : ¬ isSkipped trimmed = true) :
    trimmed ≠ [] := by
  rintro rfl
  exact h rfl

/-- `trimmed[0] == '-'`. -/
def isDash (trimmed : Str) : Bool := trimmed.head? = some '-'

/-- A trimmed line split at its first colon, both parts trimmed. -/
def keyValue (trimmed : Str) : Option (Str × Str) :=
  if ':' ∈ trimmed then
    some (trim (trimmed.takeWhile (· ≠ ':')), trim (trimmed.dropWhile (· ≠ ':')).tail)
  else none

section Scalars

variable {D : Type} (stod : Str → Option D)

/-- The value `parse_scalar` returns. -/
def scalarValue (value : Str) : YamlValue D :=
  let trimmed := trim value
  if trimmed = "true".toList ∨ trimmed = "yes".toList ∨ trimmed = "on".toList then
    .boolean true
  else if trimmed = "false".toList ∨ trimmed = "no".toList ∨ trimmed = "off".toList then
    .boolean false
  else
    match if numberChars true false trimmed ∧ trimmed ≠ [] then stod trimmed else none with
    | some num => .number num
    | none => .string (unquote trimmed)

theorem scalarValue_ne_null (value : Str) : scalarValue stod value ≠ .null := by
  intro h
  unfold scalarValue at h
  simp only at h
  split at h
  · cases h
  · split at h
    · cases h
    · split at h <;> cases h

theorem array?_scalarValue (value : Str) : (scalarValue stod value).array? = none := by
  unfold scalarValue
  simp only
  split
  · rfl
  · split
    · rfl
    · split <;> rfl

/-- `parse_scalar`: it has no failing `return`. -/
def parseScalar (value : Str) : Result (YamlValue D) := .ok (scalarValue stod value)

theorem length_tail_dropWhile_lt (p : Char → Bool) {rest : Str} (h : rest ≠ []) :
    (rest.dropWhile p).tail.length < rest.length := by
  have hle : (rest.dropWhile p).length ≤ rest.length :=
    (List.dropWhile_suffix p).length_le
  have hpos : 0 < rest.length := List.length_pos_of_ne_nil h
  rw [List.length_tail]
  omega

/-- The loop over an inline array: up to the next comma while there is one,
    then up to a bracket. -/
def inlineElements (rest : Str) (arr : YamlValue D) : YamlValue D :=
  let stop : Char := if ',' ∈ rest then ',' else ']'
  if _h : stop ∈ rest then
    let elem := trim (rest.takeWhile (· ≠ stop))
    inlineElements (rest.dropWhile (· ≠ stop)).tail
      (if elem = [] then arr else arr.addArrayElement (scalarValue stod elem))
  else arr
termination_by rest.length
decreasing_by exact length_tail_dropWhile_lt _ (List.ne_nil_of_mem (by assumption))

/-- `[a, b]` behind a key of `parse_object`. -/
def inlineArray (value : Str) : YamlValue D := inlineElements stod value.tail .null

end Scalars

end LaunchCpp.Yaml
