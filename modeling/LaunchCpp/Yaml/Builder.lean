import LaunchCpp.Yaml.Document
import LaunchCpp.Yaml.Scalars
import LaunchCpp.Actions

/-! # `YamlLaunchBuilder`

    The launch description the builder makes of a parsed launch file.  Strings
    are copied by TYPE: a scalar that `parse_scalar` reads as a boolean or a
    number is passed over, in a list and under a key alike.  The main result
    is `build_reaches_iff`: on a launch file the written texts reach the
    options of the actions exactly when no such scalar is among them. -/

namespace LaunchCpp.Yaml

open OrderedMaps StringStreams

namespace YamlLaunchBuilder

section Build

variable {D O : Type}

/-- The string under a key: `find`, `is_string`, `as_string`. -/
def stringField (yaml : YamlValue D) (key : Str) : Option Str :=
  match yaml.field? key with
  | some value => if value.isString then some value.asString else none
  | none => none

/-- The strings of the array under a key: `find`, `is_array`, and the loop
    with its `is_string`. -/
def stringElements (yaml : YamlValue D) (key : Str) : List Str :=
  match (yaml.field? key).bind YamlValue.array? with
  | some elements => (elements.filter YamlValue.isString).map YamlValue.asString
  | none => []

/-- The name in `$(var name)`, where there is one. -/
def variableName (value : Str) : Option Str :=
  if 7 < value.length ∧ value.take 6 = "$(var ".toList ∧ ')' ∈ value.drop 6 then
    let varName := trim ((value.drop 6).takeWhile (· ≠ ')'))
    if varName ≠ [] then some varName else none
  else none

/-- `build_substitution`. -/
def buildSubstitution (value : Str) : Result Substitution :=
  match variableName value with
  | some varName => .ok (variableSubstitution varName [])
  | none =>
      if 3 < value.length ∧ value.take 2 = "$(".toList ∧ ')' ∈ value.drop 2 then
        let inner := value.drop 2
        let substType := inner.takeWhile (· ≠ ' ')
        -- a package is not looked up: the text stays as it is
        if substType = "find".toList ∧ ' ' ∈ inner then .ok (textSubstitution value)
        else if substType = "env".toList ∧ ' ' ∈ inner then
          let varName := trim ((inner.dropWhile (· ≠ ' ')).tail.takeWhile (· ≠ ')'))
          .ok (environmentVariable varName [])
        else .ok (textSubstitution value)
      else .ok (textSubstitution value)

/-- An element of a command: its text where `build_substitution` fails. -/
def commandElement (value : Str) : Substitution :=
  match buildSubstitution value with
  | .ok subst => subst
  | .error _ => textSubstitution value

/-- The options of an `execute_process`. -/
def executeProcessOptions (actionYaml : YamlValue D) : ExecuteProcess.Options where
  name := (stringField actionYaml "name".toList).map textSubstitution
  cmd := (stringElements actionYaml "cmd".toList).map (fun s => some (commandElement s))
  output := (stringField actionYaml "output".toList).getD []
  dependsOn := stringElements actionYaml "depends_on".toList

/-- The options of a `declare_launch_argument`. -/
def declareLaunchArgumentOptions (actionYaml : YamlValue D) :
    DeclareLaunchArgument.Options where
  name := (stringField actionYaml "name".toList).getD []
  defaultValue := (stringField actionYaml "default_value".toList).map textSubstitution
  description := (stringField actionYaml "description".toList).getD []

/-- `build_action`. -/
def buildAction (actionYaml : YamlValue D) : Result (LaunchDescriptionEntity O) :=
  match stringField actionYaml "type".toList with
  | none => .error ⟨.invalidConfiguration, "Action missing 'type' field".toList⟩
  | some type =>
      if type = "execute_process".toList then
        .ok (.executeProcess (executeProcessOptions actionYaml))
      else if type = "declare_launch_argument".toList then
        .ok (.declareLaunchArgument (declareLaunchArgumentOptions actionYaml))
      else .error ⟨.notImplemented, "Unknown action type: ".toList ++ type⟩

/-- The loop of `build` over the entities. -/
def addActions : List (YamlValue D) → LaunchDescription (LaunchDescriptionEntity O) →
    LaunchDescription (LaunchDescriptionEntity O)
  | [], desc => desc
  | entityYaml :: rest, desc =>
      match entityYaml.object? with
      | none => addActions rest desc
      | some _ =>
          match buildAction entityYaml with
          | .error _ => addActions rest desc
          | .ok action => addActions rest (desc.add (some action))

/-- `build`. -/
def build (yaml : YamlValue D) : Result (LaunchDescription (LaunchDescriptionEntity O)) :=
  match yaml.object? with
  | none => .error ⟨.invalidConfiguration, "Root must be an object".toList⟩
  | some _ =>
      match (yaml.field? "entities".toList).bind YamlValue.array? with
      | none => .error ⟨.invalidConfiguration, "Missing 'entities' array".toList⟩
      | some entities => .ok (addActions entities {})

end Build

/-! ## Plain scalars and typed ones -/

/-- A plain scalar, beside what every token is: no colon, quote, hash or dollar. -/
def Plain (t : Str) : Prop :=
  ':' ∉ t ∧ '"' ∉ t ∧ '\'' ∉ t ∧ '#' ∉ t ∧ '$' ∉ t

instance (t : Str) : Decidable (Plain t) := inferInstanceAs (Decidable (_ ∧ _))

/-- The words `parse_scalar` reads as a boolean. -/
def booleanWords : List Str :=
  ["true".toList, "yes".toList, "on".toList, "false".toList, "no".toList, "off".toList]

section Typed

variable {D : Type} (stod : Str → Option D) {t : Str}

/-- A scalar `parse_scalar` does not read as a string: one of six words, or
    digits with a sign and a dot at most that `std::stod` accepts. -/
def isTyped (t : Str) : Bool :=
  t ∈ booleanWords || (numberChars true false t && (stod t).isSome)

/-- A scalar is typed as a boolean or as a number. -/
theorem isTyped_iff (ht : t ≠ []) :
    isTyped stod t = true ↔ t ∈ trueWords ++ falseWords ∨ (numberOf stod t).isSome = true := by
  rw [isTyped, Bool.or_eq_true, decide_eq_true_iff, numberOf]
  refine or_congr Iff.rfl ?_
  by_cases h : numberChars true false t = true
  · simp [h, ht]
  · simp [h]

/-- Any other scalar is read as its content. -/
theorem scalarValue_of_not_typed (ht : IsToken t) (h : isTyped stod t = false) :
    scalarValue stod t = .string (unquote t) := by
  have hno : ¬ (t ∈ trueWords ++ falseWords ∨ (numberOf stod t).isSome = true) := by
    rw [← isTyped_iff stod ht.ne_nil, h]
    exact Bool.false_ne_true
  obtain ⟨hword, hnumber⟩ := not_or.mp hno
  have hkinds := scalarValue_kinds stod t
  rw [ht.trimmed.trim_eq] at hkinds
  rcases hkinds with ⟨htrue, -⟩ | ⟨hfalse, -⟩ | ⟨-, num, hnum, -⟩ | ⟨-, -, hvalue⟩
  · exact absurd (List.mem_append_left _ htrue) hword
  · exact absurd (List.mem_append_right _ hfalse) hword
  · rw [hnum] at hnumber
    exact absurd rfl hnumber
  · exact hvalue

/-- A typed scalar is no string. -/
theorem isString_of_typed (ht : IsToken t) (h : isTyped stod t = true) :
    (scalarValue stod t).isString = false := by
  have htyped := (isTyped_iff stod ht.ne_nil).mp h
  have hkinds := scalarValue_kinds stod t
  rw [ht.trimmed.trim_eq] at hkinds
  rcases hkinds with ⟨-, hvalue⟩ | ⟨-, -, hvalue⟩ | ⟨-, num, -, hvalue⟩ | ⟨hword, hnum, -⟩
  · rw [hvalue]
    rfl
  · rw [hvalue]
    rfl
  · rw [hvalue]
    rfl
  · rw [hnum] at htyped
    rcases htyped with hmem | hsome
    · exact absurd hmem hword
    · cases hsome

/-- The characters of a number. -/
theorem mem_of_numberChars {first hasDot : Bool} {t : Str}
    (h : numberChars first hasDot t = true) :
    ∀ c ∈ t, c = '-' ∨ c = '+' ∨ c = '.' ∨ c.isDigit = true := by
  induction t generalizing first hasDot with
  | nil => intro c hc; cases hc
  | cons d ds ih =>
      rw [numberChars] at h
      have htail : ∀ {first hasDot : Bool}, numberChars first hasDot ds = true →
          (d = '-' ∨ d = '+' ∨ d = '.' ∨ d.isDigit = true) →
          ∀ c ∈ d :: ds, c = '-' ∨ c = '+' ∨ c = '.' ∨ c.isDigit = true := by
        intro first hasDot hds hd c hc
        rcases List.mem_cons.mp hc with rfl | hc
        · exact hd
        · exact ih hds c hc
      split at h
      · rename_i hsign
        have hor : d = '-' ∨ d = '+' := by
          simpa using (Bool.and_eq_true_iff.mp hsign).2
        exact htail h (hor.imp_right Or.inl)
      · split at h
        · rename_i hdot
          exact htail (Bool.and_eq_true_iff.mp h).2 (Or.inr (Or.inr (Or.inl hdot)))
        · exact htail (Bool.and_eq_true_iff.mp h).2
            (Or.inr (Or.inr (Or.inr (Bool.and_eq_true_iff.mp h).1)))

/-- A typed scalar is plain. -/
theorem plain_of_typed (h : isTyped stod t = true) : Plain t := by
  rw [isTyped] at h
  rcases Bool.or_eq_true_iff.mp h with hword | hnumber
  · have hmem : t ∈ booleanWords := of_decide_eq_true hword
    simp only [booleanWords, List.mem_cons, List.not_mem_nil, or_false] at hmem
    rcases hmem with rfl | rfl | rfl | rfl | rfl | rfl <;> decide
  · have hchars := mem_of_numberChars (Bool.and_eq_true_iff.mp hnumber).1
    refine ⟨?_, ?_, ?_, ?_, ?_⟩ <;>
    · intro hc
      have := hchars _ hc
      revert this
      decide

/-- A plain scalar is its own content. -/
theorem unquote_plain (h : Plain t) : unquote t = t := by
  rw [unquote]
  rw [if_neg]
  rintro ⟨-, ⟨hd, -⟩ | ⟨hs, -⟩⟩
  · exact h.2.1 (List.mem_of_mem_head? hd)
  · exact h.2.2.1 (List.mem_of_mem_head? hs)

/-- Without a dollar there is nothing to substitute. -/
theorem commandElement_plain (h : Plain t) : commandElement t = textSubstitution t := by
  have hvar : variableName t = none := by
    refine if_neg (fun hc => h.2.2.2.2 (List.mem_of_mem_take (i := 6) ?_))
    rw [hc.2.1]
    decide
  have hsub : buildSubstitution t = .ok (textSubstitution t) := by
    rw [buildSubstitution]
    rw [hvar]
    refine if_neg (fun hc => h.2.2.2.2 (List.mem_of_mem_take (i := 2) ?_))
    rw [hc.2.1]
    decide
  rw [commandElement]
  rw [hsub]

end Typed

/-! ## What a launch file says -/

/-- A scalar behind a key. -/
abbrev Token := { t : Str // IsToken t }

/-- A scalar of a list. -/
abbrev ItemToken := { t : Str // IsToken t ∧ ':' ∉ t }

/-- An entity of a launch file, its scalars written in any way. -/
abbrev FileEntity := Entity Token ItemToken

/-- A launch file. -/
abbrev LaunchFile := Document Token ItemToken

section FileEntity

variable (e : FileEntity)

/-- What is written under a key. -/
def fieldAt (key : Str) : Option (EntityValue Token ItemToken) :=
  findEntry key (e.fields.toList.map (fun f => (f.1.text, f.2)))

/-- The scalar written under a key. -/
def scalarAt (key : Str) : Option Str :=
  match fieldAt e key with
  | some (.scalar t) => some t.val
  | _ => none

/-- The list items written under a key. -/
def itemsAt (key : Str) : List Str :=
  match fieldAt e key with
  | some (.sequence items) => items.toList.map Subtype.val
  | _ => []

/-- The type an entity says it has. -/
def typeOf : Option Str := (scalarAt e "type".toList).map unquote

/-- The texts of an `execute_process` reach its options: a command of plain
    scalars, and the list of dependencies. -/
structure ProcessReached (options : ExecuteProcess.Options) : Prop where
  cmd : (∀ t ∈ itemsAt e "cmd".toList, Plain t) →
    ∃ substs : List Substitution, options.cmd = substs.map some ∧
      ∀ context, substs.map (·.perform context) = itemsAt e "cmd".toList
  dependsOn : options.dependsOn = (itemsAt e "depends_on".toList).map unquote

/-- The texts of a `declare_launch_argument` reach its options. -/
structure ArgumentReached (options : DeclareLaunchArgument.Options) : Prop where
  name : ∀ t ∈ scalarAt e "name".toList, Plain t → options.name = t
  defaultValue : ∀ t ∈ scalarAt e "default_value".toList, Plain t →
    ∃ subst : Substitution, options.defaultValue = some subst ∧
      ∀ context, subst.perform context = t

/-- The entity was built as what its type says, and its texts reached it. -/
def Reached {O : Type} : LaunchDescriptionEntity O → Prop
  | .executeProcess options =>
      typeOf e = some "execute_process".toList ∧ ProcessReached e options
  | .declareLaunchArgument options =>
      typeOf e = some "declare_launch_argument".toList ∧ ArgumentReached e options
  | .other _ => False

/-- The scalars an entity hands to its action: a command of plain scalars and
    the dependencies, or the name and the default value. -/
def handedOn : List Str :=
  if typeOf e = some "execute_process".toList then
    (if ∀ t ∈ itemsAt e "cmd".toList, Plain t then itemsAt e "cmd".toList else [])
      ++ itemsAt e "depends_on".toList
  else if typeOf e = some "declare_launch_argument".toList then
    (scalarAt e "name".toList).toList ++ (scalarAt e "default_value".toList).toList
  else []

/-- The entities the builder knows. -/
def isKnown : Bool :=
  typeOf e = some "execute_process".toList
    || typeOf e = some "declare_launch_argument".toList

variable {e}

/-- A scalar of an entity is a token. -/
theorem isToken_of_mem_scalarAt {key t : Str} (h : t ∈ scalarAt e key) : IsToken t := by
  rw [scalarAt] at h
  split at h
  · rename_i t' _
    obtain rfl := Option.some.inj h
    exact t'.property
  · cases h

end FileEntity

/-! ## What the builder finds -/

section Fields

variable {D O : Type} (stod : Str → Option D) (e : FileEntity)

/-- The value an entity is parsed to. -/
def fileValue : YamlValue D := e.value (leafValue stod Subtype.val) (leafValue stod Subtype.val)

/-- A field of the value that was read is a field of the entity. -/
theorem field?_fileValue (key : Str) :
    (fileValue stod e).field? key
      = (fieldAt e key).map
          (EntityValue.value (leafValue stod Subtype.val) (leafValue stod Subtype.val)) := by
  show findEntry key (ofEntries _) = _
  rw [fieldAt]
  rw [findEntry_ofEntries (by simpa [Function.comp_def] using e.distinct), ← findEntry_map,
    List.map_map]
  rfl

/-- Under a key the builder finds the scalar that is written there, unless it
    is a typed one. -/
theorem stringField_fileValue (key : Str) :
    stringField (fileValue stod e) key
      = (scalarAt e key).bind (fun t => if isTyped stod t then none else some (unquote t)) := by
  rw [stringField, scalarAt]
  rw [field?_fileValue]
  cases fieldAt e key with
  | none => rfl
  | some v =>
      cases v with
      | sequence items => rfl
      | scalar t =>
          show (if (scalarValue stod t.val).isString then _ else _)
            = if isTyped stod t.val then none else some (unquote t.val)
          cases htyped : isTyped stod t.val with
          | true =>
              -- not a string any more, so `is_string` passes it over
              rw [isString_of_typed stod t.property htyped]
              rfl
          | false =>
              show (if (scalarValue stod t.val).isString then
                some (scalarValue stod t.val).asString else none) = _
              rw [scalarValue_of_not_typed stod t.property htyped]
              rfl

/-- **Of a list the strings remain**: the items that are not typed. -/
theorem strings_leafValue (ts : List ItemToken) :
    ((ts.map (leafValue stod Subtype.val)).filter YamlValue.isString).map YamlValue.asString
      = ((ts.map Subtype.val).filter (fun t => !isTyped stod t)).map unquote := by
  induction ts with
  | nil => rfl
  | cons t ts ih =>
      simp only [List.map_cons, List.filter_cons]
      cases htyped : isTyped stod t.val with
      | true =>
          have hleaf : (leafValue stod Subtype.val t).isString = false :=
            isString_of_typed stod t.property.1 htyped
          rw [if_neg (by simp [hleaf]), if_neg (by simp)]
          exact ih
      | false =>
          have hleaf : leafValue stod Subtype.val t = .string (unquote t.val) :=
            scalarValue_of_not_typed stod t.property.1 htyped
          rw [if_pos (by rw [hleaf]; rfl), if_pos (show (!false) = true from rfl), List.map_cons, List.map_cons, ih,
            hleaf]
          rfl

/-- In a list the builder finds the items that are written there, without the
    typed ones. -/
theorem stringElements_fileValue (key : Str) :
    stringElements (fileValue stod e) key
      = ((itemsAt e key).filter (fun t => !isTyped stod t)).map unquote := by
  rw [stringElements, itemsAt]
  rw [field?_fileValue]
  cases fieldAt e key with
  | none => rfl
  | some v =>
      cases v with
      | scalar t =>
          have hnone : (scalarValue stod t.val).array? = none := array?_scalarValue stod t.val
          show (match (scalarValue stod t.val).array? with
            | some elements => _
            | none => []) = _
          rw [hnone]
          rfl
      | sequence items =>
          exact strings_leafValue stod items.toList

end Fields

/-! ## What the options hold -/

section Options

variable {D O : Type} (stod : Str → Option D) (e : FileEntity)

/-- A filter that loses nothing keeps everything. -/
theorem filter_untyped_length {ts : List Str}
    (h : (ts.filter (fun t => !isTyped stod t)).length = ts.length) :
    ∀ t ∈ ts, isTyped stod t = false := by
  intro t ht
  simpa using List.length_filter_eq_length_iff.mp h t ht

/-- All remain where none is typed. -/
theorem filter_untyped {ts : List Str} (h : ∀ t ∈ ts, isTyped stod t = false) :
    ts.filter (fun t => !isTyped stod t) = ts :=
  List.filter_eq_self.mpr (fun t ht => by simp [h t ht])

/-- A list reaches the options as a whole when none of its items is typed. -/
theorem map_unquote_filter_iff (ts : List Str) :
    (ts.filter (fun t => !isTyped stod t)).map unquote = ts.map unquote
      ↔ ∀ t ∈ ts, isTyped stod t = false := by
  constructor
  · intro h
    have hlength := congrArg List.length h
    rw [List.length_map, List.length_map] at hlength
    exact filter_untyped_length stod hlength
  · intro h
    rw [filter_untyped stod h]

/-- A command of plain scalars reaches the options when none of them is
    typed. -/
theorem cmd_reached_iff (hplain : ∀ t ∈ itemsAt e "cmd".toList, Plain t) :
    (∃ substs : List Substitution,
        (executeProcessOptions (fileValue stod e)).cmd = substs.map some ∧
          ∀ context, substs.map (·.perform context) = itemsAt e "cmd".toList)
      ↔ ∀ t ∈ itemsAt e "cmd".toList, isTyped stod t = false := by
  have hcmd : (executeProcessOptions (fileValue stod e)).cmd
      = (((itemsAt e "cmd".toList).filter (fun t => !isTyped stod t)).map unquote).map
          (fun s => some (commandElement s)) := by
    rw [← stringElements_fileValue]
    rfl
  rw [hcmd]
  constructor
  · rintro ⟨substs, hsubsts, hperform⟩
    have h1 := congrArg List.length hsubsts
    have h2 := congrArg List.length (hperform LaunchContext.empty)
    simp only [List.length_map] at h1 h2
    exact filter_untyped_length stod (h1.trans h2)
  · intro h
    refine ⟨(itemsAt e "cmd".toList).map textSubstitution, ?_, fun context => ?_⟩
    · rw [filter_untyped stod h, List.map_map, List.map_map]
      refine List.map_congr_left (fun t ht => ?_)
      show some (commandElement (unquote t)) = some (textSubstitution t)
      rw [unquote_plain (hplain t ht), commandElement_plain (hplain t ht)]
    · rw [List.map_map]
      exact List.map_id'' (fun _ => rfl) _

/-- **When the texts of a process reach it.** -/
theorem processReached_iff :
    ProcessReached e (executeProcessOptions (fileValue stod e))
      ↔ ∀ t ∈ (if ∀ t ∈ itemsAt e "cmd".toList, Plain t then itemsAt e "cmd".toList else [])
          ++ itemsAt e "depends_on".toList, isTyped stod t = false := by
  have hdep : (executeProcessOptions (fileValue stod e)).dependsOn
      = (itemsAt e "depends_on".toList).map unquote
        ↔ ∀ t ∈ itemsAt e "depends_on".toList, isTyped stod t = false := by
    show stringElements (fileValue stod e) "depends_on".toList = _ ↔ _
    rw [stringElements_fileValue]
    exact map_unquote_filter_iff stod _
  rw [List.forall_mem_append]
  by_cases hplain : ∀ t ∈ itemsAt e "cmd".toList, Plain t
  · rw [if_pos hplain, ← cmd_reached_iff stod e hplain, ← hdep]
    constructor
    · intro h
      exact ⟨h.cmd hplain, h.dependsOn⟩
    · intro h
      exact ⟨fun _ => h.1, h.2⟩
  · rw [if_neg hplain, ← hdep]
    constructor
    · intro h
      exact ⟨List.forall_mem_nil _, h.dependsOn⟩
    · intro h
      exact ⟨fun hp => absurd hp hplain, h.2⟩

/-- Under a key of a `declare_launch_argument` the text is found when it is
    not typed. -/
theorem stringField_plain_iff {key t : Str} (ht : scalarAt e key = some t) :
    (Plain t → stringField (fileValue stod e) key = some t) ↔ isTyped stod t = false := by
  rw [stringField_fileValue, ht]
  show (Plain t → (if isTyped stod t then none else some (unquote t)) = some t) ↔ _
  cases htyped : isTyped stod t with
  | true =>
      refine iff_of_false (fun h => ?_) Bool.true_eq_false.mp
      cases h (plain_of_typed stod htyped)
  | false =>
      refine iff_of_true (fun hp => ?_) rfl
      rw [unquote_plain hp]
      rfl

/-- So it is for anything that says the text was found. -/
theorem field_reached_iff {key : Str} {P : Str → Prop}
    (hfound : ∀ t, scalarAt e key = some t →
      (P t ↔ stringField (fileValue stod e) key = some t)) :
    (∀ t ∈ scalarAt e key, Plain t → P t)
      ↔ ∀ t ∈ (scalarAt e key).toList, isTyped stod t = false := by
  refine forall_congr' (fun t => ?_)
  rw [Option.mem_toList]
  refine imp_congr_right (fun ht => ?_)
  rw [← stringField_plain_iff stod e ht]
  exact imp_congr_right (fun _ => hfound t ht)

/-- **When the texts of an argument reach it.** -/
theorem argumentReached_iff :
    ArgumentReached e (declareLaunchArgumentOptions (fileValue stod e))
      ↔ ∀ t ∈ (scalarAt e "name".toList).toList ++ (scalarAt e "default_value".toList).toList,
          isTyped stod t = false := by
  have hname : (∀ t ∈ scalarAt e "name".toList, Plain t →
      (declareLaunchArgumentOptions (fileValue stod e)).name = t)
        ↔ ∀ t ∈ (scalarAt e "name".toList).toList, isTyped stod t = false := by
    refine field_reached_iff stod e (fun t ht => ?_)
    show (stringField _ _).getD [] = t ↔ _
    cases stringField (fileValue stod e) "name".toList with
    | none =>
        refine iff_of_false (fun h => ?_) (Option.some_ne_none t).symm
        exact (isToken_of_mem_scalarAt ht).ne_nil h.symm
    | some s => exact Option.some_inj.symm
  have hdefault : (∀ t ∈ scalarAt e "default_value".toList, Plain t →
      ∃ subst : Substitution,
        (declareLaunchArgumentOptions (fileValue stod e)).defaultValue = some subst ∧
          ∀ context, subst.perform context = t)
        ↔ ∀ t ∈ (scalarAt e "default_value".toList).toList, isTyped stod t = false := by
    refine field_reached_iff stod e (fun t ht => ?_)
    show (∃ subst, (stringField _ _).map textSubstitution = some subst ∧ _) ↔ _
    cases stringField (fileValue stod e) "default_value".toList with
    | none =>
        refine iff_of_false ?_ (Option.some_ne_none t).symm
        rintro ⟨subst, hsubst, -⟩
        cases hsubst
    | some s =>
        constructor
        · rintro ⟨subst, hsubst, hperform⟩
          obtain rfl := Option.some.inj hsubst
          rw [← hperform LaunchContext.empty]
          rfl
        · intro h
          exact ⟨textSubstitution t, by rw [Option.some.inj h]; rfl, fun _ => rfl⟩
  rw [List.forall_mem_append, ← hname, ← hdefault]
  constructor
  · intro h
    exact ⟨h.name, h.defaultValue⟩
  · intro h
    exact ⟨h.1, h.2⟩

end Options

/-! ## Building a launch file -/

section BuildFile

variable {D O : Type} (stod : Str → Option D)

/-- The builder reads the type that is written, whatever quotes are around it. -/
theorem stringField_type_iff (e : FileEntity) {type : Str} (htype : isTyped stod type = false) :
    stringField (fileValue stod e) "type".toList = some type ↔ typeOf e = some type := by
  rw [stringField_fileValue]
  rw [typeOf]
  cases scalarAt e "type".toList with
  | none => exact Iff.rfl
  | some t =>
      show (if isTyped stod t then none else some (unquote t)) = some type
        ↔ some (unquote t) = some type
      cases htyped : isTyped stod t with
      | false => exact Iff.rfl
      | true =>
          refine iff_of_false (Option.some_ne_none type).symm (fun h => ?_)
          -- a typed scalar has no quotes, so it is no quoted spelling of a type
          rw [unquote_plain (plain_of_typed stod htyped)] at h
          rw [Option.some.inj h, htype] at htyped
          cases htyped

/-- A process is built of its entity. -/
theorem buildAction_executeProcess {e : FileEntity}
    (h : typeOf e = some "execute_process".toList) :
    buildAction (O := O) (fileValue stod e)
      = .ok (.executeProcess (executeProcessOptions (fileValue stod e))) := by
  rw [buildAction]
  rw [(stringField_type_iff stod e rfl).mpr h]
  rfl

/-- A launch argument is built of its entity. -/
theorem buildAction_declareLaunchArgument {e : FileEntity}
    (h : typeOf e = some "declare_launch_argument".toList) :
    buildAction (O := O) (fileValue stod e)
      = .ok (.declareLaunchArgument (declareLaunchArgumentOptions (fileValue stod e))) := by
  rw [buildAction]
  rw [(stringField_type_iff stod e rfl).mpr h]
  rfl

/-- No other entity becomes an action. -/
theorem buildAction_unknown {e : FileEntity} (h : isKnown e = false) :
    ∃ error, buildAction (O := O) (fileValue stod e) = .error error := by
  obtain ⟨h1, h2⟩ := Bool.or_eq_false_iff.mp h
  have hprocess := (stringField_type_iff stod e rfl).not.mpr (of_decide_eq_false h1)
  have hargument := (stringField_type_iff stod e rfl).not.mpr (of_decide_eq_false h2)
  rw [buildAction]
  cases hfield : stringField (fileValue stod e) "type".toList with
  | none => exact ⟨_, rfl⟩
  | some type =>
      rw [hfield] at hprocess hargument
      have hne1 : type ≠ "execute_process".toList := fun heq => hprocess (congrArg some heq)
      have hne2 : type ≠ "declare_launch_argument".toList :=
        fun heq => hargument (congrArg some heq)
      simp only [if_neg hne1, if_neg hne2]
      exact ⟨_, rfl⟩

/-- What is built of an entity, beside the entity. -/
def built (O : Type) (e : FileEntity) : Option (FileEntity × LaunchDescriptionEntity O) :=
  match buildAction (fileValue stod e) with
  | .ok action => some (e, action)
  | .error _ => none

/-- The entities of the known types are built, and as what they are. -/
theorem built_cases (O : Type) (e : FileEntity) :
    (isKnown e = false ∧ built stod O e = none) ∨
    (isKnown e = true ∧ ∃ action, built stod O e = some (e, action)
      ∧ (Reached e action ↔ ∀ t ∈ handedOn e, isTyped stod t = false)) := by
  rw [built]
  cases hknown : isKnown e with
  | false =>
      obtain ⟨error, herror⟩ := buildAction_unknown (O := O) stod hknown
      rw [herror]
      exact Or.inl ⟨rfl, rfl⟩
  | true =>
      refine Or.inr ⟨rfl, ?_⟩
      rcases Bool.or_eq_true_iff.mp hknown with h | h
      · have htype := of_decide_eq_true h
        rw [buildAction_executeProcess stod htype]
        refine ⟨_, rfl, ?_⟩
        rw [handedOn]
        rw [if_pos htype, ← processReached_iff]
        exact and_iff_right htype
      · have htype := of_decide_eq_true h
        rw [buildAction_declareLaunchArgument stod htype]
        refine ⟨_, rfl, ?_⟩
        rw [handedOn]
        rw [if_neg (by rw [htype]; decide), if_pos htype, ← argumentReached_iff]
        exact and_iff_right htype

/-- The loop of `build` adds what is built, in the order of the file. -/
theorem addActions_fileValue (es : List FileEntity)
    (desc : LaunchDescription (LaunchDescriptionEntity O)) :
    (addActions (es.map (fileValue stod)) desc).entities
      = desc.entities ++ (es.filterMap (built stod O)).map (fun p => some p.2) := by
  induction es generalizing desc with
  | nil => exact (List.append_nil _).symm
  | cons e es ih =>
      rw [List.map_cons, List.filterMap_cons]
      rw [built]
      show (match buildAction (fileValue stod e) with
        | .error _ => addActions (es.map (fileValue stod)) desc
        | .ok action => addActions (es.map (fileValue stod)) (desc.add (some action))).entities = _
      cases buildAction (O := O) (fileValue stod e) with
      | error _ => exact ih desc
      | ok action =>
          refine (ih _).trans ?_
          show (desc.entities ++ [some action]) ++ _ = _
          rw [List.append_assoc]
          rfl

/-- The entities of a known type are built, in their order. -/
theorem filterMap_built_fst (es : List FileEntity) :
    (es.filterMap (built stod O)).map Prod.fst = es.filter isKnown := by
  induction es with
  | nil => rfl
  | cons e es ih =>
      rw [List.filterMap_cons, List.filter_cons]
      rcases built_cases stod O e with ⟨hknown, hbuilt⟩ | ⟨hknown, action, hbuilt, -⟩
      · rw [hbuilt, if_neg (by simp [hknown])]
        exact ih
      · rw [hbuilt, if_pos hknown, List.map_cons, ih]

/-- An entity of another type hands nothing on. -/
theorem handedOn_of_unknown {e : FileEntity} (h : isKnown e = false) : handedOn e = [] := by
  obtain ⟨h1, h2⟩ := Bool.or_eq_false_iff.mp h
  rw [handedOn]
  rw [if_neg (of_decide_eq_false h1), if_neg (of_decide_eq_false h2)]

/-- All of them are reached exactly if nothing typed is handed on. -/
theorem forall_built_iff (es : List FileEntity) :
    (∀ p ∈ es.filterMap (built stod O), Reached p.1 p.2)
      ↔ ∀ e ∈ es, ∀ t ∈ handedOn e, isTyped stod t = false := by
  constructor
  · intro h e he
    rcases built_cases stod O e with ⟨hknown, -⟩ | ⟨-, action, hbuilt, hiff⟩
    · rw [handedOn_of_unknown hknown]
      exact List.forall_mem_nil _
    · exact hiff.mp (h (e, action) (List.mem_filterMap.mpr ⟨e, he, hbuilt⟩))
  · intro h p hp
    obtain ⟨e, he, hbuilt⟩ := List.mem_filterMap.mp hp
    rcases built_cases stod O e with ⟨-, hnone⟩ | ⟨-, action, hsome, hiff⟩
    · rw [hnone] at hbuilt
      cases hbuilt
    · obtain rfl := Option.some.inj (hsome.symm.trans hbuilt)
      exact hiff.mpr (h e he)

/-- The top-level field under a key. -/
def topAt (d : LaunchFile) (key : Str) : Option (TopValue Token ItemToken) :=
  findEntry key (d.fields.map (fun f => (f.1.text, f.2)))

/-- **What reaches the actions of a launch file.**  The file is parsed and
    built, every entity of a known type becomes the action it says, in the
    order of the file, and the texts of the file reach the options if and only
    if no scalar among them is one `parse_scalar` takes for a boolean or a
    number. -/
theorem build_reaches_iff (d : LaunchFile) {es : Block FileEntity} {content : Str}
    (hes : topAt d "entities".toList = some (.entities es))
    (hcontent : content = unlines (d.lines Subtype.val Subtype.val)
      ∨ content = (unlines (d.lines Subtype.val Subtype.val)).dropLast) :
    ∃ (yaml : YamlValue D) (desc : LaunchDescription (LaunchDescriptionEntity O))
      (actions : List (FileEntity × LaunchDescriptionEntity O)),
      parse stod content = .ok (.ok yaml)
        ∧ build yaml = .ok desc
        ∧ desc.entities = actions.map (fun p => some p.2)
        ∧ actions.map Prod.fst = es.toList.filter isKnown
        ∧ ((∀ p ∈ actions, Reached p.1 p.2)
          ↔ ∀ e ∈ es.toList, ∀ t ∈ handedOn e, isTyped stod t = false) := by
  have hne : d.fields ≠ [] := by
    intro hnil
    rw [topAt] at hes
    rw [hnil] at hes
    cases hes
  have hparse : parse stod content
      = .ok (.ok (d.value (leafValue stod Subtype.val) (leafValue stod Subtype.val))) :=
    parse_lines (fun a : Token => a.property) (fun b : ItemToken => b.property) d hne hcontent
  -- the actions are listed beside the entities they were built of
  refine ⟨_, addActions (es.toList.map (fileValue stod)) {}, es.toList.filterMap (built stod O),
    hparse, ?_, ?_, filterMap_built_fst stod es.toList, forall_built_iff stod es.toList⟩
  · have hfield : (d.value (leafValue stod Subtype.val) (leafValue stod Subtype.val)).field?
        "entities".toList = some (.array (es.toList.map (fileValue stod))) := by
      show findEntry _ (ofEntries _) = _
      rw [findEntry_ofEntries (by simpa [Function.comp_def] using d.distinct)]
      have hmap := findEntry_map (TopValue.value (leafValue stod Subtype.val)
        (leafValue stod Subtype.val)) "entities".toList
        (d.fields.map (fun f => (f.1.text, f.2)))
      rw [List.map_map, show findEntry _ _ = _ from hes] at hmap
      exact hmap
    rw [build]
    rw [hfield]
    rfl
  · rw [addActions_fileValue]
    rfl

end BuildFile

theorem isToken_executeProcess : IsToken "execute_process".toList :=
  ⟨by decide, by decide, by decide, by decide⟩

theorem isItem_echo : IsToken "echo".toList ∧ ':' ∉ "echo".toList :=
  ⟨⟨by decide, by decide, by decide, by decide⟩, by decide⟩

theorem isItem_ready : IsToken "ready".toList ∧ ':' ∉ "ready".toList :=
  ⟨⟨by decide, by decide, by decide, by decide⟩, by decide⟩

theorem isItem_talker : IsToken "talker".toList ∧ ':' ∉ "talker".toList :=
  ⟨⟨by decide, by decide, by decide, by decide⟩, by decide⟩

/-- A process with a command of two words that waits for another one. -/
def listenerEntity : FileEntity where
  fields :=
    ⟨(typeKey, .scalar ⟨_, isToken_executeProcess⟩),
      [(cmdKey, .sequence ⟨⟨_, isItem_echo⟩, [⟨_, isItem_ready⟩]⟩),
        (dependsOnKey, .sequence ⟨⟨_, isItem_talker⟩, []⟩)]⟩
  distinct := by decide

/-- The command and the dependency of the process reach its options. -/
theorem build_reaches_iff_listener :
    ∃ (yaml : YamlValue Nat) (desc : LaunchDescription (LaunchDescriptionEntity Unit))
      (options : ExecuteProcess.Options),
      parse (fun _ => none)
          ("entities:\n  - type: execute_process\n    cmd:\n      - echo\n      - ready\n"
            ++ "    depends_on:\n      - talker\n").toList
        = .ok (.ok yaml)
        ∧ build yaml = .ok desc ∧ desc.entities = [some (.executeProcess options)]
        ∧ options.dependsOn = ["talker".toList]
        ∧ ∃ substs : List Substitution, options.cmd = substs.map some
          ∧ ∀ context, substs.map (·.perform context) = ["echo".toList, "ready".toList] := by
  obtain ⟨yaml, desc, actions, hparse, hbuild, hentities, hknown, hreached⟩ :=
    build_reaches_iff (O := Unit) (fun _ => (none : Option Nat))
      ⟨[(entitiesKey, .entities ⟨listenerEntity, []⟩)],
        List.nodup_singleton _⟩
      rfl (Or.inl rfl)
  obtain ⟨⟨e, action⟩, rfl⟩ : ∃ p, actions = [p] := by
    rw [← List.length_eq_one_iff]
    exact (List.length_map Prod.fst).symm.trans (congrArg List.length hknown)
  obtain rfl : e = listenerEntity := (List.cons.inj hknown).1
  have hnone : ∀ e ∈ [listenerEntity], ∀ t ∈ handedOn e,
      isTyped (fun _ => (none : Option Nat)) t = false := by decide
  have haction := hreached.mpr hnone _ (List.mem_singleton_self _)
  cases action with
  | executeProcess options =>
      obtain ⟨-, hprocess⟩ := haction
      exact ⟨yaml, desc, options, hparse, hbuild, hentities, hprocess.dependsOn,
        hprocess.cmd (show ∀ t ∈ itemsAt listenerEntity "cmd".toList, Plain t by decide)⟩
  | declareLaunchArgument options => cases haction.1
  | other => exact haction.elim

/-- An argument of a command that is one of the six words is dropped. -/
theorem build_reaches_iff_true :
    ∃ (yaml : YamlValue Nat) (desc : LaunchDescription (LaunchDescriptionEntity Unit)),
      parse (fun _ => none)
          "entities:\n  - type: execute_process\n    cmd:\n      - echo\n      - true\n".toList
        = .ok (.ok yaml)
        ∧ build yaml = .ok desc
        ∧ ¬ ∃ options, some (.executeProcess options) ∈ desc.entities
          ∧ ∃ substs : List Substitution, options.cmd = substs.map some
            ∧ ∀ context, substs.map (·.perform context) = ["echo".toList, "true".toList] := by
  refine ⟨.object [("entities".toList, .array [.object
      [("cmd".toList, .array [.string "echo".toList, .boolean true]),
        ("type".toList, .string "execute_process".toList)]])],
    ⟨[some (.executeProcess { cmd := [some (textSubstitution "echo".toList)] })]⟩,
    ?_, rfl, ?_⟩
  · rw [parse_eq_runDocument]
    rfl
  rintro ⟨options, hmem, substs, hcmd, hperform⟩
  obtain rfl := LaunchDescriptionEntity.executeProcess.inj
    (Option.some.inj (List.mem_singleton.mp hmem))
  have h1 := congrArg List.length hcmd
  have h2 := congrArg List.length (hperform LaunchContext.empty)
  rw [List.length_map] at h1 h2
  cases h1.trans h2

end YamlLaunchBuilder

end LaunchCpp.Yaml
