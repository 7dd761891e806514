import LaunchCpp.Yaml.Builder

/-! # Substitutions with text behind them

    `build_substitution` reads a name between `$(var ` or `$(env ` and the
    next `)`.  The substitution it makes has a name and a default value, and
    no place for what is written behind the `)`.  A text with any other head
    it keeps whole. -/

namespace LaunchCpp.Yaml

namespace YamlLaunchBuilder

/-- A name as it is written between the parentheses. -/
abbrev WrittenName := { n : Str // n ≠ [] ∧ Trimmed n ∧ ')' ∉ n }

/-- `$(var name)` and what follows. -/
def varText (n : WrittenName) (rest : Str) : Str := "$(var ".toList ++ (n.val ++ ')' :: rest)

/-- `$(env name)` and what follows. -/
def envText (n : WrittenName) (rest : Str) : Str := "$(env ".toList ++ (n.val ++ ')' :: rest)

/-- A substitution is built from the text, and it performs to the value. -/
def PerformsTo (text : Str) (context : LaunchContext) (value : Str) : Prop :=
  ∃ subst, buildSubstitution text = .ok subst ∧ subst.perform context = value

theorem performsTo_iff {text value : Str} {context : LaunchContext} {subst : Substitution}
    (hbuild : buildSubstitution text = .ok subst) :
    PerformsTo text context value ↔ subst.perform context = value := by
  rw [PerformsTo, hbuild]
  constructor
  · rintro ⟨subst', heq, hperform⟩
    obtain rfl := Except.ok.inj heq
    exact hperform
  · intro hperform
    exact ⟨subst, rfl, hperform⟩

/-- An element of a command performs to what its text does. -/
theorem perform_commandElement {text value : Str} {context : LaunchContext}
    (h : PerformsTo text context value) : (commandElement text).perform context = value := by
  obtain ⟨subst, hbuild, hperform⟩ := h
  rw [commandElement, hbuild]
  exact hperform

/-! ## The two forms -/

section Forms

variable (n : WrittenName) (rest : Str)

/-- The name is what stands before the first `)`. -/
theorem trim_name : trim ((n.val ++ ')' :: rest).takeWhile (· ≠ ')')) = n.val := by
  obtain ⟨n, -, htrimmed, hclose⟩ := n
  rw [(StringStreams.takeWhile_cut hclose rest).1]
  exact htrimmed.trim_eq

theorem close_mem : ')' ∈ n.val ++ ')' :: rest :=
  List.mem_append_right _ List.mem_cons_self

theorem buildSubstitution_var :
    buildSubstitution (varText n rest) = .ok (variableSubstitution n.val []) := by
  have hlength : 0 < n.val.length := List.length_pos_iff.mpr n.property.1
  have hguard : 7 < (varText n rest).length ∧ (varText n rest).take 6 = "$(var ".toList
      ∧ ')' ∈ (varText n rest).drop 6 := by
    refine ⟨?_, rfl, close_mem n rest⟩
    show 7 < (n.val ++ ')' :: rest).length + 6
    rw [List.length_append, List.length_cons]
    omega
  have hname : variableName (varText n rest) = some n.val := by
    rw [variableName, if_pos hguard]
    show (if trim ((n.val ++ ')' :: rest).takeWhile (· ≠ ')')) ≠ [] then
      some (trim ((n.val ++ ')' :: rest).takeWhile (· ≠ ')'))) else none) = some n.val
    rw [trim_name, if_pos n.property.1]
  rw [buildSubstitution, hname]

theorem buildSubstitution_env :
    buildSubstitution (envText n rest) = .ok (environmentVariable n.val []) := by
  have hhead : (envText n rest).take 6 ≠ "$(var ".toList := by
    show "$(env ".toList ≠ "$(var ".toList
    decide
  have hvar : variableName (envText n rest) = none := if_neg (fun h => hhead h.2.1)
  have hguard : 3 < (envText n rest).length ∧ (envText n rest).take 2 = "$(".toList
      ∧ ')' ∈ (envText n rest).drop 2 := by
    refine ⟨?_, rfl, List.mem_append_right "env ".toList (close_mem n rest)⟩
    show 3 < (n.val ++ ')' :: rest).length + 6
    omega
  have htype : ((envText n rest).drop 2).takeWhile (· ≠ ' ') = "env".toList := rfl
  have hrest : (((envText n rest).drop 2).dropWhile (· ≠ ' ')).tail = n.val ++ ')' :: rest := rfl
  have hspace : ' ' ∈ (envText n rest).drop 2 :=
    List.mem_append_left (n.val ++ ')' :: rest) (by decide : ' ' ∈ "env ".toList)
  rw [buildSubstitution, hvar]
  simp only [if_pos hguard, htype, hrest, trim_name]
  rw [if_neg (fun h => absurd h.1 (by decide)), if_pos ⟨trivial, hspace⟩]

end Forms

/-! ## Any other head -/

/-- `$(`, `env` and a blank make the head of the second form. -/
theorem envPrefix_of_type {text : Str} (hopen : text.take 2 = "$(".toList)
    (htype : (text.drop 2).takeWhile (· ≠ ' ') = "env".toList) (hspace : ' ' ∈ text.drop 2) :
    "$(env ".toList <+: text := by
  obtain ⟨before, after, hdrop, hbefore⟩ := List.eq_append_cons_of_mem hspace
  rw [hdrop, (StringStreams.takeWhile_cut hbefore after).1] at htype
  refine ⟨after, ?_⟩
  have htext := List.take_append_drop 2 text
  rw [hopen, hdrop, htype] at htext
  exact htext

/-- Without the head of a form the text is kept whole. -/
theorem performsTo_text {text : Str} (hvar : ¬ "$(var ".toList <+: text)
    (henv : ¬ "$(env ".toList <+: text) (context : LaunchContext) :
    PerformsTo text context text := by
  have hname : variableName text = none := by
    refine if_neg (fun h => hvar ?_)
    rw [← h.2.1]
    exact List.take_prefix 6 text
  refine ⟨textSubstitution text, ?_, rfl⟩
  rw [buildSubstitution, hname]
  show (if _ then _ else _) = _
  split
  · rename_i hguard
    show (if _ then _ else if _ then _ else _) = _
    rw [if_neg (fun h : _ ∧ _ => henv (envPrefix_of_type hguard.2.1 h.1 h.2)), ite_self]
  · rfl

/-! ## What is written behind -/

section Rest

variable (context : LaunchContext) (n : WrittenName) (rest : Str)

/-- The value of a launch configuration, empty if it is unset. -/
def configurationValue : Str := (context.getLaunchConfiguration n.val).toOption.getD []

/-- The value of an environment variable, empty if it is unset. -/
def environmentValue : Str := context.getEnvironmentVariable n.val

/-- **What follows the `)`** is not looked at. -/
theorem performsTo_var_iff {value : Str} :
    PerformsTo (varText n rest) context value ↔ configurationValue context n = value := by
  rw [performsTo_iff (buildSubstitution_var n rest), perform_variableSubstitution,
    configurationValue]

theorem performsTo_env_iff {value : Str} :
    PerformsTo (envText n rest) context value ↔ environmentValue context n = value := by
  rw [performsTo_iff (buildSubstitution_env n rest), perform_environmentVariable,
    environmentValue]
  by_cases hempty : context.getEnvironmentVariable n.val = []
  · rw [if_pos hempty, hempty]
  · rw [if_neg hempty]

/-- **No part of the written text is dropped** exactly if nothing stands behind
    the `)`. -/
theorem performsTo_rest_iff :
    (PerformsTo (varText n rest) context (configurationValue context n ++ rest) ↔ rest = [])
      ∧ (PerformsTo (envText n rest) context (environmentValue context n ++ rest)
        ↔ rest = []) := by
  have hlost : ∀ value : Str, value = value ++ rest ↔ rest = [] := fun value =>
    eq_comm.trans List.append_right_eq_self
  refine ⟨?_, ?_⟩
  · rw [performsTo_var_iff]
    exact hlost (configurationValue context n)
  · rw [performsTo_env_iff]
    exact hlost (environmentValue context n)

end Rest

/-- A process with a home directory. -/
def homeContext : LaunchContext :=
  { LaunchContext.empty with
    getenv := fun name => if name = "HOME".toList then some "/root".toList else none }

/-- A file below the home directory, written with `$(env HOME)`. -/
theorem performsTo_rest_home :
    ¬ PerformsTo "$(env HOME)/bin".toList homeContext
      (homeContext.getEnvironmentVariable "HOME".toList ++ "/bin".toList) := by
  rintro ⟨subst, hbuild, hperform⟩
  obtain rfl := Except.ok.inj hbuild
  exact absurd hperform (by decide)

end YamlLaunchBuilder

end LaunchCpp.Yaml
