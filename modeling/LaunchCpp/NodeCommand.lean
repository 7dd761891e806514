import LaunchCpp.EscapedArguments

/-! # The command line of a node

    `CommandBuilder` checks a package, an executable and the name of a node
    character by character, and puts them on a command line together with a
    namespace it does not check.  What is checked needs no quotes, so that the
    line means the same to a shell and to `execvp` (`node_words`); what is not
    checked decides over the rest. -/

namespace LaunchCpp.CommandBuilder

/-! ## The checks -/

/-- `std::isalpha`, in the C locale. -/
def isalpha (c : Char) : Bool := c.isAlpha

/-- `std::isalnum`, in the C locale. -/
def isalnum (c : Char) : Bool := c.isAlphanum

/-- One check for the four kinds of name: what the empty name is, what the first
    character must be, and what every character must be. -/
def validName (empty : Bool) (start part : Char → Bool) : Str → Bool
  | [] => empty
  | c :: cs => start c && (c :: cs).all part

/-- `is_valid_package_name`. -/
def isValidPackageName : Str → Bool :=
  validName false isalpha (fun c => isalnum c || c = '_' || c = '-')

/-- `is_valid_executable_name`. -/
def isValidExecutableName : Str → Bool :=
  validName false (fun c => isalpha c || c = '_') (fun c => isalnum c || c = '_' || c = '-')

/-- `is_valid_node_name`; without a name the default is used. -/
def isValidNodeName : Str → Bool :=
  validName true (fun c => isalpha c || c = '_') (fun c => isalnum c || c = '_')

/-- `is_valid_parameter_name`. -/
def isValidParameterName : Str → Bool :=
  validName false (fun c => isalpha c || c = '_') (fun c => isalnum c || c = '_' || c = '.')

/-- What is read of `NodeActionOptions`. -/
structure NodeActionOptions where
  package : Str := []
  executable : Str := []
  name : Str := []
  namespace_ : Str := []
  deriving DecidableEq, Repr

/-- `BuildStatus`, of an error. -/
inductive BuildStatus where
  | invalidPackage
  | invalidExecutable
  | invalidName
  | invalidParameter
  | pathNotFound
  | systemError
  deriving DecidableEq, Repr

/-- `validate_options`; an error has its status and its message. -/
def validateOptions (options : NodeActionOptions) : Except (BuildStatus × Str) Unit :=
  if !isValidPackageName options.package then
    .error (.invalidPackage, "Invalid package name: ".toList ++ options.package)
  else if !isValidExecutableName options.executable then
    .error (.invalidExecutable, "Invalid executable name: ".toList ++ options.executable)
  else if !isValidNodeName options.name then
    .error (.invalidName, "Invalid node name: ".toList ++ options.name)
  else .ok ()

/-- `build_node_identification`. -/
def buildNodeIdentification (options : NodeActionOptions) : List Str :=
  ["run".toList, options.package, options.executable]

/-- `build_name_and_namespace`. -/
def buildNameAndNamespace (options : NodeActionOptions) : List Str :=
  let args := ["--ros-args".toList]
  let args := if options.name ≠ [] then args ++ ["-r".toList, "__node:=".toList ++ options.name]
    else args
  if options.namespace_ ≠ [] then
    args ++ ["-r".toList, "__ns:=".toList ++ options.namespace_]
  else args

/-- What is accepted has the three names in order. -/
theorem validateOptions_ok {options : NodeActionOptions} (h : validateOptions options = .ok ()) :
    isValidPackageName options.package = true ∧ isValidExecutableName options.executable = true
      ∧ isValidNodeName options.name = true := by
  rw [validateOptions] at h
  split_ifs at h with hpackage hexecutable hname
  simp only [Bool.not_eq_true', Bool.not_eq_false] at hpackage hexecutable hname
  exact ⟨hpackage, hexecutable, hname⟩

/-! ## Names need no quotes -/

/-- The characters that mean something to `escape_argument`, a shell or a C
    string, wherever they stand. -/
def specials : Str :=
  [' ', '\t', '\n', '\x0b', '\x0c', '\r', '"', '\\', '$', '`', '\'', '*', '?', '[', '<', '>',
    '|', '&', ';', '(', ')', '#', '~', '\x00']

/-- A word that is not empty and has none of them. -/
structure Plain (word : Str) : Prop where
  ne_nil : word ≠ []
  not_special : ∀ c ∈ word, c ∉ specials

/-- Only special characters ask for quotes. -/
theorem quotedChar_of_not_special {c : Char} (h : c ∉ specials) : quotedChar c = false := by
  simp only [specials, List.mem_cons, not_or] at h
  simp [quotedChar, isspace, h]

/-- Only special characters mean something to a shell. -/
theorem unquotedSpecial_of_not_special {c : Char} (h : c ∉ specials) :
    unquotedSpecial c = false := by
  simp only [specials, List.mem_cons, not_or] at h
  simp [unquotedSpecial, h]

namespace Plain

variable {word : Str}

/-- A plain word needs no quotes. -/
theorem needsQuoting (h : Plain word) : needsQuoting word = false := by
  refine List.any_eq_false.mpr ?_
  intro c hc
  rw [quotedChar_of_not_special (h.not_special c hc)]
  exact Bool.false_ne_true

/-- It has no NUL. -/
theorem nul_not_mem (h : Plain word) : '\x00' ∉ word := by
  intro hnul
  refine h.not_special _ hnul ?_
  simp [specials]

/-- A plain word goes through `execvp` as it is, -/
theorem cStr_escapeArgument (h : Plain word) : cStr (escapeArgument word) = word :=
  cStr_escapeArgument_eq_iff.mpr ⟨h.needsQuoting, h.nul_not_mem⟩

/-- and through a shell. -/
theorem words_escapeArgument (h : Plain word) :
    ShellWords.words (escapeArgument word) = .ok [word] := by
  refine (readAsOneWord_iff_words word).mp ((readAsOneWord_iff word).mpr ⟨h.ne_nil, ?_, ?_⟩)
  · intro c hc
    have hspecial := h.not_special c hc
    simp only [specials, List.mem_cons, not_or] at hspecial
    exact ⟨hspecial.2.2.2.2.2.2.2.2.1, hspecial.2.2.2.2.2.2.2.2.2.1⟩
  · refine Or.inr ⟨fun c hc => unquotedSpecial_of_not_special (h.not_special c hc), ?_, ?_⟩
    · intro hhead
      refine h.not_special _ (List.mem_of_mem_head? hhead) ?_
      simp [specials]
    · intro hhead
      refine h.not_special _ (List.mem_of_mem_head? hhead) ?_
      simp [specials]

/-- Text behind plain text makes one plain word. -/
theorem append {front : Str} (hfront : ∀ c ∈ front, c ∉ specials) (hne : front ≠ [])
    (h : ∀ c ∈ word, c ∉ specials) : Plain (front ++ word) := by
  refine ⟨List.append_ne_nil_of_left_ne_nil hne _, ?_⟩
  intro c hc
  rcases List.mem_append.mp hc with hc | hc
  · exact hfront c hc
  · exact h c hc

end Plain

/-- A name without special characters, character by character. -/
theorem not_special_of_any {text : Str} (h : (text.any fun c => specials.contains c) = false) :
    ∀ c ∈ text, c ∉ specials := by
  intro c hc hspecial
  exact List.any_eq_false.mp h c hc (List.contains_iff_mem.mpr hspecial)

/-- A check that lets no special character through. -/
theorem not_special_of_validName {empty : Bool} {start part : Char → Bool} {name : Str}
    (hpart : specials.any part = false) (h : validName empty start part name = true) :
    ∀ c ∈ name, c ∉ specials := by
  intro c hc hspecial
  cases name with
  | nil => cases hc
  | cons d name =>
      rw [validName, Bool.and_eq_true] at h
      exact List.any_eq_false.mp hpart c hspecial (List.all_eq_true.mp h.2 c hc)

/-- A valid name is not empty. -/
theorem ne_nil_of_validName {start part : Char → Bool} {name : Str}
    (h : validName false start part name = true) : name ≠ [] := by
  rintro rfl
  cases h

/-- A valid package is one plain word. -/
theorem plain_package {package : Str} (h : isValidPackageName package = true) : Plain package :=
  ⟨ne_nil_of_validName h, not_special_of_validName (by decide) h⟩

/-- A valid executable is one plain word. -/
theorem plain_executable {executable : Str} (h : isValidExecutableName executable = true) :
    Plain executable :=
  ⟨ne_nil_of_validName h, not_special_of_validName (by decide) h⟩

/-- A valid parameter is one plain word. -/
theorem plain_parameter {name : Str} (h : isValidParameterName name = true) : Plain name :=
  ⟨ne_nil_of_validName h, not_special_of_validName (by decide) h⟩

/-- A valid node name is plain, if there is one. -/
theorem not_special_of_nodeName {name : Str} (h : isValidNodeName name = true) :
    ∀ c ∈ name, c ∉ specials :=
  not_special_of_validName (by decide) h

/-! ## The words of a node -/

/-- The words in front of the namespace. -/
def wordsInFront (options : NodeActionOptions) : List Str :=
  buildNodeIdentification options ++ "--ros-args".toList
    :: if options.name ≠ [] then ["-r".toList, "__node:=".toList ++ options.name] else []

/-- What `build_node_identification` and `build_name_and_namespace` yield. -/
def nodeWords (options : NodeActionOptions) : List Str :=
  buildNodeIdentification options ++ buildNameAndNamespace options

/-- The namespace comes last. -/
theorem nodeWords_eq (options : NodeActionOptions) :
    nodeWords options = wordsInFront options
      ++ if options.namespace_ ≠ [] then ["-r".toList, "__ns:=".toList ++ options.namespace_]
        else [] := by
  rw [nodeWords, buildNameAndNamespace, wordsInFront]
  split_ifs <;> simp

/-- A text without special characters is one plain word. -/
theorem plain_of_any {text : Str} (hne : text ≠ [])
    (h : (text.any fun c => specials.contains c) = false) : Plain text :=
  ⟨hne, not_special_of_any h⟩

/-- Where the options are valid, these words are plain. -/
theorem plain_wordsInFront {options : NodeActionOptions} (h : validateOptions options = .ok ()) :
    ∀ word ∈ wordsInFront options, Plain word := by
  obtain ⟨hpackage, hexecutable, hname⟩ := validateOptions_ok h
  intro word hword
  rcases List.mem_append.mp hword with hword | hword
  · rcases List.mem_cons.mp hword with rfl | hword
    · exact plain_of_any (by decide) (by decide)
    rcases List.mem_cons.mp hword with rfl | hword
    · exact plain_package hpackage
    · cases List.mem_singleton.mp hword
      exact plain_executable hexecutable
  · rcases List.mem_cons.mp hword with rfl | hword
    · exact plain_of_any (by decide) (by decide)
    · split_ifs at hword
      · rcases List.mem_cons.mp hword with rfl | hword
        · exact plain_of_any (by decide) (by decide)
        · cases List.mem_singleton.mp hword
          exact .append (not_special_of_any (by decide)) (by decide) (not_special_of_nodeName hname)
      · cases hword

/-- The word of a namespace. -/
def namespaceWord (ns : Str) : Str := "__ns:=".toList ++ ns

/-- What is put in front of the namespace needs no quotes. -/
theorem needsQuoting_namespaceWord (ns : Str) :
    needsQuoting (namespaceWord ns) = needsQuoting ns := by
  have hfront : ("__ns:=".toList).any quotedChar = false := by decide
  show ("__ns:=".toList ++ ns).any quotedChar = ns.any quotedChar
  rw [List.any_append, hfront, Bool.false_or]

/-- What may stand in a namespace that a shell reads: nothing that is expanded,
    and if there is nothing to quote, nothing special. -/
theorem words_namespaceWord_iff (ns : Str) :
    ShellWords.words (escapeArgument (namespaceWord ns)) = .ok [namespaceWord ns]
      ↔ (∀ c ∈ ns, c ≠ '$' ∧ c ≠ '`')
        ∧ (needsQuoting ns = true ∨ ∀ c ∈ ns, unquotedSpecial c = false) := by
  have hfront : ∀ c ∈ "__ns:=".toList, c ∉ specials := not_special_of_any (by decide)
  have hhead : (namespaceWord ns).head? = some '_' := rfl
  rw [← readAsOneWord_iff_words, readAsOneWord_iff, needsQuoting_namespaceWord, hhead]
  constructor
  · rintro ⟨-, hexpands, hquotes⟩
    refine ⟨fun c hc => hexpands c (List.mem_append_right _ hc), ?_⟩
    rcases hquotes with hquotes | ⟨hplain, -, -⟩
    · exact Or.inl hquotes
    · exact Or.inr (fun c hc => hplain c (List.mem_append_right _ hc))
  · rintro ⟨hexpands, hquotes⟩
    refine ⟨List.cons_ne_nil _ _, ?_, ?_⟩
    · intro c hc
      rcases List.mem_append.mp hc with hc | hc
      · refine ⟨?_, ?_⟩ <;> rintro rfl <;> exact hfront _ hc (by simp [specials])
      · exact hexpands c hc
    · rcases hquotes with hquotes | hplain
      · exact Or.inl hquotes
      · refine Or.inr ⟨?_, by decide, by decide⟩
        intro c hc
        rcases List.mem_append.mp hc with hc | hc
        · exact unquotedSpecial_of_not_special (hfront c hc)
        · exact hplain c hc

/-- What leaves plain words alone leaves a list of them alone. -/
theorem map_eq_self_of_plain {f : Str → Str} {ws : List Str} (hf : ∀ word, Plain word → f word = word)
    (h : ∀ word ∈ ws, Plain word) : ws.map f = ws := by
  rw [List.map_congr_left (fun word hword => hf word (h word hword))]
  exact List.map_id ws

/-- To a shell, plain words in front of others are just words. -/
theorem words_plain {ws : List Str} (h : ∀ word ∈ ws, Plain word) (rest : List Str) :
    ShellWords.words (List.intercalate [' '] ((ws ++ rest).map escapeArgument))
      = (ShellWords.words (List.intercalate [' '] (rest.map escapeArgument))).map (ws ++ ·) := by
  have hescape : ws.map escapeArgument = ws :=
    map_eq_self_of_plain (fun word hword => escapeArgument_of_not hword.needsQuoting) h
  have hwords : ∀ word ∈ ws, ShellWords.words word = .ok [word] := by
    intro word hword
    have hplain := h word hword
    rw [← hplain.words_escapeArgument, escapeArgument_of_not hplain.needsQuoting]
  rw [List.map_append, hescape, ShellWords.words_intercalate_append hwords,
    List.flatMap_singleton']

/-- **What a shell reads**: the namespace decides. -/
theorem shell_reads_iff {options : NodeActionOptions} (h : validateOptions options = .ok ()) :
    ShellWords.words (List.intercalate [' '] ((nodeWords options).map escapeArgument))
        = .ok (nodeWords options)
      ↔ (∀ c ∈ options.namespace_, c ≠ '$' ∧ c ≠ '`')
        ∧ (needsQuoting options.namespace_ = true
          ∨ ∀ c ∈ options.namespace_, unquotedSpecial c = false) := by
  have hfront := plain_wordsInFront h
  rw [nodeWords_eq]
  by_cases hns : options.namespace_ = []
  · rw [if_neg (not_not_intro hns), words_plain hfront, hns]
    exact iff_of_true rfl ⟨fun c hc => (by cases hc), Or.inr (fun c hc => (by cases hc))⟩
  · have hall : ∀ word ∈ wordsInFront options ++ ["-r".toList], Plain word := by
      intro word hword
      rcases List.mem_append.mp hword with hword | hword
      · exact hfront word hword
      · rw [List.mem_singleton.mp hword]
        exact plain_of_any (by decide) (by decide)
    rw [if_pos hns, ← words_namespaceWord_iff]
    show ShellWords.words (List.intercalate [' '] ((wordsInFront options
      ++ (["-r".toList] ++ [namespaceWord options.namespace_])).map escapeArgument))
      = .ok (wordsInFront options ++ (["-r".toList] ++ [namespaceWord options.namespace_])) ↔ _
    rw [← List.append_assoc, words_plain hall, List.map_singleton, List.intercalate_singleton]
    cases ShellWords.words (escapeArgument (namespaceWord options.namespace_)) with
    | error e => exact iff_of_false (fun heq => (by cases heq)) (fun heq => (by cases heq))
    | ok ws =>
        refine ⟨fun heq => ?_, fun heq => ?_⟩
        · exact congrArg Except.ok (List.append_cancel_left (Except.ok.inj heq))
        · rw [Except.ok.inj heq]
          rfl

/-- **What `execvp` gets**: the namespace decides here, too. -/
theorem exec_receives_iff {options : NodeActionOptions} (h : validateOptions options = .ok ()) :
    (nodeWords options).map (fun word => cStr (escapeArgument word)) = nodeWords options
      ↔ needsQuoting options.namespace_ = false ∧ '\x00' ∉ options.namespace_ := by
  have hfront := map_eq_self_of_plain (f := fun word => cStr (escapeArgument word))
    (fun word hword => hword.cStr_escapeArgument) (plain_wordsInFront h)
  rw [nodeWords_eq, List.map_append, hfront, List.append_cancel_left_eq]
  by_cases hns : options.namespace_ = []
  · rw [if_neg (not_not_intro hns), hns]
    exact iff_of_true rfl ⟨rfl, List.not_mem_nil⟩
  · have hflag : cStr (escapeArgument "-r".toList) = "-r".toList :=
      (plain_of_any (by decide) (by decide)).cStr_escapeArgument
    rw [if_pos hns]
    show [cStr (escapeArgument "-r".toList),
        cStr (escapeArgument (namespaceWord options.namespace_))]
      = ["-r".toList, namespaceWord options.namespace_] ↔ _
    have hnul : '\x00' ∈ namespaceWord options.namespace_ ↔ '\x00' ∈ options.namespace_ :=
      List.mem_append.trans (or_iff_right (by decide))
    rw [hflag, List.cons_inj_right, List.singleton_inj, cStr_escapeArgument_eq_iff,
      needsQuoting_namespaceWord, hnul]

/-- A name and a namespace are told apart by what stands in front of them. -/
theorem nodeWord_ne_namespaceWord (name ns : Str) : "__node:=".toList ++ name ≠ namespaceWord ns := by
  intro h
  have hfourth : some 'o' = some 's' := congrArg (fun word : Str => word[3]?) h
  exact absurd hfourth (by decide)

/-- The words say everything that was read of the options. -/
theorem nodeWords_injective : Function.Injective nodeWords := by
  rintro ⟨package, executable, name, ns⟩ ⟨package', executable', name', ns'⟩ h
  rw [nodeWords_eq, nodeWords_eq] at h
  obtain ⟨-, h⟩ := List.cons.inj h
  obtain ⟨rfl, h⟩ := List.cons.inj h
  obtain ⟨rfl, h⟩ := List.cons.inj h
  obtain ⟨-, h⟩ := List.cons.inj h
  have hname : ∀ name name' : Str, "__node:=".toList ++ name = "__node:=".toList ++ name' →
      name = name' := fun _ _ => List.append_cancel_left
  have hns : ∀ ns ns' : Str, "__ns:=".toList ++ ns = "__ns:=".toList ++ ns' → ns = ns' :=
    fun _ _ => List.append_cancel_left
  -- where the lengths agree, the words do, one by one
  by_cases h1 : name = [] <;> by_cases h2 : name' = [] <;> by_cases h3 : ns = [] <;>
    by_cases h4 : ns' = [] <;>
    simp only [h1, h2, h3, h4, ne_eq, not_true_eq_false, not_false_eq_true, if_true, if_false,
      List.append_eq, List.nil_append, List.append_nil, List.cons_append, List.cons.injEq,
      reduceCtorEq, and_true, true_and, and_false] at h
  · rw [h1, h2, h3, h4]
  · rw [h1, h2, hns _ _ h]
  · exact absurd h.symm (nodeWord_ne_namespaceWord _ _)
  · exact absurd h (nodeWord_ne_namespaceWord _ _)
  · rw [h3, h4, hname _ _ h]
  · rw [hname _ _ h.1, hns _ _ h.2]

/-- **What the checks of a node are worth.**  Behind valid options the line is
    read back by a shell exactly if nothing in the namespace is expanded or
    goes unquoted, and received through `execvp` exactly if the namespace needs
    no quotes; package, executable and name play no part in it.  And no two
    nodes have the same words. -/
theorem node_words {options : NodeActionOptions} (h : validateOptions options = .ok ()) :
    (ShellWords.words (List.intercalate [' '] ((nodeWords options).map escapeArgument))
        = .ok (nodeWords options)
      ↔ (∀ c ∈ options.namespace_, c ≠ '$' ∧ c ≠ '`')
        ∧ (needsQuoting options.namespace_ = true
          ∨ ∀ c ∈ options.namespace_, unquotedSpecial c = false))
    ∧ ((nodeWords options).map (fun word => cStr (escapeArgument word)) = nodeWords options
      ↔ needsQuoting options.namespace_ = false ∧ '\x00' ∉ options.namespace_)
    ∧ ∀ options', nodeWords options' = nodeWords options → options' = options :=
  ⟨shell_reads_iff h, exec_receives_iff h, fun _ heq => nodeWords_injective heq⟩

/-- A talker whose namespace ends the command. -/
def rebootingTalker : NodeActionOptions where
  package := "demo_nodes_cpp".toList
  executable := "talker".toList
  name := "test_talker".toList
  namespace_ := "/test_ns;reboot".toList

/-- A namespace with a `$` is handed to `execvp` as it is, and not to a
    shell. -/
theorem node_words_talker :
    (nodeWords rebootingTalker).map (fun word => cStr (escapeArgument word))
        = nodeWords rebootingTalker
      ∧ ShellWords.words
          (List.intercalate [' '] ((nodeWords rebootingTalker).map escapeArgument))
        ≠ .ok (nodeWords rebootingTalker) := by
  have hvalid : validateOptions rebootingTalker = .ok () := by decide
  obtain ⟨hshell, hexec, -⟩ := node_words hvalid
  refine ⟨hexec.mpr (by decide), fun hread => ?_⟩
  rcases (hshell.mp hread).2 with hquotes | hplain
  · exact absurd hquotes (by decide)
  · exact absurd (hplain ';' (by decide)) (by decide)

end LaunchCpp.CommandBuilder
