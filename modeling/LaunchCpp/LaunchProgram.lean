import LaunchCpp.LaunchFiles

/-! # `main`

    The program reads the launch file it is named, includes it in a service and
    runs the service.  `main_runs_file` is on all of it, from the text of the
    file to the argument vectors handed to `fork`.  What is written behind the
    name of the file reaches the options of the service, and nothing else. -/

namespace LaunchCpp

open Yaml YamlLaunchBuilder OrderedMaps StringStreams

/-- `LaunchService::Options`. -/
structure LaunchService.Options where
  argv : List Str := []
  noninteractive : Bool := false
  debug : Bool := false
  deriving DecidableEq

/-- The context a service is constructed with.  It keeps the options and reads
    them nowhere. -/
def LaunchService.contextOf (_ : LaunchService.Options) (getenv : Str → Option Str) :
    LaunchContext := { LaunchContext.empty with getenv }

namespace LaunchProgram

variable {D V : Type}

/-- The loop of `main` over the arguments behind the launch file. -/
def parseArguments : List Str → LaunchService.Options → LaunchService.Options
  | [], options => options
  | arg :: rest, options =>
      if arg = "--debug".toList then parseArguments rest { options with debug := true }
      else parseArguments rest { options with argv := options.argv ++ [arg] }

/-- The other kinds of entity, of which a launch file has none. -/
def noOthers (entity : Empty) (_ : LaunchState V) :
    Result (List (Option (LaunchDescriptionEntity Empty))) × LaunchState V := nomatch entity

/-- `main`: the exit code, and what has been launched. -/
def main (stod : Str → Option D) (machine : Machine V) (fuel : Nat)
    (getenv : Str → Option Str) (argv : List Str) (v : V) : Except Abort Int × LaunchState V :=
  match argv with
  | _ :: launchFile :: args =>
      if launchFile = "--help".toList ∨ launchFile = "-h".toList then
        (.ok 0, ⟨LaunchService.contextOf {} getenv, v, []⟩)
      else
        let options := parseArguments args {}
        let service : LaunchService Empty := {}
        let context := LaunchService.contextOf options getenv
        match LaunchDescription.fromYamlFile stod machine launchFile v with
        | (.error abort, v) => (.error abort, ⟨context, v, []⟩)
        | (.ok (.error _), v) => (.ok 1, ⟨context, v, []⟩)
        | (.ok (.ok desc), v) =>
            let included := service.includeLaunchDescription (some desc)
            if included.1.isError then (.ok 1, ⟨context, v, []⟩)
            else
              let run := included.2.run (launching machine fuel noOthers) true ⟨context, v, []⟩
              (.ok run.exitCode, run.world)
  -- the usage is printed
  | _ => (.ok 1, ⟨LaunchService.contextOf {} getenv, v, []⟩)

end LaunchProgram

/-! ## One description -/

section Service

variable {O W : Type}

/-- A new service that runs one description. -/
theorem LaunchService.run_single (desc : LaunchDescription (LaunchDescriptionEntity O))
    (b : Behaviour O W) (w : W) :
    let run := (({} : LaunchService O).includeLaunchDescription (some desc)).2.run b true w
    run.world = (desc.visit b w).world
      ∧ (run.exitCode = if (desc.visit b w).result.isOk then 0 else 1) := by
  show _ ∧ _
  simp only [LaunchService.includeLaunchDescription, LaunchService.run, LaunchService.runLoop,
    List.nil_append]
  cases hresult : (desc.visit b w).result with
  | error e => exact ⟨rfl, rfl⟩
  | ok children => exact ⟨rfl, rfl⟩

end Service

/-! ## The texts of a launch file -/

namespace Yaml.YamlLaunchBuilder

section Texts

variable {D : Type} (stod : Str → Option D) (e : FileEntity)

/-- The text under a key, without its quotes, unless it is a typed scalar. -/
def textAt (key : Str) : Option Str :=
  (scalarAt e key).bind (fun t => if isTyped stod t then none else some (unquote t))

/-- The texts of a list. -/
def textsAt (key : Str) : List Str :=
  ((itemsAt e key).filter (fun t => !isTyped stod t)).map unquote

/-- What an entity says, by its texts. -/
def writtenAction? : Option FileAction :=
  if typeOf e = some "execute_process".toList then
    some (.process
      { name := textAt stod e "name".toList
        cmd := (textsAt stod e "cmd".toList).map commandElement
        output := (textAt stod e "output".toList).getD []
        dependsOn := textsAt stod e "depends_on".toList })
  else if typeOf e = some "declare_launch_argument".toList then
    some (.argument
      { name := (textAt stod e "name".toList).getD []
        defaultValue := textAt stod e "default_value".toList
        description := (textAt stod e "description".toList).getD [] })
  else none

/-- **What the builder finds is what is written.** -/
theorem fileAction?_fileValue : fileAction? (fileValue stod e) = writtenAction? stod e := by
  have hstring : ∀ key, stringField (fileValue stod e) key = textAt stod e key :=
    stringField_fileValue stod e
  have hstrings : ∀ key, stringElements (fileValue stod e) key = textsAt stod e key :=
    stringElements_fileValue stod e
  by_cases hprocess : typeOf e = some "execute_process".toList
  · have hfield := (stringField_type_iff stod e rfl).mpr hprocess
    rw [fileAction?, writtenAction?, hfield, if_pos hprocess]
    simp only [hstring, hstrings, if_true]
  · by_cases hargument : typeOf e = some "declare_launch_argument".toList
    · have hfield := (stringField_type_iff stod e rfl).mpr hargument
      have hne : ¬ "declare_launch_argument".toList = "execute_process".toList := by decide
      rw [fileAction?, writtenAction?, hfield, if_neg hprocess, if_pos hargument]
      simp only [hstring, if_neg hne, if_true]
    · -- any other type is unknown to the builder
      rw [fileAction?, writtenAction?, if_neg hprocess, if_neg hargument]
      cases hfield : stringField (fileValue stod e) "type".toList with
      | none => rfl
      | some type =>
          have hnot : ∀ known, isTyped stod known = false → typeOf e ≠ some known →
              type ≠ known := by
            rintro known hknown hne rfl
            exact hne ((stringField_type_iff stod e hknown).mp hfield)
          simp only [if_neg (hnot _ rfl hprocess), if_neg (hnot _ rfl hargument)]

theorem fileActions_fileValues (es : List FileEntity) :
    ((es.map (fileValue stod)).filterMap
        (fun entityYaml => entityYaml.object?.bind (fun _ => fileAction? entityYaml)))
      = es.filterMap (writtenAction? stod) := by
  induction es with
  | nil => rfl
  | cons e es ih =>
      rw [List.map_cons, List.filterMap_cons, List.filterMap_cons]
      have haction : (fileValue stod e).object?.bind (fun _ => fileAction? (fileValue stod e))
          = writtenAction? stod e := fileAction?_fileValue stod e
      rw [haction, ih]

end Texts

/-- A launch file is read as it is written. -/
theorem fileActions_document {D : Type} (stod : Str → Option D) (d : LaunchFile)
    {es : Block FileEntity} {content : Str}
    (hes : topAt d "entities".toList = some (.entities es))
    (hcontent : content = unlines (d.lines Subtype.val Subtype.val)
      ∨ content = (unlines (d.lines Subtype.val Subtype.val)).dropLast) :
    ∃ yaml : YamlValue D, parse stod content = .ok (.ok yaml)
      ∧ (∀ O : Type, ∃ desc : LaunchDescription (LaunchDescriptionEntity O),
        build yaml = .ok desc)
      ∧ fileActions yaml = es.toList.filterMap (writtenAction? stod) := by
  have hne : d.fields ≠ [] := by
    intro hnil
    rw [topAt] at hes
    rw [hnil] at hes
    cases hes
  have hparse : parse stod content
      = .ok (.ok (d.value (leafValue stod Subtype.val) (leafValue stod Subtype.val))) :=
    parse_lines (fun a : Token => a.property) (fun b : ItemToken => b.property) d hne hcontent
  have hfield : (d.value (leafValue stod Subtype.val) (leafValue stod Subtype.val)).field?
      "entities".toList = some (.array (es.toList.map (fileValue stod))) := by
    show findEntry _ (ofEntries _) = _
    rw [findEntry_ofEntries (by simpa [Function.comp_def] using d.distinct)]
    have hmap := findEntry_map (TopValue.value (leafValue stod Subtype.val)
      (leafValue stod Subtype.val)) "entities".toList
      (d.fields.map (fun f => (f.1.text, f.2)))
    rw [List.map_map, show findEntry _ _ = _ from hes] at hmap
    exact hmap
  refine ⟨_, hparse, fun O => ⟨addActions (es.toList.map (fileValue stod)) {}, ?_⟩, ?_⟩
  · rw [build]
    rw [hfield]
    rfl
  · rw [fileActions, hfield]
    exact fileActions_fileValues stod es.toList

end Yaml.YamlLaunchBuilder

/-! ## The program -/

namespace LaunchProgram

section Main

variable {D V : Type} (stod : Str → Option D) (machine : Machine V) (fuel : Nat)
  (getenv : Str → Option Str) (program path : Str) (args : List Str) (v : V)

theorem main_eq (hhelp : path ≠ "--help".toList ∧ path ≠ "-h".toList) :
    main stod machine fuel getenv (program :: path :: args) v
      = match LaunchDescription.fromYamlFile stod machine path v with
        | (.error abort, v) => (.error abort, ⟨{ LaunchContext.empty with getenv }, v, []⟩)
        | (.ok (.error _), v) => (.ok 1, ⟨{ LaunchContext.empty with getenv }, v, []⟩)
        | (.ok (.ok desc), v) =>
            let visited := desc.visit (launching machine fuel noOthers)
              ⟨{ LaunchContext.empty with getenv }, v, []⟩
            (.ok (if visited.result.isOk then 0 else 1), visited.world) := by
  rw [main, if_neg (not_or.mpr hhelp)]
  cases hload : LaunchDescription.fromYamlFile (O := Empty) stod machine path v with
  | mk loaded v' =>
      rcases loaded with abort | e | desc
      · rfl
      · rfl
      · obtain ⟨hworld, hcode⟩ := LaunchService.run_single desc (launching machine fuel noOthers)
          ⟨{ LaunchContext.empty with getenv }, v', []⟩
        show (Except.ok _, _) = (Except.ok _, _)
        rw [← hcode, ← hworld]
        rfl

/-- **The program**, for every launch file and whatever is written behind it.
    Unless the file can be read and built nothing is started, and the exit code
    is 1, or an exception ends the program: that of a read, or the one `substr`
    throws on a line that is too short.  If it can, its actions are performed in their order, up to the
    first process that cannot be started; the exit code is 0 if there is none,
    and every configuration has the first default the file has declared.  A
    document is read as it is written. -/
theorem main_runs_file (hhelp : path ≠ "--help".toList ∧ path ≠ "-h".toList) :
    ((∀ yaml v', ¬ Loads stod machine Empty path v yaml v') →
      (main stod machine fuel getenv (program :: path :: args) v).2.started = []
        ∧ (main stod machine fuel getenv (program :: path :: args) v).1
          = (match thrown stod machine path v with
            | none => .ok 1
            | some abort => .error abort)
        ∧ ∀ abort, thrown stod machine path v = some abort →
          abort = .readFailed ∨ abort = .outOfRange)
    ∧ (∀ yaml v', Loads stod machine Empty path v yaml v' →
      ∃ done left code w, main stod machine fuel getenv (program :: path :: args) v = (.ok code, w)
        ∧ fileActions yaml = done ++ left
        ∧ code = (if left = [] then 0 else 1)
        ∧ (∀ action rest, left = action :: rest →
          ∃ p, action = .process p ∧ p.Failed machine w.context w.system)
        ∧ w.started = startedBy done { LaunchContext.empty with getenv }
        ∧ ∀ k, w.context.configurations.find k = defaultOf k done)
    ∧ ∀ (d : LaunchFile) (es : Block FileEntity) (content : Str) (v' : V),
      topAt d "entities".toList = some (.entities es) →
      (content = unlines (d.lines Subtype.val Subtype.val)
        ∨ content = (unlines (d.lines Subtype.val Subtype.val)).dropLast) →
      machine.openFile path v = (.readable content, v') →
      ∃ yaml, Loads stod machine Empty path v yaml v'
        ∧ fileActions yaml = es.toList.filterMap (writtenAction? stod) := by
  refine ⟨fun h => ?_, fun yaml v' h => ?_, fun d es content v' hes hcontent hopen => ?_⟩
  · rw [main_eq stod machine fuel getenv program path args v hhelp]
    rcases fromYamlFile_of_not_loads h with ⟨abort, v', hthrown, hload⟩ | ⟨hthrown, e, v', hload⟩
    · rw [hload, hthrown]
      exact ⟨rfl, rfl, fun abort' h => thrown_cases (hthrown.trans h)⟩
    · rw [hload, hthrown]
      exact ⟨rfl, rfl, fun abort' h => by cases h⟩
  · obtain ⟨desc, hload, hentities⟩ := h.fromYamlFile
    obtain ⟨left, hperforms, hok, herror⟩ := visitLoop_performs machine fuel noOthers
      (fileActions yaml) ⟨{ LaunchContext.empty with getenv }, v', []⟩
    obtain ⟨done, hactions, hcontext, hstarted, hleft⟩ := hperforms.closed
    rw [main_eq stod machine fuel getenv program path args v hhelp, hload]
    simp only [LaunchDescription.visit, hentities]
    refine ⟨done, left, _, _, rfl, hactions, ?_, hleft, hstarted, fun k => ?_⟩
    · by_cases hnil : left = []
      · rw [hok hnil, if_pos hnil]
        rfl
      · obtain ⟨e, he⟩ := herror hnil
        rw [he, if_neg hnil]
        rfl
    · rw [hcontext, find_declared]
      rfl
  · obtain ⟨yaml, hparse, hbuild, hactions⟩ := fileActions_document stod d hes hcontent
    exact ⟨yaml, ⟨⟨content, hopen, hparse⟩, hbuild Empty⟩, hactions⟩

end Main

/-- A file with one process. -/
def echoFile : Str :=
  "entities:\n  - type: execute_process\n    cmd:\n      - echo\n      - hi\n".toList

/-- A system with that file, which starts process 7. -/
def echoMachine : Machine Unit where
  fork _ v := (7, v)
  waitpid _ v := v
  isRunning _ v := (false, v)
  sigterm _ v := v
  openFile path v := (if path = "echo.yaml".toList then .readable echoFile else .absent, v)

/-- What the file is parsed to. -/
def echoYaml : YamlValue Nat :=
  .object [("entities".toList, .array [
    .object [("cmd".toList, .array [.string "echo".toList, .string "hi".toList]),
      ("type".toList, .string "execute_process".toList)]])]

theorem echo_loads : Loads (fun _ => none) echoMachine Empty "echo.yaml".toList () echoYaml () := by
  refine ⟨⟨echoFile, rfl, ?_⟩, _, rfl⟩
  rw [parse_eq_runDocument]
  rfl

/-- The process is started with its two words, and the program succeeds. -/
theorem main_runs_file_echo :
    ∃ w, main (fun _ => (none : Option Nat)) echoMachine 0 (fun _ => none)
          ["launch_cpp".toList, "echo.yaml".toList, "speed:=fast".toList] () = (.ok 0, w)
      ∧ w.started = [["echo".toList, "hi".toList]] := by
  obtain ⟨done, left, code, w, hmain, hactions, hcode, hleft, hstarted, -⟩ :=
    (main_runs_file (fun _ => none) echoMachine 0 (fun _ => none) "launch_cpp".toList
      "echo.yaml".toList ["speed:=fast".toList] () (by decide)).2.1 echoYaml () echo_loads
  have hnil : left = [] := by
    cases left with
    | nil => rfl
    | cons action rest =>
        -- the command can be started in any context, and `fork` succeeds
        obtain ⟨p, rfl, hfailed⟩ := hleft action rest rfl
        have hmem : FileAction.process p ∈ fileActions echoYaml := by
          rw [hactions]
          exact List.mem_append_right _ List.mem_cons_self
        cases List.mem_singleton.mp hmem
        rcases hfailed with hrefused | ⟨_, hfork, -⟩
        · refine absurd ⟨List.cons_ne_nil _ _, ?_⟩ hrefused
          show [] ∉ ["echo".toList, "hi".toList]
          decide
        · have hfork : (7 : Int) < 0 := hfork
          omega
  rw [hnil, List.append_nil] at hactions
  rw [hnil, if_pos rfl] at hcode
  refine ⟨w, ?_, ?_⟩
  · rw [← hcode]
    exact hmain
  · rw [hstarted, ← hactions]
    rfl

end LaunchProgram

end LaunchCpp
