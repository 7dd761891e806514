import LaunchCpp.Yaml.Parser
import LaunchCpp.Yaml.LineMachine

/-! # The stream parser refines the line machine

    A reader called on a stream does to the rest of the document what its
    frame does to the lines still to come: whatever the callers below, the
    machine reaches the same result from the frame on the lines before the
    call and from the returned value on the lines after it (`Leads`).

    Fuel is counted in lines.  A line that counts is worth four, any other
    one, so that the empty line that putting back may leave is paid for by
    the line before it. -/

namespace LaunchCpp.Yaml

open StringStreams

variable {D : Type} (stod : Str → Option D)

/-- The fuel a list of lines is worth. -/
def weight : List Str → Nat
  | [] => 0
  | l :: ls => (if isSkipped (trim l) then 1 else 4) + weight ls

/-- A line that is skipped costs one step. -/
theorem weight_skipped {l : Str} (h : isSkipped (trim l) = true) (ls : List Str) :
    weight (l :: ls) = weight ls + 1 := by
  rw [weight, if_pos h, Nat.add_comm]

/-- Any other line costs four. -/
theorem weight_counts {l : Str} (h : isSkipped (trim l) = false) (ls : List Str) :
    weight (l :: ls) = weight ls + 4 := by
  rw [weight, if_neg (by simp [h]), Nat.add_comm]

/-- So a text costs no more than four for each of its lines. -/
theorem weight_le (ls : List Str) : weight ls ≤ 4 * ls.length := by
  induction ls with
  | nil => exact le_rfl
  | cons l ls ih =>
      rw [weight, List.length_cons]
      by_cases h : isSkipped (trim l) = true
      · rw [if_pos h]; omega
      · rw [if_neg h]; omega

/-- The machine from `start` before a call and from `finish` after it. -/
structure Leads (start : Stack D → State D) (s : IStringStream) (slack : Nat)
    (finish : Stack D → State D) (s' : IStringStream) : Prop where
  run_eq : ∀ K, run stod (start K) s.lines = run stod (finish K) s'.lines
  behind : s'.Behind
  weight_le : weight s'.lines ≤ weight s.lines + slack

/-- A call that leads from `start` to `finish`, or throws as the machine
    does. -/
inductive Simulates {α : Type} (start : Stack D → State D) (s : IStringStream) (slack : Nat)
    (finish : α → Stack D → State D) : Outcome α → Prop
  | returns {a : α} {s' : IStringStream} :
      Leads stod start s slack (finish a) s' → Simulates start s slack finish (.ok (a, s'))
  | throws : (∀ K, run stod (start K) s.lines = none) →
      Simulates start s slack finish (.error .outOfRange)

/-- A call that hands back a `Result` which is a value. -/
inductive Returns (start : Stack D → State D) (s : IStringStream) (slack : Nat) :
    Outcome (Result (YamlValue D)) → Prop
  | returns {v : YamlValue D} {s' : IStringStream} :
      Leads stod start s slack (State.ret v) s' → Returns start s slack (.ok (.ok v, s'))
  | throws : (∀ K, run stod (start K) s.lines = none) →
      Returns start s slack (.error .outOfRange)

variable {stod} {α : Type} {start start' : Stack D → State D} {s s' : IStringStream}
  {n n' N : Nat} {f : Frame D} {l : Str} {ls : List Str}

/-- A step in front of a run that leads somewhere. -/
theorem Leads.of_step {finish : Stack D → State D} {s'' : IStringStream}
    (h : Leads stod start' s' n' finish s'')
    (hrun : ∀ K, run stod (start K) s.lines = run stod (start' K) s'.lines)
    (hle : weight s'.lines + n' ≤ weight s.lines + n) :
    Leads stod start s n finish s'' :=
  ⟨fun K => (hrun K).trans (h.run_eq K), h.behind, le_trans h.weight_le hle⟩

/-- A call that meets the end of the text returns what it has. -/
theorem Leads.at_end (hlines : s.lines = []) (hfail : s'.failbit = true) :
    Leads stod (State.running f) s n (State.ret f.acc) s' where
  run_eq K := by
    rw [hlines, IStringStream.lines_of_failbit hfail]
    exact run_running_nil
  behind := IStringStream.behind_of_failbit hfail
  weight_le := by
    rw [IStringStream.lines_of_failbit hfail]
    exact Nat.zero_le _

section Composition

variable {finish : α → Stack D → State D} {o : Outcome α}

/-- What the machine does before the rest of a call. -/
theorem Simulates.of_step (h : Simulates stod start' s' n' finish o)
    (hrun : ∀ K, run stod (start K) s.lines = run stod (start' K) s'.lines)
    (hle : weight s'.lines + n' ≤ weight s.lines + n) :
    Simulates stod start s n finish o := by
  cases h with
  | returns h => exact .returns (h.of_step hrun hle)
  | throws h => exact .throws (fun K => (hrun K).trans (h K))

/-- A step in front of a call that returns. -/
theorem Returns.of_step {o : Outcome (Result (YamlValue D))}
    (h : Returns stod start' s' n' o)
    (hrun : ∀ K, run stod (start K) s.lines = run stod (start' K) s'.lines)
    (hle : weight s'.lines + n' ≤ weight s.lines + n) : Returns stod start s n o := by
  cases h with
  | returns h => exact .returns (h.of_step hrun hle)
  | throws h => exact .throws (fun K => (hrun K).trans (h K))

/-- A blank line or a comment in front. -/
theorem Simulates.of_skipped (h : Simulates stod start s' n finish o)
    (hlines : s.lines = l :: s'.lines) (hskip : isSkipped (trim l) = true) :
    Simulates stod start s n finish o := by
  refine h.of_step (fun K => ?_) ?_
  · rw [hlines, run_skipped _ hskip]
  · rw [hlines, weight_skipped hskip]
    omega

/-- A line that is skipped in front of it. -/
theorem Returns.of_skipped {o : Outcome (Result (YamlValue D))}
    (h : Returns stod start s' n o) (hlines : s.lines = l :: s'.lines)
    (hskip : isSkipped (trim l) = true) : Returns stod start s n o := by
  refine h.of_step (fun K => ?_) ?_
  · rw [hlines, run_skipped _ hskip]
  · rw [hlines, weight_skipped hskip]
    omega

/-- **One call after another.**  An exception of the first one is passed on. -/
theorem Simulates.bind {o : Outcome (YamlValue D)} {mid last : YamlValue D → Stack D → State D}
    {k : YamlValue D → IStringStream → Outcome (YamlValue D)}
    (h : Simulates stod start s n mid o)
    (hk : ∀ a s', s'.Behind → weight s'.lines ≤ weight s.lines + n →
      Simulates stod (mid a) s' 1 last (k a s')) (hN : n + 1 ≤ N) :
    Simulates stod start s N last
      (match o with
        | .error e => .error e
        | .ok (a, s') => k a s') := by
  cases h with
  | throws h => exact .throws h
  | returns h =>
      have hle := h.weight_le
      exact (hk _ _ h.behind hle).of_step h.run_eq (by omega)

/-- The same with callers in between, who wait for the value of the first call. -/
theorem Simulates.bind_returns {o : Outcome (YamlValue D)}
    {mid : YamlValue D → Stack D → State D}
    {k : YamlValue D → IStringStream → Outcome (Result (YamlValue D))}
    (callers : Stack D → Stack D) (h : Simulates stod start s n mid o)
    (hk : ∀ a s', s'.Behind → weight s'.lines ≤ weight s.lines + n →
      Returns stod (fun K => mid a (callers K)) s' 1 (k a s')) (hN : n + 1 ≤ N) :
    Returns stod (fun K => start (callers K)) s N
      (match o with
        | .error e => .error e
        | .ok (a, s') => k a s') := by
  cases h with
  | throws h => exact .throws (fun K => h _)
  | returns h =>
      have hle := h.weight_le
      exact (hk _ _ h.behind hle).of_step (fun K => h.run_eq _) (by omega)

/-- A call, and what its caller does behind it. -/
theorem Returns.bind {o : Outcome (Result (YamlValue D))}
    {k : YamlValue D → IStringStream → Outcome (Result (YamlValue D))}
    (callers : Stack D → Stack D) (h : Returns stod start s n o)
    (hk : ∀ v s', s'.Behind → weight s'.lines ≤ weight s.lines + n →
      Returns stod (fun K => State.ret v (callers K)) s' 1 (k v s')) (hN : n + 1 ≤ N) :
    Returns stod (fun K => start (callers K)) s N
      (match o with
        | .error e => .error e
        | .ok (.error e, s') => .ok (.error e, s')
        | .ok (.ok v, s') => k v s') := by
  cases h with
  | throws h => exact .throws (fun K => h _)
  | returns h =>
      have hle := h.weight_le
      exact (hk _ _ h.behind hle).of_step (fun K => h.run_eq _) (by omega)

end Composition

/-! ## `parse_value` and the search for the next line -/

/-- **`parse_value` returns** what the line machine makes of a scalar. -/
theorem parseValue_returns (fuel : Nat) (s : IStringStream)
    (hfuel : weight s.lines + 1 ≤ fuel) :
    Returns stod (State.running (.start .scalar 0)) s 0 (parseValue stod fuel s) := by
  induction fuel generalizing s with
  | zero => omega
  | succ fuel ih =>
      cases hlines : s.lines with
      | nil =>
          obtain ⟨s', hget, hfail⟩ := IStringStream.getline_of_lines_nil hlines
          simp only [parseValue, hget]
          exact .returns (.at_end hlines hfail)
      | cons l ls =>
          obtain ⟨s', hget, rfl, hbehind, -, -⟩ :=
            IStringStream.getline_of_lines_cons hlines
          simp only [parseValue, hget]
          by_cases hskip : isSkipped (trim l) = true
          · rw [if_pos hskip]
            rw [hlines, weight_skipped hskip] at hfuel
            exact (ih s' (by omega)).of_skipped hlines hskip
          · have hcount : isSkipped (trim l) = false := by simpa using hskip
            rw [if_neg hskip]
            refine .returns ⟨fun K => ?_, hbehind, ?_⟩
            · rw [hlines, run_reads hcount rfl]
              rfl
            · rw [hlines, weight_counts hcount]
              omega

/-- The search finds what `List.find?` finds, on a stream of the same
    buffer. -/
theorem findNext_spec : ∀ (fuel : Nat) (s : IStringStream),
    weight s.lines + 1 ≤ fuel →
    ∃ s', findNext fuel s = .ok (s.lines.find? (fun l => !isSkipped (trim l)), s')
      ∧ s'.buf = s.buf
      ∧ s'.failbit = (s.lines.find? (fun l => !isSkipped (trim l))).isNone := by
  intro fuel
  induction fuel with
  | zero => intro s h; omega
  | succ fuel ih =>
      intro s hfuel
      cases hlines : s.lines with
      | nil =>
          obtain ⟨s', hget, hfail⟩ := IStringStream.getline_of_lines_nil hlines
          simp only [findNext, hget]
          have hbuf := IStringStream.buf_getline s
          rw [hget] at hbuf
          exact ⟨s', rfl, hbuf, hfail⟩
      | cons l ls =>
          obtain ⟨s', hget, hlines', -, hfail, hbuf⟩ :=
            IStringStream.getline_of_lines_cons hlines
          simp only [findNext, hget]
          by_cases hskip : isSkipped (trim l) = true
          · rw [hlines, weight_skipped hskip] at hfuel
            obtain ⟨s'', hrun, hbuf', hfail'⟩ := ih s' (by rw [hlines']; omega)
            rw [if_pos hskip, hrun, hlines']
            rw [hlines'] at hfail'
            refine ⟨s'', ?_, hbuf'.trans hbuf, ?_⟩
            · simp [hskip]
            · simpa [hskip] using hfail'
          · rw [if_neg hskip]
            refine ⟨s', ?_, hbuf, ?_⟩
            · simp [hskip]
            · simpa [hskip] using hfail

/-! ## The array and element readers -/

/-- What `parse_array` does with enough fuel. -/
def ArraySpec (stod : Str → Option D) (fuel : Nat) : Prop :=
  ∀ (s : IStringStream) (base : Nat) (acc : YamlValue D), s.Behind →
    weight s.lines + 1 ≤ fuel →
    Returns stod (State.running ⟨.array, base, acc⟩) s 1 (parseArray stod fuel s base acc)

/-- What a field of an element does with enough fuel. -/
def FieldSpec (stod : Str → Option D) (fuel : Nat) : Prop :=
  ∀ (s : IStringStream) (base threshold : Nat) (key value : Str) (acc : YamlValue D),
    s.Behind → weight s.lines + 2 ≤ fuel →
    Simulates stod
      (fun K => elementField stod ⟨.element, base, acc⟩ K threshold s.lines key value) s 1
      (fun acc' => State.running ⟨.element, base, acc'⟩)
      (parseElementField stod fuel s threshold key value acc)

/-- What the loop over the fields of an element does with enough fuel. -/
def LoopSpec (stod : Str → Option D) (fuel : Nat) : Prop :=
  ∀ (s : IStringStream) (base : Nat) (pos : Option Nat) (acc : YamlValue D),
    s.Behind → s.Told pos → weight s.lines + 2 ≤ fuel →
    Simulates stod (State.running ⟨.element, base, acc⟩) s 1 State.ret
      (elementLoop stod fuel s base pos acc)

/-- What `parse_array_element_object` does with enough fuel. -/
def ElementSpec (stod : Str → Option D) (fuel : Nat) : Prop :=
  ∀ (s : IStringStream) (base : Nat) (firstLine key value : Str),
    keyValue (trim (trim firstLine).tail) = some (key, value) → s.Behind →
    weight s.lines + 4 ≤ fuel →
    Simulates stod
      (fun K => elementField stod (.start .element base) K base s.lines key value) s 2
      State.ret (parseArrayElementObject stod fuel s firstLine base)

/-- A call whose value goes into a field of the element that made it. -/
theorem simulates_field {child : Frame D} (o : Outcome (Result (YamlValue D)))
    (base : Nat) (key : Str) (acc : YamlValue D) :
    Returns stod (State.running child) s n o →
    Simulates stod
      (fun K => State.running child ((⟨.element, base, acc⟩, .field key) :: K)) s n
      (fun acc' => State.running ⟨.element, base, acc'⟩)
      (match o with
        | .error e => .error e
        | .ok (.error _, s) => .ok (acc, s)
        | .ok (.ok v, s) => .ok (acc.setObjectField key v, s)) := by
  intro h
  cases h with
  | returns h => exact .returns ⟨fun K => h.run_eq _, h.behind, h.weight_le⟩
  | throws h => exact .throws (fun K => h _)

/-- A field, when arrays are read. -/
theorem fieldSpec_succ {fuel : Nat} (harray : ArraySpec stod fuel) :
    FieldSpec stod (fuel + 1) := by
  intro s base threshold key value acc hbehind hfuel
  rw [parseElementField]
  by_cases hvalue : value = []
  · rw [if_pos hvalue]
    cases hlines : s.lines with
    | nil =>
        have htell : s.tellg.2.lines = [] := (IStringStream.lines_tellg s).trans hlines
        obtain ⟨s', hget, hfail⟩ := IStringStream.getline_of_lines_nil htell
        have hnil := IStringStream.lines_of_failbit hfail
        simp only [hget]
        refine .returns ⟨fun K => ?_, IStringStream.behind_of_failbit hfail, ?_⟩
        · simp only [hlines, hnil, elementField, if_pos hvalue]
          rfl
        · rw [hnil]
          exact Nat.zero_le _
    | cons next ls =>
        obtain ⟨s', hget, -, -, hfail, hbuf⟩ := IStringStream.getline_of_lines_cons hlines
        have htell := IStringStream.tellg_of_lines_cons hlines
        have hback : s'.seekg (some s.pos) = s := IStringStream.seekg_told hlines hbuf hfail
        simp only [htell, hget, hback]
        by_cases hdash : threshold < getIndent next ∧ isDash (trim next) = true
        · rw [if_pos hdash]
          -- the position was told before `next`, so the array reads that line again
          refine (simulates_field _ base key acc
            (harray s (getIndent next) .null hbehind (by omega))).of_step
            (fun K => ?_) le_rfl
          simp only [elementField, if_pos hvalue, if_pos hdash]
          rfl
        · rw [if_neg hdash]
          refine (simulates_field _ base key acc
            (parseValue_returns fuel s (by omega))).of_step (fun K => ?_) (Nat.le_succ _)
          simp only [elementField, if_pos hvalue, if_neg hdash]
  · rw [if_neg hvalue]
    refine .returns ⟨fun K => ?_, hbehind, by omega⟩
    simp only [elementField, if_neg hvalue]
    rfl

/-- Reading on after a line or a field: the position is told again. -/
theorem LoopSpec.tellg {fuel : Nat} (h : LoopSpec stod fuel) {s : IStringStream}
    (base : Nat) (acc : YamlValue D) (hbehind : s.Behind)
    (hfuel : weight s.lines + 2 ≤ fuel) :
    Simulates stod (State.running ⟨.element, base, acc⟩) s 1 State.ret
      (elementLoop stod fuel s.tellg.2 base s.tellg.1 acc) := by
  have hlines := IStringStream.lines_tellg s
  refine (h s.tellg.2 base s.tellg.1 acc (IStringStream.behind_tellg hbehind)
    (IStringStream.told_tellg s) (by rw [hlines]; exact hfuel)).of_step
    (fun K => by rw [hlines]) (by rw [hlines])

/-- An element, when its fields are read. -/
theorem elementSpec_succ {fuel : Nat} (hfield : FieldSpec stod fuel)
    (hloop : LoopSpec stod fuel) : ElementSpec stod (fuel + 1) := by
  intro s base firstLine key value hkey hbehind hfuel
  rw [parseArrayElementObject]
  simp only [hkey]
  exact (hfield s base base key value .null hbehind (by omega)).bind
    (fun acc s' hbehind' hle => hloop.tellg base acc hbehind' (by omega)) le_rfl

/-- A dash line behind the fields of an element. -/
theorem elementLoop_dash {fuel : Nat} (harray : ArraySpec stod fuel)
    {base : Nat} {pos : Option Nat} {acc : YamlValue D}
    (hlines : s.lines = l :: ls) (hread : s.getline = (some l, s'))
    (hbehind : s.Behind) (htold : s.Told pos) (hfuel : weight s.lines + 1 ≤ fuel)
    (hskip : isSkipped (trim l) = false) (hindent : ¬ getIndent l ≤ base)
    (hlength : ¬ l.length < base + 2) (hdash : isDash (trim l) = true) :
    Simulates stod (State.running ⟨.element, base, acc⟩) s 1 State.ret
      (match parseArray stod fuel (s'.tellg.2.seekg pos) (getIndent l) .null with
        | .error e => .error e
        | .ok (_, s) => .ok (acc, s)) := by
  obtain ⟨t, hget, hrest, -, -, hbuf⟩ := IStringStream.getline_of_lines_cons hlines
  obtain rfl : s' = t := (Prod.mk.inj (hread.symm.trans hget)).2
  have hstart : ∀ K : Stack D, run stod (.running ⟨.element, base, acc⟩ K) s.lines
      = run stod (.running (.start .array (getIndent l))
          ((⟨.closed, base, acc⟩, .dropped) :: K)) s.lines := by
    intro K
    rw [hlines]
    exact run_element_dash hskip hindent hlength hdash
  by_cases hfail : s'.tellg.2.failbit = true
  · -- the line was the last one and unfinished: the position is lost
    have hnil := IStringStream.lines_of_failbit hfail
    rw [IStringStream.lines_tellg, hrest] at hnil
    have hlost : (s'.tellg.2.seekg pos).failbit = true := IStringStream.failbit_seekg hfail
    obtain ⟨t, hget', hfail'⟩ :=
      IStringStream.getline_of_lines_nil (IStringStream.lines_of_failbit hlost)
    obtain ⟨k, rfl⟩ : ∃ k, fuel = k + 1 := ⟨fuel - 1, by omega⟩
    simp only [parseArray, hget']
    refine .returns ⟨fun K => ?_, IStringStream.behind_of_failbit hfail', ?_⟩
    · rw [hstart K, hlines, hnil, IStringStream.lines_of_failbit hfail']
      exact run_dropped_last base (getIndent l) acc hskip le_rfl
    · rw [IStringStream.lines_of_failbit hfail']
      exact Nat.zero_le _
  · have hback : s'.tellg.2.seekg pos = s := by
      refine htold l ls _ hlines ?_ (by simpa using hfail)
      rw [IStringStream.buf_tellg, hbuf]
    rw [hback]
    have hspec := harray s (getIndent l) .null hbehind hfuel
    generalize parseArray stod fuel s (getIndent l) .null = o at hspec ⊢
    cases hspec with
    | returns harray =>
        refine .returns ⟨fun K => ?_, harray.behind, harray.weight_le⟩
        rw [hstart K]
        exact (harray.run_eq _).trans (run_closed base acc K _)
    | throws hthrows => exact .throws (fun K => (hstart K).trans (hthrows _))

/-- A line that belongs to the fields of an element. -/
theorem elementLoop_line {fuel : Nat} (hfield : FieldSpec stod fuel)
    (hloop : LoopSpec stod fuel) {base : Nat} {acc : YamlValue D}
    (hlines : s.lines = l :: s'.lines) (hbehind : s'.Behind)
    (hfuel : weight s'.lines + 3 ≤ fuel) (hcount : isSkipped (trim l) = false)
    (hindent : ¬ getIndent l ≤ base) (hlength : ¬ l.length < base + 2)
    (hdash : ¬ isDash (trim l) = true) :
    Simulates stod (State.running ⟨.element, base, acc⟩) s 1 State.ret
      (match keyValue (trim l) with
        | some (key, value) =>
            match parseElementField stod fuel s'.tellg.2 (getIndent l) key value acc with
            | .error e => .error e
            | .ok (acc, s) => elementLoop stod fuel s.tellg.2 base s.tellg.1 acc
        | none => elementLoop stod fuel s'.tellg.2.tellg.2 base s'.tellg.2.tellg.1 acc) := by
  have htell := IStringStream.lines_tellg s'
  have hbehind' := IStringStream.behind_tellg hbehind
  have hw : weight s.lines = weight s'.lines + 4 := by rw [hlines, weight_counts hcount]
  have hkeep : (⟨.element, base, acc⟩ : Frame D).leaves l = false := decide_eq_false hindent
  have hstart : ∀ K : Stack D, run stod (.running ⟨.element, base, acc⟩ K) s.lines
      = run stod (elementLine stod ⟨.element, base, acc⟩ K l s'.lines) s'.lines := by
    intro K
    rw [hlines, run_reads hcount hkeep]
    rfl
  simp only [elementLine, if_neg hlength, if_neg hdash] at hstart
  cases hkv : keyValue (trim l) with
  | none =>
      simp only [hkv] at hstart
      refine (hloop.tellg base acc hbehind' (by rw [htell]; omega)).of_step (fun K => ?_) ?_
      · rw [hstart K, htell]
      · rw [htell]
        omega
  | some kv =>
      obtain ⟨key, value⟩ := kv
      simp only [hkv] at hstart
      have hread := hfield s'.tellg.2 base (getIndent l) key value acc hbehind'
        (by rw [htell]; omega)
      refine (hread.bind (N := 2) (fun acc' s'' hbehind'' hle =>
        hloop.tellg base acc' hbehind'' ?_) le_rfl).of_step (fun K => ?_) ?_
      · rw [htell] at hle
        omega
      · rw [hstart K, htell]
      · rw [htell]
        omega

/-- The loop over the fields of an element. -/
theorem loopSpec_succ {fuel : Nat} (harray : ArraySpec stod fuel)
    (hfield : FieldSpec stod fuel) (hloop : LoopSpec stod fuel) :
    LoopSpec stod (fuel + 1) := by
  intro s base pos acc hbehind htold hfuel
  cases hlines : s.lines with
  | nil =>
      obtain ⟨s', hget, hfail⟩ := IStringStream.getline_of_lines_nil hlines
      simp only [elementLoop, hget]
      exact .returns (.at_end hlines hfail)
  | cons l ls =>
      obtain ⟨s', hget, rfl, hbehind', hfail, hbuf⟩ :=
        IStringStream.getline_of_lines_cons hlines
      simp only [elementLoop, hget]
      by_cases hskip : isSkipped (trim l) = true
      · rw [if_pos hskip]
        rw [hlines, weight_skipped hskip] at hfuel
        exact (hloop.tellg base acc hbehind' (by omega)).of_skipped hlines hskip
      · have hcount : isSkipped (trim l) = false := by simpa using hskip
        rw [if_neg hskip]
        by_cases hindent : getIndent l ≤ base
        · -- the line is put back for the array
          rw [if_pos hindent, htold l s'.lines s' hlines hbuf hfail]
          refine .returns ⟨fun K => ?_, hbehind, Nat.le_succ _⟩
          rw [hlines]
          exact run_leaves hcount (decide_eq_true hindent)
        · rw [if_neg hindent]
          by_cases hlength : l.length < base + 2
          · -- `substr` throws
            rw [if_pos hlength]
            have hkeep : (⟨.element, base, acc⟩ : Frame D).leaves l = false :=
              decide_eq_false hindent
            refine .throws (fun K => ?_)
            rw [hlines, run_reads hcount hkeep]
            show run stod (elementLine stod _ K l _) _ = none
            rw [elementLine, if_pos hlength, run_thrown]
          · rw [if_neg hlength]
            by_cases hdash : isDash (trim l) = true
            · rw [if_pos hdash]
              exact elementLoop_dash harray hlines hget hbehind htold (by omega) hcount
                hindent hlength hdash
            · rw [if_neg hdash]
              rw [hlines, weight_counts hcount] at hfuel
              exact elementLoop_line hfield hloop hlines hbehind' (by omega) hcount hindent
                hlength hdash

/-- A line with a dash in an array. -/
theorem parseArray_dash {fuel : Nat} (helement : ElementSpec stod fuel)
    (harray : ArraySpec stod fuel) {base : Nat} {acc : YamlValue D}
    (hlines : s.lines = l :: s'.lines) (hbehind : s'.Behind)
    (hfuel : weight s'.lines + 4 ≤ fuel) (hcount : isSkipped (trim l) = false)
    (hindent : ¬ getIndent l < base) (hdash : isDash (trim l) = true) :
    Returns stod (State.running ⟨.array, base, acc⟩) s 1
      (if trim (trim l).tail = [] then
        match parseValue stod fuel s' with
        | .error e => .error e
        | .ok (.error e, s) => .ok (.error e, s)
        | .ok (.ok next, s) => parseArray stod fuel s base (acc.addArrayElement next)
      else if ':' ∈ trim (trim l).tail then
        match parseArrayElementObject stod fuel s' l base with
        | .error e => .error e
        | .ok (element, s) => parseArray stod fuel s base (acc.addArrayElement element)
      else
        match parseScalar stod (trim (trim l).tail) with
        | .error e => .ok (.error e, s')
        | .ok scalar => parseArray stod fuel s' base (acc.addArrayElement scalar)) := by
  have hw : weight s.lines = weight s'.lines + 4 := by rw [hlines, weight_counts hcount]
  have hkeep : (⟨.array, base, acc⟩ : Frame D).leaves l = false := decide_eq_false hindent
  have hstart : ∀ K : Stack D, run stod (.running ⟨.array, base, acc⟩ K) s.lines
      = run stod (arrayLine stod ⟨.array, base, acc⟩ K l s'.lines) s'.lines := by
    intro K
    rw [hlines, run_reads hcount hkeep]
    rfl
  simp only [arrayLine, if_pos hdash] at hstart
  by_cases hcontent : trim (trim l).tail = []
  · rw [if_pos hcontent]
    simp only [if_pos hcontent] at hstart
    refine ((parseValue_returns fuel s' (by omega)).bind (N := 1)
      ((⟨.array, base, acc⟩, .element) :: ·) (fun v s'' hbehind' hle => ?_) le_rfl).of_step
      hstart (by omega)
    exact harray s'' base _ hbehind' (by omega)
  · rw [if_neg hcontent]
    simp only [if_neg hcontent] at hstart
    by_cases hcolon : ':' ∈ trim (trim l).tail
    · rw [if_pos hcolon]
      obtain ⟨key, value, hkv⟩ :
          ∃ key value, keyValue (trim (trim l).tail) = some (key, value) :=
        ⟨_, _, if_pos hcolon⟩
      simp only [hkv] at hstart
      refine ((helement s' base l key value hkv hbehind (by omega)).bind_returns (N := 3)
        ((⟨.array, base, acc⟩, .element) :: ·) (fun element s'' hbehind' hle => ?_)
        le_rfl).of_step hstart (by omega)
      exact harray s'' base _ hbehind' (by omega)
    · rw [if_neg hcolon]
      have hkv : keyValue (trim (trim l).tail) = none := if_neg hcolon
      simp only [hkv] at hstart
      exact (harray s' base _ hbehind (by omega)).of_step hstart (by omega)

/-- An array, when its elements are read. -/
theorem arraySpec_succ {fuel : Nat} (helement : ElementSpec stod fuel)
    (harray : ArraySpec stod fuel) : ArraySpec stod (fuel + 1) := by
  intro s base acc hbehind hfuel
  cases hlines : s.lines with
  | nil =>
      obtain ⟨s', hget, hfail⟩ := IStringStream.getline_of_lines_nil hlines
      simp only [parseArray, hget]
      exact .returns (.at_end hlines hfail)
  | cons l ls =>
      obtain ⟨s', hget, rfl, hbehind', -, -⟩ :=
        IStringStream.getline_of_lines_cons hlines
      simp only [parseArray, hget]
      by_cases hskip : isSkipped (trim l) = true
      · rw [if_pos hskip]
        rw [hlines, weight_skipped hskip] at hfuel
        exact (harray s' base acc hbehind' (by omega)).of_skipped hlines hskip
      · have hcount : isSkipped (trim l) = false := by simpa using hskip
        have hw : weight s.lines = weight s'.lines + 4 := by
          rw [hlines, weight_counts hcount]
        rw [if_neg hskip]
        by_cases hindent : getIndent l < base
        · -- putting the line back may leave an empty line in front of it
          rw [if_pos hindent]
          have hne : l ≠ [] := by
            rintro rfl
            exact hskip rfl
          have hleave : (⟨.array, base, acc⟩ : Frame D).leaves l = true :=
            decide_eq_true hindent
          obtain ⟨hback, hput⟩ := IStringStream.seekgCur_back hbehind hlines hne hget
          refine .returns ⟨fun K => ?_, hback, ?_⟩
          · rw [hlines, run_leaves hcount hleave]
            rcases hput with hput | hput
            · rw [hput]
            · rw [hput, run_skipped _ (show isSkipped (trim []) = true from rfl)]
          · rw [hlines]
            rcases hput with hput | hput
            · rw [hput]
              exact Nat.le_succ _
            · rw [hput, weight_skipped rfl]
        · rw [if_neg hindent]
          by_cases hdash : isDash (trim l) = true
          · rw [if_pos hdash]
            exact parseArray_dash helement harray hlines hbehind' (by omega) hcount hindent
              hdash
          · rw [if_neg hdash]
            have hkeep : (⟨.array, base, acc⟩ : Frame D).leaves l = false :=
              decide_eq_false hindent
            refine (harray s' base acc hbehind' (by omega)).of_step (fun K => ?_) (by omega)
            rw [hlines, run_reads hcount hkeep]
            show run stod (arrayLine stod _ K l _) _ = _
            rw [arrayLine, if_neg hdash]

/-- **The array and element readers** do what their frames do. -/
theorem readers_spec : ∀ fuel : Nat,
    ArraySpec stod fuel ∧ FieldSpec stod fuel ∧ LoopSpec stod fuel ∧ ElementSpec stod fuel := by
  intro fuel
  induction fuel with
  | zero =>
      refine ⟨?_, ?_, ?_, ?_⟩
      · intro s base acc _ h; omega
      · intro s base threshold key value acc _ h; omega
      · intro s base pos acc _ _ h; omega
      · intro s base firstLine key value _ _ h; omega
  | succ fuel ih =>
      obtain ⟨harray, hfield, hloop, helement⟩ := ih
      exact ⟨arraySpec_succ helement harray, fieldSpec_succ harray,
        loopSpec_succ harray hfield hloop, elementSpec_succ hfield hloop⟩

/-! ## The object reader and whole documents -/

/-- The nested reader of an object field, an array or an object. -/
theorem nested_returns {fuel : Nat} {base : Nat} (dash : Bool) (hbehind : s.Behind)
    (hfuel : weight s.lines + 1 ≤ fuel)
    (hobject : Returns stod (State.running (.start .object base)) s 1
      (parseObject stod fuel s base .null)) :
    Returns stod (State.running (.start (if dash then .array else .object) base)) s 1
      (if dash then parseArray stod fuel s base .null
        else parseObject stod fuel s base .null) := by
  cases dash with
  | true => exact (readers_spec fuel).1 s base .null hbehind hfuel
  | false => exact hobject

/-- A field of an object without a value. -/
theorem parseObject_nested {fuel : Nat}
    (hobject : ∀ (s : IStringStream) (base : Nat) (acc : YamlValue D),
      weight s.lines + 1 ≤ fuel →
      Returns stod (State.running ⟨.object, base, acc⟩) s 1 (parseObject stod fuel s base acc))
    {base : Nat} {acc : YamlValue D} {key : Str} (hbehind : s.Behind)
    (hfuel : weight s.lines + 4 ≤ fuel) :
    Returns stod
      (fun K => match s.lines.find? (fun l => !isSkipped (trim l)) with
        | none => .running (Frame.put ⟨.object, base, acc⟩ (.field key) .null) K
        | some next =>
            if getIndent l < getIndent next then
              .running (.start (if isDash (trim next) then .array else .object)
                (getIndent next)) ((⟨.object, base, acc⟩, .field key) :: K)
            else .running (Frame.put ⟨.object, base, acc⟩ (.field key) .null) K) s 3
      (match findNext fuel s.tellg.2 with
        | .error e => .error e
        | .ok (none, s') => parseObject stod fuel s' base (acc.setObjectField key .null)
        | .ok (some nextLine, s') =>
            let s := s'.seekg s.tellg.1
            if getIndent l < getIndent nextLine then
              match
                if isDash (trim nextLine) then
                  parseArray stod fuel s (getIndent nextLine) .null
                else parseObject stod fuel s (getIndent nextLine) .null
              with
              | .error e => .error e
              | .ok (.error e, s) => .ok (.error e, s)
              | .ok (.ok nested, s) =>
                  parseObject stod fuel s base (acc.setObjectField key nested)
            else parseObject stod fuel s base (acc.setObjectField key .null)) := by
  have htell := IStringStream.lines_tellg s
  obtain ⟨t, hfind, hbuf, hfail⟩ := findNext_spec fuel s.tellg.2 (by rw [htell]; omega)
  rw [htell] at hfind hfail
  rw [hfind]
  cases hnext : s.lines.find? (fun l => !isSkipped (trim l)) with
  | none =>
      -- the search has read all lines
      rw [hnext] at hfail
      have hnil := IStringStream.lines_of_failbit (s := t) hfail
      have hnone : weight t.lines = 0 := by rw [hnil, weight]
      refine (hobject t base _ (by omega)).of_step (fun K => ?_) (by omega)
      rw [hnil, run_all_skipped _ hnext]
      rfl
  | some next =>
      rw [hnext] at hfail
      obtain ⟨x, xs, hx⟩ : ∃ x xs, s.lines = x :: xs := by
        cases hlines : s.lines with
        | nil =>
            rw [hlines] at hnext
            cases hnext
        | cons x xs => exact ⟨x, xs, rfl⟩
      have hback : t.seekg s.tellg.1 = s := by
        rw [IStringStream.tellg_of_lines_cons hx] at hbuf ⊢
        exact IStringStream.seekg_told hx hbuf hfail
      simp only [hback]
      by_cases hdeeper : getIndent l < getIndent next
      · simp only [if_pos hdeeper]
        refine (nested_returns (isDash (trim next)) hbehind (by omega)
          (hobject s (getIndent next) .null (by omega))).bind
          ((⟨.object, base, acc⟩, .field key) :: ·) (fun v s' hbehind' hle => ?_) (by omega)
        exact hobject s' base _ (by omega)
      · simp only [if_neg hdeeper]
        exact (hobject s base _ (by omega)).of_step (fun K => rfl) (by omega)

/-- **`parse_object` returns** what the line machine makes of an object. -/
theorem parseObject_returns (fuel : Nat) (s : IStringStream) (base : Nat)
    (acc : YamlValue D) (hfuel : weight s.lines + 1 ≤ fuel) :
    Returns stod (State.running ⟨.object, base, acc⟩) s 1
      (parseObject stod fuel s base acc) := by
  induction fuel generalizing s base acc with
  | zero => omega
  | succ fuel ih =>
      cases hlines : s.lines with
      | nil =>
          obtain ⟨s', hget, hfail⟩ := IStringStream.getline_of_lines_nil hlines
          simp only [parseObject, hget]
          exact .returns (.at_end hlines hfail)
      | cons l ls =>
          obtain ⟨s', hget, rfl, hbehind', -, -⟩ :=
            IStringStream.getline_of_lines_cons hlines
          simp only [parseObject, hget]
          by_cases hskip : isSkipped (trim l) = true
          · rw [if_pos hskip]
            rw [hlines, weight_skipped hskip] at hfuel
            exact (ih s' base acc (by omega)).of_skipped hlines hskip
          · have hcount : isSkipped (trim l) = false := by simpa using hskip
            have hw : weight s.lines = weight s'.lines + 4 := by
              rw [hlines, weight_counts hcount]
            rw [if_neg hskip]
            have hread : ∀ K : Stack D, run stod (.running ⟨.object, base, acc⟩ K) s.lines
                = run stod (readLine stod ⟨.object, base, acc⟩ K l s'.lines) s'.lines := by
              intro K
              rw [hlines, run_reads hcount rfl]
            by_cases hend : getIndent l < base ∧ 0 < base
            · -- the line that ends a nested object is gone
              rw [if_pos hend]
              refine .returns ⟨fun K => ?_, hbehind', by omega⟩
              rw [hread K]
              simp only [readLine, if_pos hend]
            · rw [if_neg hend]
              simp only [readLine, if_neg hend, objectLine] at hread
              cases hkv : keyValue (trim l) with
              | none =>
                  simp only [hkv] at hread
                  exact (ih s' base acc (by omega)).of_step hread (by omega)
              | some kv =>
                  obtain ⟨key, value⟩ := kv
                  simp only [hkv] at hread ⊢
                  by_cases hvalue : value = []
                  · simp only [if_pos hvalue] at hread ⊢
                    exact (parseObject_nested ih hbehind' (by omega)).of_step hread (by omega)
                  · simp only [if_neg hvalue] at hread ⊢
                    by_cases hbracket : value.head? = some '['
                    · simp only [if_pos hbracket] at hread ⊢
                      exact (ih s' base _ (by omega)).of_step hread (by omega)
                    · simp only [if_neg hbracket] at hread ⊢
                      exact (ih s' base _ (by omega)).of_step hread (by omega)

/-- **The parser is the machine**: on every text `parse` ends, and it yields
    what the machine makes of the lines of the text. -/
theorem parse_eq_runDocument (content : Str) :
    parse stod content
      = match runDocument stod (linesOf content) with
        | some v => .ok (.ok v)
        | none => .error .outOfRange := by
  have hlines := IStringStream.lines_ofString content
  have hfuel : weight (IStringStream.ofString content).lines + 1 ≤ 4 * content.length + 2 := by
    have h1 := weight_le (linesOf content)
    have h2 := length_linesOf_le content
    rw [hlines]
    omega
  have hspec : Returns stod (State.running ⟨.object, 0, .null⟩) _ 1 _ :=
    parseObject_returns _ _ 0 .null hfuel
  rw [parse]
  generalize parseObject stod (4 * content.length + 2) (IStringStream.ofString content) 0 .null
    = o at hspec ⊢
  cases hspec with
  | throws hthrows =>
      have hrun : runDocument stod (linesOf content) = none := hlines ▸ hthrows []
      rw [hrun]
  | @returns v s' hreturns =>
      have hrun : runDocument stod (linesOf content) = some v := by
        have h := hreturns.run_eq []
        rw [hlines] at h
        exact h.trans (run_returned v _)
      rw [hrun]

end LaunchCpp.Yaml
