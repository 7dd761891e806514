import LaunchCpp.Yaml.Tabs
import LaunchCpp.Yaml.Text

/-! # The parser returns a value

    Every text ends the parser (`parse_eq_runDocument`), and what is left to
    go wrong is one exception: `substr` on a line of an element that is too
    short.  Without tabs a line that counts is longer than its indent, so the
    exception stays out.  The main result is `parse_total`. -/

namespace LaunchCpp.Yaml

open StringStreams

/-- Without tabs the indent of a line is a part of the line, and the whole of
    it only when the line is blank. -/
theorem getIndent_lt_length {line : Str} (htab : '\t' ∉ line) (hne : trim line ≠ []) :
    getIndent line < line.length := by
  induction line with
  | nil => exact absurd rfl hne
  | cons c cs ih =>
      have hc : c ≠ '\t' := fun heq => htab (heq ▸ List.mem_cons_self)
      by_cases hspace : c = ' '
      · subst hspace
        rw [trim_space_cons] at hne
        have hlt := ih (fun hm => htab (List.mem_cons_of_mem _ hm)) hne
        rw [List.length_cons]
        exact Nat.succ_lt_succ hlt
      · have hzero : getIndent (c :: cs) = 0 := by
          unfold getIndent
          split
          · rename_i heq
            exact absurd (List.cons.inj heq).1 hspace
          · rename_i heq
            exact absurd (List.cons.inj heq).1 hc
          · rfl
        rw [hzero]
        exact Nat.succ_pos _

/-! ## No reader fails -/

/-- A call that hands back no parse error. -/
def NoError {α : Type} (o : Outcome (Result α)) : Prop := ∀ e s, o ≠ .ok (.error e, s)

section Readers

variable {D : Type} (stod : Str → Option D)

theorem noError_ok {α : Type} (v : α) (s : IStringStream) : NoError (.ok (.ok v, s)) := by
  intro e s' h
  cases h

theorem noError_abort {α : Type} (a : Abort) : NoError (.error a : Outcome (Result α)) := by
  intro e s' h
  cases h

/-- A call that passes on the errors of another one, which has none. -/
theorem NoError.bind {o : Outcome (Result (YamlValue D))}
    {k : YamlValue D → IStringStream → Outcome (Result (YamlValue D))} (h : NoError o)
    (hk : ∀ v s, NoError (k v s)) :
    NoError (match o with
      | .error e => .error e
      | .ok (.error e, s) => .ok (.error e, s)
      | .ok (.ok v, s) => k v s) := by
  rcases o with a | ⟨e | v, s⟩
  · exact noError_abort a
  · exact absurd rfl (h e s)
  · exact hk v s

theorem parseValue_noError (fuel : Nat) (s : IStringStream) :
    NoError (parseValue stod fuel s) := by
  induction fuel generalizing s with
  | zero => exact noError_abort _
  | succ fuel ih =>
      rw [parseValue]
      rcases s.getline with ⟨_ | line, s⟩
      · exact noError_ok _ _
      · simp only
        split
        · exact ih s
        · exact noError_ok _ _

theorem parseArray_noError (fuel : Nat) (s : IStringStream) (base : Nat)
    (acc : YamlValue D) : NoError (parseArray stod fuel s base acc) := by
  induction fuel generalizing s acc with
  | zero =>
      rw [parseArray]
      exact noError_abort _
  | succ fuel ih =>
      rw [parseArray]
      rcases s.getline with ⟨_ | line, s⟩
      · exact noError_ok _ _
      · simp only
        split
        · exact ih s acc
        · split
          · exact noError_ok _ _
          · split
            · split
              · exact (parseValue_noError stod fuel s).bind (fun v s => ih s _)
              · split
                · cases parseArrayElementObject stod fuel s line base with
                  | error a => exact noError_abort a
                  | ok r => exact ih r.2 _
                · exact ih s _
            · exact ih s acc

/-- The nested call of an object field, an array or an object. -/
theorem nested_noError (dash : Bool) {fuel base : Nat} {s : IStringStream}
    (hobject : NoError (parseObject stod fuel s base .null)) :
    NoError (if dash then parseArray stod fuel s base .null
      else parseObject stod fuel s base .null) := by
  cases dash with
  | true => exact parseArray_noError stod fuel s base .null
  | false => exact hobject

theorem parseObject_noError (fuel : Nat) (s : IStringStream) (base : Nat)
    (acc : YamlValue D) : NoError (parseObject stod fuel s base acc) := by
  induction fuel generalizing s base acc with
  | zero => exact noError_abort _
  | succ fuel ih =>
      rw [parseObject]
      rcases s.getline with ⟨_ | line, s⟩
      · exact noError_ok _ _
      · simp only
        split
        · exact ih s base acc
        · split
          · exact noError_ok _ _
          · rcases keyValue (trim line) with _ | ⟨key, value⟩
            · exact ih s base acc
            · simp only
              split
              · rcases findNext fuel s.tellg.2 with a | ⟨_ | next, s'⟩
                · exact noError_abort a
                · exact ih s' base _
                · simp only
                  split
                  · exact (nested_noError stod _ (ih _ _ _)).bind (fun v s => ih s base _)
                  · exact ih _ base _
              · split
                · exact ih s base _
                · exact ih s base _

/-- **The parser is total on texts without tabs**: it ends, throws nothing and
    returns a value.  Of the calls below it none hands back a parse error, so
    no branch that passes one on is taken, on any text. -/
theorem parse_total {content : Str} (htab : '\t' ∉ content) :
    (∃ v, parse stod content = .ok (.ok v))
      ∧ (∀ value, ∃ v, parseScalar stod value = .ok v)
      ∧ (∀ fuel s, NoError (parseValue stod fuel s))
      ∧ (∀ fuel s base acc, NoError (parseArray stod fuel s base acc))
      ∧ ∀ fuel s base acc, NoError (parseObject stod fuel s base acc) := by
  refine ⟨?_, fun value => ⟨_, rfl⟩, parseValue_noError stod, parseArray_noError stod,
    parseObject_noError stod⟩
  refine parse_value_of_length stod (fun line hline hcounts => ?_)
  refine getIndent_lt_length (fun hm => htab (mem_of_mem_linesOf hline hm)) ?_
  exact ne_nil_of_not_isSkipped (by simp [hcounts])

theorem parse_total_dedent :
    ∃ v, parse (fun _ => (none : Option Nat)) "e:\n  - a: 1\n   b\n c\n".toList
      = .ok (.ok v) :=
  (parse_total (fun _ => (none : Option Nat)) (by decide)).1

end Readers

end LaunchCpp.Yaml
