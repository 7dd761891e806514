import LaunchCpp.ExecuteProcess
import LaunchCpp.Library.ShellWords

/-! # What `escape_argument` protects

    As an encoding the function is sound: the result can be read back, and an
    argument never closes its own quotes.  As a protection against a shell it
    is not: what is special without quotes and what stays special between
    double quotes are two lists, and the function has only a part of each. -/

namespace LaunchCpp.CommandBuilder

open Escaping

theorem escapeArgument_of_needsQuoting {arg : Str} (h : needsQuoting arg = true) :
    escapeArgument arg = quote '\\' '"' arg :=
  if_neg (not_not_intro h)

theorem quotedChar_of_not_needsQuoting {arg : Str} (h : needsQuoting arg = false) {c : Char}
    (hc : c ∈ arg) : quotedChar c = false := by
  simpa using List.any_eq_false.mp h c hc

/-- A word that was left alone does not begin with a quote. -/
theorem head_ne_quote {arg : Str} (h : needsQuoting arg = false) : arg.head? ≠ some '"' := by
  intro hhead
  have hquote := quotedChar_of_not_needsQuoting h (List.mem_of_head? hhead)
  exact absurd hquote (by decide)

theorem head_escapeArgument_iff {arg : Str} :
    (escapeArgument arg).head? = some '"' ↔ needsQuoting arg = true := by
  cases h : needsQuoting arg with
  | true =>
      rw [escapeArgument_of_needsQuoting h]
      exact iff_of_true rfl rfl
  | false =>
      rw [escapeArgument_of_not h]
      exact iff_of_false (head_ne_quote h) Bool.false_ne_true

theorem decode_escapeArgument (arg : Str) : decode '\\' '"' (escapeArgument arg) = arg := by
  cases h : needsQuoting arg with
  | true => rw [escapeArgument_of_needsQuoting h, decode_quote]
  | false => rw [escapeArgument_of_not h, decode_of_head (head_ne_quote h)]

/-- **`escape_argument` is lossless**: it has a decoder, so no two arguments
    share a result, and between the quotes of a result there is no quote that
    could close them. -/
theorem escapeArgument_lossless :
    (∀ s, decode '\\' '"' (escapeArgument s) = s)
    ∧ Function.Injective escapeArgument
    ∧ ∀ s, (escapeArgument s).head? = some '"' →
        (∃ inner, escapeArgument s = '"' :: inner ++ ['"'])
        ∧ ∀ before after, escapeArgument s = before ++ '"' :: after →
            (Even (run '\\' before) ↔ before = [] ∨ after = []) := by
  refine ⟨decode_escapeArgument, ?_, ?_⟩
  · intro s t heq
    have hs := decode_escapeArgument s
    rw [heq, decode_escapeArgument t] at hs
    exact hs.symm
  · intro s hhead
    rw [escapeArgument_of_needsQuoting (head_escapeArgument_iff.mp hhead)]
    refine ⟨⟨_, rfl⟩, ?_⟩
    intro before after heq
    exact even_run_iff (by decide) heq

/-! ## In front of a shell -/

/-- On a command line, alone or between other parts, the escaped argument is
    one word, and that word is the argument. -/
def ReadAsOneWord (s : Str) : Prop :=
  ShellWords.words (escapeArgument s) = .ok [s]
  ∧ ∀ before after ws ws', ShellWords.words before = .ok ws → ShellWords.words after = .ok ws' →
      ShellWords.words (before ++ ' ' :: (escapeArgument s ++ ' ' :: after))
        = .ok (ws ++ s :: ws')

/-- The characters special to a shell that `needs_quoting` does not look
    for. -/
def unquotedSpecial (c : Char) : Bool :=
  c ∈ ['\'', '*', '?', '[', '<', '>', '|', '&', ';', '(', ')']

theorem readAsOneWord_iff_words (s : Str) :
    ReadAsOneWord s ↔ ShellWords.words (escapeArgument s) = .ok [s] := by
  refine ⟨And.left, fun h => ⟨h, ?_⟩⟩
  intro before after ws ws' hbefore hafter
  exact ShellWords.words_append hbefore (ShellWords.words_append h hafter)

theorem ordinary_iff {c : Char} (h : quotedChar c = false) :
    ShellWords.ordinary c = true ↔ unquotedSpecial c = false := by
  simp only [quotedChar, isspace, Bool.or_eq_false_iff, decide_eq_false_iff_not] at h
  simp [ShellWords.ordinary, ShellWords.effect_eq_none_iff, unquotedSpecial, h]

theorem effect_start_iff {c : Char} (h : ShellWords.ordinary c = true) :
    ShellWords.effect true c = none ↔ c ≠ '#' ∧ c ≠ '~' := by
  have hfalse : ShellWords.effect false c = none := by
    simp only [ShellWords.ordinary, decide_eq_true_eq] at h
    exact h.2
  rw [ShellWords.effect_eq_none_iff]
  exact ⟨fun hc => hc.2 rfl, fun hc => ⟨(ShellWords.effect_eq_none_iff.mp hfalse).1, fun _ => hc⟩⟩

/-- **What a shell makes of `escape_argument`**: the argument, as one word,
    exactly if it is not empty, has nothing that is expanded between double
    quotes, and is either quoted or free of all that is special without
    them. -/
theorem readAsOneWord_iff (s : Str) :
    ReadAsOneWord s
      ↔ s ≠ [] ∧ (∀ c ∈ s, c ≠ '$' ∧ c ≠ '`')
        ∧ (needsQuoting s = true
            ∨ (∀ c ∈ s, unquotedSpecial c = false) ∧ s.head? ≠ some '#'
              ∧ s.head? ≠ some '~') := by
  rw [readAsOneWord_iff_words]
  cases hq : needsQuoting s with
  | true =>
      rw [escapeArgument_of_needsQuoting hq, ShellWords.words_quote_iff]
      have hne : s ≠ [] := by
        rintro rfl
        cases hq
      simp [hne]
  | false =>
      have hplain : ∀ c ∈ s, quotedChar c = false :=
        fun c hc => quotedChar_of_not_needsQuoting hq hc
      have hexp : ∀ c ∈ s, c ≠ '$' ∧ c ≠ '`' := by
        intro c hc
        refine ⟨?_, ?_⟩ <;> rintro rfl <;> exact absurd (hplain _ hc) (by decide)
      have hord : (∀ c ∈ s, ShellWords.ordinary c = true)
          ↔ ∀ c ∈ s, unquotedSpecial c = false :=
        forall₂_congr (fun c hc => ordinary_iff (hplain c hc))
      rw [escapeArgument_of_not hq, ShellWords.words_eq_self_iff, hord]
      constructor
      · rintro ⟨c, p, rfl, hstart, hall⟩
        have hc := (effect_start_iff (hord.mpr hall c List.mem_cons_self)).mp hstart
        refine ⟨List.cons_ne_nil c p, hexp, Or.inr ⟨hall, ?_, ?_⟩⟩
        · simpa using hc.1
        · simpa using hc.2
      · rintro ⟨hne, -, hfalse | ⟨hall, hhash, htilde⟩⟩
        · cases hfalse
        · obtain ⟨c, p, rfl⟩ := List.exists_cons_of_ne_nil hne
          refine ⟨c, p, rfl, ?_, hall⟩
          refine (effect_start_iff (hord.mpr hall c List.mem_cons_self)).mpr ⟨?_, ?_⟩
          · simpa using hhash
          · simpa using htilde

/-- Both lists are short: a command substitution runs between the quotes, and
    a separator goes through without any. -/
theorem readAsOneWord_fails :
    ¬ ReadAsOneWord "talker $(reboot)".toList ∧ ¬ ReadAsOneWord "talker;reboot".toList
    ∧ ShellWords.words (escapeArgument "talker $(reboot)".toList) = .error .expansion
    ∧ ShellWords.words (escapeArgument "talker;reboot".toList) = .error .commandSeparator := by
  have hexp : ShellWords.words (escapeArgument "talker $(reboot)".toList) = .error .expansion := by
    decide +kernel
  have hsep : ShellWords.words (escapeArgument "talker;reboot".toList)
      = .error .commandSeparator := by
    decide +kernel
  refine ⟨fun h => ?_, fun h => ?_, hexp, hsep⟩
  · exact absurd (hexp.symm.trans h.1) (by simp)
  · exact absurd (hsep.symm.trans h.1) (by simp)

end LaunchCpp.CommandBuilder
