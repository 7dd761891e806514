import Mathlib.Algebra.Ring.Parity
import Mathlib.Data.List.TakeWhile

/-! # Quoting with an escape character

    Text over any alphabet, put between two quotes `q` with an escape
    character `e` in front of every `q` and `e` inside.  The file has what a
    reader of such text relies on:

    * reading it back undoes the escaping (`unescape_escape`);
    * no quote inside closes it: the run of escape characters in front of a
      quote is odd inside and even at both ends (`even_run_iff`). -/

namespace Escaping

variable {α : Type*} [DecidableEq α] (e q : α)

/-- The text with an escape character in front of every special one. -/
def escape (s : List α) : List α :=
  s.flatMap (fun c => if c = q ∨ c = e then [e, c] else [c])

/-- The escaped text between quotes. -/
def quote (s : List α) : List α := q :: escape e q s ++ [q]

/-- Read escaped text: an escape character is dropped where a special one
    follows it. -/
def unescape : List α → List α
  | [] => []
  | [c] => [c]
  | c :: d :: rest =>
      if c = e ∧ (d = q ∨ d = e) then d :: unescape rest else c :: unescape (d :: rest)

/-- Read a word: without a quote in front it stands for itself. -/
def decode (w : List α) : List α :=
  if w.head? = some q then unescape e q w.tail.dropLast else w

/-- How many escape characters a text ends in. -/
def run (l : List α) : Nat := (l.reverse.takeWhile (· = e)).length

/-! ## Reading back -/

@[simp] theorem escape_nil : escape e q [] = [] := rfl

theorem escape_cons (c : α) (s : List α) :
    escape e q (c :: s) = (if c = q ∨ c = e then [e, c] else [c]) ++ escape e q s := rfl

variable {e q}

/-- A special character is escaped. -/
theorem escape_cons_special {c : α} (h : c = q ∨ c = e) (s : List α) :
    escape e q (c :: s) = e :: c :: escape e q s := by
  rw [escape_cons, if_pos h]
  rfl

/-- Any other character stands for itself. -/
theorem escape_cons_plain {c : α} (h : ¬ (c = q ∨ c = e)) (s : List α) :
    escape e q (c :: s) = c :: escape e q s := by
  rw [escape_cons, if_neg h]
  rfl

/-- An escaped character is read as itself. -/
theorem unescape_special {c : α} (h : c = q ∨ c = e) (l : List α) :
    unescape e q (e :: c :: l) = c :: unescape e q l := by
  rw [unescape, if_pos ⟨rfl, h⟩]

/-- So is one that is not escaped. -/
theorem unescape_plain {c : α} (h : c ≠ e) (l : List α) :
    unescape e q (c :: l) = c :: unescape e q l := by
  cases l with
  | nil => rfl
  | cons d l => rw [unescape, if_neg (fun hd => h hd.1)]

/-- **Reading back** undoes the escaping. -/
theorem unescape_escape (s : List α) : unescape e q (escape e q s) = s := by
  induction s with
  | nil => rfl
  | cons c s ih =>
      by_cases h : c = q ∨ c = e
      · rw [escape_cons_special h, unescape_special h, ih]
      · rw [escape_cons_plain h, unescape_plain (fun hc => h (Or.inr hc)), ih]

/-- **What is quoted is decoded to what it was.** -/
theorem decode_quote (s : List α) : decode e q (quote e q s) = s := by
  have hhead : (quote e q s).head? = some q := rfl
  rw [decode, if_pos hhead]
  show unescape e q (escape e q s ++ [q]).dropLast = s
  rw [List.dropLast_concat, unescape_escape]

/-- A word without quotes is its own meaning. -/
theorem decode_of_head {w : List α} (h : w.head? ≠ some q) : decode e q w = w :=
  if_neg h

/-! ## Runs of escape characters -/

@[simp] theorem run_nil : run e [] = 0 := rfl

/-- One escape more. -/
theorem run_concat_escape (l : List α) : run e (l ++ [e]) = run e l + 1 := by
  rw [run, run, List.reverse_concat]
  simp

/-- A run ends at any other character. -/
theorem run_concat_of_ne {c : α} (h : c ≠ e) (l : List α) : run e (l ++ [c]) = 0 := by
  rw [run, List.reverse_concat]
  simp [h]

/-- An escaped character leaves an even run even. -/
theorem even_run_concat_special (hne : q ≠ e) {c : α} (hc : c = q ∨ c = e) {acc : List α}
    (h : Even (run e acc)) : Even (run e (acc ++ [e] ++ [c])) := by
  rcases hc with rfl | rfl
  · rw [run_concat_of_ne hne]
    exact Even.zero
  · rw [run_concat_escape, run_concat_escape]
    exact (h.add_one).add_one

/-- No escape is open behind a plain character. -/
theorem even_run_concat_plain {c : α} (hc : ¬ (c = q ∨ c = e)) (acc : List α) :
    Even (run e (acc ++ [c])) := by
  rw [run_concat_of_ne (fun hce => hc (Or.inr hce))]
  exact Even.zero

/-- Escaped text ends in an even run. -/
theorem even_run_append (hne : q ≠ e) (s : List α) :
    ∀ acc, Even (run e acc) → Even (run e (acc ++ escape e q s)) := by
  induction s with
  | nil =>
      intro acc h
      rwa [escape_nil, List.append_nil]
  | cons c s ih =>
      intro acc h
      by_cases hc : c = q ∨ c = e
      · rw [escape_cons_special hc]
        rw [List.append_cons, List.append_cons]
        exact ih _ (even_run_concat_special hne hc h)
      · rw [escape_cons_plain hc, List.append_cons]
        exact ih _ (even_run_concat_plain hc acc)

/-- A quote inside escaped text stands behind an odd run. -/
theorem odd_run_of_quote (hne : q ≠ e) {post : List α} (s : List α) :
    ∀ acc pre, Even (run e acc) → acc.length ≤ pre.length →
      acc ++ escape e q s = pre ++ q :: post → Odd (run e pre) := by
  induction s with
  | nil =>
      intro acc pre _ hlen heq
      -- the text ends where the accumulator does, the quote lies behind it
      have hlen' := congrArg List.length heq
      simp only [escape_nil, List.append_nil, List.length_append, List.length_cons] at hlen'
      omega
  | cons c s ih =>
      intro acc pre h hlen heq
      by_cases hc : c = q ∨ c = e
      · rw [escape_cons_special hc] at heq
        rcases Nat.lt_or_ge pre.length (acc.length + 2) with hshort | hlong
        · -- the quote is one of the two characters just written
          obtain ⟨mid, rfl⟩ : ∃ mid, pre = acc ++ mid := by
            refine ⟨_, (List.prefix_iff_eq_append.mp ?_).symm⟩
            exact List.prefix_of_prefix_length_le ⟨_, heq⟩ (List.prefix_append _ _) hlen
          rw [List.append_assoc, List.append_cancel_left_eq] at heq
          cases mid with
          | nil => exact absurd (List.cons.inj heq).1.symm hne
          | cons d mid =>
              obtain ⟨rfl, heq⟩ := List.cons.inj heq
              have hmid : mid = [] := by
                refine List.eq_nil_of_length_eq_zero ?_
                simp only [List.length_append, List.length_cons] at hshort
                omega
              rw [hmid, run_concat_escape]
              exact h.add_one
        · rw [List.append_cons, List.append_cons] at heq
          exact ih _ pre (even_run_concat_special hne hc h) (by simpa using hlong) heq
      · rw [escape_cons_plain hc] at heq
        have hlong : acc.length + 1 ≤ pre.length := by
          rcases Nat.lt_or_ge acc.length pre.length with hlt | hge
          · exact hlt
          · obtain ⟨-, heq⟩ := List.append_inj heq (by omega)
            exact absurd (Or.inl (List.cons.inj heq).1) hc
        rw [List.append_cons] at heq
        exact ih _ pre (even_run_concat_plain hc acc) (by simpa using hlong) heq

/-- **No quote inside closes the text**: only in front of the first and of
    the last one is the run even. -/
theorem even_run_iff (hne : q ≠ e) {s pre post : List α}
    (h : quote e q s = pre ++ q :: post) :
    Even (run e pre) ↔ pre = [] ∨ post = [] := by
  have hfirst : Even (run e [q]) := by
    rw [show [q] = [] ++ [q] from rfl, run_concat_of_ne hne]
    exact Even.zero
  cases pre with
  | nil => exact iff_of_true Even.zero (Or.inl rfl)
  | cons d pre =>
      obtain ⟨hd, hrest⟩ := List.cons.inj h
      rw [← hd]
      rcases List.eq_nil_or_concat post with rfl | ⟨post', z, rfl⟩
      · have hpre : escape e q s = pre := List.append_inj_left' hrest rfl
        rw [← hpre]
        exact iff_of_true (even_run_append hne s [q] hfirst) (Or.inr rfl)
      · have hsplit : escape e q s ++ [q] = (pre ++ q :: post') ++ [z] := by
          simpa using hrest
        obtain ⟨hpre, -⟩ := List.append_inj' hsplit rfl
        refine iff_of_false ?_ (by simp)
        rw [Nat.not_even_iff_odd]
        have hquote : [q] ++ escape e q s = (q :: pre) ++ q :: post' := by
          rw [List.singleton_append, hpre, List.cons_append]
        exact odd_run_of_quote hne s [q] (q :: pre) hfirst (by simp) hquote

end Escaping
