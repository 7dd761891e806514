import LaunchCpp.Yaml.Value
import LaunchCpp.Library.StringStream

/-! # Lines as the parser reads them

    How `trim`, `get_indent` and the split at the first colon act on lines
    that are written with spaces, a dash, a key and a value.  `Trimmed` texts
    are the ones `trim` leaves alone; a `Key` is a text a line can name a
    field by. -/

namespace LaunchCpp.Yaml

/-- No white space at either end. -/
def Trimmed (s : Str) : Prop :=
  (∀ c ∈ s.head?, isSpace c = false) ∧ ∀ c ∈ s.getLast?, isSpace c = false

instance (s : Str) : Decidable (Trimmed s) :=
  decidable_of_iff ((s.head?.any isSpace || s.getLast?.any isSpace) = false) (by
    rw [Bool.or_eq_false_iff, Option.any_eq_false, Option.any_eq_false]
    exact Iff.rfl)

theorem trimmed_nil : Trimmed [] := by decide

/-- An indent. -/
def spaces (n : Nat) : Str := List.replicate n ' '

/-- Nothing is dropped in front of a text that begins otherwise. -/
theorem dropWhile_of_head {s : Str} (h : ∀ c ∈ s.head?, isSpace c = false) :
    s.dropWhile isSpace = s := by
  cases s with
  | nil => rfl
  | cons c cs =>
      have hc : isSpace c = false := h c rfl
      rw [List.dropWhile_cons_of_neg (by simp [hc])]

/-- Nor behind one that ends otherwise. -/
theorem rdropWhile_of_getLast {s : Str} (h : ∀ c ∈ s.getLast?, isSpace c = false) :
    s.rdropWhile isSpace = s := by
  refine List.rdropWhile_eq_self_iff.mpr (fun hne => ?_)
  have hlast := h (s.getLast hne) (List.getLast?_eq_some_getLast hne)
  simp [hlast]

/-- A trimmed text is what trimming makes of it. -/
theorem Trimmed.trim_eq {s : Str} (h : Trimmed s) : trim s = s := by
  rw [trim]
  rw [dropWhile_of_head h.1, rdropWhile_of_getLast h.2]

/-- Blanks in front are trimmed off. -/
theorem trim_spaces (n : Nat) (s : Str) : trim (spaces n ++ s) = trim s := by
  rw [trim, spaces]
  induction n with
  | zero => rfl
  | succ n ih =>
      rw [List.replicate_succ, List.cons_append, List.dropWhile_cons_of_pos (by decide)]
      exact ih

/-- One of them, too. -/
theorem trim_space_cons (s : Str) : trim (' ' :: s) = trim s := trim_spaces 1 s

/-- Texts put together are trimmed at the ends of the outer ones. -/
theorem Trimmed.append {s t : Str} (hs : Trimmed s) (ht : Trimmed t) (hsn : s ≠ [])
    (htn : t ≠ []) (m : Str) : Trimmed (s ++ m ++ t) := by
  constructor
  · intro c hc
    obtain ⟨d, ds, rfl⟩ := List.exists_cons_of_ne_nil hsn
    exact hs.1 c (by simpa using hc)
  · intro c hc
    obtain ⟨d, hd⟩ : ∃ d, t.getLast? = some d :=
      ⟨_, List.getLast?_eq_some_getLast htn⟩
    rw [List.getLast?_append, hd, Option.some_or] at hc
    exact ht.2 c (by rw [hd]; exact hc)

/-- The indent of a line is the number of its leading spaces. -/
theorem getIndent_spaces (n : Nat) {s : Str} (h : ∀ c ∈ s.head?, isSpace c = false) :
    getIndent (spaces n ++ s) = n := by
  rw [spaces]
  induction n with
  | zero =>
      cases s with
      | nil => rfl
      | cons c cs =>
          have hc : isSpace c = false := h c rfl
          have hspace : c ≠ ' ' := by rintro rfl; cases hc
          have htab : c ≠ '\t' := by rintro rfl; cases hc
          exact getIndent_cons hspace htab cs
  | succ n ih =>
      rw [List.replicate_succ, List.cons_append]
      show getIndent (List.replicate n ' ' ++ s) + 1 = n + 1
      rw [ih]

/-- The split of a line at its first colon. -/
theorem keyValue_colon {k : Str} (h : ':' ∉ k) (v : Str) :
    keyValue (k ++ ':' :: v) = some (trim k, trim v) := by
  obtain ⟨htake, hdrop⟩ := StringStreams.takeWhile_cut h v
  rw [keyValue]
  rw [if_pos (by simp), htake, hdrop]
  rfl

/-- A line without a colon has no key. -/
theorem keyValue_none {s : Str} (h : ':' ∉ s) : keyValue s = none := if_neg h

/-- A text that can name a field. -/
structure Key where
  text : Str
  ne_nil : text ≠ []
  no_colon : ':' ∉ text
  no_newline : '\n' ∉ text
  trimmed : Trimmed text
  no_hash : text.head? ≠ some '#'
  no_dash : text.head? ≠ some '-'

/-- A key from a concrete text. -/
def Key.ofText (text : Str)
    (h : text ≠ [] ∧ ':' ∉ text ∧ '\n' ∉ text ∧ Trimmed text ∧ text.head? ≠ some '#'
      ∧ text.head? ≠ some '-') : Key where
  text := text
  ne_nil := h.1
  no_colon := h.2.1
  no_newline := h.2.2.1
  trimmed := h.2.2.2.1
  no_hash := h.2.2.2.2.1
  no_dash := h.2.2.2.2.2

/-- A text that can stand behind a key or a dash. -/
structure IsToken (t : Str) : Prop where
  ne_nil : t ≠ []
  no_newline : '\n' ∉ t
  trimmed : Trimmed t
  no_bracket : t.head? ≠ some '['

/-- `key: value`, or `key:` without a value. -/
def fieldText (key : Key) (value : Str) : Str :=
  if value = [] then key.text ++ [':'] else key.text ++ ':' :: ' ' :: value

section Fields

variable (key : Key) {value : Str}

/-- A key begins with a character that is no blank, no `#` and no dash. -/
theorem Key.head_eq : ∃ c cs, key.text = c :: cs ∧ isSpace c = false ∧ c ≠ '#' ∧ c ≠ '-' := by
  obtain ⟨c, cs, hc⟩ := List.exists_cons_of_ne_nil key.ne_nil
  refine ⟨c, cs, hc, key.trimmed.1 c (by rw [hc]; rfl), ?_, ?_⟩
  · rintro rfl
    exact key.no_hash (by rw [hc]; rfl)
  · rintro rfl
    exact key.no_dash (by rw [hc]; rfl)

/-- A field has no blanks at its ends. -/
theorem fieldText_trimmed (h : Trimmed value) : Trimmed (fieldText key value) := by
  rw [fieldText]
  by_cases hv : value = []
  · rw [if_pos hv]
    have hcolon : Trimmed [':'] := by decide
    simpa using key.trimmed.append hcolon key.ne_nil (by simp) []
  · rw [if_neg hv]
    simpa using key.trimmed.append h key.ne_nil hv [':', ' ']

/-- The first character of a field is the first one of its key. -/
theorem head_fieldText (value : Str) : (fieldText key value).head? = key.text.head? := by
  obtain ⟨c, cs, hc⟩ := List.exists_cons_of_ne_nil key.ne_nil
  rw [fieldText]
  split <;> simp [hc]

/-- A field is not empty. -/
theorem fieldText_ne_nil (value : Str) : fieldText key value ≠ [] := by
  rw [fieldText]
  split <;> simp

/-- **A field is read as its key and its value.** -/
theorem keyValue_fieldText (h : Trimmed value) :
    keyValue (fieldText key value) = some (key.text, value) := by
  rw [fieldText]
  by_cases hv : value = []
  · rw [if_pos hv, keyValue_colon key.no_colon, key.trimmed.trim_eq, hv]
    rfl
  · rw [if_neg hv, keyValue_colon key.no_colon, key.trimmed.trim_eq, trim_space_cons,
      h.trim_eq]

/-- A field stays on its line. -/
theorem no_newline_fieldText (h : '\n' ∉ value) : '\n' ∉ fieldText key value := by
  rw [fieldText]
  split
  · simp [key.no_newline]
  · simp [key.no_newline, h]

/-- A field is no comment. -/
theorem isSkipped_fieldText (value : Str) : isSkipped (fieldText key value) = false := by
  obtain ⟨c, cs, hc, -, hhash, -⟩ := key.head_eq
  simp [isSkipped, head_fieldText, hc, hhash]

/-- A field is no item of a list. -/
theorem isDash_fieldText (value : Str) : isDash (fieldText key value) = false := by
  obtain ⟨c, cs, hc, -, -, hdash⟩ := key.head_eq
  simp [isDash, head_fieldText, hc, hdash]

end Fields

/-! ## Whole lines -/

/-- A text behind an indent. -/
def lineAt (n : Nat) (s : Str) : Str := spaces n ++ s

/-- A text behind an indent and a dash. -/
def dashAt (n : Nat) (s : Str) : Str := spaces n ++ '-' :: ' ' :: s

/-- Trimming takes the indent off. -/
theorem trim_lineAt (n : Nat) {s : Str} (h : Trimmed s) : trim (lineAt n s) = s := by
  rw [lineAt]
  rw [trim_spaces, h.trim_eq]

/-- The indent is what was put in front. -/
theorem getIndent_lineAt (n : Nat) {s : Str} (h : Trimmed s) :
    getIndent (lineAt n s) = n := getIndent_spaces n h.1

/-- A line is its indent and its text. -/
theorem length_lineAt (n : Nat) (s : Str) : (lineAt n s).length = n + s.length := by
  simp [lineAt, spaces]

/-- An item begins with its dash. -/
theorem trimmed_dash {s : Str} (h : Trimmed s) (hs : s ≠ []) :
    Trimmed ('-' :: ' ' :: s) := by
  have hdash : Trimmed ['-'] := by decide
  simpa using hdash.append h (by simp) hs [' ']

/-- Trimming takes the indent of an item off, and leaves the dash. -/
theorem trim_dashAt (n : Nat) {s : Str} (h : Trimmed s) (hs : s ≠ []) :
    trim (dashAt n s) = '-' :: ' ' :: s := trim_lineAt n (trimmed_dash h hs)

/-- The indent of an item ends at its dash. -/
theorem getIndent_dashAt (n : Nat) (s : Str) : getIndent (dashAt n s) = n := by
  refine getIndent_spaces n ?_
  intro c hc
  have : c = '-' := by simpa using hc.symm
  subst this
  decide

/-- An item is no comment. -/
theorem isSkipped_dashAt (n : Nat) {s : Str} (h : Trimmed s) (hs : s ≠ []) :
    isSkipped (trim (dashAt n s)) = false := by
  rw [trim_dashAt n h hs]
  rfl

/-- An item is seen to be one. -/
theorem isDash_dashAt (n : Nat) {s : Str} (h : Trimmed s) (hs : s ≠ []) :
    isDash (trim (dashAt n s)) = true := by
  rw [trim_dashAt n h hs]
  rfl

/-- What stands behind the dash. -/
theorem content_dashAt (n : Nat) {s : Str} (h : Trimmed s) (hs : s ≠ []) :
    trim (trim (dashAt n s)).tail = s := by
  rw [trim_dashAt n h hs]
  show trim (' ' :: s) = s
  rw [trim_space_cons, h.trim_eq]

/-- Blanks do not end a line. -/
theorem no_newline_spaces (n : Nat) : '\n' ∉ spaces n := by
  simp [spaces]

theorem no_newline_lineAt (n : Nat) {s : Str} (h : '\n' ∉ s) : '\n' ∉ lineAt n s := by
  simp [lineAt, no_newline_spaces, h]

theorem no_newline_dashAt (n : Nat) {s : Str} (h : '\n' ∉ s) : '\n' ∉ dashAt n s := by
  simp [dashAt, no_newline_spaces, h]

/-- A line that can be written down: not empty, and one line. -/
def Writable (l : Str) : Prop := l ≠ [] ∧ '\n' ∉ l

/-- A line with something on it can be written and read back. -/
theorem writable_lineAt (n : Nat) {s : Str} (hne : s ≠ []) (h : '\n' ∉ s) :
    Writable (lineAt n s) :=
  ⟨by simp [lineAt, hne], no_newline_lineAt n h⟩

/-- So can an item. -/
theorem writable_dashAt (n : Nat) {s : Str} (h : '\n' ∉ s) : Writable (dashAt n s) :=
  ⟨by simp [dashAt], no_newline_dashAt n h⟩

/-! ## Quoted strings -/

/-- A double-quoted string. -/
def quote (s : Str) : Str := '"' :: s ++ ['"']

/-- A quoted text can stand behind a key. -/
theorem isToken_quote {s : Str} (h : '\n' ∉ s) : IsToken (quote s) := by
  refine ⟨by simp [quote], by simpa [quote] using h, ⟨?_, ?_⟩, by simp [quote]⟩
  · intro c hc
    have : c = '"' := by simpa [quote] using hc.symm
    subst this
    decide
  · intro c hc
    have : c = '"' := by simpa [quote, List.getLast?_cons] using hc.symm
    subst this
    decide

/-- A quoted string is read as what stands between the quotes. -/
theorem scalarValue_quote {D : Type} (stod : Str → Option D) {s : Str} (h : '\n' ∉ s) :
    scalarValue stod (quote s) = .string s := by
  have htrim := (isToken_quote h).trimmed.trim_eq
  have hnumber : numberChars true false (quote s) = false := rfl
  have hunquote : unquote (quote s) = s := by
    rw [unquote, quote]
    rw [if_pos]
    · simp
    · refine ⟨by simp, Or.inl ⟨rfl, by simp [List.getLast?_cons]⟩⟩
  rw [scalarValue]
  simp only [htrim, hnumber, hunquote]
  rw [if_neg, if_neg]
  · simp
  · simp [quote]
  · simp [quote]

end LaunchCpp.Yaml
