import LaunchCpp.Yaml.Value
import Mathlib.Data.List.Count

/-! # What `parse_scalar` makes of a text

    The loop over the characters against the grammar it stands for: an
    optional sign, then digits with at most one dot among them.  Of `std::stod`
    nothing is known but when it throws on such a text; the range it accepts
    is a set of numbers like any other. -/

namespace LaunchCpp.Yaml

/-! ## The grammar -/

/-- An optional sign, then digits and at most one dot. -/
def NumberText (t : Str) : Prop :=
  ∃ sign body, t = sign ++ body ∧ (sign = [] ∨ sign = ['-'] ∨ sign = ['+'])
    ∧ (∀ c ∈ body, c.isDigit = true ∨ c = '.') ∧ body.count '.' ≤ 1

/-- The number such a text is written for. -/
def decimalValue (t : Str) : Rat :=
  let body := if t.head? = some '-' ∨ t.head? = some '+' then t.tail else t
  let digits := (body.filter Char.isDigit).foldl (fun n c => 10 * n + (c.toNat - '0'.toNat)) 0
  let behindDot := (body.dropWhile (· ≠ '.')).tail.length
  mkRat (if t.head? = some '-' then -digits else digits) (10 ^ behindDot)

/-- The words that are read as booleans. -/
def trueWords : List Str := ["true".toList, "yes".toList, "on".toList]

def falseWords : List Str := ["false".toList, "no".toList, "off".toList]

/-! ## The loop -/

/-- Behind the sign, with or without a dot met before. -/
theorem numberChars_body (hasDot : Bool) (body : Str) :
    numberChars false hasDot body = true
      ↔ (∀ c ∈ body, c.isDigit = true ∨ c = '.')
        ∧ body.count '.' + (if hasDot then 1 else 0) ≤ 1 := by
  induction body generalizing hasDot with
  | nil => cases hasDot <;> simp [numberChars]
  | cons c cs ih =>
      rw [numberChars, Bool.false_and, if_neg Bool.false_ne_true]
      by_cases hdot : c = '.'
      · subst hdot
        rw [if_pos rfl, Bool.and_eq_true, ih true]
        cases hasDot <;> simp
      · rw [if_neg hdot, Bool.and_eq_true, ih hasDot, List.count_cons_of_ne hdot]
        simp [hdot, and_assoc]

theorem numberChars_iff (t : Str) : numberChars true false t = true ↔ NumberText t := by
  constructor
  · intro h
    cases t with
    | nil => exact ⟨[], [], rfl, Or.inl rfl, List.forall_mem_nil _, Nat.zero_le _⟩
    | cons c cs =>
        by_cases hsign : c = '-' ∨ c = '+'
        · have hbody : numberChars false false cs = true := by
            rw [numberChars, Bool.true_and, if_pos (by simpa using hsign)] at h
            exact h
          obtain ⟨hall, hcount⟩ := (numberChars_body false cs).mp hbody
          refine ⟨[c], cs, rfl, ?_, hall, hcount⟩
          rcases hsign with rfl | rfl
          · exact Or.inr (Or.inl rfl)
          · exact Or.inr (Or.inr rfl)
        · -- without a sign the loop goes on as it would behind one
          have hbody : numberChars false false (c :: cs) = true := by
            rw [numberChars, Bool.true_and, if_neg (by simpa using hsign)] at h
            rw [numberChars, Bool.false_and, if_neg Bool.false_ne_true]
            exact h
          obtain ⟨hall, hcount⟩ := (numberChars_body false (c :: cs)).mp hbody
          exact ⟨[], c :: cs, rfl, Or.inl rfl, hall, hcount⟩
  · rintro ⟨sign, body, rfl, hsign, hall, hcount⟩
    have hbody : numberChars false false body = true :=
      (numberChars_body false body).mpr ⟨hall, hcount⟩
    rcases hsign with rfl | rfl | rfl
    · cases body with
      | nil => rfl
      | cons c cs =>
          have hno : ¬ (c = '-' ∨ c = '+') := by
            rintro (rfl | rfl) <;> simpa using hall _ List.mem_cons_self
          rw [List.nil_append, numberChars, Bool.true_and, if_neg (by simpa using hno)]
          rw [numberChars, Bool.false_and, if_neg Bool.false_ne_true] at hbody
          exact hbody
    · exact hbody
    · exact hbody

/-! ## The quotes -/

theorem unquote_of_quotes {q : Char} (hq : q = '"' ∨ q = '\'') (inner : Str) :
    unquote (q :: inner ++ [q]) = inner := by
  have hlast : (q :: inner ++ [q]).getLast? = some q := List.getLast?_concat
  have hhead : (q :: inner ++ [q]).head? = some q := rfl
  rw [unquote, hhead, hlast, if_pos]
  · show (inner ++ [q]).dropLast = inner
    exact List.dropLast_concat
  · refine ⟨by simp, ?_⟩
    rcases hq with rfl | rfl
    · exact Or.inl ⟨rfl, rfl⟩
    · exact Or.inr ⟨rfl, rfl⟩

theorem exists_quotes {t : Str} {q : Char} (hlength : 2 ≤ t.length) (hhead : t.head? = some q)
    (hlast : t.getLast? = some q) : ∃ inner, t = q :: inner ++ [q] := by
  rcases List.eq_nil_or_concat t with rfl | ⟨l, d, rfl⟩
  · cases hhead
  · rw [List.concat_eq_append] at *
    obtain rfl : d = q := by simpa using hlast
    cases l with
    | nil => simp at hlength
    | cons c l =>
        obtain rfl : c = d := by simpa using hhead
        exact ⟨l, rfl⟩

theorem unquote_of_no_quotes {t : Str}
    (h : ∀ q, q = '"' ∨ q = '\'' → ∀ inner, t ≠ q :: inner ++ [q]) : unquote t = t := by
  rw [unquote, if_neg]
  rintro ⟨hlength, ⟨hhead, hlast⟩ | ⟨hhead, hlast⟩⟩
  · obtain ⟨inner, heq⟩ := exists_quotes hlength hhead hlast
    exact h '"' (Or.inl rfl) inner heq
  · obtain ⟨inner, heq⟩ := exists_quotes hlength hhead hlast
    exact h '\'' (Or.inr rfl) inner heq

/-! ## The three kinds of value -/

section Scalars

variable {D : Type} (stod : Str → Option D)

theorem scalarValue_of_trueWord {s : Str} (h : trim s ∈ trueWords) :
    scalarValue stod s = .boolean true := by
  have hword : trim s = "true".toList ∨ trim s = "yes".toList ∨ trim s = "on".toList := by
    simpa only [trueWords, List.mem_cons, List.not_mem_nil, or_false] using h
  rw [scalarValue]
  exact if_pos hword

theorem scalarValue_of_falseWord {s : Str} (h : trim s ∈ falseWords) :
    scalarValue stod s = .boolean false := by
  have hword : trim s = "false".toList ∨ trim s = "no".toList ∨ trim s = "off".toList := by
    simpa only [falseWords, List.mem_cons, List.not_mem_nil, or_false] using h
  have hno : ¬ (trim s = "true".toList ∨ trim s = "yes".toList ∨ trim s = "on".toList) := by
    rcases hword with heq | heq | heq <;> rw [heq] <;> decide
  rw [scalarValue]
  exact (if_neg hno).trans (if_pos hword)

/-- The number `parse_scalar` finds in a trimmed text. -/
def numberOf (t : Str) : Option D :=
  if numberChars true false t ∧ t ≠ [] then stod t else none

theorem scalarValue_of_no_word {s : Str} (htrue : trim s ∉ trueWords)
    (hfalse : trim s ∉ falseWords) :
    scalarValue stod s
      = match numberOf stod (trim s) with
        | some num => .number num
        | none => .string (unquote (trim s)) := by
  have hno : ¬ (trim s = "true".toList ∨ trim s = "yes".toList ∨ trim s = "on".toList) := by
    simpa only [trueWords, List.mem_cons, List.not_mem_nil, or_false] using htrue
  have hno' : ¬ (trim s = "false".toList ∨ trim s = "no".toList ∨ trim s = "off".toList) := by
    simpa only [falseWords, List.mem_cons, List.not_mem_nil, or_false] using hfalse
  rw [scalarValue]
  exact (if_neg hno).trans (if_neg hno')

/-- What is assumed of `std::stod`: on a text of the grammar it throws exactly
    without a digit or outside the range it accepts. -/
def StodAccepts (accepted : Rat → Prop) : Prop :=
  ∀ t, NumberText t →
    ((stod t).isSome = true ↔ (∃ c ∈ t, c.isDigit = true) ∧ accepted (decimalValue t))

variable {stod}

theorem numberOf_isSome_iff {accepted : Rat → Prop} (hstod : StodAccepts stod accepted)
    (t : Str) :
    (numberOf stod t).isSome = true
      ↔ NumberText t ∧ (∃ c ∈ t, c.isDigit = true) ∧ accepted (decimalValue t) := by
  rw [numberOf]
  by_cases ht : NumberText t
  · by_cases hne : t = []
    · subst hne
      simp
    · rw [if_pos ⟨(numberChars_iff t).mpr ht, hne⟩, hstod t ht]
      simp [ht]
  · rw [if_neg (fun h => ht ((numberChars_iff t).mp h.1))]
    simp [ht]

/-- A word is no number. -/
theorem numberOf_of_word {t : Str} (h : t ∈ trueWords ∨ t ∈ falseWords) :
    numberOf stod t = none := by
  have hword : ∀ w ∈ trueWords ++ falseWords, numberChars true false w = false := by decide
  rw [numberOf, if_neg]
  rw [hword t (List.mem_append.mpr h)]
  exact fun h => Bool.false_ne_true h.1

variable (stod) in
/-- The three kinds of value, told apart by the text. -/
theorem scalarValue_kinds (s : Str) :
    (trim s ∈ trueWords ∧ scalarValue stod s = .boolean true)
    ∨ (trim s ∈ falseWords ∧ trim s ∉ trueWords ∧ scalarValue stod s = .boolean false)
    ∨ (trim s ∉ trueWords ++ falseWords
        ∧ ∃ num, numberOf stod (trim s) = some num ∧ scalarValue stod s = .number num)
    ∨ (trim s ∉ trueWords ++ falseWords ∧ numberOf stod (trim s) = none
        ∧ scalarValue stod s = .string (unquote (trim s))) := by
  by_cases htrue : trim s ∈ trueWords
  · exact Or.inl ⟨htrue, scalarValue_of_trueWord stod htrue⟩
  · by_cases hfalse : trim s ∈ falseWords
    · exact Or.inr (Or.inl ⟨hfalse, htrue, scalarValue_of_falseWord stod hfalse⟩)
    · have hno : trim s ∉ trueWords ++ falseWords := by
        rw [List.mem_append]
        exact not_or.mpr ⟨htrue, hfalse⟩
      have hvalue := scalarValue_of_no_word stod htrue hfalse
      cases hnum : numberOf stod (trim s) with
      | some num =>
          rw [hnum] at hvalue
          exact Or.inr (Or.inr (Or.inl ⟨hno, num, rfl, hvalue⟩))
      | none =>
          rw [hnum] at hvalue
          exact Or.inr (Or.inr (Or.inr ⟨hno, rfl, hvalue⟩))

/-- **`parse_scalar`** on every text: a boolean for six words, a number for
    what the grammar has and `std::stod` accepts, and else the trimmed text
    without one pair of quotes around it. -/
theorem parseScalar_correct (accepted : Rat → Prop) (hstod : StodAccepts stod accepted)
    (s : Str) :
    ∃ v, parseScalar stod s = .ok v
      ∧ (v = .boolean true ↔ trim s ∈ trueWords)
      ∧ (v = .boolean false ↔ trim s ∈ falseWords)
      ∧ ((∃ num, v = .number num)
          ↔ NumberText (trim s) ∧ (∃ c ∈ trim s, c.isDigit = true)
            ∧ accepted (decimalValue (trim s)))
      ∧ (∀ num, v = .number num → stod (trim s) = some num)
      ∧ ((∀ b, v ≠ .boolean b) → (∀ num, v ≠ .number num) →
          (∀ q inner, q = '"' ∨ q = '\'' → trim s = q :: inner ++ [q] → v = .string inner)
          ∧ ((∀ q, q = '"' ∨ q = '\'' → ∀ inner, trim s ≠ q :: inner ++ [q]) →
              v = .string (trim s))) := by
  refine ⟨scalarValue stod s, rfl, ?_⟩
  have hdisjoint : ∀ w ∈ trueWords, w ∉ falseWords := by decide
  rw [← numberOf_isSome_iff hstod]
  rcases scalarValue_kinds stod s with
    ⟨hword, hvalue⟩ | ⟨hword, htrue, hvalue⟩ | ⟨hno, num, hnum, hvalue⟩ | ⟨hno, hnum, hvalue⟩
  · rw [hvalue, numberOf_of_word (Or.inl hword)]
    refine ⟨by simp [hword], by simp [hdisjoint _ hword], by simp, nofun, ?_⟩
    exact fun hbool => absurd rfl (hbool true)
  · rw [hvalue, numberOf_of_word (Or.inr hword)]
    refine ⟨by simp [htrue], by simp [hword], by simp, nofun, ?_⟩
    exact fun hbool => absurd rfl (hbool false)
  · obtain ⟨htrue, hfalse⟩ := not_or.mp (mt List.mem_append.mpr hno)
    rw [hvalue, hnum]
    refine ⟨by simp [htrue], by simp [hfalse], by simp, ?_, ?_⟩
    · intro n hn
      rw [numberOf] at hnum
      split at hnum
      · rw [hnum, YamlValue.number.inj hn]
      · cases hnum
    · exact fun _ hnumber => absurd rfl (hnumber num)
  · obtain ⟨htrue, hfalse⟩ := not_or.mp (mt List.mem_append.mpr hno)
    rw [hvalue, hnum]
    refine ⟨by simp [htrue], by simp [hfalse], by simp, nofun, fun _ _ => ⟨?_, ?_⟩⟩
    · intro q inner hq heq
      rw [heq, unquote_of_quotes hq]
    · intro hno
      rw [unquote_of_no_quotes hno]

/-- A quoted look-alike stays a string, with a `std::stod` that takes every
    number. -/
theorem parseScalar_correct_quoted_number :
    ∃ v, parseScalar
          (fun t => if t.any Char.isDigit then some (decimalValue t) else none)
          " \"-1.5\" ".toList = .ok v
      ∧ v = .string "-1.5".toList := by
  have hstod : StodAccepts
      (fun t => if t.any Char.isDigit then some (decimalValue t) else none)
      (fun _ => True) := by
    intro t _
    by_cases h : t.any Char.isDigit = true
    · simp only [if_pos h]
      simpa using h
    · simp only [if_neg h]
      simpa using h
  obtain ⟨v, hv, htrue, hfalse, hnumber, -, hstring⟩ :=
    parseScalar_correct (fun _ => True) hstod " \"-1.5\" ".toList
  have hnonumber : ¬ NumberText (trim " \"-1.5\" ".toList) := by
    rw [← numberChars_iff]
    decide
  refine ⟨v, hv, (hstring ?_ ?_).1 '"' "-1.5".toList (Or.inl rfl) (by decide)⟩
  · rintro (_ | _) heq
    · exact absurd (hfalse.mp heq) (by decide)
    · exact absurd (htrue.mp heq) (by decide)
  · exact fun num heq => hnonumber (hnumber.mp ⟨num, heq⟩).1

end Scalars

end LaunchCpp.Yaml
