import Mathlib.Data.List.Basic
import Mathlib.Data.List.TakeWhile
import Mathlib.Algebra.Ring.Int.Defs
import Mathlib.Algebra.Ring.Nat

/-! # Formatted input

    `std::istream >> x` for strings, characters and 64-bit integers, in the C
    locale.  An extraction skips white space, reads as much as belongs to its
    type and leaves the rest; one that fails sets `failbit`, and every later
    one fails as well, so that a chain of them is a `do` block in `Reader`.

    Two views of a chain: it reads back what `decimal` has written
    (`readLong_decimal`, `readUnsignedLong_decimal`), and it does not get past
    a character that belongs to none of its extractions (`StopsAt`). -/

namespace FormattedInput

variable {α β : Type}

/-- White space in the C locale. -/
def isSpace (c : Char) : Bool :=
  c = ' ' || c = '\t' || c = '\n' || c = '\x0b' || c = '\x0c' || c = '\r'

/-- Extractions: the value and the rest of the text, or `failbit`. -/
abbrev Reader := StateT (List Char) Option

def skipSpace (s : List Char) : List Char := s.dropWhile isSpace

/-- `>>` into a string. -/
def readWord : Reader (List Char) := fun s =>
  let word := (skipSpace s).takeWhile (fun c => !isSpace c)
  if word = [] then none
  else some (word, (skipSpace s).dropWhile (fun c => !isSpace c))

/-- `>>` into a `char`. -/
def readChar : Reader Char := fun s =>
  match skipSpace s with
  | [] => none
  | c :: s => some (c, s)

/-- A sign, where there is one; a minus is `true`. -/
def takeSign : List Char → Bool × List Char
  | '-' :: s => (true, s)
  | '+' :: s => (false, s)
  | s => (false, s)

/-- The sign and the digits of a number. -/
def readDigits : Reader (Bool × Nat) := fun s =>
  let (negative, s) := takeSign (skipSpace s)
  let digits := s.takeWhile Char.isDigit
  if digits = [] then none
  else some ((negative, Nat.ofDigitChars 10 digits 0), s.dropWhile Char.isDigit)

/-- The number as a `long`, where it is one. -/
def toLong (r : Bool × Nat) : Option Int :=
  let value : Int := if r.1 then -r.2 else r.2
  if -2 ^ 63 ≤ value ∧ value < 2 ^ 63 then some value else none

/-- The number as an `unsigned long`; a minus negates it there. -/
def toUnsignedLong (r : Bool × Nat) : Option UInt64 :=
  if r.2 < 2 ^ 64 then some (if r.1 then -UInt64.ofNat r.2 else UInt64.ofNat r.2) else none

/-- An extraction fails when its value has no conversion. -/
def convert (f : Reader α) (g : α → Option β) : Reader β := fun s =>
  match f s with
  | none => none
  | some (a, rest) => (g a).map (fun b => (b, rest))

/-- `>>` into a `long`. -/
def readLong : Reader Int := convert readDigits toLong

/-- `>>` into an `unsigned long`. -/
def readUnsignedLong : Reader UInt64 := convert readDigits toUnsignedLong

/-! ## Chains of extractions -/

/-- A reader that has read hands on what is left. -/
theorem bind_eq {f : Reader α} {k : α → Reader β} {s s' : List Char} {a : α}
    (h : f s = some (a, s')) : (f >>= k) s = k a s' := by
  show (f s).bind (fun r => k r.1 r.2) = _
  rw [h]
  rfl

/-- A reader that fails ends the whole. -/
theorem bind_none {f : Reader α} {k : α → Reader β} {s : List Char} (h : f s = none) :
    (f >>= k) s = none := by
  show (f s).bind (fun r => k r.1 r.2) = _
  rw [h]
  rfl

/-- What is read in front of the character, and whether it is, does not depend
    on the text from the character on. -/
def StopsAt (c : Char) (f : Reader α) : Prop :=
  ∀ x, ∃ o : Option (α × List Char), ∀ t,
    f (x ++ c :: t) = o.map (fun r => (r.1, r.2 ++ c :: t))

section StopsAt

variable {c : Char}

/-- A reader that reads nothing stops in front of everything. -/
theorem stopsAt_pure (a : α) : StopsAt c (pure a : Reader α) :=
  fun x => ⟨some (a, x), fun _ => rfl⟩

/-- Two readers that stop in front of a character stop there together. -/
theorem StopsAt.bind {f : Reader α} {k : α → Reader β} (hf : StopsAt c f)
    (hk : ∀ a, StopsAt c (k a)) : StopsAt c (f >>= k) := by
  intro x
  obtain ⟨o, ho⟩ := hf x
  cases o with
  | none =>
      exact ⟨none, fun t => bind_none (ho t)⟩
  | some r =>
      obtain ⟨o', ho'⟩ := hk r.1 r.2
      refine ⟨o', fun t => ?_⟩
      rw [bind_eq (ho t)]
      exact ho' t

/-- Converting what was read reads no further. -/
theorem StopsAt.convert {f : Reader α} {g : α → Option β} (hf : StopsAt c f) :
    StopsAt c (convert f g) := by
  intro x
  obtain ⟨o, ho⟩ := hf x
  cases o with
  | none =>
      refine ⟨none, fun t => ?_⟩
      rw [FormattedInput.convert, ho t]
      rfl
  | some r =>
      refine ⟨(g r.1).map (fun b => (b, r.2)), fun t => ?_⟩
      rw [FormattedInput.convert, ho t, Option.map_map]
      rfl

/-- Only the text in front of the character decides what is read. -/
theorem StopsAt.blind {f : Reader α} (hf : StopsAt c f) (x t t' : List Char) :
    (f (x ++ c :: t)).map Prod.fst = (f (x ++ c :: t')).map Prod.fst := by
  obtain ⟨o, ho⟩ := hf x
  rw [ho t, ho t', Option.map_map, Option.map_map]
  rfl

/-- What is taken in front of a character that stops it does not depend on what
    is behind. -/
theorem takeWhile_stop {p : Char → Bool} (hc : p c = false) (x t : List Char) :
    (x ++ c :: t).takeWhile p = x.takeWhile p := by
  induction x with
  | nil => rw [List.nil_append, List.takeWhile_cons, hc]; rfl
  | cons d x ih =>
      rw [List.cons_append, List.takeWhile_cons, List.takeWhile_cons, ih]

/-- Nor does what is dropped. -/
theorem dropWhile_stop {p : Char → Bool} (hc : p c = false) (x t : List Char) :
    (x ++ c :: t).dropWhile p = x.dropWhile p ++ c :: t := by
  induction x with
  | nil => rw [List.nil_append, List.dropWhile_cons, hc]; rfl
  | cons d x ih =>
      rw [List.cons_append, List.dropWhile_cons, List.dropWhile_cons, ih]
      split <;> rfl

/-- A sign is read without looking further. -/
theorem takeSign_stop (hminus : c ≠ '-') (hplus : c ≠ '+') (x t : List Char) :
    takeSign (x ++ c :: t) = ((takeSign x).1, (takeSign x).2 ++ c :: t) := by
  cases x with
  | nil =>
      rw [List.nil_append, takeSign]
      · rfl
      · exact fun s h => hminus (List.cons.inj h).1
      · exact fun s h => hplus (List.cons.inj h).1
  | cons d x =>
      rw [List.cons_append]
      by_cases hd : d = '-'
      · subst hd
        rfl
      by_cases hd' : d = '+'
      · subst hd'
        rfl
      have hnone : ∀ s, takeSign (d :: s) = (false, d :: s) := by
        intro s
        rw [takeSign]
        · exact fun s h => hd (List.cons.inj h).1
        · exact fun s h => hd' (List.cons.inj h).1
      rw [hnone, hnone]
      rfl

/-- A number ends in front of a character that is no part of one. -/
theorem stopsAt_readDigits (hspace : isSpace c = false) (hdigit : c.isDigit = false)
    (hminus : c ≠ '-') (hplus : c ≠ '+') : StopsAt c readDigits := by
  intro x
  refine ⟨readDigits x, fun t => ?_⟩
  rw [readDigits, readDigits, skipSpace, dropWhile_stop hspace, takeSign_stop hminus hplus]
  show (if ((takeSign (x.dropWhile isSpace)).2 ++ c :: t).takeWhile Char.isDigit = [] then _
    else _) = _
  rw [takeWhile_stop hdigit, dropWhile_stop hdigit]
  show _ = (if (takeSign (x.dropWhile isSpace)).2.takeWhile Char.isDigit = [] then _
    else _ : Option _).map _
  split <;> rfl

/-- A signed number ends in front of anything that is not part of one. -/
theorem stopsAt_readLong (hspace : isSpace c = false) (hdigit : c.isDigit = false)
    (hminus : c ≠ '-') (hplus : c ≠ '+') : StopsAt c readLong :=
  (stopsAt_readDigits hspace hdigit hminus hplus).convert

/-- So does an unsigned one. -/
theorem stopsAt_readUnsignedLong (hspace : isSpace c = false) (hdigit : c.isDigit = false)
    (hminus : c ≠ '-') (hplus : c ≠ '+') : StopsAt c readUnsignedLong :=
  (stopsAt_readDigits hspace hdigit hminus hplus).convert

end StopsAt

/-! ## Words and characters -/

/-- White space is skipped up to the first other character. -/
theorem skipSpace_append {c : Char} {spaces : List Char} (hspaces : ∀ d ∈ spaces, isSpace d = true)
    (hc : isSpace c = false) (s : List Char) : skipSpace (spaces ++ c :: s) = c :: s := by
  rw [skipSpace, List.dropWhile_append_of_pos hspaces, List.dropWhile_cons, hc]
  rfl

/-- A word ends at white space. -/
theorem readWord_space {c d : Char} {word : List Char} (hc : isSpace c = true)
    (hd : isSpace d = true) (hword : ∀ e ∈ word, isSpace e = false) (hne : word ≠ [])
    (s : List Char) : readWord (c :: (word ++ d :: s)) = some (word, d :: s) := by
  have hskip : skipSpace (c :: (word ++ d :: s)) = word ++ d :: s := by
    obtain ⟨e, word, rfl⟩ := List.exists_cons_of_ne_nil hne
    have hspaces : ∀ e ∈ [c], isSpace e = true := List.forall_mem_singleton.mpr hc
    exact skipSpace_append hspaces (hword e List.mem_cons_self) _
  have hall : ∀ e ∈ word, (!isSpace e) = true := fun e he => by rw [hword e he]; rfl
  rw [readWord, hskip, List.takeWhile_append_of_pos hall, List.dropWhile_append_of_pos hall,
    List.takeWhile_cons, List.dropWhile_cons, hd]
  show (if word ++ [] = [] then none else some (word ++ [], d :: s)) = _
  rw [List.append_nil, if_neg hne]

/-- A word with nothing in front of it, up to white space or the end. -/
theorem readWord_append {word rest : List Char} (hword : ∀ e ∈ word, isSpace e = false)
    (hne : word ≠ []) (hrest : ∀ c ∈ rest.head?, isSpace c = true) :
    readWord (word ++ rest) = some (word, rest) := by
  have hskip : skipSpace (word ++ rest) = word ++ rest := by
    obtain ⟨e, word, rfl⟩ := List.exists_cons_of_ne_nil hne
    exact skipSpace_append (List.forall_mem_nil _) (hword e List.mem_cons_self) _
  have hall : ∀ e ∈ word, (!isSpace e) = true := fun e he => by rw [hword e he]; rfl
  rw [readWord, hskip, List.takeWhile_append_of_pos hall, List.dropWhile_append_of_pos hall]
  cases rest with
  | nil =>
      show (if word ++ [] = [] then none else some (word ++ [], [])) = _
      rw [List.append_nil, if_neg hne]
  | cons c rest =>
      have hc : isSpace c = true := hrest c rfl
      rw [List.takeWhile_cons, List.dropWhile_cons, hc]
      show (if word ++ [] = [] then none else some (word ++ [], c :: rest)) = _
      rw [List.append_nil, if_neg hne]

/-- The first character behind white space. -/
theorem readChar_space {c : Char} {spaces : List Char} (hspaces : ∀ d ∈ spaces, isSpace d = true)
    (hc : isSpace c = false) (s : List Char) : readChar (spaces ++ c :: s) = some (c, s) := by
  rw [readChar, skipSpace_append hspaces hc]

/-- What begins with another character is no number. -/
theorem readLong_other {c : Char} {spaces : List Char} (hspaces : ∀ d ∈ spaces, isSpace d = true)
    (hspace : isSpace c = false) (hdigit : c.isDigit = false) (hminus : c ≠ '-')
    (hplus : c ≠ '+') (s : List Char) : readLong (spaces ++ c :: s) = none := by
  have hsign : takeSign (c :: s) = (false, c :: s) := takeSign_stop hminus hplus [] s
  have hdigits : readDigits (spaces ++ c :: s) = none := by
    rw [readDigits, skipSpace_append hspaces hspace, hsign]
    show (if (c :: s).takeWhile Char.isDigit = [] then _ else _) = _
    rw [List.takeWhile_cons, hdigit]
    rfl
  rw [readLong, convert, hdigits]

/-! ## Reading what was written -/

/-- A number in decimal. -/
def decimal (n : Int) : List Char :=
  if n < 0 then '-' :: Nat.toDigits 10 n.natAbs else Nat.toDigits 10 n.natAbs

/-- Numbers, each behind a space. -/
def fields (ns : List Int) : List Char := ns.flatMap (fun n => ' ' :: decimal n)

/-- Only digits and a minus are written. -/
theorem not_mem_decimal {c : Char} (hdigit : c.isDigit = false) (hminus : c ≠ '-') (n : Int) :
    c ∉ decimal n := by
  have hdigits : c ∉ Nat.toDigits 10 n.natAbs := by
    intro hc
    have := Nat.isDigit_of_mem_toDigits (by decide) (by decide) hc
    rw [hdigit] at this
    cases this
  rw [decimal]
  split
  · rw [List.mem_cons]
    exact not_or.mpr ⟨hminus, hdigits⟩
  · exact hdigits

/-- A number stays on its line. -/
theorem newline_not_mem_decimal (n : Int) : '\n' ∉ decimal n :=
  not_mem_decimal (by decide) (by decide) n

/-- So does a row of numbers. -/
theorem newline_not_mem_fields (ns : List Int) : '\n' ∉ fields ns := by
  rw [fields, List.mem_flatMap]
  rintro ⟨n, -, hn⟩
  rcases List.mem_cons.mp hn with h | h
  · cases h
  · exact newline_not_mem_decimal n h

/-- No digit continues a number in front of the text. -/
def Ended (s : List Char) : Prop := ∀ c ∈ s.head?, c.isDigit = false

/-- A row of numbers begins with a blank, or is empty. -/
theorem ended_fields (ns : List Int) : Ended (fields ns) := by
  cases ns with
  | nil =>
      intro c hc
      cases hc
  | cons n ns =>
      intro c hc
      obtain rfl := Option.some.inj hc
      decide

/-- Digits and what ends them. -/
theorem takeWhile_digits {ds s : List Char} (hds : ∀ c ∈ ds, c.isDigit = true) (hs : Ended s) :
    (ds ++ s).takeWhile Char.isDigit = ds ∧ (ds ++ s).dropWhile Char.isDigit = s := by
  rw [List.takeWhile_append_of_pos hds, List.dropWhile_append_of_pos hds]
  cases s with
  | nil => exact ⟨List.append_nil ds, rfl⟩
  | cons c s =>
      have hc : c.isDigit = false := hs c rfl
      rw [List.takeWhile_cons, List.dropWhile_cons, hc]
      exact ⟨List.append_nil ds, rfl⟩

/-- White space is no digit. -/
theorem isDigit_of_isSpace {c : Char} (hc : isSpace c = true) : c.isDigit = false := by
  simp only [isSpace, Bool.or_eq_true, decide_eq_true_eq] at hc
  rcases hc with ((((rfl | rfl) | rfl) | rfl) | rfl) | rfl <;> decide

/-- White space in front of a number is skipped. -/
theorem readDigits_space {c : Char} (hc : isSpace c = true) (s : List Char) :
    readDigits (c :: s) = readDigits s := by
  rw [readDigits, readDigits, skipSpace, List.dropWhile_cons, hc]
  rfl

/-- **Digits are read as the number they write**, behind their sign. -/
theorem readDigits_of_sign {x : List Char} {negative : Bool} {ds s : List Char}
    (hsign : takeSign (skipSpace x) = (negative, ds ++ s)) (hne : ds ≠ [])
    (hds : ∀ c ∈ ds, c.isDigit = true) (hs : Ended s) :
    readDigits x = some ((negative, Nat.ofDigitChars 10 ds 0), s) := by
  obtain ⟨htake, hdrop⟩ := takeWhile_digits hds hs
  rw [readDigits, hsign]
  show (if (ds ++ s).takeWhile Char.isDigit = [] then _ else _) = _
  rw [htake, hdrop, if_neg hne]

/-- A digit is neither white space nor a sign. -/
theorem takeSign_digits {ds : List Char} (hne : ds ≠ []) (hds : ∀ c ∈ ds, c.isDigit = true)
    (s : List Char) : takeSign (skipSpace (ds ++ s)) = (false, ds ++ s) := by
  obtain ⟨d, ds, rfl⟩ := List.exists_cons_of_ne_nil hne
  have hd : d.isDigit = true := hds d List.mem_cons_self
  have hspace : isSpace d = false := by
    refine Bool.eq_false_iff.mpr (fun h => ?_)
    rw [isDigit_of_isSpace h] at hd
    cases hd
  rw [List.cons_append, skipSpace, List.dropWhile_cons, hspace]
  show takeSign (d :: (ds ++ s)) = _
  rw [takeSign]
  · rintro t h
    obtain rfl := (List.cons.inj h).1
    cases hd
  · rintro t h
    obtain rfl := (List.cons.inj h).1
    cases hd

/-- A number that is written is read back, with its sign. -/
theorem readDigits_decimal (n : Int) {s : List Char} (hs : Ended s) :
    readDigits (decimal n ++ s) = some ((decide (n < 0), n.natAbs), s) := by
  have hne : Nat.toDigits 10 n.natAbs ≠ [] := Nat.toDigits_ne_nil
  have hds : ∀ c ∈ Nat.toDigits 10 n.natAbs, c.isDigit = true :=
    fun c hc => Nat.isDigit_of_mem_toDigits (by decide) (by decide) hc
  rw [decimal]
  by_cases hn : n < 0
  · rw [if_pos hn, List.cons_append, decide_eq_true hn]
    have hsign : takeSign (skipSpace ('-' :: (Nat.toDigits 10 n.natAbs ++ s)))
        = (true, Nat.toDigits 10 n.natAbs ++ s) := rfl
    rw [readDigits_of_sign hsign hne hds hs, Nat.ofDigitChars_ten_toDigits]
  · rw [if_neg hn, decide_eq_false hn]
    rw [readDigits_of_sign (takeSign_digits hne hds s) hne hds hs, Nat.ofDigitChars_ten_toDigits]

/-- A conversion that succeeds. -/
theorem convert_eq {f : Reader α} {g : α → Option β} {s rest : List Char} {a : α} {b : β}
    (hf : f s = some (a, rest)) (hg : g a = some b) : convert f g s = some (b, rest) := by
  rw [convert, hf]
  show (g a).map _ = _
  rw [hg]
  rfl

/-- **A `long` reads back what was written.** -/
theorem readLong_decimal {n : Int} (hlow : -2 ^ 63 ≤ n) (hhigh : n < 2 ^ 63) {s : List Char}
    (hs : Ended s) : readLong (decimal n ++ s) = some (n, s) := by
  refine convert_eq (readDigits_decimal n hs) ?_
  have hvalue : (if decide (n < 0) = true then -(n.natAbs : Int) else n.natAbs) = n := by
    by_cases hn : n < 0
    · rw [if_pos (decide_eq_true hn)]
      omega
    · rw [if_neg (by simpa using hn)]
      omega
  rw [toLong, hvalue, if_pos ⟨hlow, hhigh⟩]

/-- **So does an `unsigned long`.** -/
theorem readUnsignedLong_decimal (n : UInt64) {s : List Char} (hs : Ended s) :
    readUnsignedLong (decimal (n.toNat : Int) ++ s) = some (n, s) := by
  refine convert_eq (readDigits_decimal _ hs) ?_
  have hsign : decide ((n.toNat : Int) < 0) = false := decide_eq_false (by omega)
  rw [toUnsignedLong, hsign, Int.natAbs_natCast, if_pos n.toNat_lt]
  exact congrArg some (UInt64.ofNat_toNat)

/-- White space in front of a number is skipped. -/
theorem readLong_space {c : Char} (hc : isSpace c = true) (s : List Char) :
    readLong (c :: s) = readLong s := by
  rw [readLong, convert, convert, readDigits_space hc]

/-- In front of an unsigned one, too. -/
theorem readUnsignedLong_space {c : Char} (hc : isSpace c = true) (s : List Char) :
    readUnsignedLong (c :: s) = readUnsignedLong s := by
  rw [readUnsignedLong, convert, convert, readDigits_space hc]

/-- However much of it there is. -/
theorem readUnsignedLong_spaces {spaces : List Char} (hspaces : ∀ c ∈ spaces, isSpace c = true)
    (s : List Char) : readUnsignedLong (spaces ++ s) = readUnsignedLong s := by
  induction spaces with
  | nil => rfl
  | cons c spaces ih =>
      obtain ⟨hc, hspaces⟩ := List.forall_mem_cons.mp hspaces
      rw [List.cons_append, readUnsignedLong_space hc, ih hspaces]

/-- The first of several numbers. -/
theorem readLong_fields {n : Int} (hlow : -2 ^ 63 ≤ n) (hhigh : n < 2 ^ 63) (ns : List Int) :
    readLong (fields (n :: ns)) = some (n, fields ns) := by
  show readLong (' ' :: (decimal n ++ fields ns)) = _
  rw [readLong_space (by decide), readLong_decimal hlow hhigh (ended_fields ns)]

/-- The first of a row of numbers. -/
theorem readUnsignedLong_fields (n : UInt64) (ns : List Int) :
    readUnsignedLong (fields ((n.toNat : Int) :: ns)) = some (n, fields ns) := by
  show readUnsignedLong (' ' :: (decimal (n.toNat : Int) ++ fields ns)) = _
  rw [readUnsignedLong_space (by decide), readUnsignedLong_decimal n (ended_fields ns)]

end FormattedInput
