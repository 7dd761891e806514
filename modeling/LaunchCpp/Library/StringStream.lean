import Mathlib.Data.List.Basic
import Mathlib.Data.List.TakeWhile

/-! # `std::istringstream`, read by lines

    A string stream with its buffer, its get position and the two state bits
    a line reader meets.  `getline`, `tellg` and the two forms of `seekg`
    follow the standard library: every one of them fails on a stream that is
    not good, `seekg` first clears `eofbit`, and a last line without newline
    leaves `eofbit` behind.

    What a program that only reads lines can see of a stream is `lines`, the
    lines still to come.  The file states each operation on it, the putting
    back of a line just read included: there the missing last newline shows
    up as an empty line in front (`seekgCur_back`). -/

namespace StringStreams

/-- A character in front of the first line. -/
def consLine (c : Char) : List (List Char) → List (List Char)
  | [] => [[c]]
  | l :: ls => (c :: l) :: ls

/-- The lines of a text; a final newline ends the last line. -/
def linesOf : List Char → List (List Char)
  | [] => []
  | c :: cs => if c = '\n' then [] :: linesOf cs else consLine c (linesOf cs)

/-- A string stream. -/
structure IStringStream where
  buf : List Char
  pos : Nat
  eofbit : Bool
  failbit : Bool

namespace IStringStream

/-- A stream just constructed. -/
def ofString (content : List Char) : IStringStream := ⟨content, 0, false, false⟩

/-- `good()`. -/
def good (s : IStringStream) : Bool := !s.eofbit && !s.failbit

/-- `std::getline`: the line, or nothing when the stream has failed. -/
def getline (s : IStringStream) : Option (List Char) × IStringStream :=
  if s.good then
    let rest := s.buf.drop s.pos
    let line := rest.takeWhile (· ≠ '\n')
    -- nothing extracted: the end of the text fails the stream
    if rest = [] then (none, { s with eofbit := true, failbit := true })
    else if line.length < rest.length then
      (some line, { s with pos := s.pos + line.length + 1 })
    -- no newline in front of the end: the line counts, and the end is noted
    else (some line, { s with pos := s.pos + line.length, eofbit := true })
  else (none, { s with failbit := true })

/-- `tellg()`; -1 is `none`. -/
def tellg (s : IStringStream) : Option Nat × IStringStream :=
  if s.good then (some s.pos, s) else (none, { s with failbit := true })

/-- `seekg(pos)`. -/
def seekg (pos : Option Nat) (s : IStringStream) : IStringStream :=
  if s.failbit then { s with eofbit := false }
  else
    match pos with
    | none => { s with eofbit := false, failbit := true }
    | some p =>
        if p ≤ s.buf.length then { s with pos := p, eofbit := false }
        else { s with eofbit := false, failbit := true }

/-- `seekg(off, std::ios::cur)`. -/
def seekgCur (off : Int) (s : IStringStream) : IStringStream :=
  if s.pos + off < 0 then s.seekg none else s.seekg (some (s.pos + off).toNat)

/-- The lines a reader of the stream still gets. -/
def lines (s : IStringStream) : List (List Char) :=
  if s.good then linesOf (s.buf.drop s.pos) else []

/-- Where the line readers of a stream leave it: failed, at the end, behind a
    newline, or before one. -/
def Behind (s : IStringStream) : Prop :=
  s.good = false ∨ (∃ p, s.pos = p + 1 ∧ s.buf[p]? = some '\n')
    ∨ s.buf[s.pos]? = some '\n'

end IStringStream

/-! ## Texts and their lines -/

@[simp] theorem linesOf_nil : linesOf [] = [] := rfl

/-- A line in front of a text. -/
theorem linesOf_append_newline {l : List Char} (h : '\n' ∉ l) (cs : List Char) :
    linesOf (l ++ '\n' :: cs) = l :: linesOf cs := by
  induction l with
  | nil => simp [linesOf]
  | cons c l ih =>
      have hc : c ≠ '\n' := fun heq => h (heq ▸ List.mem_cons_self)
      have hl := ih (fun hm => h (List.mem_cons_of_mem _ hm))
      rw [List.cons_append, linesOf, if_neg hc, hl, consLine]

/-- A last line without newline. -/
theorem linesOf_of_no_newline {l : List Char} (h : '\n' ∉ l) (hne : l ≠ []) :
    linesOf l = [l] := by
  induction l with
  | nil => exact absurd rfl hne
  | cons c l ih =>
      have hc : c ≠ '\n' := fun heq => h (heq ▸ List.mem_cons_self)
      rw [linesOf, if_neg hc]
      by_cases hl : l = []
      · rw [hl]
        rfl
      · rw [ih (fun hm => h (List.mem_cons_of_mem _ hm)) hl, consLine]

/-- Only the empty text has no line. -/
theorem linesOf_eq_nil_iff {cs : List Char} : linesOf cs = [] ↔ cs = [] := by
  constructor
  · intro h
    cases cs with
    | nil => rfl
    | cons c cs =>
        rw [linesOf] at h
        by_cases hc : c = '\n'
        · rw [if_pos hc] at h
          cases h
        · rw [if_neg hc] at h
          cases hls : linesOf cs with
          | nil => rw [hls] at h; cases h
          | cons x xs => rw [hls] at h; cases h
  · rintro rfl
    rfl

/-- A character in front belongs to the first line. -/
theorem consLine_append (c : Char) {ls : List (List Char)} (h : ls ≠ [])
    (rs : List (List Char)) : consLine c (ls ++ rs) = consLine c ls ++ rs := by
  obtain ⟨l, ls, rfl⟩ := List.exists_cons_of_ne_nil h
  rfl

/-- A text cut at a line boundary. -/
theorem linesOf_append {t₁ : List Char} (h : t₁ = [] ∨ t₁.getLast? = some '\n')
    (t₂ : List Char) : linesOf (t₁ ++ t₂) = linesOf t₁ ++ linesOf t₂ := by
  induction t₁ with
  | nil => rfl
  | cons c cs ih =>
      rw [List.cons_append, linesOf, linesOf]
      by_cases hcs : cs = []
      · subst hcs
        have hc : c = '\n' := by simpa using h
        rw [if_pos hc, if_pos hc]
        rfl
      · have hlast : cs.getLast? = some '\n' := by
          rw [← List.getLast?_cons_of_ne_nil (x := c) hcs]
          exact h.resolve_left (List.cons_ne_nil c cs)
        rw [ih (Or.inr hlast)]
        by_cases hc : c = '\n'
        · rw [if_pos hc, if_pos hc]
          rfl
        · rw [if_neg hc, if_neg hc]
          exact consLine_append c (mt linesOf_eq_nil_iff.mp hcs) _

/-- The first line of a text was ended by a newline or by the end. -/
theorem linesOf_cases {cs l : List Char} {ls : List (List Char)}
    (h : linesOf cs = l :: ls) :
    '\n' ∉ l ∧ ((∃ cs', cs = l ++ '\n' :: cs' ∧ ls = linesOf cs')
      ∨ (cs = l ∧ l ≠ [] ∧ ls = [])) := by
  induction cs generalizing l ls with
  | nil => cases h
  | cons c cs ih =>
      rw [linesOf] at h
      by_cases hc : c = '\n'
      · rw [if_pos hc] at h
        obtain ⟨rfl, rfl⟩ := List.cons.inj h
        exact ⟨List.not_mem_nil, Or.inl ⟨cs, by rw [hc]; rfl, rfl⟩⟩
      · rw [if_neg hc] at h
        have hcn : ¬ '\n' = c := fun heq => hc heq.symm
        cases hls : linesOf cs with
        | nil =>
            have hcs : cs = [] := linesOf_eq_nil_iff.mp hls
            rw [hls, consLine] at h
            obtain ⟨rfl, rfl⟩ := List.cons.inj h
            exact ⟨by simpa using hcn, Or.inr ⟨by rw [hcs], by simp, rfl⟩⟩
        | cons x xs =>
            rw [hls, consLine] at h
            obtain ⟨rfl, rfl⟩ := List.cons.inj h
            obtain ⟨hno, hend⟩ := ih hls
            refine ⟨by simpa [hcn] using hno, ?_⟩
            rcases hend with ⟨cs', rfl, hxs⟩ | ⟨rfl, -, hxs⟩
            · exact Or.inl ⟨cs', rfl, hxs⟩
            · exact Or.inr ⟨rfl, by simp, hxs⟩

/-- Every line ended by a newline. -/
def unlines (ls : List (List Char)) : List Char := ls.flatMap (· ++ ['\n'])

/-- Written lines are read back, and then the rest. -/
theorem linesOf_unlines_append {ls : List (List Char)} (h : ∀ l ∈ ls, '\n' ∉ l)
    (cs : List Char) : linesOf (unlines ls ++ cs) = ls ++ linesOf cs := by
  induction ls with
  | nil => rfl
  | cons l ls ih =>
      have hrest := ih (fun x hx => h x (List.mem_cons_of_mem _ hx))
      show linesOf ((l ++ ['\n']) ++ unlines ls ++ cs) = _
      rw [List.append_assoc, List.append_assoc, List.singleton_append,
        linesOf_append_newline (h l List.mem_cons_self), hrest]
      rfl

/-- **What is written line by line is read line by line.** -/
theorem linesOf_unlines {ls : List (List Char)} (h : ∀ l ∈ ls, '\n' ∉ l) :
    linesOf (unlines ls) = ls := by
  have := linesOf_unlines_append h []
  simpa using this

/-- The newline of a last line that is not empty may be missing. -/
theorem linesOf_unlines_dropLast {ls : List (List Char)}
    (h : ∀ l ∈ ls, l ≠ [] ∧ '\n' ∉ l) : linesOf (unlines ls).dropLast = ls := by
  rcases List.eq_nil_or_concat ls with rfl | ⟨init, l, rfl⟩
  · rfl
  · rw [List.concat_eq_append] at h ⊢
    obtain ⟨hne, hno⟩ := h l (by simp)
    have hdrop : (unlines (init ++ [l])).dropLast = unlines init ++ l := by
      have hsplit : unlines (init ++ [l]) = (unlines init ++ l) ++ ['\n'] := by
        simp [unlines]
      rw [hsplit, List.dropLast_concat]
    rw [hdrop, linesOf_unlines_append (fun x hx => (h x (by simp [hx])).2),
      linesOf_of_no_newline hno hne]

/-- The characters of the lines are characters of the text. -/
theorem mem_of_mem_linesOf {cs l : List Char} (hl : l ∈ linesOf cs) {x : Char}
    (hx : x ∈ l) : x ∈ cs := by
  induction cs generalizing l with
  | nil => cases hl
  | cons c cs ih =>
      rw [linesOf] at hl
      by_cases hc : c = '\n'
      · rw [if_pos hc] at hl
        rcases List.mem_cons.mp hl with rfl | hl
        · cases hx
        · exact List.mem_cons_of_mem _ (ih hl hx)
      · rw [if_neg hc] at hl
        cases hls : linesOf cs with
        | nil =>
            rw [hls, consLine, List.mem_singleton] at hl
            rw [hl] at hx
            exact List.mem_cons.mpr (Or.inl (List.mem_singleton.mp hx))
        | cons m ms =>
            rw [hls] at hl ih
            rcases List.mem_cons.mp hl with rfl | hl
            · rcases List.mem_cons.mp hx with rfl | hx
              · exact List.mem_cons_self
              · exact List.mem_cons_of_mem _ (ih List.mem_cons_self hx)
            · exact List.mem_cons_of_mem _ (ih (List.mem_cons_of_mem _ hl) hx)

/-- There are no more lines than characters. -/
theorem length_linesOf_le (cs : List Char) : (linesOf cs).length ≤ cs.length := by
  induction cs with
  | nil => exact le_rfl
  | cons c cs ih =>
      rw [linesOf]
      by_cases hc : c = '\n'
      · rw [if_pos hc]
        simpa using ih
      · rw [if_neg hc]
        cases hls : linesOf cs with
        | nil => simp [consLine]
        | cons l ls =>
            rw [hls] at ih
            simp only [consLine, List.length_cons] at ih ⊢
            omega

/-! ## The operations on `lines` -/

/-- A text is cut at the first stop. -/
theorem takeWhile_cut {α : Type*} [DecidableEq α] {stop : α} {piece : List α}
    (h : stop ∉ piece) (rest : List α) :
    (piece ++ stop :: rest).takeWhile (· ≠ stop) = piece
      ∧ (piece ++ stop :: rest).dropWhile (· ≠ stop) = stop :: rest := by
  have hall : ∀ a ∈ piece, decide (a ≠ stop) = true := by
    intro a ha
    exact decide_eq_true (fun heq => h (heq ▸ ha))
  rw [List.takeWhile_append_of_pos hall, List.dropWhile_append_of_pos hall]
  simp

/-- **Induction along the cuts** of a text: a piece without the stop, or a
    piece, the stop and the rest. -/
@[elab_as_elim]
theorem cut_induction {α : Type*} [DecidableEq α] (stop : α) {P : List α → Prop}
    (piece : ∀ l, stop ∉ l → P l)
    (cut : ∀ l rest, stop ∉ l → P rest → P (l ++ stop :: rest)) (text : List α) : P text := by
  induction hlength : text.length using Nat.strong_induction_on generalizing text with
  | _ n ih =>
      by_cases hstop : stop ∈ text
      · obtain ⟨l, rest, rfl, hno⟩ := List.eq_append_cons_of_mem hstop
        refine cut l rest hno (ih rest.length ?_ rest rfl)
        rw [← hlength, List.length_append, List.length_cons]
        omega
      · exact piece text hstop

namespace IStringStream

variable {s t : IStringStream} {l : List Char} {ls : List (List Char)}

/-- A stream that has failed has no more lines. -/
theorem lines_of_failbit (h : s.failbit = true) : s.lines = [] := by
  rw [lines, good]
  rw [h, Bool.not_true, Bool.and_false]
  rfl

/-- A new stream has all of them. -/
theorem lines_ofString (content : List Char) :
    (ofString content).lines = linesOf content := rfl

/-- A stream that has failed is past everything. -/
theorem behind_of_failbit (h : s.failbit = true) : s.Behind := by
  left
  simp [good, h]

/-- A good stream has no bit set. -/
theorem bits_of_good (h : s.good = true) : s.eofbit = false ∧ s.failbit = false := by
  simpa [good] using h

/-- A stream with lines to come is good, and they are what its buffer holds. -/
theorem good_of_lines_cons (h : s.lines = l :: ls) :
    s.good = true ∧ linesOf (s.buf.drop s.pos) = l :: ls := by
  rw [lines] at h
  by_cases hgood : s.good = true
  · rw [if_pos hgood] at h
    exact ⟨hgood, h⟩
  · rw [if_neg hgood] at h
    cases h

/-- A text without a newline is its own first line. -/
theorem takeWhile_last_line {l : List Char} (h : '\n' ∉ l) :
    l.takeWhile (· ≠ '\n') = l := by
  refine List.takeWhile_eq_self_iff.mpr (fun c hc => ?_)
  simpa using fun heq : c = '\n' => h (heq ▸ hc)

/-- Reading does not change the text. -/
theorem buf_getline (s : IStringStream) : s.getline.2.buf = s.buf := by
  rw [getline]
  by_cases hgood : s.good = true
  · simp only [if_pos hgood]
    by_cases hnil : s.buf.drop s.pos = []
    · rw [if_pos hnil]
    · rw [if_neg hnil]
      split <;> rfl
  · rw [if_neg hgood]

/-- Reading where no line is left fails. -/
theorem getline_of_lines_nil (h : s.lines = []) :
    ∃ s', s.getline = (none, s') ∧ s'.failbit = true := by
  rw [getline]
  by_cases hgood : s.good = true
  · have hnil : s.buf.drop s.pos = [] := by
      rw [lines] at h
      rw [if_pos hgood] at h
      exact linesOf_eq_nil_iff.mp h
    rw [if_pos hgood, if_pos hnil]
    exact ⟨_, rfl, rfl⟩
  · rw [if_neg hgood]
    exact ⟨_, rfl, rfl⟩

/-- Reading a line that ends in a newline. -/
theorem getline_newline (hgood : s.good = true) (hl : '\n' ∉ l) {cs : List Char}
    (h : s.buf.drop s.pos = l ++ '\n' :: cs) :
    s.getline = (some l, { s with pos := s.pos + l.length + 1 }) := by
  rw [getline]
  simp only [if_pos hgood, h, (takeWhile_cut hl cs).1]
  rw [if_neg (by simp), if_pos (by simp)]

/-- Reading a last line without newline. -/
theorem getline_last (hgood : s.good = true) (hl : '\n' ∉ l) (hne : l ≠ [])
    (h : s.buf.drop s.pos = l) :
    s.getline = (some l, { s with pos := s.pos + l.length, eofbit := true }) := by
  rw [getline]
  simp only [if_pos hgood, h, takeWhile_last_line hl]
  rw [if_neg hne, if_neg (lt_irrefl _)]

/-- Behind a line and its newline. -/
theorem drop_drop_line {s : IStringStream} {cs : List Char}
    (h : s.buf.drop s.pos = l ++ '\n' :: cs) :
    s.buf.drop (s.pos + l.length + 1) = cs := by
  have hsplit : s.buf.drop (s.pos + (l.length + 1))
      = (s.buf.drop s.pos).drop (l.length + 1) := (List.drop_drop ..).symm
  rw [Nat.add_assoc, hsplit, h, show l ++ '\n' :: cs = (l ++ ['\n']) ++ cs by simp]
  exact List.drop_left' (by simp)

/-- The newline behind a line. -/
theorem getElem_behind_line {s : IStringStream} {cs : List Char}
    (h : s.buf.drop s.pos = l ++ '\n' :: cs) :
    s.buf[s.pos + l.length]? = some '\n' := by
  rw [← List.getElem?_drop, h]
  simp

/-- **Reading a line** that is there takes it off the lines to come. -/
theorem getline_of_lines_cons (h : s.lines = l :: ls) :
    ∃ s', s.getline = (some l, s') ∧ s'.lines = ls ∧ s'.Behind
      ∧ s'.failbit = false ∧ s'.buf = s.buf := by
  obtain ⟨hgood, hlines⟩ := good_of_lines_cons h
  obtain ⟨heof, hfail⟩ := bits_of_good hgood
  obtain ⟨hno, ⟨cs, hcs, rfl⟩ | ⟨hcs, hne, rfl⟩⟩ := linesOf_cases hlines
  · refine ⟨_, getline_newline hgood hno hcs, ?_, ?_, hfail, rfl⟩
    · rw [lines]
      rw [if_pos (by simpa [good] using ⟨heof, hfail⟩)]
      simp only
      rw [drop_drop_line hcs]
    · exact Or.inr (Or.inl ⟨s.pos + l.length, rfl, getElem_behind_line hcs⟩)
  · refine ⟨_, getline_last hgood hno hne hcs, ?_, Or.inl (by simp [good]), hfail, rfl⟩
    rw [lines]
    rw [if_neg (by simp [good])]

/-- The position of a stream with lines to come can be told. -/
theorem tellg_of_lines_cons (h : s.lines = l :: ls) : s.tellg = (some s.pos, s) := by
  rw [tellg]
  rw [if_pos (good_of_lines_cons h).1]

/-- **Seeking back** to a position told before restores the stream. -/
theorem seekg_told (h : s.lines = l :: ls) (hbuf : t.buf = s.buf)
    (hfail : t.failbit = false) : t.seekg (some s.pos) = s := by
  obtain ⟨hgood, hlines⟩ := good_of_lines_cons h
  obtain ⟨heof, hsfail⟩ := bits_of_good hgood
  have hle : s.pos ≤ t.buf.length := by
    rw [hbuf]
    -- behind the end of the buffer there would be no line to come
    by_contra hgt
    rw [List.drop_eq_nil_of_le (by omega)] at hlines
    cases hlines
  unfold seekg
  rw [if_neg (by simp [hfail])]
  simp only
  rw [if_pos hle]
  obtain ⟨buf, pos, eofbit, failbit⟩ := s
  obtain ⟨buf', pos', eofbit', failbit'⟩ := t
  simp only at hbuf hfail heof hsfail
  subst hbuf hfail heof hsfail
  rfl

/-- Telling the position takes no line off. -/
theorem lines_tellg (s : IStringStream) : s.tellg.2.lines = s.lines := by
  rw [tellg]
  by_cases hgood : s.good = true
  · rw [if_pos hgood]
  · rw [if_neg hgood, lines_of_failbit rfl]
    rw [lines]
    rw [if_neg hgood]

/-- Asking for the position goes nowhere. -/
theorem behind_tellg (h : s.Behind) : s.tellg.2.Behind := by
  rw [tellg]
  by_cases hgood : s.good = true
  · rw [if_pos hgood]
    exact h
  · rw [if_neg hgood]
    exact behind_of_failbit rfl

/-- Nor does it change the text. -/
theorem buf_tellg (s : IStringStream) : s.tellg.2.buf = s.buf := by
  rw [tellg]
  split <;> rfl

/-- Going somewhere does not mend a stream. -/
theorem failbit_seekg {pos : Option Nat} (h : s.failbit = true) :
    (s.seekg pos).failbit = true := by
  unfold seekg
  rw [if_pos h]
  exact h

/-- A position that leads back to a stream, as long as that has lines. -/
def Told (s : IStringStream) (pos : Option Nat) : Prop :=
  ∀ (l : List Char) (ls : List (List Char)) (t : IStringStream),
    s.lines = l :: ls → t.buf = s.buf → t.failbit = false → t.seekg pos = s

/-- What was told is where the stream stands. -/
theorem told_tellg (s : IStringStream) : Told s.tellg.2 s.tellg.1 := by
  intro l ls t h hbuf hfail
  have hs := tellg_of_lines_cons ((lines_tellg s).symm.trans h)
  rw [hs] at hbuf h ⊢
  exact seekg_told h hbuf hfail

/-- **Putting a line back** by its length. Behind a newline the stream is as
    before; at the end of a text without a last newline the position falls on
    the newline before the line, which reads as an empty line. -/
theorem seekgCur_back (hbehind : s.Behind) (h : s.lines = l :: ls) (hne : l ≠ [])
    (hread : s.getline = (some l, t)) :
    (t.seekgCur (-l.length - 1)).Behind ∧
      ((t.seekgCur (-l.length - 1)).lines = l :: ls ∨
        (t.seekgCur (-l.length - 1)).lines = [] :: l :: ls) := by
  obtain ⟨hgood, hlines⟩ := good_of_lines_cons h
  obtain ⟨heof, hfail⟩ := bits_of_good hgood
  obtain ⟨hno, ⟨cs, hcs, rfl⟩ | ⟨hcs, -, rfl⟩⟩ := linesOf_cases hlines
  · rw [getline_newline hgood hno hcs] at hread
    have ht : { s with pos := s.pos + l.length + 1 } = t := (Prod.mk.inj hread).2
    have hseek : t.seekgCur (-l.length - 1) = s := by
      -- the line and its newline are as long as the way back
      rw [seekgCur]
      rw [← ht]
      simp only
      rw [if_neg (by push_cast; omega),
        show ((s.pos + l.length + 1 : Nat) + (-(l.length : Int) - 1)).toNat = s.pos by
          push_cast; omega]
      exact seekg_told h rfl hfail
    rw [hseek]
    exact ⟨hbehind, Or.inl h⟩
  · rw [getline_last hgood hno hne hcs] at hread
    have ht : { s with pos := s.pos + l.length, eofbit := true } = t :=
      (Prod.mk.inj hread).2
    -- what stands before an unfinished line is a newline
    obtain ⟨p, hp, hget⟩ : ∃ p, s.pos = p + 1 ∧ s.buf[p]? = some '\n' := by
      rcases hbehind with hbad | hprev | hat
      · rw [hgood] at hbad
        cases hbad
      · exact hprev
      · have hhead : l.head? = some '\n' := by
          rw [← hcs, List.head?_drop, hat]
        exact absurd (List.mem_of_head? hhead) hno
    have hlt : p < s.buf.length := (List.getElem?_eq_some_iff.mp hget).1
    have hdrop : s.buf.drop p = '\n' :: l := by
      obtain ⟨_, hval⟩ := List.getElem?_eq_some_iff.mp hget
      rw [List.drop_eq_getElem_cons hlt, hval, ← hp, hcs]
    -- there was no newline to step over, so the way back is one too long
    have hseek : t.seekgCur (-l.length - 1) = { s with pos := p } := by
      unfold seekgCur seekg
      rw [← ht]
      simp only
      rw [if_neg (by push_cast; omega),
        show ((s.pos + l.length : Nat) + (-(l.length : Int) - 1)).toNat = p by
          push_cast; omega]
      rw [if_neg (by simp [hfail]), if_pos (by omega), heof]
    rw [hseek]
    refine ⟨Or.inr (Or.inr hget), Or.inr ?_⟩
    rw [lines]
    rw [if_pos (by simpa [good] using ⟨heof, hfail⟩)]
    simp only
    rw [hdrop, linesOf, if_pos rfl, linesOf_of_no_newline hno hne]

end IStringStream

end StringStreams
