import Mathlib.Data.List.Count
import Mathlib.Data.List.Induction

/-! # Lists of registrations

    A list to which every registration is appended, in which an entry may
    stand several times or for nobody, and from which an unregistration takes
    the first of its entries.  `after` is what a sequence of changes leaves.
    Two views of it: by how often an entry stands there (`count_after`), and
    by which of the registrations are left (`after_eq_latest`). -/

namespace Registrations

variable {α : Type*}

/-- What is done to the list. -/
inductive Change (α : Type*) where
  | register (a : α)
  | unregister (a : α)
  | clear

variable [DecidableEq α]

/-- The list after one change. -/
def Change.apply : Change α → List α → List α
  | .register a, l => l ++ [a]
  | .unregister a, l => l.erase a
  | .clear, _ => []

/-- The counter of an entry: registrations raise it, unregistrations lower it
    unless it is zero, and a clear resets it. -/
def Change.tally (a : α) : Change α → Nat → Nat
  | .register b, n => if b = a then n + 1 else n
  | .unregister b, n => if b = a then n - 1 else n
  | .clear, _ => 0

/-- The change registers the entry. -/
def Change.registers (a : α) : Change α → Bool
  | .register b => b = a
  | _ => false

/-- What the change appends. -/
def Change.registered : Change α → List α
  | .register a => [a]
  | .unregister _ => []
  | .clear => []

/-- How often an entry is registered. -/
def registrations (a : α) (cs : List (Change α)) : Nat := cs.countP (Change.registers a)

/-- What a sequence of changes leaves. -/
def after (cs : List (Change α)) : List α := cs.foldl (fun l c => c.apply l) []

/-- Where the counter of an entry ends. -/
def counter (cs : List (Change α)) (a : α) : Nat := cs.foldl (fun n c => c.tally a n) 0

/-- The registrations that are the latest ones: after each of them come fewer
    of the same entry than are kept. -/
def latest (kept : α → Nat) : List (Change α) → List α
  | [] => []
  | .register a :: cs =>
      if registrations a cs < kept a then a :: latest kept cs else latest kept cs
  | .unregister _ :: cs => latest kept cs
  | .clear :: cs => latest kept cs

theorem registrations_register_self (a : α) (cs : List (Change α)) :
    registrations a (.register a :: cs) = registrations a cs + 1 :=
  List.countP_cons_of_pos (decide_eq_true (rfl : a = a))

theorem registrations_register_of_ne {a b : α} (hb : b ≠ a) (cs : List (Change α)) :
    registrations a (.register b :: cs) = registrations a cs :=
  List.countP_cons_of_neg (by simpa [Change.registers] using hb)

theorem registrations_le_cons (a : α) (c : Change α) (cs : List (Change α)) :
    registrations a cs ≤ registrations a (c :: cs) := by
  rw [registrations, registrations, List.countP_cons]
  exact Nat.le_add_right _ _

theorem registrations_concat (a : α) (cs : List (Change α)) (c : Change α) :
    registrations a (cs ++ [c]) = registrations a cs + if c.registers a then 1 else 0 := by
  rw [registrations, List.countP_append, List.countP_singleton]
  rfl

theorem after_concat (cs : List (Change α)) (c : Change α) :
    after (cs ++ [c]) = c.apply (after cs) := by
  rw [after, List.foldl_append]
  rfl

theorem counter_concat (cs : List (Change α)) (c : Change α) (a : α) :
    counter (cs ++ [c]) a = c.tally a (counter cs a) := by
  rw [counter, List.foldl_append]
  rfl

/-- **An entry stands in the list as often as its counter says.** -/
theorem count_after (cs : List (Change α)) (a : α) : (after cs).count a = counter cs a := by
  induction cs using List.reverseRecOn with
  | nil => rfl
  | append_singleton cs c ih =>
      rw [after_concat, counter_concat]
      cases c with
      | register b =>
          rw [Change.apply, Change.tally, List.count_append, ih]
          by_cases hb : b = a
          · rw [if_pos hb, hb, List.count_singleton_self]
          · rw [if_neg hb, List.count_singleton, if_neg (by simpa using hb)]
            rfl
      | unregister b =>
          rw [Change.apply, Change.tally]
          by_cases hb : b = a
          · rw [if_pos hb, hb, List.count_erase_self, ih]
          · rw [if_neg hb, List.count_erase_of_ne (fun h => hb h.symm), ih]
      | clear => rfl

/-- No more are left than were registered. -/
theorem counter_le (cs : List (Change α)) (a : α) : counter cs a ≤ registrations a cs := by
  induction cs using List.reverseRecOn with
  | nil => exact Nat.le_refl 0
  | append_singleton cs c ih =>
      rw [counter_concat, registrations_concat]
      cases c with
      | register b =>
          rw [Change.tally, Change.registers]
          by_cases hb : b = a
          · rw [if_pos hb, if_pos (decide_eq_true hb)]
            omega
          · rw [if_neg hb]
            omega
      | unregister b =>
          rw [Change.tally]
          split <;> omega
      | clear => exact Nat.zero_le _

/-! ## The latest registrations -/

/-- Only the number kept of what is registered matters, and not by how much it
    exceeds the number of registrations. -/
theorem latest_congr {kept kept' : α → Nat} {cs : List (Change α)}
    (h : ∀ b, kept b = kept' b ∨ (registrations b cs ≤ kept b ∧ registrations b cs ≤ kept' b)) :
    latest kept cs = latest kept' cs := by
  induction cs with
  | nil => rfl
  | cons c cs ih =>
      have hrest : latest kept cs = latest kept' cs := by
        refine ih (fun b => (h b).imp id (fun hb => ?_))
        have hcons := registrations_le_cons b c cs
        exact ⟨Nat.le_trans hcons hb.1, Nat.le_trans hcons hb.2⟩
      cases c with
      | register a =>
          have hiff : registrations a cs < kept a ↔ registrations a cs < kept' a := by
            rcases h a with heq | ⟨hle, hle'⟩
            · rw [heq]
            · rw [registrations_register_self] at hle hle'
              omega
          rw [latest, latest, hrest]
          simp only [hiff]
      | unregister a => exact hrest
      | clear => exact hrest

theorem latest_zero {kept : α → Nat} (h : ∀ b, kept b = 0) (cs : List (Change α)) :
    latest kept cs = [] := by
  induction cs with
  | nil => rfl
  | cons c cs ih =>
      cases c with
      | register a => rw [latest, h a, if_neg (Nat.not_lt_zero _), ih]
      | unregister a => exact ih
      | clear => exact ih

/-- One more change: what it registers is the latest, and kept. -/
theorem latest_concat {kept kept' : α → Nat} {c : Change α}
    (h : ∀ b, kept' b = kept b + if c.registers b then 1 else 0) (cs : List (Change α)) :
    latest kept' (cs ++ [c]) = latest kept cs ++ c.registered := by
  induction cs with
  | nil =>
      cases c with
      | register a =>
          have hkept : registrations a [] < kept' a := by
            rw [h a, Change.registers, if_pos (decide_eq_true rfl)]
            exact Nat.succ_pos _
          show (if registrations a [] < kept' a then _ else _) = _
          rw [if_pos hkept]
          rfl
      | unregister a => rfl
      | clear => rfl
  | cons d cs ih =>
      rw [List.cons_append]
      cases d with
      | register b =>
          rw [latest, latest, ih, registrations_concat, h b]
          simp only [Nat.add_lt_add_iff_right]
          split <;> rfl
      | unregister b => exact ih
      | clear => exact ih

/-- One less kept: of the latest registrations the first is gone. -/
theorem latest_erase {kept kept' : α → Nat} {a : α} (ha : kept a = kept' a + 1)
    (hother : ∀ b ≠ a, kept' b = kept b) {cs : List (Change α)}
    (hle : kept a ≤ registrations a cs) :
    latest kept' cs = (latest kept cs).erase a := by
  induction cs with
  | nil =>
      have hnil : registrations a [] = 0 := rfl
      omega
  | cons c cs ih =>
      cases c with
      | register b =>
          rw [latest, latest]
          by_cases hb : b = a
          · subst hb
            rw [registrations_register_self] at hle
            by_cases hlast : kept b ≤ registrations b cs
            · rw [if_neg (by omega), if_neg (by omega)]
              exact ih hlast
            · -- it is the first of those that are kept
              rw [if_neg (by omega), if_pos (by omega), List.erase_cons_head]
              refine latest_congr (fun d => ?_)
              by_cases hd : d = b
              · subst hd
                exact Or.inr (by omega)
              · exact Or.inl (hother d hd)
          · rw [registrations_register_of_ne hb] at hle
            rw [hother b hb, ih hle]
            split
            · exact (List.erase_cons_tail (by simpa using hb)).symm
            · rfl
      | unregister b => exact ih hle
      | clear => exact ih hle

/-- **The latest registrations are left, in their order.** -/
theorem after_eq_latest (cs : List (Change α)) : after cs = latest (counter cs) cs := by
  induction cs using List.reverseRecOn with
  | nil => rfl
  | append_singleton cs c ih =>
      rw [after_concat, ih]
      cases c with
      | register a =>
          have hkept : ∀ b, counter (cs ++ [.register a]) b
              = counter cs b + if (Change.register a).registers b then 1 else 0 := by
            intro b
            rw [counter_concat, Change.tally, Change.registers]
            by_cases hb : a = b
            · rw [if_pos hb, if_pos (decide_eq_true hb)]
            · rw [if_neg hb, if_neg (by simpa using hb)]
              rfl
          exact (latest_concat hkept cs).symm
      | unregister a =>
          have hkept : ∀ b, counter (cs ++ [.unregister a]) b = counter (cs ++ [.unregister a]) b
              + if (Change.unregister a).registers b then 1 else 0 := fun _ => rfl
          rw [latest_concat hkept, Change.registered, List.append_nil]
          have hother : ∀ b ≠ a, counter (cs ++ [.unregister a]) b = counter cs b := by
            intro b hb
            rw [counter_concat, Change.tally, if_neg (fun h => hb h.symm)]
          have ha : counter (cs ++ [.unregister a]) a = counter cs a - 1 := by
            rw [counter_concat, Change.tally, if_pos rfl]
          cases hcounter : counter cs a with
          | zero =>
              -- nothing of it is there: the search for it finds nothing
              have hnot : a ∉ latest (counter cs) cs := by
                rw [← ih, ← List.count_eq_zero, count_after, hcounter]
              rw [Change.apply, List.erase_of_not_mem hnot]
              refine latest_congr (fun b => Or.inl ?_)
              by_cases hb : b = a
              · rw [hb, ha, hcounter]
              · exact (hother b hb).symm
          | succ n =>
              refine (latest_erase ?_ hother (counter_le cs a)).symm
              rw [ha, hcounter]
              rfl
      | clear =>
          have hzero : ∀ b, counter (cs ++ [.clear]) b = 0 := fun b => counter_concat cs .clear b
          rw [latest_zero hzero]
          rfl

end Registrations
