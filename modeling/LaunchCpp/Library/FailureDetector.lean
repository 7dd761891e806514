import Mathlib.Data.List.Basic

/-! # A failure detector for one party

    A party joins with a limit, is heard from time to time and may leave; now
    and then somebody looks at the clock.  `late limit since now` is any test of
    how long the party has been silent.  The detector reports a party when a
    look finds it late, and not again before it has been heard.

    Two rules on what it reports: of a party that is heard no more the first
    look that finds it late is reported, and no other (`report_run_quiet`,
    `count_reports_quiet`); a party that no look finds late is not reported at
    all (`reports_in_time`). -/

namespace FailureDetector

variable {D T : Type*}

/-- What a detector sees. -/
inductive Input (D T : Type*) where
  | joined (limit : D) (now : T)
  | left
  | heard (now : T)
  | checked (now : T)
  | nothing

/-- A party that is watched. -/
structure Party (D T : Type*) where
  limit : D
  since : T
  reported : Bool := false
  deriving DecidableEq

variable (late : D → T → T → Bool)

/-- A party joins once, and is gone when it leaves. -/
def next : Option (Party D T) → Input D T → Option (Party D T)
  | none, .joined limit now => some ⟨limit, now, false⟩
  | some p, .heard now => some { p with since := now, reported := false }
  | some _, .left => none
  | some p, .checked now => some { p with reported := late p.limit p.since now || p.reported }
  | p, _ => p

def report : Option (Party D T) → Input D T → Bool
  | some p, .checked now => late p.limit p.since now && !p.reported
  | _, _ => false

def run (p : Option (Party D T)) (is : List (Input D T)) : Option (Party D T) :=
  is.foldl (next late) p

/-- For each input, whether it makes the detector report. -/
def reports : Option (Party D T) → List (Input D T) → List Bool
  | _, [] => []
  | p, i :: is => report late p i :: reports (next late p i) is

/-- Neither heard nor gone. -/
def Input.quiet : Input D T → Bool
  | .left => false
  | .heard _ => false
  | _ => true

/-- A look that finds a party late. -/
def finds (limit : D) (since : T) : Input D T → Bool
  | .checked now => late limit since now
  | _ => false

/-- When the party was heard last. -/
def lastHeard (since : T) : List (Input D T) → T
  | [] => since
  | .heard now :: is => lastHeard now is
  | _ :: is => lastHeard since is

variable {late} {p : Party D T} {i : Input D T} {is js : List (Input D T)}

theorem next_nothing (q : Option (Party D T)) : next late q .nothing = q := by
  cases q <;> rfl

theorem next_quiet (hquiet : i.quiet = true) :
    next late (some p) i
      = some { p with reported := finds late p.limit p.since i || p.reported } := by
  cases i with
  | left => cases hquiet
  | heard now => cases hquiet
  | _ => rfl

/-- A party that is heard no more, after any number of inputs. -/
theorem run_quiet (hquiet : ∀ i ∈ is, i.quiet = true) :
    run late (some p) is
      = some { p with reported := is.any (finds late p.limit p.since) || p.reported } := by
  induction is generalizing p with
  | nil => rfl
  | cons i is ih =>
      obtain ⟨hi, his⟩ := List.forall_mem_cons.mp hquiet
      show run late (next late (some p) i) is = _
      rw [next_quiet hi, ih his, List.any_cons]
      simp only [Bool.or_assoc, Bool.or_left_comm]

/-- The first look that finds it late is reported. -/
theorem report_run_quiet (hquiet : ∀ i ∈ is, i.quiet = true) (i : Input D T) :
    report late (run late (some p) is) i
      = (finds late p.limit p.since i
        && !(is.any (finds late p.limit p.since) || p.reported)) := by
  rw [run_quiet hquiet]
  cases i <;> rfl

/-- And no other. -/
theorem count_reports_quiet (hquiet : ∀ i ∈ is, i.quiet = true) :
    (reports late (some p) is).count true
      = if is.any (finds late p.limit p.since) && !p.reported then 1 else 0 := by
  induction is generalizing p with
  | nil => rfl
  | cons i is ih =>
      obtain ⟨hi, his⟩ := List.forall_mem_cons.mp hquiet
      have hreport : report late (some p) i = (finds late p.limit p.since i && !p.reported) := by
        cases i <;> rfl
      show (report late (some p) i :: reports late (next late (some p) i) is).count true = _
      rw [List.count_cons, next_quiet hi, ih his, hreport, List.any_cons]
      cases finds late p.limit p.since i <;>
      cases p.reported <;>
      simp

/-- A party that no look finds late is not reported. -/
theorem reports_in_time (hstays : ∀ i ∈ is, i ≠ .left)
    (hlooks : ∀ before now after, is = before ++ .checked now :: after →
      late p.limit (lastHeard p.since before) now = false) :
    ∀ r ∈ reports late (some p) is, r = false := by
  induction is generalizing p with
  | nil => exact fun r hr => absurd hr List.not_mem_nil
  | cons i is ih =>
      obtain ⟨hi, his⟩ := List.forall_mem_cons.mp hstays
      have hrest : ∀ now before, lastHeard p.since (i :: before) = lastHeard now before →
          ∀ t after, is = before ++ .checked t :: after →
            late p.limit (lastHeard now before) t = false := by
        intro now before hsame t after hsplit
        rw [← hsame]
        exact hlooks (i :: before) t after (by rw [hsplit]; rfl)
      refine List.forall_mem_cons.mpr ⟨?_, ?_⟩
      · cases i with
        | checked now =>
            have hnow : late p.limit p.since now = false := hlooks [] now is rfl
            show (late p.limit p.since now && _) = false
            rw [hnow]
            rfl
        | _ => rfl
      · cases i with
        | left => exact absurd rfl hi
        | heard now => exact ih his (fun before t after => hrest now before rfl t after)
        | _ => exact ih his (fun before t after => hrest p.since before rfl t after)

end FailureDetector
