import LaunchCpp.ExecuteProcess
import Mathlib.Data.List.Range

/-! # Where the output of a child goes

    The child of `PosixProcessExecutor` opens `/dev/null` in place of what is
    not to be captured, puts it on a standard stream and closes what it opened.
    `open` takes the lowest free descriptor, and that may be the very one to be
    replaced.  `child_output` says where this leaves the three standard
    streams, for every table of descriptors a launcher can have. -/

namespace LaunchCpp

/-- The descriptors of a process: the files they are open on, below a limit that
    leaves room for the standard streams. -/
structure Descriptors (F : Type) where
  fds : Nat → Option F
  limit : Nat
  hlimit : 2 < limit

namespace Descriptors

variable {F : Type}

def set (t : Descriptors F) (fd : Nat) (file : Option F) : Descriptors F :=
  { t with fds := fun n => if n = fd then file else t.fds n }

/-- The descriptor that the next `open` takes. -/
def lowestFree (t : Descriptors F) : Option Nat :=
  (List.range t.limit).find? fun fd => (t.fds fd).isNone

/-- `open`, of a file that is not there or cannot be opened if it is `none`. -/
def openFile (t : Descriptors F) (file : Option F) : Option (Nat × Descriptors F) :=
  match file with
  | none => none
  | some f =>
      match t.lowestFree with
      | none => none
      | some fd => some (fd, t.set fd (some f))

/-- `dup2`. -/
def dup2 (t : Descriptors F) (oldfd newfd : Nat) : Descriptors F :=
  if oldfd = newfd then t else t.set newfd (t.fds oldfd)

/-- `close`. -/
def close (t : Descriptors F) (fd : Nat) : Descriptors F := t.set fd none

/-- One of the two redirections of `execute_internal`, with what `/dev/null`
    opens as. -/
def redirect (t : Descriptors F) (devNull : Option F) (stream : Nat) : Descriptors F :=
  match t.openFile devNull with
  | none => t
  | some (fd, t) => (t.dup2 fd stream).close fd

/-- Both of them: `STDOUT_FILENO` is 1, `STDERR_FILENO` is 2. -/
def childDescriptors (t : Descriptors F) (devNull : Option F) (options : ProcessOptions) :
    Descriptors F :=
  let t := if !options.captureStdout then t.redirect devNull 1 else t
  if !options.captureStderr then t.redirect devNull 2 else t

theorem fds_set (t : Descriptors F) (fd : Nat) (file : Option F) (n : Nat) :
    (t.set fd file).fds n = if n = fd then file else t.fds n := rfl

/-! ## The lowest free descriptor -/

/-- The lowest free descriptor. -/
theorem lowestFree_eq_some_iff {t : Descriptors F} {fd : Nat} :
    t.lowestFree = some fd ↔ fd < t.limit ∧ t.fds fd = none ∧ ∀ n < fd, t.fds n ≠ none := by
  rw [lowestFree, List.find?_range_eq_some]
  constructor
  · rintro ⟨hfree, hmem, hbelow⟩
    refine ⟨List.mem_range.mp hmem, Option.isNone_iff_eq_none.mp hfree, ?_⟩
    intro n hn hnone
    have htaken := hbelow n hn
    rw [hnone] at htaken
    cases htaken
  · rintro ⟨hlimit, hfree, hbelow⟩
    refine ⟨Option.isNone_iff_eq_none.mpr hfree, List.mem_range.mpr hlimit, ?_⟩
    intro n hn
    rw [Bool.not_eq_true', ← Bool.not_eq_true, Option.isNone_iff_eq_none]
    exact hbelow n hn

/-- There is one if there is a free descriptor at all. -/
theorem exists_lowestFree {t : Descriptors F} {n : Nat} (hn : n < t.limit) (hfree : t.fds n = none) :
    ∃ fd, t.lowestFree = some fd := by
  refine Option.ne_none_iff_exists'.mp ?_
  rw [lowestFree, ne_eq, List.find?_range_eq_none]
  intro htaken
  have h := htaken n hn
  rw [hfree] at h
  cases h

/-! ## One redirection -/

/-- A redirection takes the lowest free descriptor on its way. -/
theorem redirect_of_free {t : Descriptors F} {fd : Nat} (h : t.lowestFree = some fd) (f : F)
    (stream : Nat) :
    t.redirect (some f) stream = ((t.set fd (some f)).dup2 fd stream).close fd := by
  simp only [redirect, openFile, h]

/-- Without a free one nothing happens. -/
theorem redirect_of_full {t : Descriptors F} (h : t.lowestFree = none) (devNull : Option F)
    (stream : Nat) : t.redirect devNull stream = t := by
  cases devNull with
  | none => rfl
  | some f => simp only [redirect, openFile, h]

/-- The file lands on the stream: it can be opened, and the descriptor it gets
    is not the stream itself. -/
def Lands (t : Descriptors F) (devNull : Option F) (stream : Nat) : Prop :=
  devNull ≠ none ∧ ∃ fd, t.lowestFree = some fd ∧ fd ≠ stream

/-- **A redirection** changes one descriptor, if the file lands there, and none
    otherwise: an opened stream is closed again. -/
theorem fds_redirect_of_lands {t : Descriptors F} {devNull : Option F} {stream : Nat}
    (h : t.Lands devNull stream) (n : Nat) :
    (t.redirect devNull stream).fds n = if n = stream then devNull else t.fds n := by
  obtain ⟨hopens, fd, hlowest, hne⟩ := h
  obtain ⟨f, rfl⟩ := Option.ne_none_iff_exists'.mp hopens
  obtain ⟨-, hfree, -⟩ := lowestFree_eq_some_iff.mp hlowest
  rw [redirect_of_free hlowest, dup2, if_neg hne, close, fds_set, fds_set, fds_set, fds_set, if_pos rfl]
  by_cases hfd : n = fd
  · rw [if_pos hfd, hfd, if_neg hne, hfree]
  · rw [if_neg hfd, if_neg hfd]

/-- A redirection that does not land changes nothing. -/
theorem fds_redirect_of_not_lands {t : Descriptors F} {devNull : Option F} {stream : Nat}
    (h : ¬ t.Lands devNull stream) (n : Nat) : (t.redirect devNull stream).fds n = t.fds n := by
  cases devNull with
  | none => rfl
  | some f =>
      cases hlowest : t.lowestFree with
      | none => rw [redirect_of_full hlowest]
      | some fd =>
          obtain ⟨-, hfree, -⟩ := lowestFree_eq_some_iff.mp hlowest
          have hstream : fd = stream := by
            by_contra hne
            exact h ⟨Option.some_ne_none f, fd, hlowest, hne⟩
          rw [redirect_of_free hlowest, dup2, if_pos hstream, close, fds_set, fds_set]
          by_cases hfd : n = fd
          · rw [if_pos hfd, hfd, hfree]
          · rw [if_neg hfd, if_neg hfd]

/-- The limit stays. -/
theorem limit_redirect (t : Descriptors F) (devNull : Option F) (stream : Nat) :
    (t.redirect devNull stream).limit = t.limit := by
  cases devNull with
  | none => rfl
  | some f =>
      cases hlowest : t.lowestFree with
      | none => rw [redirect_of_full hlowest]
      | some fd =>
          rw [redirect_of_free hlowest, dup2]
          split_ifs <;> rfl

/-- The other descriptors stay as they are. -/
theorem fds_redirect_of_ne {t : Descriptors F} {devNull : Option F} {stream n : Nat}
    (h : n ≠ stream) : (t.redirect devNull stream).fds n = t.fds n := by
  by_cases hlands : t.Lands devNull stream
  · rw [fds_redirect_of_lands hlands, if_neg h]
  · exact fds_redirect_of_not_lands hlands n

/-- With a descriptor to spare, a stream is missed only where it is the lowest
    one that is free. -/
theorem lands_iff {t : Descriptors F} {f : F} {stream n : Nat} (hstream : stream < t.limit)
    (hn : n < t.limit) (hfree : t.fds n = none) :
    t.Lands (some f) stream ↔ ¬ (t.fds stream = none ∧ ∀ m < stream, t.fds m ≠ none) := by
  obtain ⟨fd, hlowest⟩ := exists_lowestFree hn hfree
  constructor
  · rintro ⟨-, fd', hlowest', hne⟩ ⟨hnone, hbelow⟩
    have hsame := lowestFree_eq_some_iff.mpr ⟨hstream, hnone, hbelow⟩
    rw [hlowest'] at hsame
    exact hne (Option.some.inj hsame)
  · intro hmissed
    refine ⟨Option.some_ne_none f, fd, hlowest, ?_⟩
    rintro rfl
    exact hmissed (lowestFree_eq_some_iff.mp hlowest).2

/-- **Where a redirected stream leads to.** -/
theorem fds_redirect_self {t : Descriptors F} {f : F} {stream n : Nat} (hstream : stream < t.limit)
    (hn : n < t.limit) (hfree : t.fds n = none) :
    (t.fds stream = none ∧ (∀ m < stream, t.fds m ≠ none) →
        (t.redirect (some f) stream).fds stream = none)
      ∧ (¬ (t.fds stream = none ∧ ∀ m < stream, t.fds m ≠ none) →
        (t.redirect (some f) stream).fds stream = some f) := by
  constructor
  · intro hmissed
    have hnot := mt (lands_iff (f := f) hstream hn hfree).mp (not_not_intro hmissed)
    rw [fds_redirect_of_not_lands hnot]
    exact hmissed.1
  · intro hhit
    have hlands := (lands_iff (f := f) hstream hn hfree).mpr hhit
    rw [fds_redirect_of_lands hlands, if_pos rfl]

/-- What the first redirection opens it closes, so that the second one finds a
    descriptor too. -/
theorem exists_free_redirect {t : Descriptors F} {n : Nat} (hn : n < t.limit)
    (hfree : t.fds n = none) (devNull : Option F) (stream : Nat) :
    ∃ m < (t.redirect devNull stream).limit, (t.redirect devNull stream).fds m = none := by
  obtain ⟨fd, hlowest⟩ := exists_lowestFree hn hfree
  obtain ⟨hlimit, hnone, -⟩ := lowestFree_eq_some_iff.mp hlowest
  refine ⟨fd, by rwa [limit_redirect], ?_⟩
  by_cases hfd : fd = stream
  · have hnot : ¬ t.Lands devNull stream := by
      rintro ⟨-, fd', hlowest', hne⟩
      rw [hlowest] at hlowest'
      exact hne ((Option.some.inj hlowest').symm.trans hfd)
    rw [fds_redirect_of_not_lands hnot, hnone]
  · rw [fds_redirect_of_ne hfd, hnone]

/-! ## Both -/

/-- A child whose output is captured has the descriptors of the launcher. -/
theorem childDescriptors_of_captured {t : Descriptors F} (devNull : Option F)
    {options : ProcessOptions} (hout : options.captureStdout = true)
    (herr : options.captureStderr = true) : t.childDescriptors devNull options = t := by
  rw [childDescriptors, hout, herr]
  rfl

/-- Otherwise both streams are redirected. -/
theorem childDescriptors_of_not {t : Descriptors F} (devNull : Option F)
    {options : ProcessOptions} (hout : options.captureStdout = false)
    (herr : options.captureStderr = false) :
    t.childDescriptors devNull options = (t.redirect devNull 1).redirect devNull 2 := by
  rw [childDescriptors, hout, herr]
  rfl

/-- Where the output leads to. -/
theorem fds_one_of_free {t : Descriptors F} {n : Nat} (hn : n < t.limit) (hfree : t.fds n = none)
    (f : F) : (t.redirect (some f) 1).fds 1
      = if t.fds 1 = none ∧ t.fds 0 ≠ none then none else some f := by
  have hone : 1 < t.limit := by
    have := t.hlimit
    omega
  obtain ⟨hmissed, hhit⟩ := fds_redirect_self (f := f) hone hn hfree
  have hbelow : (∀ m < 1, t.fds m ≠ none) ↔ t.fds 0 ≠ none := by
    refine ⟨fun h => h 0 Nat.one_pos, fun h m hm => ?_⟩
    rwa [Nat.lt_one_iff.mp hm]
  rw [hbelow] at hmissed hhit
  split_ifs with h
  · exact hmissed h
  · exact hhit h

/-- Where the errors lead to, once the output has been redirected. -/
theorem fds_two_of_free {t : Descriptors F} {n : Nat} (hn : n < t.limit) (hfree : t.fds n = none)
    (f : F) : ((t.redirect (some f) 1).redirect (some f) 2).fds 2
      = if t.fds 2 = none ∧ t.fds 0 ≠ none ∧ t.fds 1 ≠ none then none else some f := by
  obtain ⟨m, hm, hmfree⟩ := exists_free_redirect hn hfree (some f) 1
  have htwo : 2 < (t.redirect (some f) 1).limit := by
    rw [limit_redirect]
    exact t.hlimit
  obtain ⟨hmissed, hhit⟩ := fds_redirect_self (f := f) htwo hm hmfree
  have hbelow : (∀ m < 2, (t.redirect (some f) 1).fds m ≠ none)
      ↔ t.fds 0 ≠ none ∧ t.fds 1 ≠ none := by
    have hzero : (t.redirect (some f) 1).fds 0 = t.fds 0 := fds_redirect_of_ne (by decide)
    constructor
    · intro h
      have h0 := h 0 (by decide)
      have h1 := h 1 (by decide)
      rw [hzero] at h0
      rw [fds_one_of_free hn hfree] at h1
      refine ⟨h0, fun hnone => h1 (if_pos ⟨hnone, h0⟩)⟩
    · rintro ⟨h0, h1⟩ m hm
      rcases Nat.le_one_iff_eq_zero_or_eq_one.mp (Nat.lt_succ_iff.mp hm) with rfl | rfl
      · rwa [hzero]
      · rw [fds_one_of_free hn hfree, if_neg (fun h => h1 h.1)]
        exact Option.some_ne_none f
  rw [hbelow, fds_redirect_of_ne (by decide : (2 : Nat) ≠ 1)] at hmissed hhit
  split_ifs with h
  · exact hmissed h
  · exact hhit h

end Descriptors

/-- **The output of a child.**  Whatever is open in the launcher, an action
    leaves its child all descriptors as they are, but for the two standard
    streams of output when its output is `log`.  They then lead to `/dev/null`,
    if it can be opened and a descriptor is free; but a stream that is closed,
    with everything below it open, stays closed. -/
theorem child_output {F W : Type} (self : ExecuteProcess W) (t : Descriptors F)
    (devNull : Option F) :
    (self.options.output ≠ "log".toList → t.childDescriptors devNull self.processOptions = t)
      ∧ (∀ fd, fd ≠ 1 → fd ≠ 2 →
        (t.childDescriptors devNull self.processOptions).fds fd = t.fds fd)
      ∧ (self.options.output = "log".toList →
        ((devNull = none ∨ ∀ n < t.limit, t.fds n ≠ none) →
          t.childDescriptors devNull self.processOptions = t)
        ∧ ∀ f, devNull = some f → ∀ n < t.limit, t.fds n = none →
          (t.childDescriptors devNull self.processOptions).fds 1
              = (if t.fds 1 = none ∧ t.fds 0 ≠ none then none else some f)
            ∧ (t.childDescriptors devNull self.processOptions).fds 2
              = if t.fds 2 = none ∧ t.fds 0 ≠ none ∧ t.fds 1 ≠ none then none else some f) := by
  by_cases hlog : self.options.output = "log".toList
  · have hcapture : decide (self.options.output ≠ "log".toList) = false :=
      decide_eq_false (not_not_intro hlog)
    rw [Descriptors.childDescriptors_of_not devNull hcapture hcapture]
    refine ⟨fun h => absurd hlog h, ?_, fun _ => ⟨?_, ?_⟩⟩
    · intro fd hout herr
      rw [Descriptors.fds_redirect_of_ne herr, Descriptors.fds_redirect_of_ne hout]
    · have hnot : ∀ u : Descriptors F, (devNull = none ∨ ∀ n < u.limit, u.fds n ≠ none) →
          ∀ stream, u.redirect devNull stream = u := by
        rintro u (rfl | hfull) stream
        · rfl
        · refine Descriptors.redirect_of_full ?_ devNull stream
          refine Option.eq_none_iff_forall_ne_some.mpr ?_
          intro fd hlowest
          obtain ⟨hlimit, hfree, -⟩ := Descriptors.lowestFree_eq_some_iff.mp hlowest
          exact hfull fd hlimit hfree
      intro h
      rw [hnot t h, hnot t h]
    · rintro f rfl n hn hfree
      refine ⟨?_, Descriptors.fds_two_of_free hn hfree f⟩
      rw [Descriptors.fds_redirect_of_ne (by decide : (1 : Nat) ≠ 2)]
      exact Descriptors.fds_one_of_free hn hfree f
  · have hcapture : decide (self.options.output ≠ "log".toList) = true := decide_eq_true hlog
    rw [Descriptors.childDescriptors_of_captured devNull hcapture hcapture]
    exact ⟨fun _ => rfl, fun _ _ _ => rfl, fun h => absurd h hlog⟩

end LaunchCpp
