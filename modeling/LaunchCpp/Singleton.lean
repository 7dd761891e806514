import LaunchCpp.Library.ReleaseAcquire
import LaunchCpp.Library.TransitionSystem
import Mathlib.Order.Lattice.Nat

/-! # `Singleton`: double-checked locking

    Any number of threads call `instance()` and `is_initialized()`, again and
    again, with the memory orders the source gives its loads and its store.  A
    load of `instance_` may be answered by any store its thread does not know
    to be overwritten, so that "non-null" alone says nothing about the object:
    what does is that the constructor's end happens before (`View.known`, the
    number of constructions a thread knows to have ended).

    The main result is `instance_once`.  The constructor of `T` is taken to
    return, and not to call `instance()` itself: the mutex is not recursive. -/

namespace LaunchCpp.Singleton

open TransitionSystems ReleaseAcquire

/-- `T*`: null, or the address of the buffer. -/
inductive Pointer where
  | null
  | buffer
  deriving DecidableEq

/-- Where a thread is.  From `loadAgain` to `unlock` it holds the mutex. -/
inductive Pc where
  | load
  | lock
  | loadAgain
  | construct
  | store
  | unlock (p : Pointer)
  | returned (p : Pointer)
  | query
  | answered (answer : Bool)
  deriving DecidableEq

/-- The static members, and how often `T()` has been run. -/
structure Shared (ι : Type*) where
  instance_ : Location Pointer Nat := fun t => if t = 0 then some ⟨.null, 0⟩ else none
  mutex : Option ι := none
  mutexView : View Nat := ⟨0, 0⟩
  constructed : Nat := 0

/-- A thread, with what it knows. -/
structure Caller where
  pc : Pc
  view : View Nat := ⟨0, 0⟩

section Steps

variable {ι : Type*}

/-- `instance()` and `is_initialized()`. -/
inductive Step (c : ι) (s : Shared ι) (a : Caller) : Shared ι → Caller → Prop where
  | load {p : Pointer} {v : View Nat} (h : a.pc = .load)
      (hload : Load s.instance_ .acquire a.view p v) (hset : p ≠ .null) :
      Step c s a s ⟨.returned p, v⟩
  | loadNull {v : View Nat} (h : a.pc = .load) (hload : Load s.instance_ .acquire a.view .null v) :
      Step c s a s ⟨.lock, v⟩
  | lock (h : a.pc = .lock) (hfree : s.mutex = none) :
      Step c s a { s with mutex := some c } ⟨.loadAgain, a.view.join s.mutexView⟩
  | loadAgain {p : Pointer} {v : View Nat} (h : a.pc = .loadAgain)
      (hload : Load s.instance_ .relaxed a.view p v) (hset : p ≠ .null) :
      Step c s a s ⟨.unlock p, v⟩
  | loadAgainNull {v : View Nat} (h : a.pc = .loadAgain)
      (hload : Load s.instance_ .relaxed a.view .null v) :
      Step c s a s ⟨.construct, v⟩
  | construct (h : a.pc = .construct) :
      Step c s a { s with constructed := s.constructed + 1 }
        ⟨.store, { a.view with known := s.constructed + 1 }⟩
  | store {location : Location Pointer Nat} {v : View Nat} (h : a.pc = .store)
      (hstore : StoreRelease s.instance_ a.view .buffer location v) :
      Step c s a { s with instance_ := location } ⟨.unlock .buffer, v⟩
  | unlock {p : Pointer} (h : a.pc = .unlock p) :
      Step c s a { s with mutex := none, mutexView := a.view } ⟨.returned p, a.view⟩
  | query {p : Pointer} {v : View Nat} (h : a.pc = .query)
      (hload : Load s.instance_ .acquire a.view p v) :
      Step c s a s ⟨.answered (decide (p ≠ .null)), v⟩
  -- the next call of the thread
  | again {pc : Pc} (h : (∃ p, a.pc = .returned p) ∨ ∃ b, a.pc = .answered b)
      (hpc : pc = .load ∨ pc = .query) : Step c s a s ⟨pc, a.view⟩

/-- Threads at their first calls. -/
def initially (first : ι → Bool) : Threads (Shared ι) ι Caller where
  shared := {}
  threads c := { pc := if first c then .load else .query }

end Steps

/-! ## The invariant -/

section Invariant

variable {ι : Type*} {s s' : Shared ι} {a a' b : Caller} {c d : ι} {v v' : View Nat}

def Pc.Inside : Pc → Prop
  | .loadAgain => True
  | .construct => True
  | .store => True
  | .unlock _ => True
  | _ => False

/-- The object has been published. -/
def Shared.Published (s : Shared ι) : Prop :=
  ∃ t m, s.instance_ t = some m ∧ m.value = .buffer

/-- A view that knows of every publication, and what was published. -/
def Ahead (s : Shared ι) (v : View Nat) : Prop :=
  ∀ t m, s.instance_ t = some m → m.value = .buffer → t ≤ v.stamp ∧ 1 ≤ v.known

/-- A view that knows the object has a publication behind it. -/
def Coherent (s : Shared ι) (v : View Nat) : Prop :=
  1 ≤ v.known → ∃ t m, s.instance_ t = some m ∧ m.value = .buffer ∧ t ≤ v.stamp

/-- A view stands at a store. -/
def Placed (s : Shared ι) (v : View Nat) : Prop := ∃ m, s.instance_ v.stamp = some m

/-- What holds of the static members. -/
structure Sound (s : Shared ι) : Prop where
  null : ∀ t m, s.instance_ t = some m → m.value = .null → t = 0 ∧ m.known = 0
  buffer : ∀ t m, s.instance_ t = some m → m.value = .buffer → 0 < t ∧ m.known = 1
  published : s.Published → s.constructed = 1
  once : s.constructed ≤ 1
  ahead : s.mutex = none → Ahead s s.mutexView
  done : s.mutex = none → s.constructed = 0 ∨ s.Published
  coherent : Coherent s s.mutexView
  placed : Placed s s.mutexView

/-- What holds of a thread. -/
structure Fine (s : Shared ι) (a : Caller) : Prop where
  ahead : a.pc.Inside → Ahead s a.view
  loadAgain : a.pc = .loadAgain → s.constructed = 0 ∨ s.Published
  construct : a.pc = .construct → s.constructed = 0
  store : a.pc = .store → s.constructed = 1 ∧ a.view.known = 1 ∧ ¬ s.Published
  given : ∀ p, a.pc = .unlock p ∨ a.pc = .returned p →
    p = .buffer ∧ s.Published ∧ 1 ≤ a.view.known
  told : a.pc = .answered true → s.Published ∧ 1 ≤ a.view.known
  denied : a.pc = .answered false → a.view.known = 0
  coherent : a.pc ≠ .store → Coherent s a.view
  placed : Placed s a.view

/-- There are two pointers. -/
theorem value_of_ne_null {p : Pointer} (h : p ≠ .null) : p = .buffer := by
  cases p with
  | null => exact absurd rfl h
  | buffer => rfl

/-- A view stays coherent by a load. -/
theorem Sound.coherent_load {order : MemoryOrder} {p : Pointer} (hs : Sound s)
    (hv : Coherent s v) (h : Load s.instance_ order v p v') : Coherent s v' := by
  intro hknown
  have hbefore : 1 ≤ v.known → ∃ t m, s.instance_ t = some m ∧ m.value = .buffer ∧ t ≤ v'.stamp := by
    intro hold
    obtain ⟨t, m, hstore, hvalue, ht⟩ := hv hold
    exact ⟨t, m, hstore, hvalue, ht.trans h.le.1⟩
  cases order with
  | relaxed =>
      rw [h.relaxed_known] at hknown
      exact hbefore hknown
  | acquire =>
      obtain ⟨m, hstore, -, hjoined⟩ := h.acquire_known
      rw [hjoined] at hknown
      rcases le_sup_iff.mp hknown with hold | hnew
      · exact hbefore hold
      · refine ⟨v'.stamp, m, hstore, value_of_ne_null (fun hnull => ?_), le_rfl⟩
        have hzero := (hs.null _ _ hstore hnull).2
        omega

/-- Who reads null knows of no object. -/
theorem Sound.known_of_null (hs : Sound s) (hv : Coherent s v)
    (h : Load s.instance_ .acquire v .null v') : v'.known = 0 := by
  obtain ⟨m, hstore, hvalue, -⟩ := h.acquire_known
  by_contra hne
  obtain ⟨t, m', hstore', hvalue', ht⟩ := hs.coherent_load hv h (Nat.one_le_iff_ne_zero.mpr hne)
  have := (hs.null _ _ hstore hvalue).1
  have := (hs.buffer _ _ hstore' hvalue').1
  omega

/-- Who reads the buffer reads a publication. -/
theorem Sound.given_of_load {order : MemoryOrder} {p : Pointer}
    (h : Load s.instance_ order v p v') (hset : p ≠ .null) : s.Published := by
  obtain ⟨m, hstore, hvalue⟩ := h.stored
  exact ⟨_, m, hstore, hvalue.trans (value_of_ne_null hset)⟩

/-- **An acquire load of the buffer** brings the construction with it. -/
theorem Sound.known_of_acquire {p : Pointer} (hs : Sound s)
    (h : Load s.instance_ .acquire v p v') (hset : p ≠ .null) : 1 ≤ v'.known :=
  h.acquired (P := (· ≠ .null))
    (fun t m hstore hvalue => (hs.buffer t m hstore (value_of_ne_null hvalue)).2.ge) hset

/-- A load ends at a store. -/
theorem Placed.load {order : MemoryOrder} {p : Pointer} (h : Load s.instance_ order v p v') :
    Placed s v' := by
  obtain ⟨m, hstore, -⟩ := h.stored
  exact ⟨m, hstore⟩

/-! ### The static members under a step -/

/-- **A step keeps what holds of the static members.** -/
theorem Sound.step (hs : Sound s) (ha : Fine s a) (howner : a.pc.Inside → s.mutex = some c)
    (h : Step c s a s' a') : Sound s' := by
  cases h with
  | lock h hfree =>
      exact ⟨hs.null, hs.buffer, hs.published, hs.once, fun hnone => (by cases hnone),
        fun hnone => (by cases hnone), hs.coherent, hs.placed⟩
  | construct h =>
      have hzero := ha.construct h
      have hnot : ¬ s.Published := by
        intro hpublished
        have := hs.published hpublished
        omega
      have hheld : s.mutex ≠ none := by
        rw [howner (by rw [h]; exact trivial)]
        exact Option.some_ne_none c
      refine ⟨hs.null, hs.buffer, fun hpublished => absurd hpublished hnot, ?_, ?_, ?_,
        hs.coherent, hs.placed⟩
      · show s.constructed + 1 ≤ 1
        omega
      · exact fun hnone => absurd hnone hheld
      · exact fun hnone => absurd hnone hheld
  | store h hstore =>
      obtain ⟨hone, hknown, -⟩ := ha.store h
      have hheld : s.mutex ≠ none := by
        rw [howner (by rw [h]; exact trivial)]
        exact Option.some_ne_none c
      refine ⟨fun t m hm hvalue => ?_, fun t m hm hvalue => ?_, fun _ => hone, hs.once,
        fun hnone => absurd hnone hheld, fun hnone => absurd hnone hheld, fun hmutex => ?_, ?_⟩
      · rcases hstore.cases hm with hold | ⟨-, -, rfl⟩
        · exact hs.null t m hold hvalue
        · cases hvalue
      · rcases hstore.cases hm with hold | ⟨hlt, -, rfl⟩
        · exact hs.buffer t m hold hvalue
        · exact ⟨Nat.zero_lt_of_lt hlt, hknown⟩
      · obtain ⟨t, m, hm, hvalue, ht⟩ := hs.coherent hmutex
        exact ⟨t, m, hstore.keeps hm, hvalue, ht⟩
      · obtain ⟨m, hm⟩ := hs.placed
        exact ⟨m, hstore.keeps hm⟩
  | @unlock p h =>
      obtain ⟨-, hpublished, -⟩ := ha.given p (Or.inl h)
      have hne : a.pc ≠ .store := by
        rw [h]
        exact fun heq => (by cases heq)
      exact ⟨hs.null, hs.buffer, hs.published, hs.once,
        fun _ => ha.ahead (by rw [h]; exact trivial), fun _ => Or.inr hpublished,
        ha.coherent hne, ha.placed⟩
  | _ => exact hs

/-! ### The thread that takes the step -/

/-- A thread outside the mutex that has nothing to show. -/
theorem Fine.outside {pc : Pc} (hpc : pc = .load ∨ pc = .lock ∨ pc = .query) (hv : Coherent s v)
    (hplaced : Placed s v) : Fine s ⟨pc, v⟩ := by
  rcases hpc with rfl | rfl | rfl <;>
  refine ⟨False.elim, fun h => (by cases h), fun h => (by cases h), fun h => (by cases h),
    fun p h => ?_, fun h => (by cases h), fun h => (by cases h), fun _ => hv, hplaced⟩ <;>
  rcases h with h | h <;>
  cases h

/-- A thread with the instance. -/
theorem Fine.holding {pc : Pc} (hpc : pc = .unlock .buffer ∨ pc = .returned .buffer)
    (hpublished : s.Published) (hknown : 1 ≤ v.known) (hahead : pc.Inside → Ahead s v)
    (hv : Coherent s v) (hplaced : Placed s v) : Fine s ⟨pc, v⟩ := by
  rcases hpc with rfl | rfl <;>
  refine ⟨hahead, fun h => (by cases h), fun h => (by cases h), fun h => (by cases h),
    fun p h => ?_, fun h => (by cases h), fun h => (by cases h), fun _ => hv, hplaced⟩
  · rcases h with h | h <;> cases h
    exact ⟨rfl, hpublished, hknown⟩
  · rcases h with h | h <;> cases h
    exact ⟨rfl, hpublished, hknown⟩

/-- A thread that is not about to store is coherent. -/
theorem Fine.coherent_at {pc : Pc} (ha : Fine s a) (h : a.pc = pc) (hpc : pc ≠ .store) :
    Coherent s a.view := by
  rw [← h] at hpc
  exact ha.coherent hpc

/-- The first load, answered with the object. -/
theorem Fine.load {p : Pointer} (ha : Fine s a) (hs : Sound s) (h : a.pc = .load)
    (hload : Load s.instance_ .acquire a.view p v) (hset : p ≠ .null) : Fine s ⟨.returned p, v⟩ := by
  have hv := ha.coherent_at h (by decide)
  rw [value_of_ne_null hset] at hload ⊢
  exact .holding (Or.inr rfl) (Sound.given_of_load hload (by decide))
    (hs.known_of_acquire hload (by decide)) False.elim (hs.coherent_load hv hload)
    (Placed.load hload)

/-- The first load, answered with null. -/
theorem Fine.loadNull (ha : Fine s a) (hs : Sound s) (h : a.pc = .load)
    (hload : Load s.instance_ .acquire a.view .null v) : Fine s ⟨.lock, v⟩ :=
  .outside (Or.inr (Or.inl rfl)) (hs.coherent_load (ha.coherent_at h (by decide)) hload)
    (Placed.load hload)

/-- What the thread that unlocked knew comes with the mutex. -/
theorem Fine.lock (ha : Fine s a) (hs : Sound s) (h : a.pc = .lock) (hfree : s.mutex = none) :
    Fine { s with mutex := some c } ⟨.loadAgain, a.view.join s.mutexView⟩ := by
  have hv := ha.coherent_at h (by decide)
  refine ⟨fun _ t m hm hvalue => ?_, fun _ => hs.done hfree, fun h => (by cases h),
    fun h => (by cases h), fun p h => (by rcases h with h | h <;> cases h),
    fun h => (by cases h), fun h => (by cases h), fun _ hknown => ?_, ?_⟩
  · obtain ⟨ht, hknown⟩ := hs.ahead hfree t m hm hvalue
    exact ⟨ht.trans (le_max_right _ _), hknown.trans le_sup_right⟩
  · rcases le_sup_iff.mp hknown with hown | hmutex
    · obtain ⟨t, m, hm, hvalue, ht⟩ := hv hown
      exact ⟨t, m, hm, hvalue, ht.trans (le_max_left _ _)⟩
    · obtain ⟨t, m, hm, hvalue, ht⟩ := hs.coherent hmutex
      exact ⟨t, m, hm, hvalue, ht.trans (le_max_right _ _)⟩
  · show ∃ m, s.instance_ (max a.view.stamp s.mutexView.stamp) = some m
    rcases le_total a.view.stamp s.mutexView.stamp with hle | hle
    · rw [max_eq_right hle]
      exact hs.placed
    · rw [max_eq_left hle]
      exact ha.placed

/-- Another thread was faster. -/
theorem Fine.loadAgain_set {p : Pointer} (ha : Fine s a) (hs : Sound s) (h : a.pc = .loadAgain)
    (hload : Load s.instance_ .relaxed a.view p v) (hset : p ≠ .null) : Fine s ⟨.unlock p, v⟩ := by
  have hahead : Ahead s a.view := ha.ahead (by rw [h]; exact trivial)
  have hv := ha.coherent_at h (by decide)
  rw [value_of_ne_null hset] at hload ⊢
  obtain ⟨t, m, hm, hvalue⟩ := Sound.given_of_load hload (by decide)
  have hknown : v.known = a.view.known := hload.relaxed_known
  refine .holding (Or.inl rfl) ⟨t, m, hm, hvalue⟩ ?_ (fun _ t m hm hvalue => ?_)
    (hs.coherent_load hv hload) (Placed.load hload)
  · rw [hknown]
    exact (hahead t m hm hvalue).2
  · obtain ⟨ht, hone⟩ := hahead t m hm hvalue
    exact ⟨ht.trans hload.le.1, hknown ▸ hone⟩

/-- Under the mutex null is read only while nothing is published. -/
theorem Sound.not_published_of_null {order : MemoryOrder} (hs : Sound s) (hahead : Ahead s v)
    (hload : Load s.instance_ order v .null v') : ¬ s.Published := by
  rintro ⟨t, m, hm, hvalue⟩
  obtain ⟨m', hm', hnull⟩ := hload.stored
  have := (hs.null _ _ hm' hnull).1
  have := (hs.buffer t m hm hvalue).1
  have := (hahead t m hm hvalue).1
  have := hload.le.1
  omega

/-- The second load, answered with null. -/
theorem Fine.loadAgain_null (ha : Fine s a) (hs : Sound s) (h : a.pc = .loadAgain)
    (hload : Load s.instance_ .relaxed a.view .null v) : Fine s ⟨.construct, v⟩ := by
  have hnot := hs.not_published_of_null (ha.ahead (by rw [h]; exact trivial)) hload
  exact ⟨fun _ t m hm hvalue => absurd ⟨t, m, hm, hvalue⟩ hnot, fun h => (by cases h),
    fun _ => (ha.loadAgain h).resolve_right hnot, fun h => (by cases h),
    fun p h => (by rcases h with h | h <;> cases h), fun h => (by cases h),
    fun h => (by cases h), fun _ => hs.coherent_load (ha.coherent_at h (by decide)) hload,
    Placed.load hload⟩

/-- `T()` is run for the first time. -/
theorem Fine.constructed (ha : Fine s a) (hs : Sound s) (h : a.pc = .construct) :
    Fine { s with constructed := s.constructed + 1 }
      ⟨.store, { a.view with known := s.constructed + 1 }⟩ := by
  have hzero := ha.construct h
  have hnot : ¬ s.Published := by
    intro hpublished
    have := hs.published hpublished
    omega
  have hone : s.constructed + 1 = 1 := by omega
  exact ⟨fun _ t m hm hvalue => absurd ⟨t, m, hm, hvalue⟩ hnot, fun h => (by cases h),
    fun h => (by cases h), fun _ => ⟨hone, hone, hnot⟩,
    fun p h => (by rcases h with h | h <;> cases h), fun h => (by cases h),
    fun h => (by cases h), fun hne => absurd rfl hne, ha.placed⟩

/-- The store publishes what the thread knows to be constructed. -/
theorem Fine.stored {location : Location Pointer Nat} (ha : Fine s a) (h : a.pc = .store)
    (hstore : StoreRelease s.instance_ a.view .buffer location v) :
    Fine { s with instance_ := location } ⟨.unlock .buffer, v⟩ := by
  obtain ⟨-, hknown, hnot⟩ := ha.store h
  obtain ⟨hstored, hv, -⟩ := hstore.stored
  have hone : 1 ≤ v.known := by
    rw [hv]
    exact hknown.ge
  refine .holding (Or.inl rfl) ⟨_, _, hstored, rfl⟩ hone (fun _ t m hm hvalue => ?_)
    (fun _ => ⟨_, _, hstored, rfl, le_rfl⟩) ⟨_, hstored⟩
  rcases hstore.cases hm with hold | ⟨-, ht, -⟩
  · exact absurd ⟨t, m, hold, hvalue⟩ hnot
  · exact ⟨ht.le, hone⟩

/-- The mutex is left with the object in hand. -/
theorem Fine.unlock {p : Pointer} (ha : Fine s a) (h : a.pc = .unlock p) :
    Fine ({ s with mutex := none, mutexView := a.view } : Shared ι) ⟨.returned p, a.view⟩ := by
  have hv := ha.coherent_at h (fun heq => (by cases heq))
  obtain ⟨rfl, hpublished, hknown⟩ := ha.given p (Or.inl h)
  exact .holding (Or.inr rfl) hpublished hknown False.elim hv ha.placed

/-- `is_initialized` answers what it has loaded. -/
theorem Fine.query {p : Pointer} (ha : Fine s a) (hs : Sound s) (h : a.pc = .query)
    (hload : Load s.instance_ .acquire a.view p v) :
    Fine s ⟨.answered (decide (p ≠ .null)), v⟩ := by
  have hv := ha.coherent_at h (by decide)
  refine ⟨False.elim, fun h => (by cases h), fun h => (by cases h), fun h => (by cases h),
    fun p h => (by rcases h with h | h <;> cases h), fun htold => ?_, fun hdenied => ?_,
    fun _ => hs.coherent_load hv hload, Placed.load hload⟩
  · have hset : p ≠ .null := of_decide_eq_true (Pc.answered.inj htold)
    exact ⟨Sound.given_of_load hload hset, hs.known_of_acquire hload hset⟩
  · have hnull : p = .null := not_not.mp (of_decide_eq_false (Pc.answered.inj hdenied))
    rw [hnull] at hload
    exact hs.known_of_null hv hload

/-- The next call begins with what the thread knows. -/
theorem Fine.again {pc : Pc} (ha : Fine s a)
    (h : (∃ p, a.pc = .returned p) ∨ ∃ b, a.pc = .answered b) (hpc : pc = .load ∨ pc = .query) :
    Fine s ⟨pc, a.view⟩ := by
  have hv : Coherent s a.view := by
    rcases h with ⟨p, h⟩ | ⟨b, h⟩
    · exact ha.coherent_at h (fun heq => (by cases heq))
    · exact ha.coherent_at h (fun heq => (by cases heq))
  refine .outside ?_ hv ha.placed
  rcases hpc with rfl | rfl
  · exact Or.inl rfl
  · exact Or.inr (Or.inr rfl)

/-- **A step keeps what holds of the thread that takes it.** -/
theorem Fine.step (ha : Fine s a) (hs : Sound s) (h : Step c s a s' a') : Fine s' a' := by
  cases h with
  | load h hload hset => exact ha.load hs h hload hset
  | loadNull h hload => exact ha.loadNull hs h hload
  | lock h hfree => exact ha.lock hs h hfree
  | loadAgain h hload hset => exact ha.loadAgain_set hs h hload hset
  | loadAgainNull h hload => exact ha.loadAgain_null hs h hload
  | construct h => exact ha.constructed hs h
  | store h hstore => exact ha.stored h hstore
  | unlock h => exact ha.unlock h
  | query h hload => exact ha.query hs h hload
  | again h hpc => exact ha.again h hpc

/-! ### The other threads -/

/-- What another thread does outside, or while this one is outside. -/
theorem Fine.other (hb : Fine s b) (hne : a.pc.Inside → ¬ b.pc.Inside)
    (h : Step c s a s' a') : Fine s' b := by
  have hnot : ∀ pc, a.pc.Inside → b.pc = pc → ¬ pc.Inside := by
    rintro pc hinside rfl
    exact hne hinside
  cases h with
  | construct h =>
      have hout := fun pc => hnot pc (by rw [h]; exact trivial)
      exact ⟨fun hinside => absurd hinside (hout _ rfl),
        fun hpc => absurd trivial (hout _ hpc), fun hpc => absurd trivial (hout _ hpc),
        fun hpc => absurd trivial (hout _ hpc), hb.given, hb.told, hb.denied, hb.coherent,
        hb.placed⟩
  | @store location v h hstore =>
      have hout := fun pc => hnot pc (by rw [h]; exact trivial)
      have hkeeps : s.Published → Shared.Published { s with instance_ := location } := by
        rintro ⟨t, m, hm, hvalue⟩
        exact ⟨t, m, hstore.keeps hm, hvalue⟩
      refine ⟨fun hinside => absurd hinside (hout _ rfl),
        fun hpc => absurd trivial (hout _ hpc), fun hpc => absurd trivial (hout _ hpc),
        fun hpc => absurd trivial (hout _ hpc), fun p hpc => ?_, fun hpc => ?_, hb.denied,
        fun hpc hknown => ?_, ?_⟩
      · obtain ⟨hp, hpublished, hknown⟩ := hb.given p hpc
        exact ⟨hp, hkeeps hpublished, hknown⟩
      · obtain ⟨hpublished, hknown⟩ := hb.told hpc
        exact ⟨hkeeps hpublished, hknown⟩
      · obtain ⟨t, m, hm, hvalue, ht⟩ := hb.coherent hpc hknown
        exact ⟨t, m, hstore.keeps hm, hvalue, ht⟩
      · obtain ⟨m, hm⟩ := hb.placed
        exact ⟨m, hstore.keeps hm⟩
  | _ => exact ⟨hb.ahead, hb.loadAgain, hb.construct, hb.store, hb.given, hb.told, hb.denied,
      hb.coherent, hb.placed⟩

/-! ### All threads -/

/-- The mutex goes with the thread that is inside. -/
theorem Step.owner (h : Step c s a s' a') (hown : a.pc.Inside ↔ s.mutex = some c) :
    (a'.pc.Inside ↔ s'.mutex = some c) ∧ ∀ d, d ≠ c → (s.mutex = some d ↔ s'.mutex = some d) := by
  have hinside : a.pc.Inside → a'.pc.Inside → s'.mutex = s.mutex →
      (a'.pc.Inside ↔ s'.mutex = some c) ∧ ∀ d, d ≠ c → (s.mutex = some d ↔ s'.mutex = some d) := by
    intro ha ha' hsame
    rw [hsame]
    exact ⟨⟨fun _ => hown.mp ha, fun _ => ha'⟩, fun _ _ => Iff.rfl⟩
  have houtside : ¬ a.pc.Inside → ¬ a'.pc.Inside → s'.mutex = s.mutex →
      (a'.pc.Inside ↔ s'.mutex = some c) ∧ ∀ d, d ≠ c → (s.mutex = some d ↔ s'.mutex = some d) := by
    intro ha ha' hsame
    rw [hsame]
    exact ⟨⟨fun h => absurd h ha', fun h => absurd (hown.mpr h) ha⟩, fun _ _ => Iff.rfl⟩
  cases h with
  | load h _ _ => exact houtside (by rw [h]; exact id) id rfl
  | loadNull h _ => exact houtside (by rw [h]; exact id) id rfl
  | lock h hfree =>
      refine ⟨⟨fun _ => rfl, fun _ => trivial⟩, fun d hd => ?_⟩
      rw [hfree]
      exact ⟨fun heq => (by cases heq), fun heq => absurd (Option.some.inj heq).symm hd⟩
  | loadAgain h _ _ => exact hinside (by rw [h]; exact trivial) trivial rfl
  | loadAgainNull h _ => exact hinside (by rw [h]; exact trivial) trivial rfl
  | construct h => exact hinside (by rw [h]; exact trivial) trivial rfl
  | store h _ => exact hinside (by rw [h]; exact trivial) trivial rfl
  | unlock h =>
      have hheld : s.mutex = some c := hown.mp (by rw [h]; exact trivial)
      refine ⟨⟨False.elim, fun heq => (by cases heq)⟩, fun d hd => ?_⟩
      rw [hheld]
      exact ⟨fun heq => absurd (Option.some.inj heq).symm hd, fun heq => (by cases heq)⟩
  | query h _ => exact houtside (by rw [h]; exact id) id rfl
  | again h hpc =>
      refine houtside ?_ ?_ rfl
      · rcases h with ⟨p, h⟩ | ⟨b, h⟩ <;>
        rw [h] <;>
        exact id
      · rcases hpc with rfl | rfl <;>
        exact id

/-- The invariant of an interleaving. -/
structure Inv (t : Threads (Shared ι) ι Caller) : Prop where
  owner : ∀ c, (t.threads c).pc.Inside ↔ t.shared.mutex = some c
  sound : Sound t.shared
  fine : ∀ c, Fine t.shared (t.threads c)

/-- Every step of an interleaving keeps the invariant. -/
theorem Inv.step [DecidableEq ι] {t u : Threads (Shared ι) ι Caller} (ht : Inv t)
    (h : Interleaved Step t c u) : Inv u := by
  obtain ⟨hown, hothers⟩ := h.own_step.owner (ht.owner c)
  refine ⟨fun d => ?_, ?_, fun d => ?_⟩
  · by_cases hd : d = c
    · rw [hd]
      exact hown
    · rw [h.other hd, ht.owner d]
      exact hothers d hd
  · exact ht.sound.step (ht.fine c) (ht.owner c).mp h.own_step
  · by_cases hd : d = c
    · rw [hd]
      exact (ht.fine c).step ht.sound h.own_step
    · rw [h.other hd]
      refine (ht.fine d).other (fun hc hinside => ?_) h.own_step
      have hheld := (ht.owner c).mp hc
      rw [(ht.owner d).mp hinside] at hheld
      exact hd (Option.some.inj hheld)

/-- It holds at the first calls. -/
theorem inv_initially (first : ι → Bool) : Inv (initially first) := by
  have hnull : ∀ t m, (initially first).shared.instance_ t = some m → t = 0 ∧ m = ⟨.null, 0⟩ := by
    intro t m hm
    have hm : (if t = 0 then some (⟨.null, 0⟩ : Message Pointer Nat) else none) = some m := hm
    by_cases ht : t = 0
    · rw [if_pos ht] at hm
      exact ⟨ht, (Option.some.inj hm).symm⟩
    · rw [if_neg ht] at hm
      cases hm
  have hnot : ∀ t m, (initially first).shared.instance_ t = some m → m.value ≠ .buffer := by
    intro t m hm hvalue
    rw [(hnull t m hm).2] at hvalue
    cases hvalue
  have hpublished : ¬ (initially first).shared.Published := by
    rintro ⟨t, m, hm, hvalue⟩
    exact hnot t m hm hvalue
  refine ⟨fun c => ?_, ⟨fun t m hm _ => ?_, fun t m hm hvalue => absurd hvalue (hnot t m hm),
    fun h => absurd h hpublished, Nat.zero_le 1, fun _ t m hm hvalue => absurd hvalue (hnot t m hm),
    fun _ => Or.inl rfl, fun h => absurd (show 1 ≤ 0 from h) (by decide), ⟨_, rfl⟩⟩, fun c => ?_⟩
  · show (if first c then Pc.load else Pc.query).Inside ↔ none = some c
    cases first c <;>
    exact ⟨False.elim, fun h => (by cases h)⟩
  · obtain ⟨ht, rfl⟩ := hnull t m hm
    exact ⟨ht, rfl⟩
  · refine Fine.outside ?_ (fun h => absurd (show 1 ≤ 0 from h) (by decide)) ⟨_, rfl⟩
    cases first c with
    | true => exact Or.inl rfl
    | false => exact Or.inr (Or.inr rfl)

/-! ### Nobody waits for ever -/

/-- A thread in a call. -/
def Pc.Busy : Pc → Prop
  | .returned _ => False
  | .answered _ => False
  | _ => True

/-- A thread in a call has a next step, unless it waits for the mutex. -/
theorem Fine.exists_step (ha : Fine s a) (hs : Sound s) (hbusy : a.pc.Busy)
    (hlock : a.pc = .lock → s.mutex = none) : ∃ s' a', Step c s a s' a' := by
  obtain ⟨m, hm⟩ := ha.placed
  cases hpc : a.pc with
  | load =>
      obtain ⟨p, v, hload⟩ := exists_load hm .acquire
      cases p with
      | null => exact ⟨_, _, .loadNull hpc hload⟩
      | buffer => exact ⟨_, _, .load hpc hload (by decide)⟩
  | lock => exact ⟨_, _, .lock hpc (hlock hpc)⟩
  | loadAgain =>
      obtain ⟨p, v, hload⟩ := exists_load hm .relaxed
      cases p with
      | null => exact ⟨_, _, .loadAgainNull hpc hload⟩
      | buffer => exact ⟨_, _, .loadAgain hpc hload (by decide)⟩
  | construct => exact ⟨_, _, .construct hpc⟩
  | store =>
      -- nothing is published, so every place but the first is free
      obtain ⟨-, -, hnot⟩ := ha.store hpc
      refine ⟨_, _, .store hpc (.write (Nat.lt_succ_self a.view.stamp) ?_)⟩
      by_contra hused
      obtain ⟨m', hm'⟩ := Option.ne_none_iff_exists'.mp hused
      have hvalue : m'.value = .null := by
        by_contra hne
        exact hnot ⟨_, m', hm', value_of_ne_null hne⟩
      have hzero := (hs.null _ _ hm' hvalue).1
      omega
  | unlock p => exact ⟨_, _, .unlock hpc⟩
  | query =>
      obtain ⟨p, v, hload⟩ := exists_load hm .acquire
      exact ⟨_, _, .query hpc hload⟩
  | returned p =>
      rw [hpc] at hbusy
      exact False.elim hbusy
  | answered b =>
      rw [hpc] at hbusy
      exact False.elim hbusy

/-- **The instance is constructed once, before anybody has it**, under every
    interleaving and whatever the loads are answered with: `T()` is run at most
    once; who is given the instance is given the one object and knows that it
    is constructed, and so does who is told that there is one; who knows of
    the object is never told that there is none; and while a call has not
    returned, some call can go on. -/
theorem instance_once [DecidableEq ι] {first : ι → Bool} {t : Threads (Shared ι) ι Caller}
    (h : Steps (Interleaved Step) (initially first) t) :
    t.shared.constructed ≤ 1
      ∧ (∀ c p, (t.threads c).pc = .returned p →
        p = .buffer ∧ t.shared.constructed = 1 ∧ 1 ≤ (t.threads c).view.known)
      ∧ (∀ c, (t.threads c).pc = .answered true →
        t.shared.constructed = 1 ∧ 1 ≤ (t.threads c).view.known)
      ∧ (∀ c, (t.threads c).pc = .answered false → (t.threads c).view.known = 0)
      ∧ ((∃ c, (t.threads c).pc.Busy) →
        ∃ d u, (t.threads d).pc.Busy ∧ Interleaved Step t d u) := by
  have ht : Inv t := h.invariant (fun ht hstep => ht.step hstep) (inv_initially first)
  refine ⟨ht.sound.once, fun c p hpc => ?_, fun c hpc => ?_, fun c => (ht.fine c).denied, ?_⟩
  · obtain ⟨hp, hpublished, hknown⟩ := (ht.fine c).given p (Or.inr hpc)
    exact ⟨hp, ht.sound.published hpublished, hknown⟩
  · obtain ⟨hpublished, hknown⟩ := (ht.fine c).told hpc
    exact ⟨ht.sound.published hpublished, hknown⟩
  · rintro ⟨c, hbusy⟩
    cases hmutex : t.shared.mutex with
    | none =>
        obtain ⟨s', a', hstep⟩ := (ht.fine c).exists_step ht.sound hbusy (fun _ => hmutex)
        exact ⟨c, _, hbusy, .step hstep⟩
    | some d =>
        -- who holds the mutex waits for nobody
        have hinside := (ht.owner d).mpr hmutex
        have hbusy' : (t.threads d).pc.Busy := by
          cases hpc : (t.threads d).pc with
          | returned p =>
              rw [hpc] at hinside
              exact hinside
          | answered b =>
              rw [hpc] at hinside
              exact hinside
          | _ => exact trivial
        obtain ⟨s', a', hstep⟩ := (ht.fine d).exists_step ht.sound hbusy' (fun hlock => by
          rw [hlock] at hinside
          exact False.elim hinside)
        exact ⟨d, _, hbusy', .step hstep⟩

/-- A thread asks while another has stored the object and not yet unlocked. -/
theorem instance_once_asked : ∃ t : Threads (Shared Bool) Bool Caller,
    Steps (Interleaved Step) (initially (fun c : Bool => c)) t
      ∧ t.shared.mutex = some true ∧ (t.threads false).pc = .answered true
      ∧ t.shared.constructed = 1 ∧ 1 ≤ (t.threads false).view.known := by
  have hnull : Load (initially (fun c : Bool => c)).shared.instance_ .acquire ⟨0, 0⟩ .null ⟨0, 0⟩ :=
    .read (m := ⟨Pointer.null, 0⟩) le_rfl rfl
  have hload : Steps (Interleaved Step) (initially (fun c : Bool => c)) _ :=
    .single (.step (c := true) (.loadNull rfl hnull))
  have hlock := hload.next (.step (c := true) (.lock rfl rfl))
  have hagain := hlock.next
    (.step (c := true) (.loadAgainNull rfl (.read (t := 0) (m := ⟨Pointer.null, 0⟩) le_rfl rfl)))
  have hconstruct := hagain.next (.step (c := true) (.construct rfl))
  have hstore := hconstruct.next
    (.step (c := true) (.store rfl (.write (t := 1) Nat.one_pos rfl)))
  have hquery := hstore.next (.step (c := false)
    (.query rfl (.read (t := 1) (m := ⟨.buffer, 1⟩) (Nat.zero_le 1) rfl)))
  obtain ⟨-, -, htold, -, -⟩ := instance_once hquery
  exact ⟨_, hquery, rfl, rfl, htold false rfl⟩

end Invariant

end LaunchCpp.Singleton
