import Mathlib.Order.Lattice
import Mathlib.Data.List.Nodup
import Mathlib.Tactic.Common

/-! # Ordered maps as sorted association lists

    `insertEntry` is assignment through `operator[]` of an ordered map, kept
    on bare lists so that nested data types can hold maps; `OrderedMap` is the
    structure whose values cannot be unsorted.  Reading is `List.lookup`,
    iteration is the list itself.  Two facts carry the users of this file:
    what a lookup sees after an assignment, and that in a map entries and
    lookups say the same. -/

namespace OrderedMaps

variable {K V : Type*} [LinearOrder K]

/-- Assign `v` to `k`: replace the entry of `k`, or put it at its place. -/
def insertEntry (k : K) (v : V) : List (K × V) → List (K × V)
  | [] => [(k, v)]
  | (k', v') :: rest =>
      if k < k' then (k, v) :: (k', v') :: rest
      else if k = k' then (k, v) :: rest
      else (k', v') :: insertEntry k v rest

/-- The value of `k`. -/
def findEntry (k : K) (es : List (K × V)) : Option V := es.lookup k

/-- The entries of a map stand in increasing key order. -/
def SortedKeys (es : List (K × V)) : Prop := es.Pairwise (fun a b => a.1 < b.1)

/-- The first entry, or one behind it. -/
theorem lookup_cons_ite (j k : K) (v : V) (es : List (K × V)) :
    ((k, v) :: es).lookup j = if j = k then some v else es.lookup j := by
  by_cases h : j = k
  · rw [if_pos h, h, List.lookup_cons_self]
  · have hb : (j == k) = false := beq_eq_false_iff_ne.mpr h
    rw [if_neg h, List.lookup_cons, hb]

/-- What an assignment leaves for a reader. -/
theorem lookup_insertEntry (k j : K) (v : V) (es : List (K × V)) :
    (insertEntry k v es).lookup j = if j = k then some v else es.lookup j := by
  induction es with
  | nil => exact lookup_cons_ite j k v []
  | cons e rest ih =>
      obtain ⟨k', v'⟩ := e
      rw [insertEntry]
      by_cases hlt : k < k'
      · rw [if_pos hlt, lookup_cons_ite]
      · rw [if_neg hlt]
        by_cases heq : k = k'
        · subst heq
          rw [if_pos rfl, lookup_cons_ite, lookup_cons_ite]
          by_cases hj : j = k
          · rw [if_pos hj, if_pos hj]
          · rw [if_neg hj, if_neg hj, if_neg hj]
        · rw [if_neg heq, lookup_cons_ite, ih, lookup_cons_ite]
          by_cases hj : j = k'
          · rw [if_pos hj, if_pos hj, if_neg (fun h => heq (h.symm.trans hj))]
          · rw [if_neg hj, if_neg hj]

/-- What leaving a key out leaves for a reader. -/
theorem lookup_filter_ne (k j : K) (es : List (K × V)) :
    (es.filter (fun e => e.1 ≠ k)).lookup j = if j = k then none else es.lookup j := by
  induction es with
  | nil => by_cases h : j = k <;> simp [h]
  | cons e rest ih =>
      rw [List.filter_cons, lookup_cons_ite]
      by_cases he : e.1 = k
      · rw [if_neg (by simpa using he), ih]
        by_cases hj : j = k
        · rw [if_pos hj, if_pos hj]
        · rw [if_neg hj, if_neg hj, if_neg (fun h => hj (h.trans he))]
      · rw [if_pos (by simpa using he), lookup_cons_ite, ih]
        by_cases hj : j = e.1
        · rw [if_pos hj, if_pos hj, if_neg (fun h => he (hj.symm.trans h))]
        · rw [if_neg hj, if_neg hj]

/-- An entry is found where it was put. -/
theorem findEntry_insertEntry_self (k : K) (v : V) (es : List (K × V)) :
    findEntry k (insertEntry k v es) = some v := by
  rw [findEntry]
  rw [lookup_insertEntry, if_pos rfl]

/-- The others are found where they were. -/
theorem findEntry_insertEntry_ne {k j : K} (h : j ≠ k) (v : V) (es : List (K × V)) :
    findEntry j (insertEntry k v es) = findEntry j es := by
  unfold findEntry
  rw [lookup_insertEntry, if_neg h]

/-- The keys are the new one and those that were there. -/
theorem mem_keys_insertEntry {k j : K} {v : V} {es : List (K × V)} :
    j ∈ (insertEntry k v es).map Prod.fst ↔ j = k ∨ j ∈ es.map Prod.fst := by
  induction es with
  | nil => simp [insertEntry]
  | cons e rest ih =>
      obtain ⟨k', v'⟩ := e
      rw [insertEntry]
      by_cases hlt : k < k'
      · simp [hlt]
      · rw [if_neg hlt]
        by_cases heq : k = k'
        · subst heq; simp
        · rw [if_neg heq, List.map_cons, List.mem_cons, ih, List.map_cons,
            List.mem_cons]
          exact or_left_comm

/-- The values are the new one and such as were there. -/
theorem mem_values_insertEntry {k : K} {v w : V} {es : List (K × V)}
    (h : w ∈ (insertEntry k v es).map Prod.snd) : w = v ∨ w ∈ es.map Prod.snd := by
  induction es with
  | nil => exact Or.inl (List.mem_singleton.mp h)
  | cons e rest ih =>
      obtain ⟨k', v'⟩ := e
      rw [insertEntry] at h
      split at h
      · exact List.mem_cons.mp h
      · split at h
        · rcases List.mem_cons.mp h with h | h
          · exact Or.inl h
          · exact Or.inr (List.mem_cons_of_mem _ h)
        · rcases List.mem_cons.mp h with h | h
          · exact Or.inr (List.mem_cons.mpr (Or.inl h))
          · rcases ih h with h | h
            · exact Or.inl h
            · exact Or.inr (List.mem_cons_of_mem _ h)

/-- Entries stay in order. -/
theorem SortedKeys.insertEntry {es : List (K × V)} (h : SortedKeys es) (k : K)
    (v : V) : SortedKeys (insertEntry k v es) := by
  induction es with
  | nil => simp [SortedKeys, OrderedMaps.insertEntry]
  | cons e rest ih =>
      obtain ⟨k', v'⟩ := e
      obtain ⟨hhead, hrest⟩ := List.pairwise_cons.mp h
      rw [OrderedMaps.insertEntry]
      by_cases hlt : k < k'
      · rw [if_pos hlt]
        refine List.pairwise_cons.mpr ⟨?_, h⟩
        intro b hb
        rcases List.mem_cons.mp hb with rfl | hb
        · exact hlt
        · exact lt_trans hlt (hhead b hb)
      · rw [if_neg hlt]
        by_cases heq : k = k'
        · subst heq
          rw [if_pos rfl]
          exact List.pairwise_cons.mpr ⟨hhead, hrest⟩
        · rw [if_neg heq]
          refine List.pairwise_cons.mpr ⟨?_, ih hrest⟩
          intro b hb
          have hbk : b.1 ∈ (OrderedMaps.insertEntry k v rest).map Prod.fst :=
            List.mem_map_of_mem hb
          rcases mem_keys_insertEntry.mp hbk with hk | hk
          · rw [hk]
            exact lt_of_le_of_ne (not_lt.mp hlt) (Ne.symm heq)
          · obtain ⟨c, hc, hcb⟩ := List.mem_map.mp hk
            exact hcb ▸ hhead c hc

/-- Other values, same order. -/
theorem SortedKeys.map {es : List (K × V)} (h : SortedKeys es) (g : V → V) :
    SortedKeys (es.map (fun e => (e.1, g e.2))) := by
  rw [SortedKeys, List.pairwise_map]
  exact h

/-- In order no key stands twice. -/
theorem SortedKeys.nodup {es : List (K × V)} (h : SortedKeys es) :
    (es.map Prod.fst).Nodup :=
  List.Pairwise.map Prod.fst (fun _ _ hlt => ne_of_lt hlt) h

/-- With distinct keys, an entry is what a lookup of its key finds. -/
theorem lookup_eq_some_iff {es : List (K × V)} (h : (es.map Prod.fst).Nodup)
    {k : K} {v : V} : es.lookup k = some v ↔ (k, v) ∈ es := by
  induction es with
  | nil => simp
  | cons e rest ih =>
      obtain ⟨k', v'⟩ := e
      obtain ⟨hnot, hrest⟩ := List.nodup_cons.mp h
      rw [lookup_cons_ite, List.mem_cons]
      by_cases heq : k = k'
      · subst heq
        have hno : (k, v) ∉ rest :=
          fun hm => hnot (List.mem_map.mpr ⟨(k, v), hm, rfl⟩)
        rw [if_pos rfl]
        simp [hno, eq_comm]
      · rw [if_neg heq, ih hrest]
        simp [heq]

/-- A key with an entry is one of the keys. -/
theorem lookup_isSome_iff {es : List (K × V)} {k : K} :
    (es.lookup k).isSome ↔ k ∈ es.map Prod.fst := by
  induction es with
  | nil => simp
  | cons e rest ih =>
      obtain ⟨k', v'⟩ := e
      rw [lookup_cons_ite, List.map_cons, List.mem_cons]
      by_cases heq : k = k'
      · simp [heq]
      · rw [if_neg heq, ih]
        simp [heq]

/-! ## Maps of given entries -/

/-- Assign entries one after another. -/
def insertEntries (es : List (K × V)) (m : List (K × V)) : List (K × V) :=
  es.foldl (fun m e => insertEntry e.1 e.2 m) m

/-- The map of a list of entries. -/
def ofEntries (es : List (K × V)) : List (K × V) := insertEntries es []

/-- A new key makes a new entry. -/
theorem insertEntry_perm {k : K} {v : V} {es : List (K × V)}
    (h : k ∉ es.map Prod.fst) : (insertEntry k v es).Perm ((k, v) :: es) := by
  induction es with
  | nil => exact List.Perm.refl _
  | cons e rest ih =>
      obtain ⟨k', v'⟩ := e
      rw [List.map_cons, List.mem_cons, not_or] at h
      rw [insertEntry]
      by_cases hlt : k < k'
      · rw [if_pos hlt]
      · rw [if_neg hlt, if_neg h.1]
        exact ((ih h.2).cons _).trans (List.Perm.swap _ _ _)

/-- Entries with distinct keys are all kept. -/
theorem insertEntries_perm {es m : List (K × V)}
    (h : ((es ++ m).map Prod.fst).Nodup) : (insertEntries es m).Perm (es ++ m) := by
  induction es generalizing m with
  | nil => exact List.Perm.refl _
  | cons e es ih =>
      obtain ⟨k, v⟩ := e
      have hnot : k ∉ m.map Prod.fst := by
        intro hm
        refine (List.nodup_cons.mp h).1 ?_
        obtain ⟨e, he, hek⟩ := List.mem_map.mp hm
        exact List.mem_map.mpr ⟨e, List.mem_append_right _ he, hek⟩
      have hperm : (es ++ insertEntry k v m).Perm ((k, v) :: es ++ m) :=
        ((insertEntry_perm hnot).append_left es).trans List.perm_middle
      refine (ih ?_).trans hperm
      exact (hperm.map Prod.fst).nodup_iff.mpr h

/-- With distinct keys the map holds the entries it was made of, no more and
    no less. -/
theorem ofEntries_perm {es : List (K × V)} (h : (es.map Prod.fst).Nodup) :
    (ofEntries es).Perm es := by
  have hperm := insertEntries_perm (m := []) (by simpa using h)
  rwa [List.append_nil] at hperm

/-- With distinct keys, a lookup in the map is one in the list it was made of. -/
theorem findEntry_ofEntries {es : List (K × V)} (h : (es.map Prod.fst).Nodup) (k : K) :
    findEntry k (ofEntries es) = findEntry k es := by
  have hperm := ofEntries_perm h
  have hnodup : ((ofEntries es).map Prod.fst).Nodup := (hperm.map Prod.fst).nodup_iff.mpr h
  refine Option.ext (fun v => ?_)
  unfold findEntry
  rw [lookup_eq_some_iff hnodup, lookup_eq_some_iff h]
  exact hperm.mem_iff

/-- The value of a key, whatever is done to all of them. -/
theorem findEntry_map {W : Type*} (g : V → W) (k : K) (es : List (K × V)) :
    findEntry k (es.map (fun e => (e.1, g e.2))) = (findEntry k es).map g := by
  unfold findEntry
  induction es with
  | nil => rfl
  | cons e rest ih =>
      rw [List.map_cons, lookup_cons_ite, lookup_cons_ite, ih]
      by_cases h : k = e.1
      · rw [if_pos h, if_pos h]
        rfl
      · rw [if_neg h, if_neg h]

/-- A map: entries in increasing key order. -/
structure OrderedMap (K V : Type*) [LinearOrder K] where
  entries : List (K × V)
  sorted : SortedKeys entries

namespace OrderedMap

/-- The empty map. -/
def empty : OrderedMap K V := ⟨[], List.Pairwise.nil⟩

/-- `m[k] = v`. -/
def insert (m : OrderedMap K V) (k : K) (v : V) : OrderedMap K V :=
  ⟨insertEntry k v m.entries, m.sorted.insertEntry k v⟩

/-- `m.find(k)`. -/
def find (m : OrderedMap K V) (k : K) : Option V := m.entries.lookup k

/-- `m.erase(k)`. -/
def erase (m : OrderedMap K V) (k : K) : OrderedMap K V :=
  ⟨m.entries.filter (fun e => e.1 ≠ k), m.sorted.filter _⟩

/-- A loop over the entries that assigns to the values. -/
def mapValues (m : OrderedMap K V) (g : V → V) : OrderedMap K V :=
  ⟨m.entries.map (fun e => (e.1, g e.2)), m.sorted.map g⟩

/-- The keys in iteration order. -/
def keys (m : OrderedMap K V) : List K := m.entries.map Prod.fst

@[simp] theorem find_empty (k : K) : (empty : OrderedMap K V).find k = none := rfl

/-- What is found after an insertion. -/
theorem find_insert (m : OrderedMap K V) (k j : K) (v : V) :
    (m.insert k v).find j = if j = k then some v else m.find j :=
  lookup_insertEntry k j v m.entries

/-- What is found after an erasure. -/
theorem find_erase (m : OrderedMap K V) (k j : K) :
    (m.erase k).find j = if j = k then none else m.find j :=
  lookup_filter_ne k j m.entries

/-- What is found after all values have been changed. -/
theorem find_mapValues (m : OrderedMap K V) (g : V → V) (k : K) :
    (m.mapValues g).find k = (m.find k).map g :=
  findEntry_map g k m.entries

/-- No key has two entries. -/
theorem keys_nodup (m : OrderedMap K V) : m.keys.Nodup := m.sorted.nodup

/-- What is found is what is there. -/
theorem find_eq_some_iff {m : OrderedMap K V} {k : K} {v : V} :
    m.find k = some v ↔ (k, v) ∈ m.entries :=
  lookup_eq_some_iff m.keys_nodup

/-- A key is found exactly if it is there. -/
theorem mem_keys_iff {m : OrderedMap K V} {k : K} :
    k ∈ m.keys ↔ ∃ v, m.find k = some v := by
  rw [← Option.isSome_iff_exists]
  exact lookup_isSome_iff.symm

end OrderedMap

end OrderedMaps
