import LaunchCpp.Library.OrderedMap
import Mathlib.Data.List.Perm.Basic

/-! # Unordered maps

    A hash map is a list of entries with distinct keys whose order nobody may
    rely on: what a loop over the map sees is an `Iteration`, ANY permutation
    of the entries. -/

namespace UnorderedMaps

open OrderedMaps

/-- A map: entries with distinct keys. -/
structure UnorderedMap (K V : Type*) where
  entries : List (K × V)
  nodup : (entries.map Prod.fst).Nodup

namespace UnorderedMap

variable {K V : Type*} [LinearOrder K]

/-- The empty map. -/
def empty : UnorderedMap K V := ⟨[], List.nodup_nil⟩

/-- `m.find(k)`. -/
def find (m : UnorderedMap K V) (k : K) : Option V := m.entries.lookup k

/-- The keys. -/
def keys (m : UnorderedMap K V) : List K := m.entries.map Prod.fst

/-- `m[k] = v`. -/
def insert (m : UnorderedMap K V) (k : K) (v : V) : UnorderedMap K V where
  entries := (k, v) :: m.entries.filter (fun e => e.1 ≠ k)
  nodup := by
    refine List.nodup_cons.mpr ⟨?_, m.nodup.sublist (List.filter_sublist.map _)⟩
    intro hmem
    obtain ⟨e, he, hek⟩ := List.mem_map.mp hmem
    simpa [hek] using (List.mem_filter.mp he).2

/-- What a loop over the map may see. -/
def Iteration (m : UnorderedMap K V) : Type _ :=
  { l : List (K × V) // l.Perm m.entries }

theorem mem_keys_insert {m : UnorderedMap K V} {k j : K} {v : V} :
    j ∈ (m.insert k v).keys ↔ j = k ∨ j ∈ m.keys := by
  show j ∈ ((k, v) :: m.entries.filter (fun e => e.1 ≠ k)).map Prod.fst ↔ _
  rw [List.map_cons, List.mem_cons]
  by_cases hj : j = k
  · simp [hj]
  · simp only [hj, false_or]
    constructor
    · intro hmem
      obtain ⟨e, he, rfl⟩ := List.mem_map.mp hmem
      exact List.mem_map_of_mem (List.mem_filter.mp he).1
    · intro hmem
      obtain ⟨e, he, rfl⟩ := List.mem_map.mp hmem
      exact List.mem_map_of_mem (List.mem_filter.mpr ⟨he, by simpa using hj⟩)

theorem find_insert (m : UnorderedMap K V) (k j : K) (v : V) :
    (m.insert k v).find j = if j = k then some v else m.find j := by
  show ((k, v) :: m.entries.filter (fun e => e.1 ≠ k)).lookup j = _
  rw [lookup_cons_ite]
  by_cases hj : j = k
  · rw [if_pos hj, if_pos hj]
  · rw [if_neg hj, if_neg hj, lookup_filter_ne, if_neg hj]
    rfl

theorem find_eq_some_iff {m : UnorderedMap K V} {k : K} {v : V} :
    m.find k = some v ↔ (k, v) ∈ m.entries :=
  lookup_eq_some_iff m.nodup

theorem find_isSome_iff {m : UnorderedMap K V} {k : K} :
    (m.find k).isSome ↔ k ∈ m.keys :=
  lookup_isSome_iff

end UnorderedMap

end UnorderedMaps
