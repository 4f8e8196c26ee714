import Mathlib.Data.List.Nodup
import Mathlib.Data.Finset.Card
import Mathlib.Data.Finset.Dedup

/-! Finite maps that keep the order in which their keys were first inserted. Overwriting a
key leaves its place, so `keys` is the insertion history on which the visit order of a hash
table depends. -/

namespace ParamServer.Library

universe u v

@[ext] structure InsertionMap (κ : Type u) (ν : Type v) where
  entries : List (κ × ν)
  nodup : (entries.map Prod.fst).Nodup

namespace InsertionMap

variable {κ : Type u} {ν : Type v}

def empty : InsertionMap κ ν := ⟨[], List.nodup_nil⟩

def keys (m : InsertionMap κ ν) : List κ := m.entries.map Prod.fst

def size (m : InsertionMap κ ν) : ℕ := m.entries.length

theorem keys_nodup (m : InsertionMap κ ν) : m.keys.Nodup := m.nodup

theorem size_eq_length_keys (m : InsertionMap κ ν) : m.size = m.keys.length :=
  (List.length_map ..).symm

@[simp] theorem entries_empty : (empty : InsertionMap κ ν).entries = [] := rfl

@[simp] theorem keys_empty : (empty : InsertionMap κ ν).keys = [] := rfl

@[simp] theorem size_empty : (empty : InsertionMap κ ν).size = 0 := rfl

variable [DecidableEq κ]

def find? (m : InsertionMap κ ν) (k : κ) : Option ν := m.entries.lookup k

/-- Overwrites the entry of `k` in place, or appends one. -/
def assignEntries (k : κ) (v : ν) : List (κ × ν) → List (κ × ν)
  | [] => [(k, v)]
  | e :: es => if e.1 = k then (k, v) :: es else e :: assignEntries k v es

theorem keys_assignEntries (k : κ) (v : ν) (es : List (κ × ν)) :
    (assignEntries k v es).map Prod.fst =
      if k ∈ es.map Prod.fst then es.map Prod.fst else es.map Prod.fst ++ [k] := by
  induction es with
  | nil => rfl
  | cons e es ih =>
    by_cases he : e.1 = k
    · simp [assignEntries, he]
    · have hk : k ≠ e.1 := fun h => he h.symm
      simp only [assignEntries, if_neg he, List.map_cons, ih, List.mem_cons, hk, false_or]
      split <;> simp

theorem nodup_assignEntries (k : κ) (v : ν) {es : List (κ × ν)}
    (h : (es.map Prod.fst).Nodup) : ((assignEntries k v es).map Prod.fst).Nodup := by
  rw [keys_assignEntries]
  split
  · exact h
  · rename_i hk
    exact List.Nodup.append h (List.nodup_singleton k) (by simpa using hk)

def assign (m : InsertionMap κ ν) (k : κ) (v : ν) : InsertionMap κ ν :=
  ⟨assignEntries k v m.entries, nodup_assignEntries k v m.nodup⟩

@[simp] theorem find?_empty (k : κ) : (empty : InsertionMap κ ν).find? k = none := rfl

theorem lookup_cons_ite (k j : κ) (v : ν) (es : List (κ × ν)) :
    ((k, v) :: es).lookup j = if j = k then some v else es.lookup j := by
  rw [List.lookup_cons]
  by_cases hj : j = k
  · simp [hj]
  · simp only [beq_eq_false_iff_ne.mpr hj, if_neg hj]

theorem lookup_assignEntries (k j : κ) (v : ν) (es : List (κ × ν)) :
    (assignEntries k v es).lookup j = if j = k then some v else es.lookup j := by
  induction es with
  | nil => rw [assignEntries, lookup_cons_ite]
  | cons e es ih =>
    obtain ⟨c, w⟩ := e
    by_cases hc : c = k
    · subst hc
      simp only [assignEntries, if_true, lookup_cons_ite]
      split <;> rfl
    · simp only [assignEntries, if_neg hc, lookup_cons_ite, ih]
      split_ifs with h1 h2 <;> first | rfl | exact absurd (h1.symm.trans h2) hc

theorem find?_assign (m : InsertionMap κ ν) (k j : κ) (v : ν) :
    (m.assign k v).find? j = if j = k then some v else m.find? j :=
  lookup_assignEntries k j v m.entries

@[simp] theorem find?_assign_self (m : InsertionMap κ ν) (k : κ) (v : ν) :
    (m.assign k v).find? k = some v := by rw [find?_assign, if_pos rfl]

theorem find?_assign_ne (m : InsertionMap κ ν) {k j : κ} (h : j ≠ k) (v : ν) :
    (m.assign k v).find? j = m.find? j := by rw [find?_assign, if_neg h]

theorem keys_assign (m : InsertionMap κ ν) (k : κ) (v : ν) :
    (m.assign k v).keys = if k ∈ m.keys then m.keys else m.keys ++ [k] :=
  keys_assignEntries k v m.entries

theorem lookup_isSome_iff (es : List (κ × ν)) (k : κ) :
    (es.lookup k).isSome ↔ k ∈ es.map Prod.fst := by
  induction es with
  | nil => simp
  | cons e es ih =>
    obtain ⟨c, w⟩ := e
    rw [lookup_cons_ite]
    by_cases hc : k = c
    · simp [hc]
    · rw [if_neg hc, ih, List.map_cons, List.mem_cons, or_iff_right hc]

theorem find?_isSome_iff (m : InsertionMap κ ν) (k : κ) : (m.find? k).isSome ↔ k ∈ m.keys :=
  lookup_isSome_iff m.entries k

theorem mem_keys_assign (m : InsertionMap κ ν) (k j : κ) (v : ν) :
    j ∈ (m.assign k v).keys ↔ j = k ∨ j ∈ m.keys := by
  rw [keys_assign]
  split
  · rename_i hk
    constructor
    · exact Or.inr
    · rintro (rfl | h)
      · exact hk
      · exact h
  · simp [or_comm]

def keySet (m : InsertionMap κ ν) : Finset κ := m.keys.toFinset

theorem card_keySet (m : InsertionMap κ ν) : m.keySet.card = m.size := by
  rw [keySet, List.toFinset_card_of_nodup m.keys_nodup, size_eq_length_keys]

theorem keySet_assign (m : InsertionMap κ ν) (k : κ) (v : ν) :
    (m.assign k v).keySet = insert k m.keySet := by
  ext j
  simp [keySet, mem_keys_assign]

theorem mem_keySet_iff (m : InsertionMap κ ν) (k : κ) : k ∈ m.keySet ↔ ∃ v, m.find? k = some v := by
  rw [keySet, List.mem_toFinset, ← find?_isSome_iff, Option.isSome_iff_exists]

theorem one_le_size_assign (m : InsertionMap κ ν) (k : κ) (v : ν) : 1 ≤ (m.assign k v).size := by
  rw [← card_keySet, keySet_assign]
  exact Finset.card_pos.mpr (Finset.insert_nonempty ..)

theorem size_assign_le (m : InsertionMap κ ν) (k : κ) (v : ν) :
    (m.assign k v).size ≤ m.size + 1 := by
  rw [← card_keySet, ← card_keySet, keySet_assign]
  exact Finset.card_insert_le ..

theorem size_assign_of_mem {m : InsertionMap κ ν} {k : κ} (h : k ∈ m.keySet) (v : ν) :
    (m.assign k v).size = m.size := by
  rw [← card_keySet, keySet_assign, Finset.insert_eq_of_mem h, card_keySet]

theorem size_assign_of_notMem {m : InsertionMap κ ν} {k : κ} (h : k ∉ m.keySet) (v : ν) :
    (m.assign k v).size = m.size + 1 := by
  rw [← card_keySet, keySet_assign, Finset.card_insert_of_notMem h, card_keySet]

theorem lookup_eq_some_iff {es : List (κ × ν)} (hn : (es.map Prod.fst).Nodup) (k : κ) (v : ν) :
    es.lookup k = some v ↔ (k, v) ∈ es := by
  induction es with
  | nil => simp
  | cons e es ih =>
    obtain ⟨c, w⟩ := e
    rw [List.map_cons, List.nodup_cons] at hn
    rw [lookup_cons_ite]
    by_cases hc : k = c
    · subst hc
      have hk : ∀ u, (k, u) ∉ es := fun u h => hn.1 (List.mem_map.mpr ⟨(k, u), h, rfl⟩)
      simp [hk, eq_comm]
    · rw [if_neg hc, ih hn.2]
      simp [hc]

theorem find?_eq_some_iff (m : InsertionMap κ ν) (k : κ) (v : ν) :
    m.find? k = some v ↔ (k, v) ∈ m.entries := lookup_eq_some_iff m.nodup k v

theorem assignEntries_of_mem {k : κ} {v : ν} {es : List (κ × ν)}
    (hn : (es.map Prod.fst).Nodup) (h : (k, v) ∈ es) : assignEntries k v es = es := by
  induction es with
  | nil => cases h
  | cons e es ih =>
    rw [List.map_cons, List.nodup_cons] at hn
    by_cases he : e.1 = k
    · rcases List.mem_cons.mp h with rfl | hm
      · simp [assignEntries]
      · exact absurd (List.mem_map.mpr ⟨(k, v), hm, he.symm⟩) hn.1
    · have hm : (k, v) ∈ es := by
        rcases List.mem_cons.mp h with rfl | hm
        · exact absurd rfl he
        · exact hm
      rw [assignEntries, if_neg he, ih hn.2 hm]

/-- Writing what is there changes nothing, not even the order. -/
theorem assign_of_find?_eq_some {m : InsertionMap κ ν} {k : κ} {v : ν} (h : m.find? k = some v) :
    m.assign k v = m :=
  InsertionMap.ext (assignEntries_of_mem m.nodup ((m.find?_eq_some_iff k v).mp h))

theorem assignEntries_assignEntries (k : κ) (v w : ν) (es : List (κ × ν)) :
    assignEntries k w (assignEntries k v es) = assignEntries k w es := by
  induction es with
  | nil => simp [assignEntries]
  | cons e es ih =>
    by_cases he : e.1 = k
    · simp [assignEntries, he]
    · simp only [assignEntries, if_neg he, ih]

theorem assign_assign (m : InsertionMap κ ν) (k : κ) (v w : ν) :
    (m.assign k v).assign k w = m.assign k w :=
  InsertionMap.ext (assignEntries_assignEntries k v w m.entries)

def filter (m : InsertionMap κ ν) (p : ν → Bool) : InsertionMap κ ν :=
  ⟨m.entries.filter fun e => p e.2, m.nodup.sublist (List.filter_sublist.map Prod.fst)⟩

theorem find?_filter (m : InsertionMap κ ν) (p : ν → Bool) (k : κ) :
    (m.filter p).find? k = (m.find? k).filter p := by
  ext v
  rw [Option.filter_eq_some_iff, find?_eq_some_iff, find?_eq_some_iff, filter, List.mem_filter]

/-- The values in an order of the keys. -/
def inOrder (m : InsertionMap κ ν) (ks : List κ) : List ν := ks.filterMap m.find?

theorem mem_inOrder_iff {m : InsertionMap κ ν} {ks : List κ} (h : ks.Perm m.keys) (v : ν) :
    v ∈ m.inOrder ks ↔ ∃ k, m.find? k = some v := by
  rw [inOrder, List.mem_filterMap]
  constructor
  · rintro ⟨k, -, hk⟩
    exact ⟨k, hk⟩
  · rintro ⟨k, hk⟩
    refine ⟨k, h.mem_iff.mpr ?_, hk⟩
    rw [← find?_isSome_iff, hk]
    rfl

theorem length_inOrder {m : InsertionMap κ ν} {ks : List κ} (h : ks.Perm m.keys) :
    (m.inOrder ks).length = m.size := by
  rw [size_eq_length_keys, ← h.length_eq, inOrder, List.filterMap_length_eq_length]
  exact fun k hk => (m.find?_isSome_iff k).mpr (h.mem_iff.mp hk)

/-- Values that tell their own key. -/
theorem map_inOrder {m : InsertionMap κ ν} {ks : List κ} (h : ks.Perm m.keys) {key : ν → κ}
    (hkey : ∀ k v, m.find? k = some v → key v = k) : (m.inOrder ks).map key = ks := by
  have hsome : ∀ k ∈ ks, (m.find? k).map key = some k := by
    intro k hk
    obtain ⟨v, hv⟩ := Option.isSome_iff_exists.mp ((m.find?_isSome_iff k).mpr (h.mem_iff.mp hk))
    rw [hv, Option.map_some, hkey k v hv]
  rw [inOrder, List.map_filterMap, List.filterMap_congr hsome, List.filterMap_some]

end InsertionMap

end ParamServer.Library
