import ParamServer.Library.Events
import ParamServer.Library.InsertionMap

/-! Histories of items with a sender each, of which a barrier accepts the items up to and
including the one that brings in the `q`-th distinct sender. -/

namespace ParamServer.Library

universe u v w

variable {α : Type u} {κ : Type v} {ν : Type w} [DecidableEq κ]

def senders (key : α → κ) (xs : List α) : Finset κ := (xs.map key).toFinset

@[simp] theorem senders_nil (key : α → κ) : senders key [] = ∅ := rfl

theorem senders_concat (key : α → κ) (xs : List α) (x : α) :
    senders key (xs ++ [x]) = insert (key x) (senders key xs) := by
  ext k
  simp [senders]

theorem card_senders_concat_le (key : α → κ) (xs : List α) (x : α) :
    (senders key (xs ++ [x])).card ≤ (senders key xs).card + 1 := by
  rw [senders_concat]
  exact Finset.card_insert_le ..

theorem card_senders_le_concat (key : α → κ) (xs : List α) (x : α) :
    (senders key xs).card ≤ (senders key (xs ++ [x])).card := by
  rw [senders_concat]
  exact Finset.card_le_card (Finset.subset_insert ..)

def accepted (q : ℕ) (key : α → κ) (xs : List α) : List α :=
  xs.foldl (fun acc x => if q ≤ (senders key acc).card then acc else acc ++ [x]) []

theorem accepted_concat (q : ℕ) (key : α → κ) (xs : List α) (x : α) :
    accepted q key (xs ++ [x]) =
      if q ≤ (senders key (accepted q key xs)).card then accepted q key xs
      else accepted q key xs ++ [x] := by
  rw [accepted, List.foldl_append]
  rfl

theorem accepted_of_card_lt {q : ℕ} {key : α → κ} {xs : List α}
    (h : (senders key xs).card < q) : accepted q key xs = xs := by
  induction xs using List.reverseRecOn with
  | nil => rfl
  | append_singleton xs x ih =>
    have hx : (senders key xs).card < q := (card_senders_le_concat key xs x).trans_lt h
    rw [accepted_concat, ih hx, if_neg (Nat.not_le.mpr hx)]

theorem card_senders_accepted (q : ℕ) (key : α → κ) (xs : List α) :
    (senders key (accepted q key xs)).card = min q (senders key xs).card := by
  induction xs using List.reverseRecOn with
  | nil => simp [accepted]
  | append_singleton xs x ih =>
    have hle := card_senders_le_concat key xs x
    have hge := card_senders_concat_le key xs x
    by_cases hq : q ≤ (senders key xs).card
    · rw [accepted_concat, if_pos (by omega), ih]
      omega
    · rw [accepted_concat, if_neg (by omega), accepted_of_card_lt (Nat.not_le.mp hq)]
      omega

theorem quorum_accepted_iff {q : ℕ} {key : α → κ} {xs : List α} :
    q ≤ (senders key (accepted q key xs)).card ↔ q ≤ (senders key xs).card := by
  rw [card_senders_accepted]
  omega

theorem accepted_concat_of_quorum {q : ℕ} {key : α → κ} {xs : List α}
    (h : q ≤ (senders key xs).card) (x : α) :
    accepted q key (xs ++ [x]) = accepted q key xs := by
  rw [accepted_concat, if_pos (quorum_accepted_iff.mpr h)]

theorem accepted_concat_of_card_lt {q : ℕ} {key : α → κ} {xs : List α}
    (h : (senders key xs).card < q) (x : α) :
    accepted q key (xs ++ [x]) = xs ++ [x] := by
  rw [accepted_concat, accepted_of_card_lt h, if_neg (Nat.not_le.mpr h)]

theorem mem_of_mem_accepted {q : ℕ} {key : α → κ} {xs : List α} {x : α}
    (h : x ∈ accepted q key xs) : x ∈ xs := by
  induction xs using List.reverseRecOn with
  | nil => cases h
  | append_singleton xs y ih =>
    rw [accepted_concat] at h
    split at h
    · exact List.mem_append_left _ (ih h)
    · rcases List.mem_append.mp h with h | h
      · exact List.mem_append_left _ (ih h)
      · exact List.mem_append_right _ h

theorem senders_accepted_of_card_le {q : ℕ} {key : α → κ} {xs : List α}
    (h : (senders key xs).card ≤ q) : senders key (accepted q key xs) = senders key xs := by
  refine Finset.eq_of_subset_of_card_le (fun k hk => ?_) ?_
  · obtain ⟨x, hx, rfl⟩ := List.mem_map.mp (List.mem_toFinset.mp hk)
    exact List.mem_toFinset.mpr (List.mem_map.mpr ⟨x, mem_of_mem_accepted hx, rfl⟩)
  · rw [card_senders_accepted, min_eq_right h]

/-- What a barrier that has its quorum accepted: everything up to the item that completed it. -/
theorem exists_completing {q : ℕ} {key : α → κ} {xs : List α} (hq : 1 ≤ q)
    (h : q ≤ (senders key xs).card) :
    ∃ pre x post, xs = pre ++ x :: post ∧ accepted q key xs = pre ++ [x] ∧
      (senders key pre).card < q := by
  induction xs using List.reverseRecOn with
  | nil => simp at h; omega
  | append_singleton xs y ih =>
    by_cases hx : q ≤ (senders key xs).card
    · obtain ⟨pre, x, post, rfl, ha, hlt⟩ := ih hx
      exact ⟨pre, x, post ++ [y], by simp, by rw [accepted_concat_of_quorum hx, ha], hlt⟩
    · have hlt := Nat.not_le.mp hx
      exact ⟨xs, y, [], rfl, accepted_concat_of_card_lt hlt y, hlt⟩

theorem senders_subset_append (key : α → κ) (xs ys : List α) :
    senders key xs ⊆ senders key (xs ++ ys) := by
  intro k hk
  rw [senders, List.map_append, List.toFinset_append]
  exact Finset.mem_union_left _ hk

/-- A sender is accepted exactly when fewer than `q` senders came before one of its items. -/
theorem mem_senders_accepted_iff {q : ℕ} {key : α → κ} {xs : List α} {k : κ} :
    k ∈ senders key (accepted q key xs) ↔
      ∃ pre x post, xs = pre ++ x :: post ∧ key x = k ∧ (senders key pre).card < q := by
  induction xs using List.reverseRecOn with
  | nil => simp [accepted]
  | append_singleton xs y ih =>
    simp only [concat_eq_append_cons_iff]
    by_cases hq : q ≤ (senders key xs).card
    · rw [accepted_concat_of_quorum hq, ih]
      constructor
      · rintro ⟨pre, x, post, he, hx, hlt⟩
        exact ⟨pre, x, post ++ [y], .inr ⟨post, rfl, he⟩, hx, hlt⟩
      · rintro ⟨pre, x, post, ⟨rfl, -, -⟩ | ⟨mid, -, he⟩, hx, hlt⟩
        · exact absurd hlt (Nat.not_lt.mpr hq)
        · exact ⟨pre, x, mid, he, hx, hlt⟩
    · have hlt := Nat.not_le.mp hq
      have hpre : ∀ pre x mid, xs = pre ++ x :: mid → (senders key pre).card < q := by
        rintro pre x mid rfl
        exact (Finset.card_le_card (senders_subset_append ..)).trans_lt hlt
      rw [accepted_concat_of_card_lt hlt, senders_concat, Finset.mem_insert]
      constructor
      · rintro (rfl | hk)
        · exact ⟨xs, y, [], .inl ⟨rfl, rfl, rfl⟩, rfl, hlt⟩
        · obtain ⟨x, hx, hkey⟩ := List.mem_map.mp (List.mem_toFinset.mp hk)
          obtain ⟨pre, mid, he⟩ := List.append_of_mem hx
          exact ⟨pre, x, mid ++ [y], .inr ⟨mid, rfl, he⟩, hkey, hpre pre x mid he⟩
      · rintro ⟨pre, x, post, ⟨rfl, rfl, -⟩ | ⟨mid, -, rfl⟩, hx, -⟩
        · exact .inl hx.symm
        · refine .inr (List.mem_toFinset.mpr (List.mem_map.mpr ⟨x, by simp, hx⟩))

def lastFrom (key : α → κ) (k : κ) (xs : List α) : Option α :=
  xs.reverse.find? (fun x => key x = k)

theorem lastFrom_concat (key : α → κ) (k : κ) (xs : List α) (x : α) :
    lastFrom key k (xs ++ [x]) = if key x = k then some x else lastFrom key k xs := by
  by_cases h : key x = k <;> simp [lastFrom, h]

theorem mem_of_lastFrom {key : α → κ} {k : κ} {xs : List α} {x : α}
    (h : lastFrom key k xs = some x) : x ∈ xs ∧ key x = k := by
  have hm := List.mem_of_find?_eq_some h
  have hk := List.find?_some h
  exact ⟨List.mem_reverse.mp hm, of_decide_eq_true hk⟩

theorem exists_lastFrom_append {key : α → κ} (xs : List α) {ys : List α} {x : α} (hx : x ∈ ys) :
    ∃ y ∈ ys, key y = key x ∧ lastFrom key (key x) (xs ++ ys) = some y := by
  have hsome : (lastFrom key (key x) ys).isSome := by
    rw [lastFrom, List.find?_isSome]
    exact ⟨x, List.mem_reverse.mpr hx, by simp⟩
  obtain ⟨y, hy⟩ := Option.isSome_iff_exists.mp hsome
  refine ⟨y, (mem_of_lastFrom hy).1, (mem_of_lastFrom hy).2, ?_⟩
  rw [lastFrom, List.reverse_append, List.find?_append, ← lastFrom, hy]
  rfl

theorem lastFrom_eq_some_iff {key : α → κ} {xs : List α} (h : (xs.map key).Nodup) (k : κ)
    (x : α) : lastFrom key k xs = some x ↔ x ∈ xs ∧ key x = k := by
  induction xs using List.reverseRecOn with
  | nil => simp [lastFrom]
  | append_singleton xs y ih =>
    rw [List.map_append, List.nodup_append] at h
    obtain ⟨hxs, -, hy⟩ := h
    rw [lastFrom_concat]
    by_cases hk : key y = k
    · have hx : x ∈ xs → key x ≠ k := fun hm =>
        hk ▸ hy _ (List.mem_map_of_mem hm) _ (by simp)
      rw [if_pos hk, Option.some_inj, List.mem_append, List.mem_singleton]
      constructor
      · rintro rfl
        exact ⟨.inr rfl, hk⟩
      · rintro ⟨hm | rfl, hx'⟩
        · exact absurd hx' (hx hm)
        · rfl
    · rw [if_neg hk, ih hxs, List.mem_append, List.mem_singleton, or_and_right]
      constructor
      · exact .inl
      · rintro (hm | ⟨rfl, hx⟩)
        · exact hm
        · exact absurd hx hk

theorem lastFrom_perm {key : α → κ} {xs ys : List α} (h : xs.Perm ys) (hn : (xs.map key).Nodup)
    (k : κ) : lastFrom key k xs = lastFrom key k ys := by
  ext x
  rw [lastFrom_eq_some_iff hn, lastFrom_eq_some_iff ((h.map key).nodup_iff.mp hn), h.mem_iff]

def recordAll (key : α → κ) (val : α → ν) (xs : List α) : InsertionMap κ ν :=
  xs.foldl (fun m x => m.assign (key x) (val x)) .empty

theorem recordAll_concat (key : α → κ) (val : α → ν) (xs : List α) (x : α) :
    recordAll key val (xs ++ [x]) = (recordAll key val xs).assign (key x) (val x) := by
  rw [recordAll, List.foldl_append]
  rfl

theorem find?_recordAll (key : α → κ) (val : α → ν) (xs : List α) (k : κ) :
    (recordAll key val xs).find? k = (lastFrom key k xs).map val := by
  induction xs using List.reverseRecOn with
  | nil => rfl
  | append_singleton xs x ih =>
    rw [recordAll_concat, lastFrom_concat, InsertionMap.find?_assign, ih]
    by_cases h : key x = k
    · simp [h]
    · rw [if_neg (Ne.symm h), if_neg h]

theorem keySet_recordAll (key : α → κ) (val : α → ν) (xs : List α) :
    (recordAll key val xs).keySet = senders key xs := by
  induction xs using List.reverseRecOn with
  | nil => rfl
  | append_singleton xs x ih =>
    rw [recordAll_concat, InsertionMap.keySet_assign, ih, senders_concat]

theorem size_recordAll (key : α → κ) (val : α → ν) (xs : List α) :
    (recordAll key val xs).size = (senders key xs).card := by
  rw [← InsertionMap.card_keySet, keySet_recordAll]

end ParamServer.Library
