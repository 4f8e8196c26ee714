import Mathlib.Data.List.Basic
import Mathlib.Data.List.Induction
import Mathlib.Data.List.Perm.Basic

/-! Lists of events: where an event stands in a history, and the subsequences of events with one
key, which two interleavings of the same threads have in common. -/

namespace ParamServer.Library

universe u v

variable {α : Type u} {κ : Type v}

theorem concat_eq_append_cons_iff {xs pre post : List α} {x y : α} :
    xs ++ [y] = pre ++ x :: post ↔
      (pre = xs ∧ x = y ∧ post = []) ∨ ∃ mid, post = mid ++ [y] ∧ xs = pre ++ x :: mid := by
  constructor
  · intro h
    rcases List.eq_nil_or_concat post with rfl | ⟨mid, z, rfl⟩
    · obtain ⟨hxs, hy⟩ := List.append_inj' h rfl
      exact .inl ⟨hxs.symm, (List.cons_eq_cons.mp hy).1.symm, rfl⟩
    · rw [List.concat_eq_append, ← List.cons_append, ← List.append_assoc] at h
      obtain ⟨hxs, hy⟩ := List.append_inj' h rfl
      rw [List.concat_eq_append, List.cons_eq_cons.mp hy |>.1]
      exact .inr ⟨mid, rfl, hxs⟩
  · rintro (⟨rfl, rfl, rfl⟩ | ⟨mid, rfl, rfl⟩)
    · rfl
    · simp

/-- `x` is the last of the items with `p`, and `post` is what comes after it. -/
def LastAt (p : α → Prop) (xs : List α) (x : α) (post : List α) : Prop :=
  (∃ pre, xs = pre ++ x :: post) ∧ p x ∧ ∀ y ∈ post, ¬p y

theorem lastAt_concat_of_pos {p : α → Prop} {xs post : List α} {x y : α} (hy : p y) :
    LastAt p (xs ++ [y]) x post ↔ x = y ∧ post = [] := by
  constructor
  · rintro ⟨⟨pre, he⟩, -, hpost⟩
    rcases concat_eq_append_cons_iff.mp he with ⟨-, hx, hp⟩ | ⟨mid, rfl, -⟩
    · exact ⟨hx, hp⟩
    · exact absurd hy (hpost y (by simp))
  · rintro ⟨rfl, rfl⟩
    exact ⟨⟨xs, rfl⟩, hy, by simp⟩

theorem lastAt_concat_of_neg {p : α → Prop} {xs post : List α} {x y : α} (hy : ¬p y) :
    LastAt p (xs ++ [y]) x post ↔ ∃ mid, post = mid ++ [y] ∧ LastAt p xs x mid := by
  constructor
  · rintro ⟨⟨pre, he⟩, hx, hpost⟩
    rcases concat_eq_append_cons_iff.mp he with ⟨-, rfl, -⟩ | ⟨mid, rfl, rfl⟩
    · exact absurd hx hy
    · exact ⟨mid, rfl, ⟨pre, rfl⟩, hx, fun z hz => hpost z (by simp [hz])⟩
  · rintro ⟨mid, rfl, ⟨pre, rfl⟩, hx, hpost⟩
    refine ⟨⟨pre, by simp⟩, hx, fun z hz => ?_⟩
    rcases List.mem_append.mp hz with hz | hz
    · exact hpost z hz
    · rwa [List.mem_singleton.mp hz]

theorem LastAt.unique {p : α → Prop} {xs post post' : List α} {x x' : α}
    (h : LastAt p xs x post) (h' : LastAt p xs x' post') : x = x' ∧ post = post' := by
  induction xs using List.reverseRecOn generalizing post post' with
  | nil =>
    obtain ⟨⟨pre, he⟩, -⟩ := h
    simp at he
  | append_singleton xs y ih =>
    by_cases hy : p y
    · obtain ⟨rfl, rfl⟩ := (lastAt_concat_of_pos hy).mp h
      obtain ⟨rfl, rfl⟩ := (lastAt_concat_of_pos hy).mp h'
      exact ⟨rfl, rfl⟩
    · obtain ⟨mid, rfl, hm⟩ := (lastAt_concat_of_neg hy).mp h
      obtain ⟨mid', rfl, hm'⟩ := (lastAt_concat_of_neg hy).mp h'
      obtain ⟨rfl, rfl⟩ := ih hm hm'
      exact ⟨rfl, rfl⟩

/-- `C` holds of each item and the items before it. -/
def AtEach (C : List α → α → Prop) (xs : List α) : Prop :=
  ∀ pre x post, xs = pre ++ x :: post → C pre x

theorem atEach_nil (C : List α → α → Prop) : AtEach C [] := fun pre x post h => by simp at h

theorem atEach_concat_iff {C : List α → α → Prop} {xs : List α} {x : α} :
    AtEach C (xs ++ [x]) ↔ AtEach C xs ∧ C xs x := by
  constructor
  · intro h
    exact ⟨fun pre y post he => h pre y (post ++ [x]) (by rw [he]; simp), h xs x [] rfl⟩
  · rintro ⟨h, hx⟩ pre y post he
    rcases concat_eq_append_cons_iff.mp he with ⟨rfl, rfl, -⟩ | ⟨mid, -, he⟩
    · exact hx
    · exact h pre y mid he

/-- The histories agree thread by thread. -/
def Interleaved [DecidableEq κ] (key : α → κ) (xs ys : List α) : Prop :=
  ∀ k, xs.filter (fun x => key x = k) = ys.filter (fun x => key x = k)

namespace Interleaved

variable [DecidableEq κ] {key : α → κ} {xs ys : List α}

theorem mem_iff (h : Interleaved key xs ys) (x : α) : x ∈ xs ↔ x ∈ ys := by
  have hx : ∀ zs : List α, x ∈ zs ↔ x ∈ zs.filter fun z => key z = key x := by
    intro zs
    simp
  rw [hx xs, hx ys, h]

theorem perm (h : Interleaved key xs ys) : xs.Perm ys := by
  classical
  rw [List.perm_iff_count]
  intro x
  have hx : ∀ zs : List α, zs.count x = (zs.filter fun z => key z = key x).count x := by
    intro zs
    rw [List.count_filter (by simp)]
  rw [hx xs, hx ys, h]

end Interleaved

end ParamServer.Library
