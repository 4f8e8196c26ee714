import Mathlib.Algebra.BigOperators.Group.List.Basic

/-! Updating a list in place by another one, over the shorter of the two lengths. -/

namespace ParamServer.Library

universe u v

variable {α : Type u} {β : Type v}

/-- `for j < as.size() && j < bs.size(): as[j] = f(as[j], bs[j])`. -/
def zipPrefix (f : α → β → α) : List α → List β → List α
  | a :: as, b :: bs => f a b :: zipPrefix f as bs
  | as, [] => as
  | [], _ => []

@[simp] theorem zipPrefix_nil_right (f : α → β → α) (as : List α) : zipPrefix f as [] = as := by
  cases as <;> rfl

@[simp] theorem zipPrefix_nil_left (f : α → β → α) (bs : List β) : zipPrefix f [] bs = [] := by
  cases bs <;> rfl

@[simp] theorem zipPrefix_cons (f : α → β → α) (a : α) (as : List α) (b : β) (bs : List β) :
    zipPrefix f (a :: as) (b :: bs) = f a b :: zipPrefix f as bs := rfl

@[simp] theorem length_zipPrefix (f : α → β → α) (as : List α) (bs : List β) :
    (zipPrefix f as bs).length = as.length := by
  induction as generalizing bs with
  | nil => simp
  | cons a as ih => cases bs <;> simp [ih]

theorem getElem?_zipPrefix (f : α → β → α) (as : List α) (bs : List β) (j : ℕ) :
    (zipPrefix f as bs)[j]? = as[j]?.map fun a => bs[j]?.elim a (f a) := by
  induction as generalizing bs j with
  | nil => simp
  | cons a as ih =>
    cases bs with
    | nil => simp
    | cons b bs => cases j <;> simp [ih]

/-- What no update changes is not changed by all of them. -/
theorem map_zipPrefix {γ : Type*} {f : α → β → α} {g : α → γ} (hf : ∀ a b, g (f a b) = g a)
    (as : List α) (bs : List β) : (zipPrefix f as bs).map g = as.map g := by
  apply List.ext_getElem?
  intro i
  rw [List.getElem?_map, List.getElem?_map, getElem?_zipPrefix, Option.map_map]
  congr 1
  funext a
  rcases bs[i]? with _ | b
  · rfl
  · exact hf a b

theorem zipPrefix_right_comm {f : α → β → α} (hf : ∀ a b c, f (f a b) c = f (f a c) b)
    (as : List α) (bs cs : List β) :
    zipPrefix f (zipPrefix f as bs) cs = zipPrefix f (zipPrefix f as cs) bs := by
  induction as generalizing bs cs with
  | nil => simp
  | cons a as ih =>
    cases bs with
    | nil => simp
    | cons b bs =>
      cases cs with
      | nil => simp
      | cons c cs => rw [zipPrefix_cons, zipPrefix_cons, zipPrefix_cons, zipPrefix_cons, hf, ih]

section Sum

variable {M : Type u} [AddCommMonoid M]

theorem getElem?_foldl_zipPrefix_add (ls : List (List M)) (acc : List M) (j : ℕ) :
    (ls.foldl (zipPrefix (· + ·)) acc)[j]? =
      acc[j]?.map (· + (ls.map fun l => l[j]?.getD 0).sum) := by
  induction ls generalizing acc with
  | nil => simp
  | cons l ls ih =>
    rw [List.foldl_cons, ih, getElem?_zipPrefix, Option.map_map]
    congr 1
    funext a
    rcases hx : l[j]? with _ | x <;> simp [hx, add_assoc]

end Sum

theorem length_foldl_of_step {f : List α → β → List α}
    (hf : ∀ acc x, (f acc x).length = acc.length) (xs : List β) (acc : List α) :
    (xs.foldl f acc).length = acc.length := by
  induction xs generalizing acc with
  | nil => rfl
  | cons x xs ih =>
    rw [List.foldl_cons, ih]
    exact hf acc x

end ParamServer.Library
