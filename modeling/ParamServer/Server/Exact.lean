import Mathlib.Algebra.BigOperators.Field
import Mathlib.Algebra.Field.Rat
import ParamServer.Server.Receive

/-! The averaging loop in exact arithmetic. Its result no longer depends on the order in which
the worker map is visited: element `j` of tensor `i` is the sum over the recorded workers of
their element there, with missing elements as zero, over their number. -/

namespace ParamServer

open Library

/-- Element `j` of tensor `i`, zero where there is none. -/
def value (ts : List (Tensor ℚ)) (i j : ℕ) : ℚ :=
  ((ts[i]?.bind fun t => t.data[j]?)).getD 0

@[simp] theorem value_nil (i j : ℕ) : value [] i j = 0 := rfl

/-- The mean over the workers of a map of what they recorded for element `j` of tensor `i`. -/
def meanValue (m : InsertionMap Int32 (List (Tensor ℚ))) (i j : ℕ) : ℚ :=
  (∑ w ∈ m.keySet, value ((m.find? w).getD []) i j) / m.size

def meanTensors (m : InsertionMap Int32 (List (Tensor ℚ))) (gradients : List (Tensor ℚ)) :
    List (Tensor ℚ) :=
  gradients.mapIdx fun i t => { t with data := (List.range t.data.length).map (meanValue m i) }

/-- Subtracts `u i j` from element `j` of tensor `i`. -/
def descend (parameters : List (Tensor ℚ)) (u : ℕ → ℕ → ℚ) : List (Tensor ℚ) :=
  parameters.mapIdx fun i t => { t with data := t.data.mapIdx fun j x => x - u i j }

theorem sum_visited (ord : VisitOrder) (m : InsertionMap Int32 (List (Tensor ℚ))) (i j : ℕ) :
    ((ord.visited m).map fun g => value g i j).sum =
      ∑ w ∈ m.keySet, value ((m.find? w).getD []) i j := by
  have hf : ∀ ks : List Int32, ((ks.filterMap m.find?).map fun g => value g i j).sum =
      (ks.map fun w => value ((m.find? w).getD []) i j).sum := by
    intro ks
    induction ks with
    | nil => rfl
    | cons k ks ih =>
      rcases hk : m.find? k with _ | g
      · simp [hk, ih]
      · simp [hk, ih]
  rw [VisitOrder.visited, hf, ((ord.perm m.keys).map _).sum_eq, InsertionMap.keySet,
    List.sum_toFinset _ m.keys_nodup]

theorem sumTensor_eq_foldl (visited : List (List (Tensor ℚ))) (i n : ℕ) :
    sumTensor visited i n =
      (visited.map fun g => (g[i]?.map Tensor.data).getD []).foldl (zipPrefix (· + ·))
        (List.replicate n 0) := by
  rw [sumTensor, List.foldl_map]
  congr 1
  funext acc g
  rcases g[i]? with _ | t
  · exact (zipPrefix_nil_right _ _).symm
  · rfl

theorem sumTensor_eq (visited : List (List (Tensor ℚ))) (i n : ℕ) :
    sumTensor visited i n =
      (List.range n).map fun j => (visited.map fun g => value g i j).sum := by
  apply List.ext_getElem?
  intro j
  rw [sumTensor_eq_foldl, getElem?_foldl_zipPrefix_add, List.getElem?_replicate, List.map_map]
  have hv : ((fun l : List ℚ => l[j]?.getD 0) ∘ fun g : List (Tensor ℚ) =>
      (g[i]?.map Tensor.data).getD []) = fun g => value g i j := by
    funext g
    simp only [Function.comp, value]
    rcases g[i]? with _ | t <;> rfl
  rw [hv]
  by_cases hj : j < n <;> simp [hj]

theorem averageGradients_eq_meanTensors (ord : VisitOrder)
    (m : InsertionMap Int32 (List (Tensor ℚ))) (gradients : List (Tensor ℚ))
    (hm : m.size < 2 ^ 31) : averageGradients ord m gradients = meanTensors m gradients := by
  have hn : ((Int32.ofNat m.size).toInt : ℚ) = m.size := by
    rw [Int32.toInt_ofNat_of_lt hm, Int.cast_natCast]
  have hmean : ∀ i n, (sumTensor (ord.visited m) i n).map
      (Scalar.divCount · (Int32.ofNat m.size)) = (List.range n).map (meanValue m i) := by
    intro i n
    rw [sumTensor_eq, List.map_map]
    simp only [Function.comp_def, sum_visited, Scalar.divCount, hn]
    rfl
  simp only [averageGradients, meanTensors, hmean]

theorem meanValue_congr {m m' : InsertionMap Int32 (List (Tensor ℚ))}
    (h : ∀ w, m.find? w = m'.find? w) : meanValue m = meanValue m' := by
  have hk : m.keySet = m'.keySet := by
    ext w
    rw [InsertionMap.keySet, InsertionMap.keySet, List.mem_toFinset, List.mem_toFinset,
      ← m.find?_isSome_iff, ← m'.find?_isSome_iff, h]
  funext i j
  rw [meanValue, meanValue, ← m.card_keySet, ← m'.card_keySet, hk]
  simp only [h]

section Descend

variable (P : List (Tensor ℚ)) (u v : ℕ → ℕ → ℚ)

@[simp] theorem layout_descend : layout (descend P u) = layout P := by
  apply List.ext_getElem?
  intro i
  simp only [layout, descend, List.getElem?_map, List.getElem?_mapIdx, Option.map_map]
  congr 1
  funext t
  simp [Tensor.layout]

theorem descend_zero : descend P (fun _ _ => 0) = P := by
  have hd : ∀ l : List ℚ, l.mapIdx (fun _ x => x) = l := fun l => by simp [List.mapIdx_eq_iff]
  simp [descend, hd, List.mapIdx_eq_iff]

theorem descend_descend : descend (descend P u) v = descend P (fun i j => u i j + v i j) := by
  simp [descend, List.mapIdx_mapIdx, Function.comp_def, sub_sub]

end Descend

theorem layout_eq_iff {ts us : List (Tensor ℚ)} :
    layout ts = layout us ↔ ∀ i : ℕ, ts[i]?.map Tensor.layout = us[i]?.map Tensor.layout := by
  rw [layout, layout, List.ext_getElem?_iff]
  simp

/-- Lists of one layout have tensors of one name, shape and length in each place. -/
theorem getElem?_of_layout_eq {ts us : List (Tensor ℚ)} (h : layout ts = layout us) (i : ℕ) :
    (ts[i]? = none ∧ us[i]? = none) ∨ ∃ t u, ts[i]? = some t ∧ us[i]? = some u ∧
      t.name = u.name ∧ t.shape = u.shape ∧ t.data.length = u.data.length := by
  have hi := layout_eq_iff.mp h i
  rcases ht : ts[i]? with _ | t
  · rcases hu : us[i]? with _ | u
    · exact .inl ⟨rfl, rfl⟩
    · simp [ht, hu] at hi
  · rcases hu : us[i]? with _ | u
    · simp [ht, hu] at hi
    · rw [ht, hu] at hi
      exact .inr ⟨t, u, rfl, rfl, by simpa [Tensor.layout] using hi⟩

/-- An update in the layout of the parameters passes every guard and bound. -/
theorem aggregate_meanTensors {P G : List (Tensor ℚ)} (hP : P ≠ []) (hl : layout G = layout P)
    (m : InsertionMap Int32 (List (Tensor ℚ))) :
    aggregate P (meanTensors m G) = descend P (meanValue m) := by
  rw [aggregate, if_neg (by simpa using hP), descend, meanTensors]
  apply List.ext_getElem?
  intro i
  rw [getElem?_zipPrefix, List.getElem?_mapIdx, List.getElem?_mapIdx]
  rcases getElem?_of_layout_eq hl i with ⟨hg, hp⟩ | ⟨g, p, hg, hp, hname, hshape, hlen⟩
  · rw [hg, hp]
    rfl
  -- with equal names and shapes the guard passes, with equal lengths no element is left out
  simp only [hg, hp, Option.map_some, Option.elim_some, subtractTensor, hname, hshape, and_self,
    if_true]
  congr 2
  apply List.ext_getElem?
  intro j
  rw [getElem?_zipPrefix, List.getElem?_mapIdx, List.getElem?_map, hlen]
  rcases hj : p.data[j]? with _ | x
  · rfl
  · have hlt := (List.getElem?_eq_some_iff.mp hj).1
    simp [hlt, Scalar.sub]

/-- The update depends on the completing push only through the layout of its gradients, and
through their dtypes when the store is empty. -/
theorem aggregate_meanTensors_congr {P G G' : List (Tensor ℚ)} (hl : layout G = layout G')
    (hd : P = [] → G.map Tensor.dtype = G'.map Tensor.dtype)
    (m : InsertionMap Int32 (List (Tensor ℚ))) :
    aggregate P (meanTensors m G) = aggregate P (meanTensors m G') := by
  by_cases hP : P = []
  · -- the means become the parameters
    subst hP
    simp only [aggregate, List.isEmpty_nil, if_true, meanTensors]
    apply List.ext_getElem?
    intro i
    rw [List.getElem?_mapIdx, List.getElem?_mapIdx]
    rcases getElem?_of_layout_eq hl i with ⟨hg, hg'⟩ | ⟨g, g', hg, hg', hname, hshape, hlen⟩
    · rw [hg, hg']
    · have hdtype : g.dtype = g'.dtype := by
        have hi := congrArg (·[i]?) (hd rfl)
        simpa [hg, hg'] using hi
      simp [hg, hg', hname, hshape, hlen, hdtype]
  · rw [aggregate, aggregate, if_neg (by simpa using hP), if_neg (by simpa using hP)]
    apply List.ext_getElem?
    intro i
    rw [getElem?_zipPrefix, getElem?_zipPrefix, meanTensors, meanTensors, List.getElem?_mapIdx,
      List.getElem?_mapIdx]
    rcases getElem?_of_layout_eq hl i with ⟨hg, hg'⟩ | ⟨g, g', hg, hg', hname, hshape, hlen⟩
    · rw [hg, hg']
    · simp [hg, hg', hname, hshape, hlen, subtractTensor]

end ParamServer
