import ParamServer.Server.History

/-! What a push leaves as it is. No gradient list is checked, but the bounds and guards of the two
loops keep every update within the tensors, and within the elements, that there are. -/

namespace ParamServer

open Library

variable {V : Type} [Scalar V]

@[simp] theorem length_sumTensor (visited : List (List (Tensor V))) (i n : ℕ) :
    (sumTensor visited i n).length = n := by
  unfold sumTensor
  rw [length_foldl_of_step, List.length_replicate]
  intro acc gradVec
  split
  · exact length_zipPrefix ..
  · rfl

/-- A mean differs from the gradients of its push in the data values only. -/
theorem map_spec_averageGradients (ord : VisitOrder)
    (m : InsertionMap Int32 (List (Tensor V))) (gradients : List (Tensor V)) :
    (averageGradients ord m gradients).map Tensor.spec = gradients.map Tensor.spec := by
  apply List.ext_getElem?
  intro i
  rw [averageGradients, List.getElem?_map, List.getElem?_map, List.getElem?_mapIdx,
    Option.map_map]
  congr 1
  funext t
  simp [Tensor.spec]

theorem spec_subtractTensor (p g : Tensor V) : (subtractTensor p g).spec = p.spec := by
  unfold subtractTensor
  split
  · simp [Tensor.spec]
  · rfl

theorem map_spec_aggregate {P : List (Tensor V)} (hP : P ≠ []) (G : List (Tensor V)) :
    (aggregate P G).map Tensor.spec = P.map Tensor.spec := by
  rw [aggregate, if_neg (by simpa using hP)]
  exact map_zipPrefix spec_subtractTensor P G

@[simp] theorem layout_averageGradients (ord : VisitOrder)
    (m : InsertionMap Int32 (List (Tensor V))) (gradients : List (Tensor V)) :
    layout (averageGradients ord m gradients) = layout gradients :=
  layout_congr (map_spec_averageGradients ord m gradients)

theorem layout_aggregate {P : List (Tensor V)} (hP : P ≠ []) (G : List (Tensor V)) :
    layout (aggregate P G) = layout P := layout_congr (map_spec_aggregate hP G)

/-- An element that changes is within the gradient, which bears the name and the shape. -/
theorem getElem?_data_subtractTensor (p g : Tensor V) (j : ℕ) :
    (subtractTensor p g).data[j]? = p.data[j]? ∨
      (g.name = p.name ∧ g.shape = p.shape ∧ j < g.data.length) := by
  by_cases hg : g.name = p.name ∧ g.shape = p.shape
  · by_cases hj : j < g.data.length
    · exact .inr ⟨hg.1, hg.2, hj⟩
    · left
      have hnone : g.data[j]? = none := List.getElem?_eq_none_iff.mpr (Nat.not_lt.mp hj)
      rw [subtractTensor, if_pos hg, getElem?_zipPrefix, hnone]
      exact Option.map_id'
  · left
    rw [subtractTensor, if_neg hg]

theorem getElem?_data_aggregate {P : List (Tensor V)} (hP : P ≠ []) (G : List (Tensor V)) {i : ℕ}
    {a b : Tensor V} (ha : P[i]? = some a) (hb : (aggregate P G)[i]? = some b) (j : ℕ) :
    b.data[j]? = a.data[j]? ∨
      ∃ g, G[i]? = some g ∧ g.name = a.name ∧ g.shape = a.shape ∧ j < g.data.length := by
  rw [aggregate, if_neg (by simpa using hP), getElem?_zipPrefix, ha, Option.map_some,
    Option.some_inj] at hb
  subst hb
  rcases hG : G[i]? with _ | g
  · exact .inl rfl
  · rcases getElem?_data_subtractTensor a g j with hsame | hwithin
    · exact .inl hsame
    · exact .inr ⟨g, rfl, hwithin⟩

namespace ParameterServerCore

variable (ord : VisitOrder) {s : ParameterServerCore V} (hs : s.parameters ≠ [])
include hs

theorem map_spec_receive (p : Push V) :
    (s.receive ord p).2.parameters.map Tensor.spec = s.parameters.map Tensor.spec := by
  rw [receive_parameters]
  split
  · exact map_spec_aggregate hs _
  · rfl

theorem map_spec_runPushes (ps : List (Push V)) :
    (s.runPushes ord ps).parameters.map Tensor.spec = s.parameters.map Tensor.spec := by
  induction ps using List.reverseRecOn with
  | nil => rfl
  | append_singleton ps p ih =>
    have hne : (s.runPushes ord ps).parameters ≠ [] := ne_nil_of_map_spec_eq ih hs
    rw [runPushes_concat, map_spec_receive ord hne p, ih]

/-- No push changes the number of tensors, or anything of a tensor but its data values, and these
only as far as the gradients of a completing push reach under the name and the shape. -/
theorem pushes_keep_layout (ps : List (Push V)) (p : Push V) :
    let t := s.runPushes ord ps
    let t' := (t.receive ord p).2
    t.parameters.map Tensor.spec = s.parameters.map Tensor.spec ∧
    (¬t.Completes p → t'.parameters = t.parameters) ∧
    ∀ (i : ℕ) a b, t.parameters[i]? = some a → t'.parameters[i]? = some b → ∀ j : ℕ,
      b.data[j]? = a.data[j]? ∨ (t.Completes p ∧ ∃ g, p.gradients[i]? = some g ∧
        g.name = a.name ∧ g.shape = a.shape ∧ j < g.data.length) := by
  intro t t'
  have hspec := map_spec_runPushes ord hs ps
  have ht : t.parameters ≠ [] := ne_nil_of_map_spec_eq hspec hs
  have hparams : t'.parameters = if t.Completes p then t.updated ord p else t.parameters :=
    t.receive_parameters ord p
  refine ⟨hspec, fun hc => by rw [hparams, if_neg hc], fun i a b ha hb j => ?_⟩
  by_cases hc : t.Completes p
  · rw [hparams, if_pos hc] at hb
    rcases getElem?_data_aggregate ht _ ha hb j with hsame | ⟨g, hg, hname, hshape, hj⟩
    · exact .inl hsame
    · -- the mean has the layout of the gradients that are pushed
      have hmean := congrArg (·[i]?) (map_spec_averageGradients ord (t.recorded p) p.gradients)
      simp only [List.getElem?_map, hg, Option.map_some] at hmean
      obtain ⟨g', hg', hgspec⟩ := Option.map_eq_some_iff.mp hmean.symm
      simp only [Tensor.spec, TensorSpec.mk.injEq] at hgspec
      obtain ⟨hn, hsh, hlen, -⟩ := hgspec
      exact .inr ⟨hc, g', hg', hn.trans hname, hsh.trans hshape, hlen ▸ hj⟩
  · rw [hparams, if_neg hc, ha] at hb
    rw [Option.some.inj hb]
    exact .inl rfl

omit hs in
/-- A push whose first tensor is longer, whose second one has another shape, and which has one
tensor too many. -/
theorem pushes_keep_layout_ragged :
    let s : ParameterServerCore UInt32 :=
      (new 1).initializeParameters [word 10, ⟨[118], [2], [3, 4], 0⟩]
    let p : Push UInt32 := ⟨0, 0, [⟨[119], [1], [1, 2], 7⟩, ⟨[118], [3], [1, 1], 0⟩, word 5]⟩
    (s.runPushes .insertion [p]).parameters.map Tensor.spec = s.parameters.map Tensor.spec :=
  (pushes_keep_layout .insertion (by decide) [⟨0, 0, [⟨[119], [1], [1, 2], 7⟩,
    ⟨[118], [3], [1, 1], 0⟩, word 5]⟩] ⟨0, 0, []⟩).1

end ParameterServerCore

end ParamServer
