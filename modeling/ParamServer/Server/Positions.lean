import ParamServer.Server.ArrivalOrder
import ParamServer.Server.Frame

/-! Which gradient a parameter is updated with. Tensors are paired by their position, in the
averaging loop and in the update, and names are only looked at when the mean is applied. -/

namespace ParamServer

open Library

/-- Element `j` of the tensor with the given name, zero where there is none. -/
def valueNamed (ts : List (Tensor ℚ)) (name : List UInt8) (j : ℕ) : ℚ :=
  ((ts.find? fun t => t.name = name).bind fun t => t.data[j]?).getD 0

theorem value_eq_valueNamed {ts : List (Tensor ℚ)} (h : (ts.map Tensor.name).Nodup) {i : ℕ}
    {t : Tensor ℚ} (ht : ts[i]? = some t) (j : ℕ) : value ts i j = valueNamed ts t.name j := by
  have hfind : ts.find? (fun u => u.name = t.name) = some t := by
    have hmem := List.mem_of_getElem? ht
    rcases hf : ts.find? (fun u => u.name = t.name) with _ | u
    · have hnone := List.find?_eq_none.mp hf t hmem
      simp at hnone
    · have hname : u.name = t.name := by simpa using List.find?_some hf
      rw [hf, List.inj_on_of_nodup_map h (List.mem_of_find?_eq_some hf) hmem hname]
  rw [value, valueNamed, ht, hfind]

/-- Every worker counts once in the mean of a round of pushes. -/
theorem meanValue_recordAll {ps : List (Push ℚ)} (hw : (ps.map Push.workerId).Nodup) (i j : ℕ) :
    meanValue (recordAll Push.workerId Push.gradients ps) i j =
      (ps.map fun r => value r.gradients i j).sum / ps.length := by
  have hsize : (recordAll Push.workerId Push.gradients ps).size = ps.length := by
    rw [size_recordAll, senders, List.toFinset_card_of_nodup hw, List.length_map]
  rw [meanValue, hsize, keySet_recordAll, senders, List.sum_toFinset _ hw, List.map_map]
  congr 2
  apply List.map_congr_left
  intro r hr
  have hlast : lastFrom Push.workerId r.workerId ps = some r :=
    (lastFrom_eq_some_iff hw r.workerId r).mpr ⟨hr, rfl⟩
  rw [Function.comp_apply, find?_recordAll, hlast]
  rfl

section Layouts

variable {P G : List (Tensor ℚ)} (hG : (layout G).Perm (layout P))
include hG

theorem nodup_names_of_perm (hP : (P.map Tensor.name).Nodup) : (G.map Tensor.name).Nodup := by
  have hnames : ∀ ts : List (Tensor ℚ), ts.map Tensor.name = (layout ts).map Prod.fst := by
    intro ts
    rw [layout, List.map_map]
    rfl
  rw [hnames] at hP ⊢
  exact (hG.map Prod.fst).nodup_iff.mpr hP

/-- A gradient with the name of a parameter has its shape and its length. -/
theorem layout_eq_of_name_eq (hP : (P.map Tensor.name).Nodup) {a g : Tensor ℚ} (ha : a ∈ P)
    (hg : g ∈ G) (hname : g.name = a.name) : g.layout = a.layout := by
  have hmem : g.layout ∈ layout P := hG.mem_iff.mp (List.mem_map_of_mem hg)
  obtain ⟨a', ha', hl⟩ := List.mem_map.mp hmem
  have hname' : a'.name = a.name := (congrArg Prod.fst hl).trans hname
  rw [← hl, List.inj_on_of_nodup_map hP ha' ha hname']

end Layouts

/-- The update of a tensor whose name is that of the gradient, or is not. -/
theorem getElem?_subtractTensor_mean {a g : Tensor ℚ} (hl : g.name = a.name → g.layout = a.layout)
    (mean : ℕ → ℚ) (j : ℕ) :
    (subtractTensor a { g with data := (List.range g.data.length).map mean }).data[j]? =
      a.data[j]?.map fun x => if g.name = a.name then x - mean j else x := by
  by_cases hname : g.name = a.name
  · have hlayout := hl hname
    simp only [Tensor.layout, Prod.mk.injEq] at hlayout
    obtain ⟨-, hshape, hlen⟩ := hlayout
    rw [subtractTensor, if_pos ⟨hname, hshape⟩, getElem?_zipPrefix, hlen, List.getElem?_map]
    rcases hj : a.data[j]? with _ | x
    · rfl
    · have hlt := (List.getElem?_eq_some_iff.mp hj).1
      simp [hlt, hname, Scalar.sub]
  · rw [subtractTensor, if_neg fun h => hname h.1]
    simp [hname]

namespace ParameterServerCore

/-- After a round of `N` pushes, a parameter has lost the mean of the tensors at its own position,
provided the completing push has its name there, and is as it was otherwise. Where all workers
have its name there, that mean is the one of the gradients under its name. -/
theorem average_by_position (ord : VisitOrder) {s : ParameterServerCore ℚ}
    (hN : 1 ≤ s.totalWorkers.toInt) (hP : s.parameters ≠ [])
    (hnames : (s.parameters.map Tensor.name).Nodup) {k : Int32}
    (hk : s.iterationStates.find? k = none) {qs : List (Push ℚ)} {p : Push ℚ}
    (hi : ∀ r ∈ qs ++ [p], r.iteration = k) (hw : ((qs ++ [p]).map Push.workerId).Nodup)
    (hlen : (qs ++ [p]).length = s.totalWorkers.toInt.toNat)
    (hG : ∀ r ∈ qs ++ [p], (layout r.gradients).Perm (layout s.parameters)) :
    let n : ℚ := s.totalWorkers.toInt
    let t := s.runPushes ord (qs ++ [p])
    t.parameters.length = s.parameters.length ∧
    ∀ (i : ℕ) a, s.parameters[i]? = some a → ∃ b g, t.parameters[i]? = some b ∧
      p.gradients[i]? = some g ∧ b.spec = a.spec ∧
      (∀ j : ℕ, b.data[j]? = a.data[j]?.map fun x => if g.name = a.name then
        x - ((qs ++ [p]).map fun r => value r.gradients i j).sum / n else x) ∧
      ((∀ r ∈ qs ++ [p], r.gradients[i]?.map Tensor.name = some a.name) →
        ∀ j : ℕ, b.data[j]? = a.data[j]?.map fun x =>
          x - ((qs ++ [p]).map fun r => valueNamed r.gradients a.name j).sum / n) := by
  intro n t
  have hn : ((qs ++ [p]).length : ℚ) = n := by
    have hcast : ((s.totalWorkers.toInt.toNat : ℤ) : ℚ) = n := by
      rw [Int.toNat_of_nonneg (by omega)]
    rw [hlen, ← hcast, Int.cast_natCast]
  have hGp := hG p (by simp)
  have ht : t.parameters = zipPrefix subtractTensor s.parameters
      (meanTensors (recordAll Push.workerId Push.gradients (qs ++ [p])) p.gradients) := by
    have hround := parameters_runPushes_round ord hN hk hi hw hlen
    rwa [aggregate, if_neg (by simpa using hP)] at hround
  refine ⟨by rw [ht, length_zipPrefix], fun i a ha => ?_⟩
  have hcount : p.gradients.length = s.parameters.length := by
    simpa [layout] using hGp.length_eq
  obtain ⟨g, hg⟩ : ∃ g, p.gradients[i]? = some g := by
    have hilt := (List.getElem?_eq_some_iff.mp ha).1
    exact ⟨_, List.getElem?_eq_getElem (hcount ▸ hilt)⟩
  have hlayout := layout_eq_of_name_eq hGp hnames (List.mem_of_getElem? ha)
    (List.mem_of_getElem? hg)
  let mean : ℕ → ℚ := meanValue (recordAll Push.workerId Push.gradients (qs ++ [p])) i
  have hb : t.parameters[i]? = some
      (subtractTensor a { g with data := (List.range g.data.length).map mean }) := by
    rw [ht, getElem?_zipPrefix, ha, meanTensors, List.getElem?_mapIdx, hg]
    rfl
  have hmean : ∀ j, mean j = ((qs ++ [p]).map fun r => value r.gradients i j).sum / n := by
    intro j
    rw [← hn]
    exact meanValue_recordAll hw i j
  have hdata : ∀ j : ℕ,
      (subtractTensor a { g with data := (List.range g.data.length).map mean }).data[j]? =
        a.data[j]?.map fun x => if g.name = a.name then
          x - ((qs ++ [p]).map fun r => value r.gradients i j).sum / n else x := by
    intro j
    rw [getElem?_subtractTensor_mean hlayout mean j, hmean]
  refine ⟨_, g, hb, hg, spec_subtractTensor a _, hdata, fun hall j => ?_⟩
  -- the tensors at this position are the ones under this name
  have hpname : g.name = a.name := by simpa [hg] using hall p (by simp)
  have hsum : (qs ++ [p]).map (fun r => value r.gradients i j) =
      (qs ++ [p]).map fun r => valueNamed r.gradients a.name j := by
    apply List.map_congr_left
    intro r hr
    obtain ⟨u, hu, hname⟩ := Option.map_eq_some_iff.mp (hall r hr)
    rw [← hname]
    exact value_eq_valueNamed (nodup_names_of_perm (hG r hr) hnames) hu j
  rw [hdata, hsum]
  simp only [if_pos hpname]

/-- A tensor of one element under a name. -/
def named (name : UInt8) (x : ℚ) : Tensor ℚ := ⟨[name], [1], [x], 0⟩

/-- One of two workers sends its gradients in the other order. They are averaged with those of the
other tensor, so that `a` is not 8 and `b` is not 17. -/
theorem average_mixes_names :
    let s : ParameterServerCore ℚ := (new 2).initializeParameters [named 97 10, named 98 20]
    let p : Push ℚ := ⟨0, 0, [named 98 2, named 97 1]⟩
    let q : Push ℚ := ⟨1, 0, [named 97 3, named 98 4]⟩
    (layout p.gradients).Perm (layout s.parameters) ∧
      (layout q.gradients).Perm (layout s.parameters) ∧
      (s.runPushes .insertion [p, q]).parameters = [named 97 (15 / 2), named 98 (35 / 2)] ∧
      10 - (valueNamed p.gradients [97] 0 + valueNamed q.gradients [97] 0) / 2 = 8 ∧
      20 - (valueNamed p.gradients [98] 0 + valueNamed q.gradients [98] 0) / 2 = 17 :=
  ⟨List.Perm.swap _ _ _, List.Perm.refl _, by decide +kernel, by decide +kernel,
    by decide +kernel⟩

theorem average_by_position_two_workers :
    let s : ParameterServerCore ℚ := (new 2).initializeParameters [named 97 10, named 98 20]
    let qs : List (Push ℚ) := [⟨0, 0, [named 98 2, named 97 1]⟩]
    let p : Push ℚ := ⟨1, 0, [named 97 3, named 98 4]⟩
    ∃ b, (s.runPushes .insertion (qs ++ [p])).parameters[1]? = some b ∧
      b.data[0]? = some (20 - (1 + 4) / 2) := by
  intro s qs p
  have hG : ∀ r ∈ qs ++ [p], (layout r.gradients).Perm (layout s.parameters) := by
    intro r hr
    rcases List.mem_cons.mp hr with rfl | hr
    · exact List.Perm.swap _ _ _
    · rw [List.mem_singleton.mp hr]
      exact List.Perm.refl _
  obtain ⟨b, g, hb, hg, -, hdata, -⟩ := (@average_by_position .insertion s (by decide)
    (by decide) (by decide) 0 rfl qs p (by decide) (by decide) (by decide) hG).2 1
    (named 98 20) rfl
  have hname : g.name = [98] := by
    have hgiven : p.gradients[1]? = some (named 98 4) := rfl
    rw [← Option.some.inj (hgiven.symm.trans hg)]
    rfl
  refine ⟨b, hb, (hdata 0).trans ?_⟩
  rw [hname]
  decide +kernel

end ParameterServerCore

end ParamServer
