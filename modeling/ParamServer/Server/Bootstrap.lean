import Mathlib.Tactic.Ring
import ParamServer.Server.Sgd

/-! A server that starts without parameters. Its first mean becomes the parameters as it is, and
not with the sign of an update, so that it never catches up with a server that starts from zeros. -/

namespace ParamServer

open Library

def TensorSpec.zeros (l : TensorSpec) : Tensor ℚ :=
  ⟨l.name, l.shape, List.replicate l.dataSize 0, l.dtype⟩

def zeroTensors (L : List TensorSpec) : List (Tensor ℚ) := L.map TensorSpec.zeros

theorem layout_zeroTensors {L : List TensorSpec} {G : List (Tensor ℚ)}
    (h : G.map Tensor.spec = L) : layout G = layout (zeroTensors L) := by
  subst h
  simp [layout, zeroTensors, Tensor.layout, TensorSpec.zeros, Tensor.spec]

/-- A mean of that layout is what an update with the opposite sign makes of zeros. -/
theorem meanTensors_eq_descend {L : List TensorSpec} {G : List (Tensor ℚ)}
    (h : G.map Tensor.spec = L) (m : InsertionMap Int32 (List (Tensor ℚ))) :
    meanTensors m G = descend (zeroTensors L) fun i j => -meanValue m i j := by
  subst h
  apply List.ext_getElem?
  intro i
  rw [meanTensors, descend, zeroTensors, List.getElem?_mapIdx, List.getElem?_mapIdx,
    List.getElem?_map, List.getElem?_map]
  rcases G[i]? with _ | g
  · rfl
  have hdata : (List.replicate g.data.length (0 : ℚ)).mapIdx (fun j x => x - -meanValue m i j) =
      (List.range g.data.length).map (meanValue m i) := by
    apply List.ext_getElem?
    intro j
    rw [List.getElem?_mapIdx, List.getElem?_map, List.getElem?_replicate]
    by_cases hj : j < g.data.length
    · simp [hj]
    · simp [hj]
  simp only [Option.map_some, TensorSpec.zeros, Tensor.spec, hdata]

theorem descend_eq_self_iff {P : List (Tensor ℚ)} {u : ℕ → ℕ → ℚ} :
    descend P u = P ↔ ∀ (i : ℕ) t, P[i]? = some t → ∀ j < t.data.length, u i j = 0 := by
  have hdata : ∀ (i : ℕ) (t : Tensor ℚ), { t with data := t.data.mapIdx fun j x => x - u i j } = t ↔
      ∀ j < t.data.length, u i j = 0 := by
    intro i t
    obtain ⟨name, shape, data, dtype⟩ := t
    simp only [Tensor.mk.injEq, true_and, and_true, List.ext_getElem?_iff, List.getElem?_mapIdx]
    refine forall_congr' fun j => ?_
    rcases hj : data[j]? with _ | x
    · have hlen := List.getElem?_eq_none_iff.mp hj
      simp [Nat.not_lt.mpr hlen]
    · have hlen := (List.getElem?_eq_some_iff.mp hj).1
      simp [hlen]
  rw [List.ext_getElem?_iff]
  refine forall_congr' fun i => ?_
  rw [descend, List.getElem?_mapIdx]
  rcases P[i]? with _ | t
  · simp
  · simp only [Option.map_some, Option.some_inj, hdata, forall_eq']

namespace ParameterServerCore

section Means

variable {V : Type} [Scalar V] (ord : VisitOrder)

/-- Two new servers with the same number of workers run through the same barriers. -/
theorem completes_runPushes_congr {s t : ParameterServerCore V} (hs : s.iterationStates = .empty)
    (ht : t.iterationStates = .empty) (hN : s.totalWorkers = t.totalWorkers) (ps : List (Push V))
    (p : Push V) : (s.runPushes ord ps).Completes p ↔ (t.runPushes ord ps).Completes p := by
  rw [completes_runPushes_iff ord (hs ▸ rfl) ps rfl, completes_runPushes_iff ord (ht ▸ rfl) ps rfl,
    hN]

end Means

section TwoRuns

variable (ord : VisitOrder) {s t : ParameterServerCore ℚ} {L : List TensorSpec}
  (hs : s.iterationStates = .empty) (ht : t.iterationStates = .empty)
  (hst : s.totalWorkers = t.totalWorkers) (hN : 1 ≤ s.totalWorkers.toInt)
  (hsp : s.parameters = []) (htp : t.parameters = zeroTensors L) (hL : L ≠ [])
include hs ht hst hN hsp htp hL

/-- The two servers hold the same apart from the sign of the mean that came first. -/
theorem parameters_runPushes_empty (ps : List (Push ℚ))
    (hps : ∀ p ∈ ps, p.gradients.map Tensor.spec = L) :
    (s.updates ord ps = [] → (s.runPushes ord ps).parameters = [] ∧
      (t.runPushes ord ps).parameters = zeroTensors L) ∧
    ∀ k rest, s.updates ord ps = k :: rest →
      (s.runPushes ord ps).parameters = descend (t.runPushes ord ps).parameters
        fun i j => -(2 * meanGradient (quorum s.totalWorkers) k ps i j) := by
  induction ps using List.reverseRecOn with
  | nil => exact ⟨fun _ => ⟨hsp, htp⟩, fun k rest h => by cases h⟩
  | append_singleton ps p ih =>
    obtain ⟨ihnil, ihcons⟩ := ih fun r hr => hps r (List.mem_append_left _ hr)
    have hspec := hps p (by simp)
    have hzero : zeroTensors L ≠ [] := by simpa [zeroTensors] using hL
    have htlay : layout (t.runPushes ord ps).parameters = layout (zeroTensors L) := by
      rw [parameters_runPushes ord ht (hst ▸ hN) (htp ▸ hzero) ps, layout_descend, htp]
      intro r hr
      rw [htp]
      exact layout_zeroTensors (hps r (List.mem_append_left _ hr))
    have htne : (t.runPushes ord ps).parameters ≠ [] := by
      intro h
      rw [h] at htlay
      exact hzero (List.map_eq_nil_iff.mp htlay.symm)
    have hlp : layout p.gradients = layout (t.runPushes ord ps).parameters :=
      (layout_zeroTensors hspec).trans htlay.symm
    -- the mean of an iteration that is an update already is final
    have hfinal : ∀ k ∈ s.updates ord ps, meanGradient (quorum s.totalWorkers) k (ps ++ [p]) =
        meanGradient (quorum s.totalWorkers) k ps := fun k hk =>
      meanGradient_concat_of_quorum p ((mem_updates_iff ord (hs ▸ rfl) ps).mp hk)
    have hiff := completes_runPushes_congr ord hs ht hst ps p
    rw [runPushes_concat, runPushes_concat, receive_parameters, receive_parameters,
      updates_concat]
    by_cases hc : (s.runPushes ord ps).Completes p
    · rw [if_pos hc, if_pos hc, if_pos (hiff.mp hc),
        updated_runPushes ord ht (hst ▸ hN) htne hlp (hiff.mp hc), ← hst]
      refine ⟨fun h => by simp at h, fun k rest hk => ?_⟩
      rcases hu : s.updates ord ps with _ | ⟨k₁, rest₁⟩
      · -- the mean of this push becomes the parameters
        rw [hu, List.nil_append, List.cons_eq_cons] at hk
        obtain ⟨hmean, hvalue⟩ := averageGradients_runPushes ord hs hN hc
        rw [updated, (ihnil hu).1, (ihnil hu).2, aggregate, if_pos List.isEmpty_nil, hmean,
          meanTensors_eq_descend hspec, hvalue, descend_descend, ← hk.1]
        congr 1
        funext i j
        ring
      · rw [hu, List.cons_append, List.cons_eq_cons] at hk
        have hsP := ihcons k₁ rest₁ hu
        have hsne : (s.runPushes ord ps).parameters ≠ [] := by
          rw [hsP]
          simpa [descend] using htne
        have hsl : layout p.gradients = layout (s.runPushes ord ps).parameters := by
          rw [hsP, layout_descend, hlp]
        rw [updated_runPushes ord hs hN hsne hsl hc, hsP, ← hk.1, hfinal k₁ (by simp [hu]),
          descend_descend, descend_descend]
        congr 1
        funext i j
        ring
    · rw [if_neg hc, if_neg hc, if_neg (mt hiff.mpr hc), List.append_nil]
      refine ⟨ihnil, fun k rest hk => ?_⟩
      rw [ihcons k rest hk, hfinal k (by simp [hk])]

end TwoRuns

/-- A server that starts empty ends with the parameters of one that starts from zeros, plus twice
the mean of the iteration that was completed first; the two agree only if that mean is zero. -/
theorem bootstrap_from_empty (ord : VisitOrder) {N : Int32} (hN : 1 ≤ N.toInt)
    (L : List TensorSpec) (hL : L ≠ []) (ps : List (Push ℚ))
    (hps : ∀ p ∈ ps, p.gradients.map Tensor.spec = L)
    (hc : ∃ k, N.toInt.toNat ≤ (pushers k ps).card) :
    let n := N.toInt.toNat
    let s := (new N).runPushes ord ps
    let t := ((new N).initializeParameters (zeroTensors L)).runPushes ord ps
    ∃ k₁ later, (new N).updates ord ps = k₁ :: later ∧
      s.parameters = descend t.parameters (fun i j => -(2 * meanGradient n k₁ ps i j)) ∧
      (s.parameters = t.parameters ↔
        ∀ (i : ℕ) l, L[i]? = some l → ∀ j < l.dataSize, meanGradient n k₁ ps i j = 0) := by
  intro n s t
  have hq : quorum N = n := quorum_of_pos hN
  have hzero : zeroTensors L ≠ [] := by simpa [zeroTensors] using hL
  obtain ⟨k, hk⟩ := hc
  have hmem : k ∈ (new N : ParameterServerCore ℚ).updates ord ps := by
    rw [mem_updates_iff ord rfl ps]
    exact hq ▸ hk
  obtain ⟨k₁, later, hu⟩ := List.exists_cons_of_ne_nil (List.ne_nil_of_mem hmem)
  have hparams : s.parameters =
      descend t.parameters fun i j => -(2 * meanGradient n k₁ ps i j) := by
    have htwo := parameters_runPushes_empty ord (s := new N)
      (t := (new N).initializeParameters (zeroTensors L)) rfl rfl rfl hN rfl rfl hL ps hps
    rw [← hq]
    exact htwo.2 k₁ later hu
  refine ⟨k₁, later, hu, hparams, ?_⟩
  have hlay : layout t.parameters = layout (zeroTensors L) := by
    rw [parameters_runPushes ord rfl hN hzero ps fun p hp => layout_zeroTensors (hps p hp),
      layout_descend]
    rfl
  rw [hparams, descend_eq_self_iff]
  refine forall_congr' fun i => ?_
  rcases getElem?_of_layout_eq hlay i with ⟨hti, hzi⟩ | ⟨u, z, hti, hzi, -, -, hlen⟩
  · have hLi : L[i]? = none := by simpa [zeroTensors] using hzi
    simp [hti, hLi]
  · obtain ⟨l, hLi, rfl⟩ : ∃ l, L[i]? = some l ∧ l.zeros = z := by
      simpa [zeroTensors] using hzi
    have hsize : u.data.length = l.dataSize := by rw [hlen, TensorSpec.zeros, List.length_replicate]
    simp [hti, hLi, hsize]

theorem bootstrap_from_empty_two_workers :
    let L := [(pair 0 0).spec]
    let ps : List (Push ℚ) := [⟨0, 0, [pair 1 2]⟩, ⟨1, 0, [pair 3 4]⟩]
    ∃ k₁ later, (new 2).updates .insertion ps = k₁ :: later ∧
      ((new 2).runPushes .insertion ps).parameters = descend
        (((new 2).initializeParameters (zeroTensors L)).runPushes .insertion ps).parameters
        fun i j => -(2 * meanGradient 2 k₁ ps i j) := by
  intro L ps
  obtain ⟨k₁, later, hu, hp, -⟩ := bootstrap_from_empty .insertion (N := 2) (by decide) L
    (by decide) ps (by decide) ⟨0, by decide⟩
  exact ⟨k₁, later, hu, hp⟩

/-- The only gradients pushed become the parameters, where a server that starts from zeros
subtracts them. -/
theorem bootstrap_from_empty_differs :
    let ps : List (Push ℚ) := [⟨0, 0, [pair 1 2]⟩]
    (∀ p ∈ ps, p.gradients.map Tensor.spec = [(pair 0 0).spec]) ∧
      1 ≤ (pushers 0 ps).card ∧
      ((new 1).runPushes .insertion ps).parameters = [pair 1 2] ∧
      (((new 1).initializeParameters (zeroTensors [(pair 0 0).spec])).runPushes
        .insertion ps).parameters = [pair (-1) (-2)] := by
  exact ⟨by decide, by decide, by decide +kernel, by decide +kernel⟩

end ParameterServerCore

end ParamServer
