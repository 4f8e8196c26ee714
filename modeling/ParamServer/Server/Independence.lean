import ParamServer.Server.Exact
import ParamServer.Server.Redelivery

/-! Pushes for different iterations. The barrier of one iteration is never touched by pushes for
another one, and in exact arithmetic the updates of a store commute, since none of them changes
what the guard and the bounds of another one look at. -/

namespace ParamServer

open Library

theorem subtractTensor_right_comm (p g h : Tensor ℚ) :
    subtractTensor (subtractTensor p g) h = subtractTensor (subtractTensor p h) g := by
  have hdata : zipPrefix Scalar.sub (zipPrefix Scalar.sub p.data g.data) h.data =
      zipPrefix Scalar.sub (zipPrefix Scalar.sub p.data h.data) g.data :=
    zipPrefix_right_comm (fun a b c => sub_right_comm a b c) ..
  unfold subtractTensor
  by_cases hg : g.name = p.name ∧ g.shape = p.shape
  · by_cases hh : h.name = p.name ∧ h.shape = p.shape
    · simp only [if_pos hg, if_pos hh, hdata]
    · simp only [if_pos hg, if_neg hh]
  · by_cases hh : h.name = p.name ∧ h.shape = p.shape
    · simp only [if_neg hg, if_pos hh]
    · simp only [if_neg hg, if_neg hh]

theorem applyMeans_eq_foldl {V : Type} [Scalar V] {P : List (Tensor V)} (hP : P ≠ [])
    (ms : List (Int32 × List (Tensor V))) :
    applyMeans P ms = ms.foldl (fun P m => zipPrefix subtractTensor P m.2) P := by
  induction ms generalizing P with
  | nil => rfl
  | cons m ms ih =>
    have hm : aggregate P m.2 = zipPrefix subtractTensor P m.2 := if_neg (by simpa using hP)
    have hne : zipPrefix subtractTensor P m.2 ≠ [] := by
      rw [← List.length_pos_iff, length_zipPrefix]
      exact List.length_pos_iff.mpr hP
    rw [List.foldl_cons, ← ih hne, ← hm]
    rfl

/-- The updates of a store may be applied in any order. -/
theorem applyMeans_perm {P : List (Tensor ℚ)} (hP : P ≠ [])
    {ms ms' : List (Int32 × List (Tensor ℚ))} (h : ms.Perm ms') :
    applyMeans P ms = applyMeans P ms' := by
  rw [applyMeans_eq_foldl hP, applyMeans_eq_foldl hP]
  exact h.foldl_eq' (fun _ _ _ _ Q => zipPrefix_right_comm subtractTensor_right_comm Q _ _) P

theorem averageGradients_visitOrder (ord ord' : VisitOrder)
    (m : InsertionMap Int32 (List (Tensor ℚ))) (gradients : List (Tensor ℚ)) :
    averageGradients ord m gradients = averageGradients ord' m gradients := by
  have hsum : ∀ i n, sumTensor (ord.visited m) i n = sumTensor (ord'.visited m) i n := by
    intro i n
    rw [sumTensor_eq, sumTensor_eq]
    simp only [sum_visited]
  simp only [averageGradients, hsum]

variable {V : Type}

/-- The barrier of one iteration: the number of workers it waits for, and its entry. -/
abbrev BarrierView (V : Type) : Type := ℕ × Option (IterationState V)

namespace ParameterServerCore

def barrierView (k : Int32) (s : ParameterServerCore V) : BarrierView V :=
  (quorum s.totalWorkers, s.iterationStates.find? k)

/-- What a push does to the barrier of its iteration; it is answered whether the iteration is
aggregated then, and with the mean that it applies. -/
def barrierMachine [Scalar V] (ord : VisitOrder) :
    Machine (BarrierView V) (Push V) (Bool × Option (Int32 × List (Tensor V))) where
  step b p :=
    let st := b.2.getD .initial
    let m := st.workerGradients.assign p.workerId p.gradients
    (((st.push b.1 p).aggregated,
      if st.aggregated = false ∧ b.1 ≤ m.size then
        some (p.iteration, averageGradients ord m p.gradients) else none),
      (b.1, some (st.push b.1 p)))

section Machines

variable [Scalar V] (ord : VisitOrder)

/-- The server with its pushes, which answers each one and tells the mean that it applies. -/
def updateMachine :
    Machine (ParameterServerCore V) (Push V) (Bool × Option (Int32 × List (Tensor V))) where
  step s p :=
    (((s.receive ord p).1,
      if s.Completes p then some (p.iteration, averageGradients ord (s.recorded p) p.gradients)
      else none), (s.receive ord p).2)

theorem components_updateMachine : Machine.Components (updateMachine (V := V) ord)
    Push.iteration barrierView (barrierMachine ord) where
  output s p := by
    refine Prod.ext ?_ rfl
    change (s.receive ord p).1 = ((s.stateOf p.iteration).push (quorum s.totalWorkers) p).aggregated
    rw [receive_fst, stateOf_receive_self]
  self s p := by
    refine Prod.ext ?_ ?_
    · exact congrArg quorum (receive_totalWorkers ..)
    · exact find?_receive_self ..
  other s p k hk := by
    refine Prod.ext ?_ ?_
    · exact congrArg quorum (receive_totalWorkers ..)
    · exact find?_receive_ne _ _ _ hk

theorem final_updateMachine (s : ParameterServerCore V) (ps : List (Push V)) :
    (updateMachine ord).final s ps = s.runPushes ord ps := by
  induction ps generalizing s with
  | nil => rfl
  | cons p ps ih => exact ih _

theorem outputs_updateMachine (s : ParameterServerCore V) (ps : List (Push V)) :
    ((updateMachine ord).outputs s ps).map Prod.fst = (pushMachine ord).outputs s ps ∧
      ((updateMachine ord).outputs s ps).filterMap Prod.snd = s.lineage ord ps := by
  induction ps generalizing s with
  | nil => exact ⟨rfl, rfl⟩
  | cons p ps ih =>
    obtain ⟨hout, hlin⟩ := ih (s.receive ord p).2
    constructor
    · exact congrArg (List.cons _) hout
    · rw [lineage, Machine.outputs]
      by_cases hc : s.Completes p
      · have hsome : ((updateMachine ord).step s p).1.2 =
            some (p.iteration, averageGradients ord (s.recorded p) p.gradients) := if_pos hc
        rw [if_pos hc, List.filterMap_cons_some hsome]
        exact congrArg (List.cons _) hlin
      · have hnone : ((updateMachine ord).step s p).1.2 = none := if_neg hc
        rw [if_neg hc, List.filterMap_cons_none hnone]
        exact hlin

end Machines

theorem components_visitOrder (ord ord' : VisitOrder) :
    Machine.Components (updateMachine (V := ℚ) ord') Push.iteration barrierView
      (barrierMachine ord) := by
  have hb : barrierMachine (V := ℚ) ord = barrierMachine ord' := by
    simp only [barrierMachine, averageGradients_visitOrder ord ord']
  rw [hb]
  exact components_updateMachine ord'

theorem currentIteration_interleaved [Scalar V] (ord ord' : VisitOrder) (s : ParameterServerCore V)
    {xs ys : List (Push V)} (h : Interleaved Push.iteration xs ys) :
    (s.runPushes ord xs).currentIteration ≤ (s.runPushes ord' ys).currentIteration := by
  obtain ⟨-, -, hx⟩ := s.runPushes_currentIteration ord xs
  obtain ⟨hs, hy, -⟩ := s.runPushes_currentIteration ord' ys
  rcases hx with hx | ⟨p, hp, hx⟩
  · rw [hx]
    exact hs
  · rw [← hx]
    exact hy p ((h.mem_iff p).mp hp)

/-- Two interleavings of the same pushes for each iteration answer every push alike and lead to
the same parameters, the same entries and the same current iteration. -/
theorem interleavings_agree (ord ord' : VisitOrder) (s : ParameterServerCore ℚ)
    (hP : s.parameters ≠ []) (xs ys : List (Push ℚ)) (h : Interleaved Push.iteration xs ys) :
    let t := (pushMachine ord).final s xs
    let u := (pushMachine ord').final s ys
    Interleaved (fun a : Push ℚ × Bool => a.1.iteration) (xs.zip ((pushMachine ord).outputs s xs))
        (ys.zip ((pushMachine ord').outputs s ys)) ∧
      t.parameters = u.parameters ∧
      (∀ k, t.iterationStates.find? k = u.iterationStates.find? k) ∧
      t.currentIteration = u.currentIteration := by
  intro t u
  have hcx := components_updateMachine (V := ℚ) ord
  have hcy := components_visitOrder ord ord'
  have ht : t = s.runPushes ord xs := final_pushMachine ord s xs
  have hu : u = s.runPushes ord' ys := final_pushMachine ord' s ys
  have hlin : (s.lineage ord xs).Perm (s.lineage ord' ys) := by
    rw [← (outputs_updateMachine ord s xs).2, ← (outputs_updateMachine ord' s ys).2]
    exact (hcx.outputs_perm hcy h s).filterMap _
  refine ⟨fun k => ?_, ?_, fun k => ?_, ?_⟩
  · have hk := hcx.interleaved hcy h s k
    rw [← (outputs_updateMachine ord s xs).1, ← (outputs_updateMachine ord' s ys).1]
    have hmap : ∀ (ps : List (Push ℚ)) (os : List (Bool × Option (Int32 × List (Tensor ℚ)))),
        (ps.zip (os.map Prod.fst)).filter (fun a => a.1.iteration = k) =
          ((ps.zip os).filter fun a => a.1.iteration = k).map (Prod.map id Prod.fst) := by
      intro ps os
      rw [List.zip_map_right, List.filter_map]
      rfl
    rw [hmap, hmap, hk]
  · rw [ht, hu, runPushes_parameters, runPushes_parameters, applyMeans_perm hP hlin]
  · rw [ht, hu, ← final_updateMachine, ← final_updateMachine]
    exact congrArg Prod.snd (hcx.view_congr hcy h s k)
  · rw [ht, hu]
    exact Int32.le_antisymm (currentIteration_interleaved ord ord' s h)
      (currentIteration_interleaved ord' ord s fun k => (h k).symm)

/-- Two iterations, one of them with an empty gradient list, in two orders. -/
theorem interleavings_agree_two_iterations :
    let s : ParameterServerCore ℚ := (new 1).initializeParameters [⟨[119], [1], [10], 0⟩]
    let a : Push ℚ := ⟨0, 0, [⟨[119], [1], [2, 3], 0⟩]⟩
    let b : Push ℚ := ⟨0, 1, []⟩
    ((pushMachine .insertion).final s [a, b]).parameters =
      ((pushMachine .insertion).final s [b, a]).parameters := by
  intro s a b
  have h : Interleaved Push.iteration [a, b] [b, a] := by
    intro k
    by_cases h0 : (0 : Int32) = k
    · subst h0
      rfl
    · by_cases h1 : (1 : Int32) = k
      · subst h1
        rfl
      · simp [a, b, h0, h1]
  exact (interleavings_agree .insertion .insertion s (by simp [s]) _ _ h).2.1

end ParameterServerCore

end ParamServer
