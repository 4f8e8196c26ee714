import ParamServer.Server.Exact
import ParamServer.Server.History

/-! Synchronous gradient descent. In exact arithmetic the server holds its first parameters
minus, for every iteration that `N` distinct workers have pushed for, the mean of the last
gradients of the workers counted for it. -/

namespace ParamServer

open Library

def lastGradients (w : Int32) (qs : List (Push ℚ)) : List (Tensor ℚ) :=
  ((lastFrom Push.workerId w qs).map Push.gradients).getD []

/-- The mean over the workers counted for `k` of their last gradients, at element `j` of
tensor `i`. -/
def meanGradient (q : ℕ) (k : Int32) (ps : List (Push ℚ)) (i j : ℕ) : ℚ :=
  (∑ w ∈ senders Push.workerId (counted q k ps), value (lastGradients w (counted q k ps)) i j) / q

theorem meanGradient_concat_ne (q : ℕ) {k : Int32} (ps : List (Push ℚ)) (p : Push ℚ)
    (h : k ≠ p.iteration) : meanGradient q k (ps ++ [p]) = meanGradient q k ps := by
  funext i j
  rw [meanGradient, counted_concat_ne q ps p h, meanGradient]

theorem meanGradient_concat_of_quorum {q : ℕ} {k : Int32} {ps : List (Push ℚ)} (p : Push ℚ)
    (h : q ≤ (pushers k ps).card) : meanGradient q k (ps ++ [p]) = meanGradient q k ps := by
  by_cases hk : k = p.iteration
  · subst hk
    funext i j
    rw [meanGradient, counted_concat_of_quorum p h, meanGradient]
  · exact meanGradient_concat_ne q ps p hk

theorem meanValue_entryOf {q : ℕ} {k : Int32} {ps : List (Push ℚ)}
    (h : q ≤ (pushers k ps).card) :
    meanValue (entryOf q k ps).workerGradients = meanGradient q k ps := by
  have hsize : (entryOf q k ps).workerGradients.size = q := by
    rw [size_entryOf, min_eq_left h]
  funext i j
  rw [meanValue, hsize]
  simp only [entryOf, keySet_recordAll, find?_recordAll]
  rfl

/-- A tensor `w` of two elements, for runs on fixed inputs. -/
def pair (x y : ℚ) : Tensor ℚ := ⟨[119], [2], [x, y], 0⟩

namespace ParameterServerCore

def aggregatedIterations {V : Type} (s : ParameterServerCore V) : Finset Int32 :=
  ((s.iterationStates.entries.filter fun e => e.2.aggregated).map Prod.fst).toFinset

theorem mem_aggregatedIterations {V : Type} (s : ParameterServerCore V) (k : Int32) :
    k ∈ s.aggregatedIterations ↔ (s.stateOf k).aggregated = true := by
  have hmem : k ∈ s.aggregatedIterations ↔
      ∃ st, (k, st) ∈ s.iterationStates.entries ∧ st.aggregated = true := by
    simp [aggregatedIterations]
  rw [hmem, stateOf]
  constructor
  · rintro ⟨st, hst, ha⟩
    rwa [(s.iterationStates.find?_eq_some_iff k st).mpr hst]
  · intro h
    rcases hf : s.iterationStates.find? k with _ | st
    · simp [hf] at h
    · exact ⟨st, (s.iterationStates.find?_eq_some_iff k st).mp hf, by simpa [hf] using h⟩

section Fresh

variable (ord : VisitOrder) {V : Type} [Scalar V] {s : ParameterServerCore V}
  (hs : s.iterationStates = .empty)
include hs

theorem mem_aggregatedIterations_runPushes (ps : List (Push V)) (k : Int32) :
    k ∈ (s.runPushes ord ps).aggregatedIterations ↔
      quorum s.totalWorkers ≤ (pushers k ps).card := by
  rw [mem_aggregatedIterations, aggregated_runPushes_iff ord (hs ▸ rfl)]

theorem aggregatedIterations_concat_completing {ps : List (Push V)} {p : Push V}
    (h : (s.runPushes ord ps).Completes p) :
    (s.runPushes ord (ps ++ [p])).aggregatedIterations =
      insert p.iteration (s.runPushes ord ps).aggregatedIterations := by
  have hq := ((completes_runPushes_iff ord (hs ▸ rfl) ps rfl).mp h).2
  ext k
  rw [Finset.mem_insert, mem_aggregatedIterations_runPushes ord hs,
    mem_aggregatedIterations_runPushes ord hs]
  by_cases hk : k = p.iteration
  · subst hk
    simpa using hq
  · rw [pushers_concat_ne ps p hk, or_iff_right hk]

theorem aggregatedIterations_concat {ps : List (Push V)} {p : Push V}
    (h : ¬(s.runPushes ord ps).Completes p) :
    (s.runPushes ord (ps ++ [p])).aggregatedIterations =
      (s.runPushes ord ps).aggregatedIterations := by
  have hn := mt (completes_runPushes_iff ord (hs ▸ rfl) ps rfl).mpr h
  ext k
  rw [mem_aggregatedIterations_runPushes ord hs, mem_aggregatedIterations_runPushes ord hs]
  by_cases hk : k = p.iteration
  · subst hk
    have := card_pushers_le_concat p.iteration ps p
    omega
  · rw [pushers_concat_ne ps p hk]

end Fresh

section Descent

variable (ord : VisitOrder) {s : ParameterServerCore ℚ} (hs : s.iterationStates = .empty)
  (hN : 1 ≤ s.totalWorkers.toInt)
include hs hN

theorem averageGradients_runPushes {ps : List (Push ℚ)} {p : Push ℚ}
    (h : (s.runPushes ord ps).Completes p) :
    averageGradients ord ((s.runPushes ord ps).recorded p) p.gradients =
        meanTensors ((s.runPushes ord ps).recorded p) p.gradients ∧
      meanValue ((s.runPushes ord ps).recorded p) =
        meanGradient (quorum s.totalWorkers) p.iteration (ps ++ [p]) := by
  have hk : s.iterationStates.find? p.iteration = none := hs ▸ rfl
  obtain ⟨hlt, hq⟩ := (completes_runPushes_iff ord hk ps rfl).mp h
  have hsize : ((s.runPushes ord ps).recorded p).size < 2 ^ 31 := by
    have := s.totalWorkers.toInt_lt
    rw [recorded_runPushes ord hk rfl hlt, size_entryOf, min_eq_left hq, quorum_of_pos hN]
    omega
  refine ⟨averageGradients_eq_meanTensors ord _ _ hsize, ?_⟩
  rw [recorded_runPushes ord hk rfl hlt, meanValue_entryOf hq]

theorem updated_runPushes {ps : List (Push ℚ)} {p : Push ℚ}
    (hP : (s.runPushes ord ps).parameters ≠ [])
    (hl : layout p.gradients = layout (s.runPushes ord ps).parameters)
    (h : (s.runPushes ord ps).Completes p) :
    (s.runPushes ord ps).updated ord p = descend (s.runPushes ord ps).parameters
      (meanGradient (quorum s.totalWorkers) p.iteration (ps ++ [p])) := by
  obtain ⟨hmean, hvalue⟩ := averageGradients_runPushes ord hs hN h
  rw [updated, hmean, aggregate_meanTensors hP hl, hvalue]

theorem parameters_runPushes (hP : s.parameters ≠ []) (ps : List (Push ℚ))
    (hl : ∀ p ∈ ps, layout p.gradients = layout s.parameters) :
    (s.runPushes ord ps).parameters = descend s.parameters (fun i j =>
      ∑ k ∈ (s.runPushes ord ps).aggregatedIterations,
        meanGradient (quorum s.totalWorkers) k ps i j) := by
  induction ps using List.reverseRecOn with
  | nil =>
    have he : s.aggregatedIterations = ∅ := by simp [aggregatedIterations, hs]
    rw [runPushes_nil, he]
    exact (descend_zero s.parameters).symm
  | append_singleton ps p ih =>
    have ih := ih fun r hr => hl r (List.mem_append_left _ hr)
    have hlay : layout (s.runPushes ord ps).parameters = layout s.parameters := by
      rw [ih, layout_descend]
    have hne : (s.runPushes ord ps).parameters ≠ [] := by
      intro h
      rw [h] at hlay
      exact hP (List.map_eq_nil_iff.mp hlay.symm)
    have hlp : layout p.gradients = layout (s.runPushes ord ps).parameters :=
      (hl p (by simp)).trans hlay.symm
    have hsum : ∀ i j, ∑ k ∈ (s.runPushes ord ps).aggregatedIterations,
          meanGradient (quorum s.totalWorkers) k ps i j =
        ∑ k ∈ (s.runPushes ord ps).aggregatedIterations,
          meanGradient (quorum s.totalWorkers) k (ps ++ [p]) i j := by
      -- the mean of an aggregated iteration is final
      intro i j
      refine Finset.sum_congr rfl fun k hk => ?_
      rw [mem_aggregatedIterations_runPushes ord hs] at hk
      rw [meanGradient_concat_of_quorum p hk]
    rw [runPushes_concat, receive_parameters, ← runPushes_concat]
    by_cases hc : (s.runPushes ord ps).Completes p
    · have hold : p.iteration ∉ (s.runPushes ord ps).aggregatedIterations := by
        rw [mem_aggregatedIterations_runPushes ord hs]
        exact Nat.not_le.mpr ((completes_runPushes_iff ord (hs ▸ rfl) ps rfl).mp hc).1
      rw [if_pos hc, updated_runPushes ord hs hN hne hlp hc, ih, descend_descend,
        aggregatedIterations_concat_completing ord hs hc]
      congr 1
      funext i j
      rw [Finset.sum_insert hold, add_comm, hsum]
    · rw [if_neg hc, ih, aggregatedIterations_concat ord hs hc]
      congr 1
      funext i j
      exact hsum i j

end Descent

/-- Exactly-once synchronous gradient descent: at every point of every run the server serves
its first parameters minus the mean gradients of the aggregated iterations, each over the
last gradients of exactly `N` distinct workers up to the push that completed it. -/
theorem serveParameters_eq_descend (ord : VisitOrder) (N : Int32) (hN : 1 ≤ N.toInt)
    (P₀ : List (Tensor ℚ)) (hP : P₀ ≠ []) (ps : List (Push ℚ))
    (hl : ∀ p ∈ ps, layout p.gradients = layout P₀) :
    let n := N.toInt.toNat
    let s := ((new N).initializeParameters P₀).runPushes ord ps
    (∀ it, s.serveParameters it = descend P₀ fun i j =>
      ∑ k ∈ s.aggregatedIterations, meanGradient n k ps i j) ∧
    (∀ k, k ∈ s.aggregatedIterations ↔ n ≤ (pushers k ps).card) ∧
    ∀ k ∈ s.aggregatedIterations, (senders Push.workerId (counted n k ps)).card = n ∧
      ∃ pre p post, pushesFor k ps = pre ++ p :: post ∧ counted n k ps = pre ++ [p] ∧
        (senders Push.workerId pre).card < n := by
  have hq : quorum N = N.toInt.toNat := quorum_of_pos hN
  have hs : ((new N).initializeParameters P₀).iterationStates = .empty := rfl
  have hagg : ∀ k, k ∈ (((new N).initializeParameters P₀).runPushes ord ps).aggregatedIterations ↔
      N.toInt.toNat ≤ (pushers k ps).card := by
    intro k
    rw [← hq]
    exact mem_aggregatedIterations_runPushes ord hs ps k
  refine ⟨fun _ => ?_, hagg, fun k hk => ⟨?_, exists_completing (by omega) ((hagg k).mp hk)⟩⟩
  · rw [← hq]
    exact parameters_runPushes ord hs hN hP ps hl
  · rw [counted, card_senders_accepted, ← pushers, min_eq_left ((hagg k).mp hk)]

/-- Two workers, a retry of the first before the second and a late push of the first. -/
theorem serveParameters_eq_descend_two_workers :
    let ps : List (Push ℚ) := [⟨0, 0, [pair 9 9]⟩, ⟨0, 0, [pair 1 2]⟩, ⟨1, 0, [pair 3 4]⟩,
      ⟨0, 0, [pair 5 5]⟩]
    let s := ((new 2).initializeParameters [pair 10 10]).runPushes .insertion ps
    s.serveParameters 0 = [pair 8 7] ∧
      s.serveParameters 0 = descend [pair 10 10] fun i j =>
        ∑ k ∈ s.aggregatedIterations, meanGradient 2 k ps i j :=
  ⟨by decide +kernel, (serveParameters_eq_descend .insertion 2 (by decide) [pair 10 10] (by decide)
    [⟨0, 0, [pair 9 9]⟩, ⟨0, 0, [pair 1 2]⟩, ⟨1, 0, [pair 3 4]⟩, ⟨0, 0, [pair 5 5]⟩]
    (by decide)).1 0⟩

end ParameterServerCore

end ParamServer
