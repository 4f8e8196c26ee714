import ParamServer.Server.Sgd

/-! What the order of arrival of the `N` pushes of an iteration can change. The recorded
gradients are the same in every order; the push that happens to come last only lends its
layout to the mean. -/

namespace ParamServer

open Library

theorem pushesFor_eq_self {V : Type} {k : Int32} {ps : List (Push V)}
    (h : ∀ p ∈ ps, p.iteration = k) : pushesFor k ps = ps :=
  List.filter_eq_self.mpr fun p hp => decide_eq_true (h p hp)

namespace ParameterServerCore

section SingleRound

variable (ord : VisitOrder) {s : ParameterServerCore ℚ} {k : Int32} {qs : List (Push ℚ)}
  {p : Push ℚ}

theorem parameters_runPushes_round (hN : 1 ≤ s.totalWorkers.toInt)
    (hk : s.iterationStates.find? k = none) (hi : ∀ r ∈ qs ++ [p], r.iteration = k)
    (hw : ((qs ++ [p]).map Push.workerId).Nodup)
    (hlen : (qs ++ [p]).length = s.totalWorkers.toInt.toNat) :
    (s.runPushes ord (qs ++ [p])).parameters = aggregate s.parameters
      (meanTensors (recordAll Push.workerId Push.gradients (qs ++ [p])) p.gradients) := by
  have hqs : ∀ r ∈ qs, r.iteration = k := fun r hr => hi r (List.mem_append_left _ hr)
  have hp : p.iteration = k := hi p (by simp)
  have hq : quorum s.totalWorkers = (qs ++ [p]).length := by rw [quorum_of_pos hN, hlen]
  -- `N` distinct workers push, so that the last push completes the iteration
  have hcard : (pushers k (qs ++ [p])).card = (qs ++ [p]).length := by
    rw [pushers, pushesFor_eq_self hi, senders, List.toFinset_card_of_nodup hw, List.length_map]
  have hlt : (pushers k qs).card < quorum s.totalWorkers := by
    have hle : (pushers k qs).card ≤ qs.length := by
      rw [pushers, pushesFor_eq_self hqs, senders]
      exact (List.toFinset_card_le _).trans_eq (List.length_map ..)
    rw [hq, List.length_append, List.length_singleton]
    omega
  have hc : (s.runPushes ord qs).Completes p :=
    (completes_runPushes_iff ord hk qs hp).mpr ⟨hlt, by omega⟩
  have hrec : (s.runPushes ord qs).recorded p =
      recordAll Push.workerId Push.gradients (qs ++ [p]) := by
    subst hp
    rw [recorded_runPushes ord hk rfl hlt, entryOf, counted_concat_of_card_lt p hlt,
      pushesFor_eq_self hi]
  have hsize : ((s.runPushes ord qs).recorded p).size < 2 ^ 31 := by
    have := s.totalWorkers.toInt_lt
    rw [hrec, size_recordAll, ← pushesFor_eq_self hi]
    change (pushers k (qs ++ [p])).card < 2 ^ 31
    omega
  rw [runPushes_concat, receive_parameters, if_pos hc, updated,
    averageGradients_eq_meanTensors ord _ _ hsize, hrec,
    parameters_runPushes_of_card_lt ord hk hqs hlt]

end SingleRound

/-- Two orders of arrival give the same parameters when their last pushes agree in layout,
and in dtypes if the store is empty. The other gradient lists may be ragged in any way. -/
theorem parameters_arrival_order (ord ord' : VisitOrder) (N : Int32) (hN : 1 ≤ N.toInt)
    (P₀ : List (Tensor ℚ)) (k : Int32) (qs qs' : List (Push ℚ)) (p p' : Push ℚ)
    (hperm : (qs ++ [p]).Perm (qs' ++ [p'])) (hi : ∀ r ∈ qs ++ [p], r.iteration = k)
    (hw : ((qs ++ [p]).map Push.workerId).Nodup) (hlen : (qs ++ [p]).length = N.toInt.toNat)
    (hl : layout p.gradients = layout p'.gradients)
    (hd : P₀ = [] → p.gradients.map Tensor.dtype = p'.gradients.map Tensor.dtype) :
    (((new N).initializeParameters P₀).runPushes ord (qs ++ [p])).parameters =
      (((new N).initializeParameters P₀).runPushes ord' (qs' ++ [p'])).parameters := by
  have hi' : ∀ r ∈ qs' ++ [p'], r.iteration = k := fun r hr => hi r (hperm.mem_iff.mpr hr)
  have hw' : ((qs' ++ [p']).map Push.workerId).Nodup := (hperm.map _).nodup_iff.mp hw
  have hlen' : (qs' ++ [p']).length = N.toInt.toNat := hperm.length_eq ▸ hlen
  have hmean : meanValue (recordAll Push.workerId Push.gradients (qs ++ [p])) =
      meanValue (recordAll Push.workerId Push.gradients (qs' ++ [p'])) := by
    refine meanValue_congr fun w => ?_
    rw [find?_recordAll, find?_recordAll, lastFrom_perm hperm hw]
  rw [parameters_runPushes_round ord hN rfl hi hw hlen,
    parameters_runPushes_round ord' hN rfl hi' hw' hlen', initializeParameters_parameters,
    aggregate_meanTensors_congr hl hd, meanTensors, meanTensors, hmean]

theorem parameters_arrival_order_two_workers :
    (((new 2).initializeParameters [pair 10 10]).runPushes .insertion
        [⟨0, 3, [pair 1 2]⟩, ⟨1, 3, [pair 3 4]⟩]).parameters =
      (((new 2).initializeParameters [pair 10 10]).runPushes .insertion
        [⟨1, 3, [pair 3 4]⟩, ⟨0, 3, [pair 1 2]⟩]).parameters :=
  parameters_arrival_order .insertion .insertion 2 (by decide) [pair 10 10] 3
    [⟨0, 3, [pair 1 2]⟩] [⟨1, 3, [pair 3 4]⟩] ⟨1, 3, [pair 3 4]⟩ ⟨0, 3, [pair 1 2]⟩
    (List.Perm.swap _ _ _) (by decide) (by decide) (by decide) (by decide) (by decide)

/-- A worker that pushes an empty gradient list drops the update when it comes last, and
halves it when it does not. -/
theorem arrival_order_matters :
    let a : Push ℚ := ⟨0, 0, [pair 1 2]⟩
    let b : Push ℚ := ⟨1, 0, []⟩
    let s := (new 2).initializeParameters [pair 10 10]
    [a, b].Perm [b, a] ∧ a.workerId ≠ b.workerId ∧
      (s.runPushes .insertion [a, b]).parameters = [pair 10 10] ∧
      (s.runPushes .insertion [b, a]).parameters = [pair (19 / 2) 9] ∧
      (s.runPushes .insertion [a, b]).parameters ≠ (s.runPushes .insertion [b, a]).parameters :=
  ⟨List.Perm.swap _ _ _, by decide, by decide +kernel, by decide +kernel, by decide +kernel⟩

end ParameterServerCore

end ParamServer
