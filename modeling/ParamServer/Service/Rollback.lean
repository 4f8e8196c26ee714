import ParamServer.Server.Completion
import ParamServer.Service.Snapshots

/-! Loads into a running server. The parameters go back to what they were at the save, and the
barrier does not: no mean is ever applied twice, and the means of the iterations that were
aggregated in between are gone for good. -/

namespace ParamServer

open Library

variable {V : Type} [Scalar V]

namespace ParameterServerCore

variable (ord : VisitOrder)

section Barrier

variable {s t : ParameterServerCore V} (hN : s.totalWorkers = t.totalWorkers)
  (he : s.iterationStates = t.iterationStates)
include hN he

omit [Scalar V] hN in
theorem stateOf_congr (k : Int32) : s.stateOf k = t.stateOf k := by rw [stateOf, he, stateOf]

omit [Scalar V] hN in
theorem recorded_congr (p : Push V) : s.recorded p = t.recorded p := by
  rw [recorded, stateOf_congr he, recorded]

omit [Scalar V] in
theorem completes_congr (p : Push V) : s.Completes p ↔ t.Completes p := by
  rw [Completes, Completes, recorded_congr he, stateOf_congr he, hN]

theorem iterationStates_receive_congr (p : Push V) :
    (s.receive ord p).2.iterationStates = (t.receive ord p).2.iterationStates := by
  have hstate := stateOf_congr he p.iteration
  have hrecorded := recorded_congr he p
  obtain ⟨h, -⟩ | h | ⟨h, hq, -⟩ := s.receive_cases p
  · rw [s.receive_late ord p h, t.receive_late ord p (hstate ▸ h)]
    exact he
  · rw [s.receive_completing ord p h, t.receive_completing ord p ((completes_congr hN he p).mp h)]
    dsimp only
    rw [he, hrecorded]
  · rw [s.receive_partial ord p h hq,
      t.receive_partial ord p (hstate ▸ h) (by rwa [← hrecorded, ← hN])]
    dsimp only
    rw [he, hrecorded]

theorem stateOf_runPushes_congr (ps : List (Push V)) (k : Int32) :
    (s.runPushes ord ps).stateOf k = (t.runPushes ord ps).stateOf k := by
  induction ps generalizing s t with
  | nil => exact stateOf_congr he k
  | cons p ps ih =>
    rw [runPushes_cons, runPushes_cons]
    exact ih (by rw [receive_totalWorkers, receive_totalWorkers, hN])
      (iterationStates_receive_congr ord hN he p)

/-- Which means a run of pushes applies does not depend on the parameters. -/
theorem lineage_congr (ps : List (Push V)) : s.lineage ord ps = t.lineage ord ps := by
  induction ps generalizing s t with
  | nil => rfl
  | cons p ps ih =>
    have hnext := ih (s := (s.receive ord p).2) (t := (t.receive ord p).2)
      (by rw [receive_totalWorkers, receive_totalWorkers, hN])
      (iterationStates_receive_congr ord hN he p)
    rw [lineage, lineage, hnext, recorded_congr he]
    exact if_congr (completes_congr hN he p) rfl rfl

end Barrier

/-- A run whose checkpoint is loaded again after more training. An iteration whose quorum came
together before the save is in the parameters once, and so is one whose quorum comes together after
the load. One that was aggregated in between is not, although the server says that it is aggregated
and takes no more gradients for it. -/
theorem lineage_rollback [Word V] {N : Int32} (hN : 1 ≤ N.toInt) (P₀ : List (Tensor V))
    (pre mid post : List (Push V)) {alloc : Allocator} (uninit : ℕ → Int32)
    (epoch epoch₀ : Int32) (rest : List UInt8) :
    let s₀ : ParameterServerCore V := (new N).initializeParameters P₀
    let saved := s₀.runPushes ord pre
    let s := saved.runPushes ord mid
    let t := (s.loadCheckpoint alloc uninit epoch₀
      (some (checkpointImage epoch saved.currentIteration saved.parameters ++ rest))).2.1
    alloc.Fits saved.parameters →
    let means := s₀.lineage ord pre ++ t.lineage ord post
    (t.runPushes ord post).parameters = applyMeans P₀ means ∧
      ∀ k, ((t.runPushes ord post).checkSyncStatus k).1 =
          decide (N.toInt.toNat ≤ (pushers k (pre ++ mid ++ post)).card) ∧
        (means.map Prod.fst).count k =
          if N.toInt.toNat ≤ (pushers k pre).card then 1
          else if N.toInt.toNat ≤ (pushers k (pre ++ mid)).card then 0
          else if N.toInt.toNat ≤ (pushers k (pre ++ mid ++ post)).card then 1 else 0 := by
  intro s₀ saved s t hfits means
  have ht : t = s.restored saved :=
    congrArg (fun r => r.2.1) (loadCheckpoint_image uninit hfits s epoch₀ epoch _ rest)
  have hbarrier : t.totalWorkers = s.totalWorkers ∧ t.iterationStates = s.iterationStates := by
    rw [ht]
    exact ⟨rfl, rfl⟩
  have hlineage : t.lineage ord post = s.lineage ord post :=
    lineage_congr ord hbarrier.1 hbarrier.2 post
  have hs : saved.runPushes ord mid = s₀.runPushes ord (pre ++ mid) :=
    (runPushes_append ord s₀ pre mid).symm
  refine ⟨?_, fun k => ⟨?_, ?_⟩⟩
  · rw [runPushes_parameters, applyMeans_append, ht, restored_parameters]
    exact congrArg (applyMeans · _) (runPushes_parameters ..)
  · rw [checkSyncStatus_eq, stateOf_runPushes_congr ord hbarrier.1 hbarrier.2, Bool.eq_iff_iff,
      decide_eq_true_iff, ← quorum_of_pos hN]
    change ((s₀.runPushes ord pre |>.runPushes ord mid |>.runPushes ord post).stateOf
      k).aggregated = true ↔ _
    rw [← runPushes_append ord s₀ pre mid, ← runPushes_append]
    exact aggregated_runPushes_iff ord (s := s₀) (k := k) rfl (pre ++ mid ++ post)
  · -- what the run after the load adds is what the whole run without a load adds after `mid`
    have hpre : ((s₀.lineage ord pre).map Prod.fst).count k = _ := count_updates ord rfl pre k
    have hpost := count_lineage_runPushes ord (s := s₀) rfl (pre ++ mid) post k
    rw [← hs, ← hlineage] at hpost
    rw [← quorum_of_pos hN, List.map_append, List.count_append, hpre, hpost]
    change (if quorum N ≤ (pushers k pre).card then 1 else 0) +
      (if quorum N ≤ (pushers k (pre ++ mid)).card then 0
        else if quorum N ≤ (pushers k (pre ++ mid ++ post)).card then 1 else 0) = _
    by_cases h : quorum N ≤ (pushers k pre).card
    · have hle := Finset.card_le_card (pushers_subset_append k pre mid)
      rw [if_pos h, if_pos h, if_pos (h.trans hle)]
    · rw [if_neg h, if_neg h, Nat.zero_add]

/-- Iteration 1 is aggregated after the save, and pushed again after the load. -/
theorem lineage_rollback_loses_iteration :
    let round : Int32 → List (Push UInt32) := fun k => [⟨0, k, [word 2]⟩, ⟨1, k, [word 4]⟩]
    let s₀ : ParameterServerCore UInt32 := (new 2).initializeParameters [word 10]
    let saved := s₀.runPushes .insertion (round 0)
    let t := ((saved.runPushes .insertion (round 1)).loadCheckpoint .unbounded (fun _ => 0) 0
      (some (checkpointImage 0 saved.currentIteration saved.parameters ++ []))).2.1
    ((t.runPushes .insertion (round 1)).checkSyncStatus 1).1 = true ∧
      ((s₀.lineage .insertion (round 0) ++ t.lineage .insertion (round 1)).map Prod.fst).count 1 =
        0 :=
  have h := (lineage_rollback .insertion (by decide) [word 10] [⟨0, 0, [word 2]⟩, ⟨1, 0, [word 4]⟩]
    [⟨0, 1, [word 2]⟩, ⟨1, 1, [word 4]⟩] [⟨0, 1, [word 2]⟩, ⟨1, 1, [word 4]⟩] (fun _ => 0) 0 0 []
    (Sized.fits_unbounded ⟨by decide +kernel, by decide +kernel⟩)).2 1
  ⟨h.1.trans (by decide +kernel), h.2.trans (by decide +kernel)⟩

end ParameterServerCore

namespace CheckpointProcess

variable [Word V] (ord : VisitOrder)

/-- The barrier of a process is that of its pushes, also when checkpoints are loaded. -/
theorem barrier_final {s₀ : ParameterServerCore V} (checkpointInterval : Int32)
    (files : List UInt8 → Option (List UInt8)) {es : List (ProcessEvent V)}
    (hcrash : ∀ e ∈ es, ∀ cut N interval, e ≠ .crash cut N interval) :
    let s := ((machine ord).final (start s₀ checkpointInterval files) es).service.ps
    s.totalWorkers = s₀.totalWorkers ∧
      s.iterationStates = (s₀.runPushes ord (es.filterMap ProcessEvent.push?)).iterationStates := by
  refine Machine.invariant_history (M := machine ord)
    (C := fun _ e => ∀ cut N interval, e ≠ .crash cut N interval)
    (I := fun es s => s.service.ps.totalWorkers = s₀.totalWorkers ∧ s.service.ps.iterationStates =
      (s₀.runPushes ord (es.filterMap ProcessEvent.push?)).iterationStates)
    ⟨rfl, rfl⟩ (fun es e h he => ?_) ((machine ord).meets_of_forall (fun e he _ => hcrash e he) _)
  rw [Machine.final_append, List.filterMap_append]
  generalize (machine ord).final (start s₀ checkpointInterval files) es = s at h ⊢
  change ((machine ord).step s e).2.service.ps.totalWorkers = _ ∧
    ((machine ord).step s e).2.service.ps.iterationStates = _
  cases e with
  | push p =>
    rw [show [ProcessEvent.push p].filterMap ProcessEvent.push? = [p] from rfl,
      ParameterServerCore.runPushes_concat]
    refine ⟨(ParameterServerCore.receive_totalWorkers ..).trans h.1,
      ParameterServerCore.iterationStates_receive_congr ord ?_ h.2 p⟩
    rw [h.1, ParameterServerCore.runPushes_totalWorkers]
  | load path alloc uninit =>
    rw [List.filterMap_cons_none rfl, List.filterMap_nil, List.append_nil, step_load_ps,
      ParameterServerCore.loadCheckpoint_totalWorkers,
      ParameterServerCore.loadCheckpoint_iterationStates]
    exact h
  | save | wake | write =>
    rw [List.filterMap_cons_none rfl, List.filterMap_nil, List.append_nil, step_passive ord s]
    · exact h
    · trivial
  | crash cut N interval => exact absurd rfl (he cut N interval)

end CheckpointProcess

/-- The parameters hold every mean once at most, and only such as the server has computed and the
barrier tells of. -/
def Applied (ord : VisitOrder) (base : List (Tensor V)) (s : ParameterServerCore V)
    (params : List (Tensor V)) : Prop :=
  ∃ held : List (Int32 × List (Tensor V)), params = applyMeans base held ∧
    (held.map Prod.fst).Nodup ∧ ∀ m ∈ held, (s.stateOf m.1).aggregated = true ∧
      ∃ w G, (s.stateOf m.1).workerGradients.find? w = some G ∧
        m.2 = averageGradients ord (s.stateOf m.1).workerGradients G

section Applied

variable {ord : VisitOrder} {base params : List (Tensor V)} {s : ParameterServerCore V}

theorem Applied.congr {t : ParameterServerCore V} (h : Applied ord base s params)
    (hstate : ∀ k, (s.stateOf k).aggregated = true → t.stateOf k = s.stateOf k) :
    Applied ord base t params := by
  obtain ⟨held, hparams, hnodup, hheld⟩ := h
  refine ⟨held, hparams, hnodup, fun m hm => ?_⟩
  rw [hstate m.1 (hheld m hm).1]
  exact hheld m hm

theorem Applied.receive (h : Applied ord base s s.parameters) (p : Push V) :
    Applied ord base (s.receive ord p).2 (s.receive ord p).2.parameters := by
  have hfinal : ∀ k, (s.stateOf k).aggregated = true →
      (s.receive ord p).2.stateOf k = s.stateOf k := fun k hk =>
    ParameterServerCore.stateOf_receive_of_aggregated ord hk p
  rw [ParameterServerCore.receive_parameters]
  by_cases hc : s.Completes p
  · rw [if_pos hc]
    obtain ⟨held, hparams, hnodup, hheld⟩ := h
    have hentry : (s.receive ord p).2.stateOf p.iteration = ⟨s.recorded p, true⟩ := by
      rw [s.stateOf_receive_self ord, s.stateOf_push, if_neg (by simp [hc.1])]
      simp [hc.2]
    refine ⟨held ++ [(p.iteration, averageGradients ord (s.recorded p) p.gradients)], ?_, ?_, ?_⟩
    · rw [applyMeans_append, ← hparams]
      rfl
    · -- the iteration was open, so that its mean is not there yet
      have hnew : p.iteration ∉ held.map Prod.fst := by
        intro hmem
        obtain ⟨m, hm, hmp⟩ := List.mem_map.mp hmem
        have hopen := hc.1
        rw [← hmp, (hheld m hm).1] at hopen
        cases hopen
      rw [List.map_append]
      exact hnodup.append (List.nodup_singleton _) (List.disjoint_singleton.mpr hnew)
    · intro m hm
      rcases List.mem_append.mp hm with hm | hm
      · rw [hfinal m.1 (hheld m hm).1]
        exact hheld m hm
      · rw [List.mem_singleton.mp hm, hentry]
        exact ⟨rfl, p.workerId, p.gradients, InsertionMap.find?_assign_self .., rfl⟩
  · rw [if_neg hc]
    exact h.congr hfinal

end Applied

namespace SnapshotProcess

variable (ord : VisitOrder)

/-- The same of the server and of all its snapshots. -/
structure AppliedOnce (base : List (Tensor V)) (a : SnapshotProcess V) : Prop where
  ps : Applied ord base a.ps a.ps.parameters
  files : ∀ path snapshot, a.files path = some snapshot →
    Applied ord base a.ps snapshot.parameters

variable {ord} {base : List (Tensor V)} {a : SnapshotProcess V} {e : ProcessEvent V}

theorem AppliedOnce.store (h : AppliedOnce ord base a) (epoch : Int32) (path : List UInt8) :
    AppliedOnce ord base (a.store epoch path) := by
  refine ⟨h.ps, fun other snapshot hother => ?_⟩
  rw [files_store] at hother
  split at hother
  · rw [← Option.some.inj hother]
    exact h.ps
  · exact h.files other snapshot hother

theorem AppliedOnce.step (h : AppliedOnce ord base a)
    (he : ∀ cut N checkpointInterval, e ≠ .crash cut N checkpointInterval) :
    AppliedOnce ord base ((machine ord).step a e).2 := by
  cases e with
  | push p =>
    refine ⟨h.ps.receive p, fun path snapshot hfile => ?_⟩
    exact (h.files path snapshot hfile).congr fun k hk =>
      ParameterServerCore.stateOf_receive_of_aggregated ord hk p
  | save opens epoch path =>
    rcases opens with _ | _
    · exact h
    · exact h.store epoch _
  | load path alloc uninit =>
    dsimp only [machine]
    rcases hfile : a.files path with _ | snapshot
    · exact h
    · -- the barrier stays as it is
      exact ⟨(h.files path snapshot hfile).congr fun _ _ => rfl, fun other snapshot' hother =>
        (h.files other snapshot' hother).congr fun _ _ => rfl⟩
  | wake =>
    dsimp only [machine]
    unfold wake
    split
    · exact ⟨h.ps, h.files⟩
    · exact h
  | write opens =>
    dsimp only [machine]
    unfold write
    rcases a.pending with _ | epoch
    · exact h
    rcases opens with _ | _
    · exact ⟨h.ps, h.files⟩
    · have hstored := h.store epoch (checkpointPath epoch)
      exact ⟨hstored.ps, hstored.files⟩
  | crash cut N checkpointInterval => exact absurd rfl (he cut N checkpointInterval)

end SnapshotProcess

end ParamServer
