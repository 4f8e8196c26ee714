import ParamServer.Server.Damage
import ParamServer.Server.History

/-! What a checkpoint carries across a crash: the parameters and the largest iteration pushed
so far. The barrier stays behind, so a new server counts the workers of every iteration anew. -/

namespace ParamServer

open Library

namespace ParameterServerCore

variable {V : Type} [Scalar V] [Word V] (ord : VisitOrder) {alloc : Allocator}
  {uninit : ℕ → Int32}

/-- The parameters after a recovery hold the means applied before the checkpoint and those
applied since; an iteration is among them once for every incarnation of the server that `N`
distinct workers have pushed to for it. -/
theorem lineage_recovery {N : Int32} (hN : 1 ≤ N.toInt) (P₀ : List (Tensor V))
    (pre post : List (Push V)) {s t : ParameterServerCore V}
    (hs : s = ((new N).initializeParameters P₀).runPushes ord pre) (hsized : Sized s.parameters)
    {epoch epoch₀ epoch₁ : Int32} {file : Option (List UInt8)} {image : List UInt8}
    (hsave : s.saveCheckpoint true (fun _ => none) epoch file = (true, some image))
    (hload : (new N).loadCheckpoint alloc uninit epoch₀ (some image) =
      (.returned true, t, epoch₁)) :
    let means := ((new N).initializeParameters P₀).lineage ord pre ++ t.lineage ord post
    (t.runPushes ord post).parameters = applyMeans P₀ means ∧
      ∀ k, (means.map Prod.fst).count k =
        (if N.toInt.toNat ≤ (pushers k pre).card then 1 else 0) +
          if N.toInt.toNat ≤ (pushers k post).card then 1 else 0 := by
  intro means
  obtain rfl := loadCheckpoint_of_saveCheckpoint hsized hsave hload
  refine ⟨?_, fun k => ?_⟩
  · rw [runPushes_parameters, applyMeans_append, restored_parameters]
    congr 1
    rw [hs, runPushes_parameters]
    rfl
  · rw [List.map_append, List.count_append, ← quorum_of_pos hN]
    exact congrArg₂ (· + ·) (count_updates ord rfl pre k) (count_updates ord rfl post k)

/-- A worker that restarts at iteration 0 has its gradient applied a second time. -/
theorem lineage_recovery_applies_again :
    let p : Push UInt32 := ⟨0, 0, [word 1]⟩
    let s₀ : ParameterServerCore UInt32 := (new 1).initializeParameters [word 10]
    let s := s₀.runPushes .insertion [p]
    let image := checkpointImage 0 s.currentIteration s.parameters
    let r := (new 1).loadCheckpoint .unbounded (fun _ => 0) 0 (some image)
    s.saveCheckpoint true (fun _ => none) 0 none = (true, some image) ∧ r.1 = .returned true ∧
      s₀.updates .insertion [p] = [0] ∧ r.2.1.updates .insertion [p] = [0] ∧
      r.2.1.serveParameters 0 = [word 9] ∧
      (r.2.1.runPushes .insertion [p]).serveParameters 0 = [word 8] := by
  decide +kernel

theorem lineage_recovery_two_workers :
    let ps : List (Push UInt32) := [⟨0, 0, [word 2]⟩, ⟨1, 0, [word 4]⟩]
    let s₀ : ParameterServerCore UInt32 := (new 2).initializeParameters [word 10]
    let s := s₀.runPushes .insertion ps
    let image := checkpointImage 7 s.currentIteration s.parameters
    let t := ((new 2).loadCheckpoint .unbounded (fun _ => 0) 0 (some image)).2.1
    ((s₀.lineage .insertion ps ++ t.lineage .insertion ps).map Prod.fst).count 0 = 2 :=
  (lineage_recovery .insertion (by decide) [word 10] [⟨0, 0, [word 2]⟩, ⟨1, 0, [word 4]⟩]
    [⟨0, 0, [word 2]⟩, ⟨1, 0, [word 4]⟩] rfl ⟨by decide +kernel, by decide +kernel⟩
    (saveCheckpoint_reliable _ 7 none)
    (Prod.ext (by decide +kernel) (Prod.ext rfl rfl))).2 0

/-- What a checkpoint records as its iteration is the largest one pushed so far, or zero. Its
tensors hold the means of the iterations that `N` distinct workers have pushed for. -/
theorem saveCheckpoint_iteration {N : Int32} (hN : 1 ≤ N.toInt) (P₀ : List (Tensor V))
    (ps : List (Push V)) (epoch : Int32) (file : Option (List UInt8)) :
    let s₀ : ParameterServerCore V := (new N).initializeParameters P₀
    ∃ c ts, (s₀.runPushes ord ps).saveCheckpoint true (fun _ => none) epoch file =
        (true, some (checkpointImage epoch c ts)) ∧
      0 ≤ c ∧ (∀ p ∈ ps, p.iteration ≤ c) ∧ (c = 0 ∨ ∃ p ∈ ps, p.iteration = c) ∧
      ts = applyMeans P₀ (s₀.lineage ord ps) ∧
      ∀ k, (k ∈ (s₀.lineage ord ps).map Prod.fst ↔ N.toInt.toNat ≤ (pushers k ps).card) ∧
        (((s₀.runPushes ord ps).checkSyncStatus k).1 = true ↔
          N.toInt.toNat ≤ (pushers k ps).card) := by
  intro s₀
  obtain ⟨h0, hle, hc⟩ := s₀.runPushes_currentIteration ord ps
  refine ⟨_, _, saveCheckpoint_reliable .., h0, hle, hc.imp_right id, runPushes_parameters .., ?_⟩
  intro k
  rw [← quorum_of_pos hN]
  rw [checkSyncStatus_eq]
  exact ⟨mem_updates_iff ord rfl ps, aggregated_runPushes_iff ord rfl ps⟩

/-- A single push names iteration 5 in the checkpoint, which is neither aggregated nor in the
saved parameters. -/
theorem saveCheckpoint_records_incomplete_iteration :
    let s : ParameterServerCore UInt32 :=
      ((new 2).initializeParameters [word 10]).runPushes .insertion [⟨0, 5, [word 1]⟩]
    s.saveCheckpoint true (fun _ => none) 0 none =
        (true, some (checkpointImage 0 5 [word 10])) ∧
      (s.checkSyncStatus 5).1 = false := by
  decide +kernel

theorem saveCheckpoint_iteration_two_workers :
    let s₀ : ParameterServerCore UInt32 := (new 2).initializeParameters [word 10]
    let ps : List (Push UInt32) := [⟨0, 0, [word 2]⟩, ⟨1, 0, [word 4]⟩, ⟨1, 1, [word 2]⟩]
    ∃ (c : Int32) (ts : List (Tensor UInt32)),
      (s₀.runPushes .insertion ps).saveCheckpoint true (fun _ => none) 3 none =
        (true, some (checkpointImage 3 c ts)) ∧ ∀ p ∈ ps, p.iteration ≤ c :=
  have ⟨c, ts, hsave, _, hle, _⟩ := saveCheckpoint_iteration .insertion (by decide) [word 10]
    [⟨0, 0, [word 2]⟩, ⟨1, 0, [word 4]⟩, ⟨1, 1, [word 2]⟩] 3 none
  ⟨c, ts, hsave, hle⟩

end ParameterServerCore

end ParamServer
