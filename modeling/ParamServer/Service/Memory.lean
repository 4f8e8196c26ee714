import Mathlib.Algebra.BigOperators.Group.Finset.Basic
import ParamServer.Service.Rollback

/-! What a running server keeps of the gradients that it is sent. Neither the completion of an
iteration nor a load lets go of any. -/

namespace ParamServer

open Library

variable {V : Type}

namespace ParameterServerCore

/-- How many gradients `iteration_states_` holds. -/
def heldGradients (s : ParameterServerCore V) : ℕ :=
  (s.iterationStates.entries.map fun entry => entry.2.workerGradients.size).sum

/-- Every entry is the one that `size` gives for its key. -/
theorem heldGradients_eq_sum {s : ParameterServerCore V} {size : Int32 → ℕ}
    (h : ∀ k state, s.iterationStates.find? k = some state → state.workerGradients.size = size k) :
    s.heldGradients = ∑ k ∈ s.iterationStates.keySet, size k := by
  have hsize : ∀ entry ∈ s.iterationStates.entries, entry.2.workerGradients.size = size entry.1 :=
    fun entry hentry => h entry.1 entry.2 ((InsertionMap.find?_eq_some_iff ..).mpr hentry)
  rw [heldGradients, List.map_congr_left hsize, InsertionMap.keySet,
    List.sum_toFinset size s.iterationStates.keys_nodup, InsertionMap.keys, List.map_map]
  rfl

end ParameterServerCore

namespace CheckpointProcess

variable [Word V] [Scalar V] (ord : VisitOrder)

/-- Memory only grows. There is one entry for every iteration that was ever pushed for, and it holds
the gradients of all workers that pushed for it up to the quorum. -/
theorem gradients_are_kept (N : Int32) (P₀ : List (Tensor V)) (checkpointInterval : Int32)
    (files : List UInt8 → Option (List UInt8)) (es : List (ProcessEvent V))
    (hcrash : ∀ e ∈ es, ∀ cut N interval, e ≠ .crash cut N interval) :
    let s := ((machine ord).final (start ((ParameterServerCore.new N).initializeParameters P₀)
      checkpointInterval files) es).service.ps
    let ps := es.filterMap ProcessEvent.push?
    s.iterationStates.keySet = (ps.map Push.iteration).toFinset ∧
      s.heldGradients =
        ∑ k ∈ (ps.map Push.iteration).toFinset, min (quorum N) (pushers k ps).card := by
  intro s ps
  have hfind : ∀ k, s.iterationStates.find? k =
      if pushesFor k ps = [] then none else some (entryOf (quorum N) k ps) := by
    intro k
    rw [(barrier_final ord checkpointInterval files hcrash).2]
    exact ParameterServerCore.find?_runPushes ord rfl ps
  have hkeys : s.iterationStates.keySet = (ps.map Push.iteration).toFinset := by
    ext k
    have hpushed : pushesFor k ps ≠ [] ↔ k ∈ (ps.map Push.iteration).toFinset := by
      simp [pushesFor]
    rw [← hpushed, InsertionMap.mem_keySet_iff, hfind]
    split
    · rename_i h
      simp [h]
    · rename_i h
      simp [h]
  refine ⟨hkeys, ?_⟩
  rw [← hkeys]
  refine ParameterServerCore.heldGradients_eq_sum fun k state hstate => ?_
  rw [hfind] at hstate
  split at hstate
  · cases hstate
  · rw [← Option.some.inj hstate, size_entryOf]

/-- Two iterations of two workers. The late push of worker 2 is not kept, and a load that fails
frees nothing. -/
theorem gradients_are_kept_two_iterations :
    let es : List (ProcessEvent UInt32) := [.push ⟨0, 0, [word 1]⟩, .push ⟨1, 0, [word 1]⟩,
      .push ⟨2, 0, [word 1]⟩, .load [97] .unbounded fun _ => 0, .push ⟨0, 1, [word 2]⟩]
    ∃ s, s = ((machine .insertion).final (start ((ParameterServerCore.new 2).initializeParameters
        [word 10]) 10 fun _ => none) es).service.ps ∧ s.heldGradients = 3 ∧
      s.iterationStates.keySet = ((es.filterMap ProcessEvent.push?).map Push.iteration).toFinset :=
  ⟨_, rfl, by decide +kernel, (gradients_are_kept .insertion 2 [word 10] 10 (fun _ => none) _
    (by simp)).1⟩

end CheckpointProcess

end ParamServer
