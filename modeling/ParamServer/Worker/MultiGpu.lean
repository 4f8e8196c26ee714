import ParamServer.Worker.RunIteration

/-! `aggregate_gradients_multi_gpu`, over whatever the collective calls do to the buffers of the
devices. -/

namespace ParamServer

variable {V : Type}

/-- What the `allreduce_float` calls for one tensor leave in the buffers of the devices. The
buffers keep their sizes. -/
structure AllReduce (V : Type) where
  run : List (List V) → List (List V)
  length_run : ∀ buffers, (run buffers).map List.length = buffers.map List.length

def AllReduce.failed : AllReduce V := ⟨id, fun _ => rfl⟩

/-- The devices of a worker: `ready` tells that there is an initialized `nccl_manager_`, and
`allReduce` what happens to the `i`-th tensor. -/
structure Devices (V : Type) where
  numGpus : Int32
  ready : Bool
  allReduce : ℕ → AllReduce V

def Devices.single : Devices V := ⟨1, false, fun _ => .failed⟩

namespace Worker

variable [Scalar V]

/-- One round of the loop over the tensors. -/
def aggregateTensor (numGpus : Int32) (allReduce : AllReduce V) (grad : Tensor V) : Tensor V :=
  let gpuBuffers := allReduce.run (List.replicate numGpus.toInt.toNat grad.data)
  { grad with data := (gpuBuffers.headD []).map (Scalar.divCount · numGpus) }

/-- With a single device, and without NCCL, this is the identity. -/
def aggregateGradientsMultiGpu (devices : Devices V) (grads : List (Tensor V)) :
    List (Tensor V) :=
  if devices.ready = false ∨ devices.numGpus ≤ 1 then grads
  else grads.mapIdx fun i grad => aggregateTensor devices.numGpus (devices.allReduce i) grad

theorem aggregateGradientsMultiGpu_of_ready {devices : Devices V} (hready : devices.ready = true)
    (hgpus : 1 < devices.numGpus) (grads : List (Tensor V)) :
    aggregateGradientsMultiGpu devices grads =
      grads.mapIdx fun i grad => aggregateTensor devices.numGpus (devices.allReduce i) grad := by
  refine if_neg ?_
  rintro (hnot | hle)
  · exact Bool.false_ne_true (hnot.symm.trans hready)
  · exact Int32.not_le.mpr hgpus hle

theorem layout_aggregateTensor {numGpus : Int32} (h : 1 < numGpus) (allReduce : AllReduce V)
    (grad : Tensor V) : (aggregateTensor numGpus allReduce grad).layout = grad.layout := by
  have hpos : numGpus.toInt.toNat ≠ 0 := by
    have h1 := Int32.lt_iff_toInt_lt.mp h
    have h2 : (1 : Int32).toInt = 1 := rfl
    omega
  obtain ⟨n, hn⟩ := Nat.exists_eq_succ_of_ne_zero hpos
  have hlen := allReduce.length_run (List.replicate numGpus.toInt.toNat grad.data)
  rw [hn, List.replicate_succ, List.map_cons] at hlen
  rw [aggregateTensor, hn, List.replicate_succ]
  rcases hb : allReduce.run (grad.data :: List.replicate n grad.data) with _ | ⟨b, bs⟩
  · simp [hb] at hlen
  · rw [hb, List.map_cons, List.cons_eq_cons] at hlen
    simp [Tensor.layout, hlen.1]

theorem layout_aggregateGradientsMultiGpu (devices : Devices V) (grads : List (Tensor V)) :
    layout (aggregateGradientsMultiGpu devices grads) = layout grads := by
  unfold aggregateGradientsMultiGpu
  split
  · rfl
  · rename_i h
    have hgpus : 1 < devices.numGpus := Int32.not_le.mp fun hle => h (.inr hle)
    apply List.ext_getElem?
    intro i
    rw [layout, layout, List.getElem?_map, List.getElem?_map, List.getElem?_mapIdx, Option.map_map]
    congr 1
    funext grad
    exact layout_aggregateTensor hgpus _ _

theorem layout_gradientsFor (devices : Devices V) {params : List (Tensor V)} (h : params ≠ []) :
    layout (gradientsFor (aggregateGradientsMultiGpu devices) params) = layout params := by
  have hempty : ¬params.isEmpty = true := by simpa using h
  rw [gradientsFor, if_neg hempty, computeGradients, layout_aggregateGradientsMultiGpu]
  simp [layout, Tensor.layout, Function.comp_def]

theorem layout_gradientsFor_nil (devices : Devices V) :
    layout (gradientsFor (aggregateGradientsMultiGpu devices) []) =
      layout [(dummy : Tensor V)] := by
  rw [gradientsFor, if_pos List.isEmpty_nil, computeGradients, layout_aggregateGradientsMultiGpu]
  simp [layout, Tensor.layout]

end Worker

end ParamServer
