import Mathlib.Algebra.Order.Field.Rat
import Mathlib.Tactic.FieldSimp
import Mathlib.Tactic.Linarith
import ParamServer.Library.ZipPrefix
import ParamServer.Worker.MultiGpu

/-! The collective calls behind `aggregate_gradients_multi_gpu`. The worker divides by the number of
devices whether or not the sum over them came about. -/

namespace ParamServer

open Library

variable {V : Type}

/-- The fields of an `NCCLManager` that its calls read. -/
structure NCCLManager where
  initialized : Bool
  numGpus : Int32

namespace NCCLManager

/-- Whether the call goes through; `ncclAllReduce` tells whether that of the device does. -/
def allreduceFloat (m : NCCLManager) (ncclAllReduce : Int32 → Bool) (gpuId : Int32) : Bool :=
  if m.initialized = false ∨ gpuId < 0 ∨ m.numGpus ≤ gpuId then false else ncclAllReduce gpuId

/-- The calls of the worker for one tensor, one on each device. -/
def allreduceCalls (m : NCCLManager) (ncclAllReduce : Int32 → Bool) : List Bool :=
  (List.range m.numGpus.toInt.toNat).map fun gpu => m.allreduceFloat ncclAllReduce (.ofNat gpu)

end NCCLManager

section Scalar

variable [Scalar V]

/-- The sum of all buffers, in each of them. -/
def AllReduce.summed : AllReduce V where
  run buffers := buffers.map fun buffer =>
    buffers.foldl (zipPrefix Scalar.add) (List.replicate buffer.length Scalar.zero)
  length_run buffers := by
    rw [List.map_map]
    refine List.map_congr_left fun buffer _ => ?_
    rw [Function.comp_apply, length_foldl_of_step fun _ _ => length_zipPrefix ..,
      List.length_replicate]

/-- What calls with these results do. Failing calls leave the buffers as they are; nothing is said
about some that fail where others do not. -/
def AllReduce.ofCalls (mixed : AllReduce V) (results : List Bool) : AllReduce V :=
  if ∀ result ∈ results, result = true then .summed
  else if ∀ result ∈ results, result = false then .failed
  else mixed

/-- The devices of a worker that has set up an `NCCLManager`. -/
def Devices.ofManager (m : NCCLManager) (ncclAllReduce : ℕ → Int32 → Bool)
    (mixed : ℕ → AllReduce V) : Devices V where
  numGpus := m.numGpus
  ready := m.initialized
  allReduce i := .ofCalls (mixed i) (m.allreduceCalls (ncclAllReduce i))

end Scalar

namespace Worker

theorem aggregateTensor_summed {numGpus : Int32} (h : 1 ≤ numGpus.toInt) (grad : Tensor ℚ) :
    aggregateTensor numGpus .summed grad = grad := by
  obtain ⟨n, hn⟩ : ∃ n, numGpus.toInt.toNat = n + 1 := ⟨numGpus.toInt.toNat - 1, by omega⟩
  have hcount : (numGpus.toInt : ℚ) = n + 1 := by
    have hint : numGpus.toInt = n + 1 := by omega
    rw [hint]
    simp
  have hdata : (List.foldl (zipPrefix (· + ·)) (List.replicate grad.data.length 0)
      (List.replicate (n + 1) grad.data)).map (· / (numGpus.toInt : ℚ)) = grad.data := by
    apply List.ext_getElem?
    intro j
    rw [List.getElem?_map, getElem?_foldl_zipPrefix_add, List.map_replicate, List.sum_replicate,
      List.getElem?_replicate]
    split
    · rename_i hj
      have hpos : (n + 1 : ℚ) ≠ 0 := n.cast_add_one_ne_zero
      rw [List.getElem?_eq_getElem hj, hcount]
      simp only [Option.map_some, Option.getD_some, nsmul_eq_mul, zero_add, Option.some_inj]
      push_cast
      field_simp
    · rename_i hj
      rw [List.getElem?_eq_none (Nat.not_lt.mp hj)]
      rfl
  unfold aggregateTensor
  rw [hn]
  exact congrArg (fun data => { grad with data := data }) hdata

/-- What divides by the number of devices without a sum is harmless for zeros only. -/
theorem aggregateTensor_failed_iff {numGpus : Int32} (h : 2 ≤ numGpus.toInt) (grad : Tensor ℚ) :
    aggregateTensor numGpus .failed grad = grad ↔ ∀ x ∈ grad.data, x = 0 := by
  obtain ⟨n, hn⟩ : ∃ n, numGpus.toInt.toNat = n + 1 := ⟨numGpus.toInt.toNat - 1, by omega⟩
  have hdata : aggregateTensor numGpus .failed grad =
      { grad with data := grad.data.map (· / (numGpus.toInt : ℚ)) } := by
    unfold aggregateTensor
    rw [hn]
    rfl
  have hcount : (2 : ℚ) ≤ numGpus.toInt := by exact_mod_cast h
  rw [hdata, Tensor.mk.injEq]
  simp only [true_and, and_true]
  conv_lhs => rw [← List.map_id grad.data, List.map_map]
  rw [List.map_inj_left]
  refine forall_congr' fun x => imp_congr_right fun _ => ?_
  rw [Function.comp_apply, id_eq, div_eq_iff (by linarith)]
  constructor
  · intro hx
    have hzero : x * (numGpus.toInt - 1) = 0 := by rw [mul_sub, mul_one, ← hx, sub_self]
    exact (mul_eq_zero.mp hzero).resolve_right (by linarith)
  · rintro rfl
    rw [zero_mul]

theorem not_succeed_and_fail {results : List Bool} (hne : results ≠ [])
    (htrue : ∀ result ∈ results, result = true) (hfalse : ∀ result ∈ results, result = false) :
    False := by
  obtain ⟨first, hfirst⟩ := List.exists_mem_of_ne_nil results hne
  exact Bool.false_ne_true ((hfalse first hfirst).symm.trans (htrue first hfirst))

theorem aggregateTensor_ofCalls_iff {numGpus : Int32} (h : 2 ≤ numGpus.toInt)
    (mixed : AllReduce ℚ) {results : List Bool} (hne : results ≠ [])
    (hall : (∀ result ∈ results, result = true) ∨ ∀ result ∈ results, result = false)
    (grad : Tensor ℚ) :
    aggregateTensor numGpus (.ofCalls mixed results) grad = grad ↔
      ((∀ result ∈ results, result = false) → ∀ x ∈ grad.data, x = 0) := by
  rcases hall with htrue | hfalse
  · rw [AllReduce.ofCalls, if_pos htrue]
    exact iff_of_true (aggregateTensor_summed (by omega) grad) fun hfalse =>
      (not_succeed_and_fail hne htrue hfalse).elim
  · rw [AllReduce.ofCalls, if_neg fun htrue => not_succeed_and_fail hne htrue hfalse,
      if_pos hfalse, aggregateTensor_failed_iff h]
    exact ⟨fun hzero _ => hzero, fun himp => himp hfalse⟩

theorem mapIdx_eq_self_iff {α : Type*} {f : ℕ → α → α} {l : List α} :
    l.mapIdx f = l ↔ ∀ i a, l[i]? = some a → f i a = a := by
  rw [List.mapIdx_eq_iff]
  refine forall_congr' fun i => ?_
  rcases l[i]? with _ | a
  · simp
  · simp [eq_comm]

/-- Where the calls for each tensor succeed or fail together, the path over several devices agrees
with the plain one exactly if no tensor whose calls fail holds anything but zeros. -/
theorem multiGpu_agrees_iff (m : NCCLManager) (ncclAllReduce : ℕ → Int32 → Bool)
    (mixed : ℕ → AllReduce ℚ) (grads : List (Tensor ℚ)) (hN : 2 ≤ m.numGpus.toInt)
    (hall : ∀ i < grads.length, (∀ result ∈ m.allreduceCalls (ncclAllReduce i), result = true) ∨
      ∀ result ∈ m.allreduceCalls (ncclAllReduce i), result = false) :
    aggregateGradientsMultiGpu (.ofManager m ncclAllReduce mixed) grads =
        aggregateGradientsMultiGpu .single grads ↔
      (m.initialized = true → ∀ i grad, grads[i]? = some grad →
        (∀ result ∈ m.allreduceCalls (ncclAllReduce i), result = false) →
          ∀ x ∈ grad.data, x = 0) := by
  have hplain : aggregateGradientsMultiGpu .single grads = grads := if_pos (.inl rfl)
  rw [hplain]
  by_cases hinit : m.initialized = true
  · have hgpus : 1 < m.numGpus := Int32.lt_iff_toInt_lt.mpr (show 1 < m.numGpus.toInt by omega)
    have hcalls : ∀ i, m.allreduceCalls (ncclAllReduce i) ≠ [] := by
      intro i
      rw [NCCLManager.allreduceCalls, ne_eq, List.map_eq_nil_iff, List.range_eq_nil]
      omega
    rw [aggregateGradientsMultiGpu_of_ready hinit hgpus, mapIdx_eq_self_iff, imp_iff_right hinit]
    refine forall_congr' fun i => forall_congr' fun grad => imp_congr_right fun hi => ?_
    have hlt : i < grads.length := (List.getElem?_eq_some_iff.mp hi).1
    exact aggregateTensor_ofCalls_iff hN _ (hcalls i) (hall i hlt) grad
  · refine iff_of_true (if_pos (.inl ?_)) fun h => absurd h hinit
    exact Bool.eq_false_iff.mpr hinit

/-- Of two tensors the empty one finds the collective calls failing. -/
theorem multiGpu_agrees_two_tensors :
    aggregateGradientsMultiGpu (.ofManager ⟨true, 2⟩ (fun i _ => decide (i = 0)) fun _ => .failed)
        [⟨[119], [2], [1 / 100, 1 / 50], 0⟩, ⟨[98], [0], [], 0⟩] =
      aggregateGradientsMultiGpu (.single : Devices ℚ)
        [⟨[119], [2], [1 / 100, 1 / 50], 0⟩, ⟨[98], [0], [], 0⟩] := by
  refine (multiGpu_agrees_iff ⟨true, 2⟩ _ _ _ (by decide) ?_).mpr ?_
  · intro i hi
    rcases i with _ | i
    · exact .inl (by decide)
    · exact .inr (by simp [NCCLManager.allreduceCalls, NCCLManager.allreduceFloat])
  · rintro - i grad hi hfail
    rcases i with _ | _ | i
    · exact absurd hfail (by decide)
    · cases hi
      simp
    · cases hi

/-- The sum over two devices fails, and the gradient comes back halved. -/
theorem multiGpu_halves_gradient :
    (∀ result ∈ NCCLManager.allreduceCalls ⟨true, 2⟩ fun _ => false, result = false) ∧
      aggregateGradientsMultiGpu (.ofManager ⟨true, 2⟩ (fun _ _ => false) fun _ => .failed)
          [⟨[119], [1], [1 / 100], 0⟩] = ([⟨[119], [1], [1 / 200], 0⟩] : List (Tensor ℚ)) ∧
      aggregateGradientsMultiGpu .single [⟨[119], [1], [1 / 100], 0⟩] =
        ([⟨[119], [1], [1 / 100], 0⟩] : List (Tensor ℚ)) :=
  ⟨by decide, by decide +kernel, rfl⟩

end Worker

end ParamServer
