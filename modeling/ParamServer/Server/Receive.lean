import ParamServer.Server.Core

/-! What one `receive_gradients` call can do: a late push changes nothing but the iteration
counter, a push below the quorum is recorded, and the push that reaches the quorum also applies
the mean. -/

namespace ParamServer

open Library

variable {V : Type}

structure Push (V : Type) where
  workerId : Int32
  iteration : Int32
  gradients : List (Tensor V)
deriving DecidableEq, Repr

/-- The number of distinct workers that completes an iteration. The first push completes it
when `total_workers` is zero. -/
def quorum (totalWorkers : Int32) : ℕ := max 1 (toSizeT totalWorkers)

theorem one_le_quorum (totalWorkers : Int32) : 1 ≤ quorum totalWorkers := le_max_left ..

theorem quorum_of_pos {totalWorkers : Int32} (h : 1 ≤ totalWorkers.toInt) :
    quorum totalWorkers = totalWorkers.toInt.toNat := by
  rw [quorum, toSizeT_of_nonneg (by omega)]
  omega

def laterIteration (current iteration : Int32) : Int32 :=
  if current < iteration then iteration else current

/-- What a push does to the entry of its iteration, for a quorum of `q` workers. -/
def IterationState.push (q : ℕ) (st : IterationState V) (p : Push V) : IterationState V :=
  if st.aggregated then st
  else
    let m := st.workerGradients.assign p.workerId p.gradients
    ⟨m, decide (q ≤ m.size)⟩

namespace ParameterServerCore

def recorded (s : ParameterServerCore V) (p : Push V) : InsertionMap Int32 (List (Tensor V)) :=
  (s.stateOf p.iteration).workerGradients.assign p.workerId p.gradients

/-- Whether this push applies the mean of its iteration. -/
def Completes (s : ParameterServerCore V) (p : Push V) : Prop :=
  (s.stateOf p.iteration).aggregated = false ∧ quorum s.totalWorkers ≤ (s.recorded p).size

instance (s : ParameterServerCore V) (p : Push V) : Decidable (s.Completes p) :=
  inferInstanceAs (Decidable (_ ∧ _))

theorem toSizeT_le_recorded_iff (s : ParameterServerCore V) (p : Push V) :
    toSizeT s.totalWorkers ≤ (s.recorded p).size ↔ quorum s.totalWorkers ≤ (s.recorded p).size := by
  have : 1 ≤ (s.recorded p).size := InsertionMap.one_le_size_assign ..
  rw [quorum]
  omega

theorem stateOf_push (s : ParameterServerCore V) (p : Push V) :
    (s.stateOf p.iteration).push (quorum s.totalWorkers) p =
      if (s.stateOf p.iteration).aggregated then s.stateOf p.iteration
      else ⟨s.recorded p, decide (quorum s.totalWorkers ≤ (s.recorded p).size)⟩ := rfl

theorem receive_cases (s : ParameterServerCore V) (p : Push V) :
    ((s.stateOf p.iteration).aggregated = true ∧ ¬s.Completes p) ∨ s.Completes p ∨
      ((s.stateOf p.iteration).aggregated = false ∧
        (s.recorded p).size < quorum s.totalWorkers ∧ ¬s.Completes p) := by
  by_cases ha : (s.stateOf p.iteration).aggregated = true
  · exact .inl ⟨ha, fun h => by simp [h.1] at ha⟩
  · rw [Bool.not_eq_true] at ha
    by_cases hq : quorum s.totalWorkers ≤ (s.recorded p).size
    · exact .inr (.inl ⟨ha, hq⟩)
    · exact .inr (.inr ⟨ha, Nat.not_le.mp hq, fun h => hq h.2⟩)

variable [Scalar V] (ord : VisitOrder) (s : ParameterServerCore V) (p : Push V)

def receive : Bool × ParameterServerCore V :=
  s.receiveGradients ord p.workerId p.iteration p.gradients

def updated : List (Tensor V) :=
  aggregate s.parameters (averageGradients ord (s.recorded p) p.gradients)

theorem receive_late (h : (s.stateOf p.iteration).aggregated = true) :
    s.receive ord p =
      (true, { s with currentIteration := laterIteration s.currentIteration p.iteration }) := by
  unfold receive receiveGradients laterIteration
  split <;> exact if_pos h

theorem receive_completing (h : s.Completes p) :
    s.receive ord p =
      (true, { totalWorkers := s.totalWorkers
               parameters := s.updated ord p
               iterationStates := s.iterationStates.assign p.iteration ⟨s.recorded p, true⟩
               currentIteration := laterIteration s.currentIteration p.iteration }) := by
  have hf : ¬(s.stateOf p.iteration).aggregated = true := Bool.eq_false_iff.mp h.1
  have hq := (s.toSizeT_le_recorded_iff p).mpr h.2
  unfold receive receiveGradients laterIteration
  split <;> exact (if_neg hf).trans (if_pos hq)

theorem receive_partial (h : (s.stateOf p.iteration).aggregated = false)
    (hq : (s.recorded p).size < quorum s.totalWorkers) :
    s.receive ord p =
      (false, { s with
        iterationStates := s.iterationStates.assign p.iteration ⟨s.recorded p, false⟩
        currentIteration := laterIteration s.currentIteration p.iteration }) := by
  have hf : ¬(s.stateOf p.iteration).aggregated = true := Bool.eq_false_iff.mp h
  have hq' := mt (s.toSizeT_le_recorded_iff p).mp (Nat.not_le.mpr hq)
  unfold receive receiveGradients laterIteration
  split <;> exact (if_neg hf).trans (if_neg hq')

@[simp] theorem receive_totalWorkers : (s.receive ord p).2.totalWorkers = s.totalWorkers := by
  obtain ⟨h, -⟩ | h | ⟨h, hq, -⟩ := s.receive_cases p
  · rw [s.receive_late ord p h]
  · rw [s.receive_completing ord p h]
  · rw [s.receive_partial ord p h hq]

@[simp] theorem receive_currentIteration :
    (s.receive ord p).2.currentIteration = laterIteration s.currentIteration p.iteration := by
  obtain ⟨h, -⟩ | h | ⟨h, hq, -⟩ := s.receive_cases p
  · rw [s.receive_late ord p h]
  · rw [s.receive_completing ord p h]
  · rw [s.receive_partial ord p h hq]

theorem receive_parameters :
    (s.receive ord p).2.parameters = if s.Completes p then s.updated ord p else s.parameters := by
  obtain ⟨h, hc⟩ | h | ⟨h, hq, hc⟩ := s.receive_cases p
  · rw [s.receive_late ord p h, if_neg hc]
  · rw [s.receive_completing ord p h, if_pos h]
  · rw [s.receive_partial ord p h hq, if_neg hc]

theorem find?_receive_self :
    (s.receive ord p).2.iterationStates.find? p.iteration =
      some ((s.stateOf p.iteration).push (quorum s.totalWorkers) p) := by
  rw [stateOf_push]
  obtain ⟨h, -⟩ | h | ⟨h, hq, -⟩ := s.receive_cases p
  · rw [s.receive_late ord p h, if_pos h]
    -- only an iteration with an entry is marked aggregated
    unfold stateOf at h ⊢
    rcases hf : s.iterationStates.find? p.iteration with _ | st
    · simp [hf] at h
    · rfl
  · rw [s.receive_completing ord p h, if_neg (by simp [h.1])]
    simp [h.2]
  · rw [s.receive_partial ord p h hq, if_neg (by simp [h])]
    simp [hq]

theorem find?_receive_ne {k : Int32} (hk : k ≠ p.iteration) :
    (s.receive ord p).2.iterationStates.find? k = s.iterationStates.find? k := by
  obtain ⟨h, -⟩ | h | ⟨h, hq, -⟩ := s.receive_cases p
  · rw [s.receive_late ord p h]
  · rw [s.receive_completing ord p h]
    exact InsertionMap.find?_assign_ne _ hk _
  · rw [s.receive_partial ord p h hq]
    exact InsertionMap.find?_assign_ne _ hk _

theorem stateOf_receive_self :
    (s.receive ord p).2.stateOf p.iteration =
      (s.stateOf p.iteration).push (quorum s.totalWorkers) p := by
  rw [stateOf, find?_receive_self, Option.getD_some]

theorem stateOf_receive_ne {k : Int32} (hk : k ≠ p.iteration) :
    (s.receive ord p).2.stateOf k = s.stateOf k := by
  rw [stateOf, s.find?_receive_ne ord p hk, stateOf]

theorem receive_fst :
    (s.receive ord p).1 = ((s.receive ord p).2.stateOf p.iteration).aggregated := by
  rw [stateOf_receive_self, stateOf_push]
  obtain ⟨h, -⟩ | h | ⟨h, hq, -⟩ := s.receive_cases p
  · rw [s.receive_late ord p h, if_pos h, h]
  · rw [s.receive_completing ord p h, if_neg (by simp [h.1])]
    simp [h.2]
  · rw [s.receive_partial ord p h hq, if_neg (by simp [h])]
    simp [hq]

theorem aggregated_receive_iff (k : Int32) :
    ((s.receive ord p).2.stateOf k).aggregated = true ↔
      (s.stateOf k).aggregated = true ∨ (s.Completes p ∧ k = p.iteration) := by
  by_cases hk : k = p.iteration
  · subst hk
    rw [← receive_fst]
    obtain ⟨h, -⟩ | h | ⟨h, hq, hc⟩ := s.receive_cases p
    · simp [s.receive_late ord p h, h]
    · simp [s.receive_completing ord p h, h]
    · simp [s.receive_partial ord p h hq, h, hc]
  · rw [s.stateOf_receive_ne ord p hk]
    simp [hk]

theorem mem_keySet_receive {k w : Int32}
    (h : w ∈ ((s.receive ord p).2.stateOf k).workerGradients.keySet) :
    w ∈ (s.stateOf k).workerGradients.keySet ∨ (k = p.iteration ∧ w = p.workerId) := by
  by_cases hk : k = p.iteration
  · subst hk
    rw [stateOf_receive_self, stateOf_push] at h
    split at h
    · exact .inl h
    · rw [recorded, InsertionMap.keySet_assign, Finset.mem_insert] at h
      exact h.elim (fun hw => .inr ⟨rfl, hw⟩) .inl
  · rw [s.stateOf_receive_ne ord p hk] at h
    exact .inl h

end ParameterServerCore

end ParamServer
