import ParamServer.Library.Machine
import ParamServer.Server.History

/-! A push that is delivered once more. Before its iteration is complete it writes what is
already recorded, and afterwards it is late, so that it never changes the server. -/

namespace ParamServer

open Library

variable {V : Type}

/-- The server with its pushes only, which answers each one. -/
def pushMachine [Scalar V] (ord : VisitOrder) : Machine (ParameterServerCore V) (Push V) Bool where
  step s p := s.receive ord p

namespace ParameterServerCore

variable [Scalar V] (ord : VisitOrder)

theorem final_pushMachine (s : ParameterServerCore V) (ps : List (Push V)) :
    (pushMachine ord).final s ps = s.runPushes ord ps := by
  induction ps generalizing s with
  | nil => rfl
  | cons p ps ih => exact ih _

theorem receive_eq_self_of_aggregated {s : ParameterServerCore V} {p : Push V}
    (h : (s.stateOf p.iteration).aggregated = true) (hi : p.iteration ≤ s.currentIteration) :
    (s.receive ord p).2 = s := by
  rw [s.receive_late ord p h, laterIteration, if_neg (Int32.not_lt.mpr hi)]

/-- While the iteration is open, a push that is recorded already is recorded again. -/
theorem receive_eq_self_of_recorded {s : ParameterServerCore V} {p : Push V}
    {m : InsertionMap Int32 (List (Tensor V))}
    (hf : s.iterationStates.find? p.iteration = some ⟨m, false⟩)
    (hp : m.find? p.workerId = some p.gradients) (hq : m.size < quorum s.totalWorkers)
    (hi : p.iteration ≤ s.currentIteration) : (s.receive ord p).2 = s := by
  have hst : s.stateOf p.iteration = ⟨m, false⟩ := by rw [stateOf, hf, Option.getD_some]
  have hrec : s.recorded p = m := by
    rw [recorded, hst]
    exact InsertionMap.assign_of_find?_eq_some hp
  rw [s.receive_partial ord p (by rw [hst]) (by rwa [hrec]), hrec,
    InsertionMap.assign_of_find?_eq_some hf, laterIteration, if_neg (Int32.not_lt.mpr hi)]

theorem receive_runPushes_eq_self {s : ParameterServerCore V} (hs : s.iterationStates = .empty)
    {r₁ r₂ : List (Push V)} {p : Push V}
    (h : ∀ r ∈ r₂, r.workerId = p.workerId → r.iteration = p.iteration →
      r.gradients = p.gradients) :
    ((s.runPushes ord (r₁ ++ p :: r₂)).receive ord p).2 = s.runPushes ord (r₁ ++ p :: r₂) := by
  have hk : s.iterationStates.find? p.iteration = none := hs ▸ rfl
  have hi : p.iteration ≤ (s.runPushes ord (r₁ ++ p :: r₂)).currentIteration :=
    (s.runPushes_currentIteration ord _).2.1 p (by simp)
  by_cases hagg : ((s.runPushes ord (r₁ ++ p :: r₂)).stateOf p.iteration).aggregated = true
  · exact receive_eq_self_of_aggregated ord hagg hi
  · rw [aggregated_runPushes_iff ord hk, Nat.not_le] at hagg
    have hne : pushesFor p.iteration (r₁ ++ p :: r₂) ≠ [] :=
      List.ne_nil_of_mem (a := p) (List.mem_filter.mpr ⟨by simp, by simp⟩)
    refine receive_eq_self_of_recorded ord (m := (entryOf (quorum s.totalWorkers) p.iteration
      (r₁ ++ p :: r₂)).workerGradients) ?_ ?_ ?_ hi
    · rw [find?_runPushes ord hk, if_neg hne, entryOf, decide_eq_false (Nat.not_le.mpr hagg)]
    · -- the last push of this worker for this iteration carries the same gradients
      have hp : p ∈ pushesFor p.iteration (p :: r₂) := List.mem_filter.mpr ⟨by simp, by simp⟩
      obtain ⟨r, hr, hw, hlast⟩ := @exists_lastFrom_append _ _ _ Push.workerId
        (pushesFor p.iteration r₁) _ _ hp
      have hG : r.gradients = p.gradients := by
        obtain ⟨hmem, hi⟩ := List.mem_filter.mp hr
        rcases List.mem_cons.mp hmem with rfl | hmem
        · rfl
        · exact h r hmem hw (of_decide_eq_true hi)
      rw [entryOf, find?_recordAll, counted_of_card_lt hagg, pushesFor, List.filter_append,
        ← pushesFor, ← pushesFor, hlast, Option.map_some, hG]
    · rw [runPushes_totalWorkers, size_entryOf]
      omega

/-- A push may be delivered once more at any later point, as long as its worker has not pushed
other gradients for the iteration in between: no other answer and nothing in the server changes. -/
theorem redelivered_push (N : Int32) (P₀ : List (Tensor V)) (r₁ r₂ r₃ : List (Push V)) (p : Push V)
    (h : ∀ r ∈ r₂, r.workerId = p.workerId → r.iteration = p.iteration →
      r.gradients = p.gradients) :
    let s₀ : ParameterServerCore V := (new N).initializeParameters P₀
    let before := r₁ ++ p :: r₂
    ((pushMachine ord).outputs s₀ (before ++ p :: r₃)).eraseIdx before.length =
        (pushMachine ord).outputs s₀ (before ++ r₃) ∧
      (pushMachine ord).final s₀ (before ++ p :: r₃) =
        (pushMachine ord).final s₀ (before ++ r₃) := by
  intro s₀ before
  refine (pushMachine ord).run_insert ?_ r₃
  rw [final_pushMachine]
  exact receive_runPushes_eq_self ord rfl h

/-- The first push of a worker is delivered again after the iteration was completed. -/
theorem redelivered_push_two_workers :
    let p : Push UInt32 := ⟨0, 0, [word 2]⟩
    let s₀ : ParameterServerCore UInt32 := (new 2).initializeParameters [word 10]
    (pushMachine .insertion).final s₀ ([p, ⟨1, 0, [word 4]⟩] ++ p :: [⟨1, 1, [word 4]⟩]) =
      (pushMachine .insertion).final s₀ ([p, ⟨1, 0, [word 4]⟩] ++ [⟨1, 1, [word 4]⟩]) :=
  (redelivered_push .insertion 2 [word 10] [] [⟨1, 0, [word 4]⟩] [⟨1, 1, [word 4]⟩]
    ⟨0, 0, [word 2]⟩ (by decide)).2

end ParameterServerCore

end ParamServer
