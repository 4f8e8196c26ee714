import ParamServer.Cluster.System
import ParamServer.Server.Calls

/-! Synchronous training. If every worker runs the iterations in order and goes on only after
success, and pushes only what it has computed from an answered pull, then all gradients that the
server averages for an iteration were computed from the same version of the parameters. -/

namespace ParamServer

open Library Worker

variable {V : Type} [Scalar V]

def paramsAt (base : List (Tensor V)) (held : List (Int32 × List (Tensor V))) (version : ℕ) :
    List (Tensor V) := applyMeans base (held.take version)

theorem paramsAt_append (base : List (Tensor V)) {held : List (Int32 × List (Tensor V))}
    (means : List (Int32 × List (Tensor V))) {version : ℕ} (h : version ≤ held.length) :
    paramsAt base (held ++ means) version = paramsAt base held version := by
  rw [paramsAt, List.take_append_of_le_length h, paramsAt]

variable (base : List (Tensor V)) (multiGpu : Int32 → List (Tensor V) → List (Tensor V))

/-- The push carries gradients of a version that its worker may push for its iteration. -/
structure PushOk (held : List (Int32 × List (Tensor V))) (ticket : Ticket) (p : Push V) :
    Prop where
  worker : p.workerId = ticket.worker
  nonneg : 0 ≤ p.iteration.toInt
  iteration_le : p.iteration.toInt ≤ ticket.version
  version_le : ticket.version ≤ held.length
  gradients : p.gradients =
    gradientsFor (multiGpu ticket.worker) (paramsAt base held ticket.version)

/-- The server has applied the means in the order of their iterations, and has recorded for an
iteration only gradients of the version of that number. -/
structure ServerOk (ps : ParameterServerCore V) (held : List (Int32 × List (Tensor V)))
    (versions : Int32 → Int32 → ℕ) : Prop where
  order : held.map Prod.fst = (List.range held.length).map Int32.ofNat
  bound : held.length ≤ 2 ^ 31
  flags : ∀ k, (ps.stateOf k).aggregated = true ↔ k ∈ held.map Prod.fst
  parameters : ps.parameters = applyMeans base held
  recorded : ∀ k w G, (ps.stateOf k).workerGradients.find? w = some G →
    (versions k w : ℤ) = k.toInt ∧ versions k w ≤ held.length ∧
      G = gradientsFor (multiGpu w) (paramsAt base held (versions k w))

variable {base multiGpu} {ps : ParameterServerCore V} {held : List (Int32 × List (Tensor V))}
  {versions : Int32 → Int32 → ℕ}

theorem ServerOk.mem_held_iff (h : ServerOk base multiGpu ps held versions) (k : Int32) :
    k ∈ held.map Prod.fst ↔ 0 ≤ k.toInt ∧ k.toInt < held.length := by
  have hb := h.bound
  rw [h.order, List.mem_map]
  constructor
  · rintro ⟨i, hi, rfl⟩
    rw [List.mem_range] at hi
    rw [Int32.toInt_ofNat_of_lt (by omega)]
    omega
  · rintro ⟨h0, hlt⟩
    exact ⟨k.toInt.toNat, List.mem_range.mpr (by omega), int32_ofNat_toNat h0⟩

/-- A push for an iteration that is not aggregated carries the current version, which is the
number of the iteration. -/
theorem PushOk.version_eq {ticket : Ticket} {p : Push V}
    (hp : PushOk base multiGpu held ticket p) (h : ServerOk base multiGpu ps held versions)
    (ha : (ps.stateOf p.iteration).aggregated = false) :
    p.iteration.toInt = held.length ∧ ticket.version = held.length := by
  have hlate : ¬p.iteration ∈ held.map Prod.fst := by
    rw [← h.flags, ha]
    simp
  rw [h.mem_held_iff] at hlate
  have h0 := hp.nonneg
  have hle := hp.iteration_le
  have hv := hp.version_le
  omega

variable (ord : VisitOrder)

theorem ServerOk.receive (h : ServerOk base multiGpu ps held versions) {ticket : Ticket}
    {p : Push V} (hp : PushOk base multiGpu held ticket p) :
    ServerOk base multiGpu (ps.receive ord p).2 (held ++ ps.lineage ord [p])
      (recordVersion ps versions ticket p) := by
  have hlen : held.length ≤ (held ++ ps.lineage ord [p]).length := by simp
  refine ⟨?_, ?_, ParameterServerCore.aggregated_receive_iff_mem ord h.flags p,
    ParameterServerCore.receive_parameters_eq ord h.parameters p, fun k w G hG => ?_⟩
  · rw [ParameterServerCore.lineage, ParameterServerCore.lineage]
    split
    · rename_i hc
      -- the iteration that a push completes is the next one in order
      have hk := (hp.version_eq h hc.1).1
      rw [List.map_append, h.order, List.length_append, List.length_singleton, List.range_succ,
        List.map_append, List.map_singleton, List.map_singleton, ← int32_ofNat_toNat hp.nonneg, hk]
      rfl
    · simpa using h.order
  · rw [ParameterServerCore.lineage, ParameterServerCore.lineage]
    split
    · rename_i hc
      have hk := (hp.version_eq h hc.1).1
      have hlt := p.iteration.toInt_lt
      rw [List.length_append, List.length_singleton]
      omega
    · simpa using h.bound
  · by_cases hkw : k = p.iteration ∧ w = p.workerId ∧ (ps.stateOf p.iteration).aggregated = false
    · -- the entry of this push
      obtain ⟨rfl, rfl, ha⟩ := hkw
      obtain ⟨hk, hv⟩ := hp.version_eq h ha
      have hG' : G = p.gradients := by
        rw [ps.stateOf_receive_self ord, ps.stateOf_push, if_neg (by simp [ha])] at hG
        simpa [ParameterServerCore.recorded] using hG.symm
      rw [recordVersion, if_neg (by simp [ha]), if_pos ⟨rfl, rfl⟩, hG', hp.gradients, hp.worker,
        paramsAt_append base _ hp.version_le]
      exact ⟨by omega, by omega, rfl⟩
    · -- an entry from before
      have hold : (ps.stateOf k).workerGradients.find? w = some G := by
        by_cases hk : k = p.iteration
        · subst hk
          rw [ps.stateOf_receive_self ord, ps.stateOf_push] at hG
          split at hG
          · exact hG
          · rename_i ha
            have hw : w ≠ p.workerId := fun hw => hkw ⟨rfl, hw, by simpa using ha⟩
            simpa only [ParameterServerCore.recorded, InsertionMap.find?_assign_ne _ hw] using hG
        · rwa [ps.stateOf_receive_ne ord p hk] at hG
      have hver : recordVersion ps versions ticket p k w = versions k w := by
        rw [recordVersion]
        split
        · rfl
        · rename_i ha
          exact if_neg fun hk => hkw ⟨hk.1, hk.2, by simpa using ha⟩
      obtain ⟨h1, h2, h3⟩ := h.recorded k w G hold
      rw [hver, paramsAt_append base _ h2]
      exact ⟨h1, h2.trans hlen, h3⟩

end ParamServer
