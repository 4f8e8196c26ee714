import ParamServer.Cluster.Synchronous
import ParamServer.Server.Frame
import ParamServer.Server.Sgd

/-! What synchronous training computes. In exact arithmetic the system is minibatch gradient
descent: the `k`-th version of the parameters follows from the one before by the mean of what `N`
workers have computed from just that one. -/

namespace ParamServer

open Library Worker

/-- Minibatch gradient descent, with the batch of workers for every step. -/
def sgd (gradient : Int32 → List (Tensor ℚ) → List (Tensor ℚ)) (batch : ℕ → Finset Int32)
    (base : List (Tensor ℚ)) : ℕ → List (Tensor ℚ)
  | 0 => base
  | k + 1 => descend (sgd gradient batch base k) fun i j =>
      (∑ w ∈ batch k, value (gradient w (sgd gradient batch base k)) i j) / (batch k).card

theorem sgd_succ (gradient : Int32 → List (Tensor ℚ) → List (Tensor ℚ))
    (batch : ℕ → Finset Int32) (base : List (Tensor ℚ)) (k : ℕ) :
    sgd gradient batch base (k + 1) = descend (sgd gradient batch base k) fun i j =>
      (∑ w ∈ batch k, value (gradient w (sgd gradient batch base k)) i j) / (batch k).card := rfl

namespace ParameterServerCore

/-- The workers whose gradients are recorded for the iteration of number `k`. -/
def batch {V : Type} (ps : ParameterServerCore V) (k : ℕ) : Finset Int32 :=
  (ps.stateOf (Int32.ofNat k)).workerGradients.keySet

end ParameterServerCore

/-- Every version follows from the one before by the mean of what is recorded for its number. -/
structure Descended (base : List (Tensor ℚ)) (ps : ParameterServerCore ℚ)
    (held : List (Int32 × List (Tensor ℚ))) : Prop where
  shape : layout ps.parameters = layout base
  next : ∀ k < held.length, paramsAt base held (k + 1) =
    descend (paramsAt base held k) (meanValue (ps.stateOf (Int32.ofNat k)).workerGradients)

section Receive

variable (ord : VisitOrder) {base : List (Tensor ℚ)} {devices : Int32 → Devices ℚ}
  {ps : ParameterServerCore ℚ} {held : List (Int32 × List (Tensor ℚ))}
  {versions : Int32 → Int32 → ℕ}

/-- What a push leaves recorded for the versions that are there already. -/
theorem ServerOk.stateOf_receive {multiGpu : Int32 → List (Tensor ℚ) → List (Tensor ℚ)}
    (h : ServerOk base multiGpu ps held versions) (p : Push ℚ) {k : ℕ} (hk : k < held.length) :
    (ps.receive ord p).2.stateOf (Int32.ofNat k) = ps.stateOf (Int32.ofNat k) := by
  by_cases hp : Int32.ofNat k = p.iteration
  · have hmem : Int32.ofNat k ∈ held.map Prod.fst := by
      rw [h.order]
      exact List.mem_map_of_mem (List.mem_range.mpr hk)
    have ha := (h.flags _).mpr hmem
    rw [hp] at ha ⊢
    rw [ps.stateOf_receive_self ord, ps.stateOf_push, if_pos ha]
  · exact ps.stateOf_receive_ne ord p hp

/-- A push that completes an iteration descends along the mean of what it leaves recorded. -/
theorem updated_eq_descend (hN : 1 ≤ ps.totalWorkers.toInt) (hb : ps.Barrier) {p : Push ℚ}
    (hc : ps.Completes p) (hne : ps.parameters ≠ [])
    (hlay : layout p.gradients = layout ps.parameters) :
    aggregate ps.parameters (averageGradients ord (ps.recorded p) p.gradients) =
      descend ps.parameters
        (meanValue ((ps.receive ord p).2.stateOf p.iteration).workerGradients) := by
  have hentry : (ps.receive ord p).2.stateOf p.iteration = ⟨ps.recorded p, true⟩ := by
    rw [ps.stateOf_receive_self ord, ps.stateOf_push, if_neg (by simp [hc.1])]
    simp [hc.2]
  have hsize : (ps.recorded p).size < 2 ^ 31 := by
    have hq := ((hb.receive ord p).counted p.iteration).1
    rw [hentry, ParameterServerCore.receive_totalWorkers, quorum_of_pos hN] at hq
    have hlt := ps.totalWorkers.toInt_lt
    change (ps.recorded p).size ≤ _ at hq
    omega
  rw [averageGradients_eq_meanTensors ord _ _ hsize, aggregate_meanTensors hne hlay, hentry]

theorem Descended.receive (hN : 1 ≤ ps.totalWorkers.toInt) (hb : ps.Barrier) (hP : base ≠ [])
    (h : ServerOk base (fun w => aggregateGradientsMultiGpu (devices w)) ps held versions)
    (hd : Descended base ps held) {ticket : Ticket} {p : Push ℚ}
    (hp : PushOk base (fun w => aggregateGradientsMultiGpu (devices w)) held ticket p) :
    Descended base (ps.receive ord p).2 (held ++ ps.lineage ord [p]) := by
  have hne : ps.parameters ≠ [] := by
    intro hnil
    have hshape := hd.shape
    rw [hnil] at hshape
    exact hP (List.map_eq_nil_iff.mp hshape.symm)
  refine ⟨?_, fun k hk => ?_⟩
  · rw [ParameterServerCore.receive_parameters]
    split
    · rw [ParameterServerCore.updated, layout_aggregate hne, hd.shape]
    · exact hd.shape
  by_cases hold : k < held.length
  · rw [paramsAt_append base _ hold, paramsAt_append base _ hold.le, h.stateOf_receive ord p hold]
    exact hd.next k hold
  -- the version that this push completes
  rw [ParameterServerCore.lineage, ParameterServerCore.lineage] at hk ⊢
  by_cases hc : ps.Completes p
  · rw [if_pos hc] at hk ⊢
    rw [List.length_append, List.length_singleton] at hk
    obtain rfl : k = held.length := by omega
    obtain ⟨hit, hver⟩ := hp.version_eq h hc.1
    have hpar : paramsAt base held held.length = ps.parameters := by
      rw [paramsAt, List.take_length, h.parameters]
    have hlay : layout p.gradients = layout ps.parameters := by
      rw [hp.gradients, hver, hpar]
      exact layout_gradientsFor _ hne
    have hnum : Int32.ofNat held.length = p.iteration := by
      rw [← int32_ofNat_toNat hp.nonneg, hit, Int.toNat_natCast]
    have hnext : paramsAt base (held ++
        [(p.iteration, averageGradients ord (ps.recorded p) p.gradients)]) (held.length + 1) =
        aggregate ps.parameters (averageGradients ord (ps.recorded p) p.gradients) := by
      rw [paramsAt, List.take_of_length_le (by simp), applyMeans_append, h.parameters]
      rfl
    rw [hnext, paramsAt_append base _ le_rfl, hpar, hnum]
    exact updated_eq_descend ord hN hb hc hne hlay
  · rw [if_neg hc, List.append_nil] at hk
    exact absurd hk hold

end Receive

namespace Cluster

variable (ord : VisitOrder) (devices : Int32 → Devices ℚ)

/-- Synchronous training on devices, with the history of its versions. -/
structure Trained (N : Int32) (base : List (Tensor ℚ)) (s : Cluster ℚ) : Prop where
  synchronous : Synchronous base (fun w => aggregateGradientsMultiGpu (devices w)) s
  barrier : s.service.ps.Barrier
  totalWorkers : s.service.ps.totalWorkers = N
  descended : Descended base s.service.ps s.service.held

variable {devices} {N : Int32} {base : List (Tensor ℚ)} {s : Cluster ℚ}

theorem Trained.step (hN : 1 ≤ N.toInt) (hP : base ≠ []) (h : Trained devices N base s)
    {e : ClusterEvent} (he : InOrder s e) :
    Trained devices N base (s.step ord (fun w => aggregateGradientsMultiGpu (devices w)) e) := by
  obtain ⟨hbarrier, htotal⟩ := barrier_step (fun w => aggregateGradientsMultiGpu (devices w)) ord
    ⟨h.barrier, h.totalWorkers⟩ e
  refine ⟨h.synchronous.step ord he, hbarrier, htotal, ?_⟩
  have hs := s.step_cases ord (fun w => aggregateGradientsMultiGpu (devices w)) e
  generalize s.step ord (fun w => aggregateGradientsMultiGpu (devices w)) e = s' at hs ⊢
  cases hs with
  | @receive t p hthread =>
    have hpush := (h.synchronous.thread t).2
    rw [hthread] at hpush
    have hN' : 1 ≤ s.service.ps.totalWorkers.toInt := by
      rw [h.totalWorkers]
      exact hN
    exact h.descended.receive ord hN' h.barrier hP h.synchronous.server hpush.1
  | _ => exact h.descended

theorem trained_initial (N : Int32) (base : List (Tensor ℚ)) :
    Trained devices N base (initial N base) where
  synchronous := synchronous_initial N
  barrier := .of_empty rfl
  totalWorkers := rfl
  descended := ⟨rfl, fun k hk => absurd hk (Nat.not_lt_zero k)⟩

/-- The recorded gradients of an aggregated iteration are those of a batch of `N` workers at the
version of its number. -/
theorem Trained.meanValue_eq (h : Trained devices N base s) {k : ℕ}
    (hk : k < s.service.held.length) :
    meanValue (s.service.ps.stateOf (Int32.ofNat k)).workerGradients = fun i j =>
      (∑ w ∈ s.service.ps.batch k, value (gradientsFor (aggregateGradientsMultiGpu (devices w))
        (paramsAt base s.service.held k)) i j) / (s.service.ps.batch k).card := by
  have hserver := h.synchronous.server
  funext i j
  rw [meanValue, ← InsertionMap.card_keySet, ← ParameterServerCore.batch]
  congr 1
  refine Finset.sum_congr rfl fun w hw => ?_
  rw [ParameterServerCore.batch, InsertionMap.keySet, List.mem_toFinset,
    ← InsertionMap.find?_isSome_iff, Option.isSome_iff_exists] at hw
  obtain ⟨G, hG⟩ := hw
  obtain ⟨hver, -, hgrads⟩ := hserver.recorded _ w G hG
  have hb := hserver.bound
  rw [Int32.toInt_ofNat_of_lt (by omega), Nat.cast_inj] at hver
  rw [hG, Option.getD_some, hgrads, hver]

theorem Trained.paramsAt_eq (h : Trained devices N base s) {k : ℕ}
    (hk : k ≤ s.service.held.length) :
    paramsAt base s.service.held k =
      sgd (fun w => gradientsFor (aggregateGradientsMultiGpu (devices w))) s.service.ps.batch
        base k := by
  induction k with
  | zero => rfl
  | succ k ih =>
    rw [h.descended.next k hk, h.meanValue_eq hk, ih (Nat.le_of_succ_le hk), sgd_succ]

/-- Training is minibatch gradient descent. In every state of every run that keeps to the order,
the server holds the newest iterate, the batches of the completed steps have `N` workers each,
every reply to a pull carries an iterate, and a worker is about to push the gradients of one. -/
theorem trains_by_sgd (hN : 1 ≤ N.toInt) (hP : base ≠ []) (es : List ClusterEvent)
    (hes : (machine ord fun w => aggregateGradientsMultiGpu (devices w)).Meets InOrder
      (initial N base) es) :
    let s := (machine ord fun w => aggregateGradientsMultiGpu (devices w)).final (initial N base) es
    let gradient := fun w => gradientsFor (aggregateGradientsMultiGpu (devices w))
    let iterate := sgd gradient s.service.ps.batch base
    s.service.ps.parameters = iterate s.service.held.length ∧
    (∀ k < s.service.held.length, (s.service.ps.batch k).card = N.toInt.toNat) ∧
    (∀ m ∈ s.replies, ∀ r means, m.2 = .parameters r means →
      means.length ≤ s.service.held.length ∧ r.parameters = iterate means.length) ∧
    ∀ w retryCount grads, (s.workers w).stage = some (.push retryCount grads) →
      (s.workers w).version ≤ s.service.held.length ∧
        grads = gradient w (iterate (s.workers w).version) := by
  intro s gradient iterate
  have hs : Trained devices N base s :=
    Machine.invariant_final (fun s e h ho => h.step ord hN hP ho) (trained_initial N base) hes
  have hsync := hs.synchronous
  refine ⟨?_, fun k hk => ?_, fun m hm r means hr => ?_, fun w retryCount grads hw => ?_⟩
  · have hnewest := hs.paramsAt_eq le_rfl
    rwa [paramsAt, List.take_length, ← hsync.server.parameters] at hnewest
  · have hmem : Int32.ofNat k ∈ s.service.held.map Prod.fst := by
      rw [hsync.server.order]
      exact List.mem_map_of_mem (List.mem_range.mpr hk)
    have hcount := (hs.barrier.counted (Int32.ofNat k)).2.mp ((hsync.server.flags _).mpr hmem)
    rw [ParameterServerCore.batch, InsertionMap.card_keySet, hcount, hs.totalWorkers,
      quorum_of_pos hN]
  · have hreply := (hsync.reply m hm).2
    rw [hr] at hreply
    have hle := hreply.isPrefix.length_le
    refine ⟨hle, ?_⟩
    rw [hreply.parameters, List.prefix_iff_eq_take.mp hreply.isPrefix, List.length_take,
      min_eq_left hle]
    exact hs.paramsAt_eq hle
  · obtain ⟨-, hle, hgrads⟩ := (hsync.worker w).stage _ hw
    refine ⟨hle, ?_⟩
    rw [hgrads, hs.paramsAt_eq hle]

theorem trains_by_sgd_two_workers :
    let es : List ClusterEvent := [.run 0 0, .run 1 0, .send 0, .send 1, .arrive 0 0,
      .arrive 0 1, .advance 0, .advance 0, .advance 1, .advance 1, .deliver 0, .deliver 0,
      .send 0, .send 1, .arrive 0 0, .arrive 0 1, .advance 0, .advance 1]
    let s := (machine .insertion fun _ => aggregateGradientsMultiGpu .single).final
      (initial 2 [pair 10 20]) es
    s.service.ps.batch 0 = {0, 1} ∧ s.service.held.length = 1 ∧
      s.service.ps.parameters =
        sgd (fun _ => gradientsFor (aggregateGradientsMultiGpu .single)) s.service.ps.batch
          [pair 10 20] s.service.held.length :=
  ⟨by decide +kernel, by decide +kernel, (trains_by_sgd (N := 2) .insertion (by decide) (by decide)
    [.run 0 0, .run 1 0, .send 0, .send 1, .arrive 0 0, .arrive 0 1, .advance 0, .advance 0,
      .advance 1, .advance 1, .deliver 0, .deliver 0, .send 0, .send 1, .arrive 0 0, .arrive 0 1,
      .advance 0, .advance 1] (by decide +kernel)).1⟩

end Cluster

end ParamServer
