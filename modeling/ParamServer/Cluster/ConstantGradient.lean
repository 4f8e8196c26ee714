import ParamServer.Cluster.Layouts
import ParamServer.Server.Sgd

/-! What a run adds up to. The gradient that `compute_gradients` stands for is constant, so that in
exact arithmetic every aggregated iteration lowers every element of the parameters by one hundredth,
whichever messages are delayed, lost or sent again on the way. -/

namespace ParamServer

open Library Worker

variable {V : Type} [Scalar V]

/-- Several devices compute what a single one does. -/
def Devices.Agree (devices : Devices V) : Prop :=
  ∀ grads, aggregateGradientsMultiGpu devices grads = grads

theorem Devices.agree_single : (Devices.single : Devices V).Agree := fun _ => if_pos (.inl rfl)

def Constant (grads : List (Tensor V)) : Prop := ∀ t ∈ grads, ∀ x ∈ t.data, x = Scalar.hundredth

theorem constant_gradientsFor {devices : Devices V} (h : devices.Agree)
    (params : List (Tensor V)) :
    Constant (gradientsFor (aggregateGradientsMultiGpu devices) params) := by
  intro t ht x hx
  rw [gradientsFor, computeGradients, h] at ht
  obtain ⟨t, -, rfl⟩ := List.mem_map.mp ht
  obtain ⟨y, -, rfl⟩ := List.mem_map.mp hx
  rfl

section Mean

variable {P : List (Tensor ℚ)} {i j : ℕ} {t : Tensor ℚ}

theorem descend_congr {u v : ℕ → ℕ → ℚ}
    (h : ∀ i t j, P[i]? = some t → j < t.data.length → u i j = v i j) :
    descend P u = descend P v := by
  apply List.ext_getElem?
  intro i
  rw [descend, descend, List.getElem?_mapIdx, List.getElem?_mapIdx]
  rcases ht : P[i]? with _ | t
  · rfl
  rw [Option.map_some, Option.map_some]
  congr 2
  apply List.ext_getElem?
  intro j
  rw [List.getElem?_mapIdx, List.getElem?_mapIdx]
  rcases hx : t.data[j]? with _ | x
  · rfl
  · rw [Option.map_some, Option.map_some, h i t j ht (List.getElem?_eq_some_iff.mp hx).1]

theorem value_of_constant {G : List (Tensor ℚ)} (hG : Constant G) (hl : layout G = layout P)
    (ht : P[i]? = some t) (hj : j < t.data.length) : value G i j = 1 / 100 := by
  rcases getElem?_of_layout_eq hl i with ⟨-, hnone⟩ | ⟨g, t', hg, ht', -, -, hlen⟩
  · rw [ht] at hnone
    cases hnone
  · rw [ht, Option.some_inj] at ht'
    subst ht'
    rw [← hlen] at hj
    rw [value, hg, Option.bind_some, List.getElem?_eq_getElem hj, Option.getD_some]
    exact hG g (List.mem_of_getElem? hg) _ (List.getElem_mem hj)

/-- The mean of a quorum of constant gradients. -/
theorem meanGradient_of_constant {q : ℕ} (hq : 1 ≤ q) {k : Int32} {ps : List (Push ℚ)}
    (hps : ∀ p ∈ ps, layout p.gradients = layout P ∧ Constant p.gradients)
    (hk : q ≤ (pushers k ps).card) (ht : P[i]? = some t) (hj : j < t.data.length) :
    meanGradient q k ps i j = 1 / 100 := by
  have hcard : (senders Push.workerId (counted q k ps)).card = q := by
    rw [counted, card_senders_accepted, ← pushers, min_eq_left hk]
  have hlast : ∀ w ∈ senders Push.workerId (counted q k ps),
      value (lastGradients w (counted q k ps)) i j = 1 / 100 := by
    intro w hw
    obtain ⟨p, hp, rfl⟩ := List.mem_map.mp (List.mem_toFinset.mp hw)
    obtain ⟨r, hr, -, hlast⟩ : ∃ r ∈ counted q k ps, r.workerId = p.workerId ∧
        lastFrom Push.workerId p.workerId ([] ++ counted q k ps) = some r :=
      exists_lastFrom_append [] hp
    have hmem : r ∈ ps := List.mem_of_mem_filter (mem_of_mem_accepted hr)
    rw [List.nil_append] at hlast
    rw [lastGradients, hlast, Option.map_some, Option.getD_some]
    exact value_of_constant (hps r hmem).2 (hps r hmem).1 ht hj
  have hpos : (q : ℚ) ≠ 0 := Nat.cast_ne_zero.mpr (by omega)
  rw [meanGradient, Finset.sum_congr rfl hlast, Finset.sum_const, hcard, nsmul_eq_mul,
    mul_div_cancel_left₀ _ hpos]

end Mean

def Handler.Constant : Handler V → Prop
  | .receiveGradients p => ParamServer.Constant p.gradients
  | _ => True

def RunIteration.Constant : RunIteration V → Prop
  | .push _ grads => ParamServer.Constant grads
  | _ => True

/-- All gradients on their way are constant. -/
structure Uniform (s : Cluster V) : Prop where
  worker : ∀ w stage, (s.workers w).stage = some stage → stage.Constant
  request : ∀ m ∈ s.requests, m.2.handler.Constant
  thread : ∀ t, (s.service.handlers t).Constant

section Step

variable {s : Cluster V}

theorem RunIteration.Constant.of_neutral {stage : RunIteration V} (h : stage.Neutral) :
    stage.Constant := by
  match stage, h with
  | .pull _, _ => trivial
  | .poll _ _, _ => trivial
  | .recheck _ _, _ => trivial
  | .returned _, _ => trivial

theorem RunIteration.constant_afterPull {devices : Devices V} (h : devices.Agree)
    (retryCount : ℕ) (params : List (Tensor V)) :
    (RunIteration.afterPull (aggregateGradientsMultiGpu devices) retryCount params).Constant := by
  rcases RunIteration.afterPull_cases (aggregateGradientsMultiGpu devices) retryCount params with
    he | ⟨-, -, hn⟩
  · rw [he]
    exact constant_gradientsFor h params
  · exact .of_neutral hn

theorem RunIteration.constant_afterPush (retryCount : ℕ) (complete : Bool) :
    (RunIteration.afterPush retryCount complete : RunIteration V).Constant := by
  rcases RunIteration.afterPush_cases (V := V) retryCount complete with ⟨-, he⟩ | hn
  · rw [he]
    trivial
  · exact .of_neutral hn

theorem RunIteration.constant_afterPoll (retryCount pollCount : ℕ) (ready : Bool) :
    (RunIteration.afterPoll retryCount pollCount ready : RunIteration V).Constant := by
  rcases RunIteration.afterPoll_cases (V := V) retryCount pollCount ready with ⟨-, he⟩ | hn
  · rw [he]
    trivial
  · exact .of_neutral hn

theorem RunIteration.constant_onResponse {devices : Devices V} (h : devices.Agree)
    {response : Response V} {stage stage' : RunIteration V}
    (hs : stage.onResponse (aggregateGradientsMultiGpu devices) response = some stage') :
    stage'.Constant := by
  unfold RunIteration.onResponse at hs
  split at hs
  · cases hs
    exact RunIteration.constant_afterPull h _ _
  · cases hs
    exact RunIteration.constant_afterPush _ _
  · cases hs
    exact RunIteration.constant_afterPoll _ _ _
  · cases hs
    exact .of_neutral (RunIteration.neutral_polling _ _)
  · cases hs

theorem RunIteration.constant_onFailure {devices : Devices V} (h : devices.Agree)
    (stage : RunIteration V) :
    (stage.onFailure (aggregateGradientsMultiGpu devices)).Constant := by
  cases stage with
  | pull retryCount => exact RunIteration.constant_afterPull h retryCount []
  | push retryCount grads => exact RunIteration.constant_afterPush _ _
  | poll retryCount pollCount => exact RunIteration.constant_afterPoll _ _ _
  | recheck retryCount pollCount => exact .of_neutral (RunIteration.neutral_polling _ _)
  | returned done => trivial

theorem Uniform.setWorker (h : Uniform s) {w : Int32} {ws : WorkerState V}
    (hws : ∀ stage, ws.stage = some stage → stage.Constant) : Uniform (s.setWorker w ws) := by
  refine ⟨fun v stage hv => ?_, h.request, h.thread⟩
  rw [Cluster.workers_setWorker] at hv
  split at hv
  · exact hws stage hv
  · exact h.worker v stage hv

theorem Uniform.setHandler (h : Uniform s) {t : ℕ} {handler : Handler V}
    (hh : handler.Constant) (t' : ℕ) :
    (Function.update s.service.handlers t handler t').Constant :=
  Cluster.thread_setHandler (P := fun _ handler => handler.Constant) h.thread hh t'

variable (ord : VisitOrder)

theorem Uniform.step (h : Uniform s) {devices : Int32 → Devices V}
    (hdevices : ∀ w, (devices w).Agree) (e : ClusterEvent) :
    Uniform (s.step ord (fun w => aggregateGradientsMultiGpu (devices w)) e) := by
  have hs := s.step_cases ord (fun w => aggregateGradientsMultiGpu (devices w)) e
  generalize s.step ord (fun w => aggregateGradientsMultiGpu (devices w)) e = s' at hs ⊢
  cases hs with
  | unchanged | dropReply | ignore => exact ⟨h.worker, h.request, h.thread⟩
  | run =>
    refine h.setWorker fun stage hstage => ?_
    cases hstage
    exact .of_neutral (RunIteration.neutral_attempt 0)
  | @send w request hwait hrequest =>
    have hs : Uniform (s.setWorker w
        { s.workers w with waiting := true, calls := (s.workers w).calls + 1 }) :=
      h.setWorker (h.worker w)
    refine ⟨hs.worker, fun m hm => ?_, hs.thread⟩
    rcases List.mem_append.mp hm with hm | hm
    · exact h.request m hm
    · rw [List.mem_singleton.mp hm]
      rcases WorkerState.request_cases hrequest with ⟨retryCount, -, rfl⟩ |
        ⟨retryCount, grads, hstage, rfl⟩ | ⟨rfl, -⟩
      · trivial
      · exact h.worker w _ hstage
      · trivial
  | arrive hrequest =>
    have harrived := h.request _ (List.mem_of_getElem? hrequest)
    exact ⟨h.worker, fun m hm => h.request m (List.mem_of_mem_eraseIdx hm),
      h.setHandler harrived⟩
  | receive | serve | answer => exact ⟨h.worker, h.request, h.setHandler trivial⟩
  | dropRequest =>
    exact ⟨h.worker, fun m hm => h.request m (List.mem_of_mem_eraseIdx hm), h.thread⟩
  | @deliver i ticket response stage stage' hreply hwait hcall hstage hnext =>
    have hs : Uniform { s with replies := s.replies.eraseIdx i } :=
      ⟨h.worker, h.request, h.thread⟩
    refine hs.setWorker fun st hst => ?_
    cases hst
    exact RunIteration.constant_onResponse (hdevices _) hnext
  | @fail w stage hwait hstage =>
    refine h.setWorker fun st hst => ?_
    cases hst
    exact RunIteration.constant_onFailure (hdevices w) stage

end Step

namespace Cluster

variable (ord : VisitOrder)

/-- The server has received constant gradients in the layout of its store, and nothing else. -/
structure Accumulated (ps : ParameterServerCore V) (s : Cluster V) : Prop where
  fitting : Fitting (layout ps.parameters) s
  uniform : Uniform s
  received : ∃ pushes, s.service.ps = ps.runPushes ord pushes ∧
    ∀ p ∈ pushes, layout p.gradients = layout ps.parameters ∧ Constant p.gradients

variable {ord} {ps : ParameterServerCore V} {s : Cluster V}

theorem Accumulated.step (hP : ps.parameters ≠ []) (h : Accumulated ord ps s)
    {e : (Int32 → Devices V) × ClusterEvent} (hpulls : PullsAnswered s e)
    (hdevices : ∀ w, (e.1 w).Agree) : Accumulated ord ps ((deviceMachine ord).step s e).2 := by
  have hL : layout ps.parameters ≠ [] := by simpa [layout] using hP
  refine ⟨h.fitting.step ord hL hpulls, h.uniform.step ord hdevices e.2, ?_⟩
  obtain ⟨devices, e⟩ := e
  obtain ⟨pushes, hps, hall⟩ := h.received
  have hs := s.step_cases ord (fun w => aggregateGradientsMultiGpu (devices w)) e
  change ∃ pushes,
    (s.step ord (fun w => aggregateGradientsMultiGpu (devices w)) e).service.ps = _ ∧ _
  generalize s.step ord (fun w => aggregateGradientsMultiGpu (devices w)) e = s' at hs ⊢
  cases hs with
  | @receive t p hthread =>
    have hfits := h.fitting.thread t
    have hconstant := h.uniform.thread t
    rw [hthread] at hfits hconstant
    refine ⟨pushes ++ [p], ?_, fun r hr => ?_⟩
    · rw [ParameterServerCore.runPushes_concat, ← hps]
    · rcases List.mem_append.mp hr with hr | hr
      · exact hall r hr
      · rw [List.mem_singleton.mp hr]
        exact ⟨hfits, hconstant⟩
  | _ => exact ⟨pushes, hps, hall⟩

theorem accumulated_started (ps : ParameterServerCore V) : Accumulated ord ps (started ps) where
  fitting := fitting_started ps
  uniform := {
    worker := fun w stage hstage => by cases hstage
    request := fun m hm => by cases hm
    thread := fun t => trivial }
  received := ⟨[], rfl, fun p hp => by cases hp⟩

variable (ord)

/-- In every run whose workers' devices agree and in which no pull of a last attempt fails, the
parameters are the first ones less a hundredth for every aggregated iteration. Nothing that is
lost, repeated or late counts twice or is missing. -/
theorem parameters_count_iterations {ps : ParameterServerCore ℚ}
    (hfresh : ps.iterationStates = .empty) (hN : 1 ≤ ps.totalWorkers.toInt)
    (hP : ps.parameters ≠ []) (es : List ((Int32 → Devices ℚ) × ClusterEvent))
    (hpulls : (deviceMachine ord).Meets PullsAnswered (started ps) es)
    (hdevices : ∀ e ∈ es, ∀ w, (e.1 w).Agree) :
    let s := (deviceMachine ord).final (started ps) es
    s.service.ps.parameters = descend ps.parameters fun _ _ =>
      (s.service.ps.aggregatedIterations.card : ℚ) / 100 := by
  intro s
  have hboth : (deviceMachine ord).Meets (fun s e => PullsAnswered s e ∧ ∀ w, (e.1 w).Agree)
      (started ps) es := (deviceMachine ord).meets_and hpulls
        ((deviceMachine ord).meets_of_forall (fun e he _ => hdevices e he) _)
  have hs : Accumulated ord ps s :=
    Machine.invariant_final (fun s e h he => h.step hP he.1 he.2) (accumulated_started ps) hboth
  obtain ⟨pushes, hps, hall⟩ := hs.received
  rw [hps, ParameterServerCore.parameters_runPushes ord hfresh hN hP pushes
    fun p hp => (hall p hp).1]
  refine descend_congr fun i t j ht hj => ?_
  have hmean : ∀ k ∈ (ps.runPushes ord pushes).aggregatedIterations,
      meanGradient (quorum ps.totalWorkers) k pushes i j = 1 / 100 := by
    intro k hk
    rw [ParameterServerCore.mem_aggregatedIterations_runPushes ord hfresh] at hk
    exact meanGradient_of_constant (one_le_quorum _) hall hk ht hj
  rw [Finset.sum_congr rfl hmean, Finset.sum_const, nsmul_eq_mul, mul_one_div]

/-- One worker runs two iterations. -/
theorem parameters_count_iterations_one_worker :
    let ps := (ParameterServerCore.new 1).initializeParameters [pair 10 20]
    let es : List ClusterEvent := [.run 0 0, .send 0, .arrive 0 0, .advance 0, .advance 0,
      .deliver 0, .send 0, .arrive 0 0, .advance 0, .advance 0, .deliver 0, .run 0 1, .send 0,
      .arrive 0 0, .advance 0, .advance 0, .deliver 0, .send 0, .arrive 0 0, .advance 0]
    let s := (deviceMachine .insertion).final (started ps) (es.map fun e => (fun _ => .single, e))
    s.service.ps.aggregatedIterations = {0, 1} ∧
      s.service.ps.parameters = descend ps.parameters fun _ _ =>
        (s.service.ps.aggregatedIterations.card : ℚ) / 100 := by
  intro ps es s
  refine ⟨by decide +kernel, ?_⟩
  have hfail : ∀ e ∈ es, ∀ w, e ≠ .fail w := by simp [es]
  have hfresh : ps.iterationStates = .empty := rfl
  have hN : 1 ≤ ps.totalWorkers.toInt := by decide
  have hP : ps.parameters ≠ [] := by decide
  clear_value es
  clear_value ps
  refine parameters_count_iterations .insertion hfresh hN hP _ ?_ ?_
  · refine Machine.meets_of_forall _ (fun e he s w hw => ?_) _
    obtain ⟨e', he', rfl⟩ := List.mem_map.mp he
    exact absurd hw (hfail e' he' w)
  · intro e he w
    obtain ⟨e', -, rfl⟩ := List.mem_map.mp he
    exact Devices.agree_single

end Cluster

end ParamServer
