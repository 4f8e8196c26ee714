import ParamServer.Cluster.System
import ParamServer.Server.Frame

/-! Which gradients reach the server. A worker computes them from the parameters that it has
pulled, so that they have the layout of the store, except that a worker which pulls in vain on its
last attempt pushes gradients of a tensor of its own. -/

namespace ParamServer

open Library Worker

variable {V : Type}

def Handler.Fits (L : List (List UInt8 × List Int32 × ℕ)) : Handler V → Prop
  | .receiveGradients p => layout p.gradients = L
  | .served _ params _ => layout params = L
  | _ => True

def Response.Fits (L : List (List UInt8 × List Int32 × ℕ)) : Response V → Prop
  | .parameters r _ => layout r.parameters = L
  | _ => True

def RunIteration.Fits (L : List (List UInt8 × List Int32 × ℕ)) : RunIteration V → Prop
  | .push _ grads => layout grads = L
  | _ => True

/-- The store, everything pushed and everything pulled have one layout. -/
structure Fitting (L : List (List UInt8 × List Int32 × ℕ)) (s : Cluster V) : Prop where
  store : layout s.service.ps.parameters = L
  worker : ∀ w stage, (s.workers w).stage = some stage → stage.Fits L
  request : ∀ m ∈ s.requests, m.2.handler.Fits L
  thread : ∀ t, (s.service.handlers t).Fits L
  reply : ∀ m ∈ s.replies, m.2.Fits L

/-- The pull of the worker's last attempt is under way, and about to fail. -/
def LastPull (s : Cluster V) (w : Int32) : Prop :=
  (s.workers w).waiting = true ∧
    ∃ retryCount, (s.workers w).stage = some (.pull retryCount) ∧ ¬retryCount < maxRetries - 1

section Step

variable {L : List (List UInt8 × List Int32 × ℕ)} {s : Cluster V}

theorem Fitting.setWorker (h : Fitting L s) {w : Int32} {ws : WorkerState V}
    (hws : ∀ stage, ws.stage = some stage → stage.Fits L) : Fitting L (s.setWorker w ws) := by
  refine ⟨h.store, fun v stage hv => ?_, h.request, h.thread, h.reply⟩
  rw [Cluster.workers_setWorker] at hv
  split at hv
  · exact hws stage hv
  · exact h.worker v stage hv

theorem Fitting.setHandler (h : Fitting L s) {t : ℕ} {handler : Handler V}
    (hh : handler.Fits L) (t' : ℕ) :
    (Function.update s.service.handlers t handler t').Fits L :=
  Cluster.thread_setHandler (P := fun _ handler => handler.Fits L) h.thread hh t'

theorem Fitting.eraseReply (h : Fitting L s) (i : ℕ) :
    Fitting L { s with replies := s.replies.eraseIdx i } :=
  ⟨h.store, h.worker, h.request, h.thread, fun m hm => h.reply m (List.mem_of_mem_eraseIdx hm)⟩

theorem RunIteration.Fits.of_neutral {stage : RunIteration V} (h : stage.Neutral) :
    stage.Fits L := by
  match stage, h with
  | .pull _, _ => trivial
  | .poll _ _, _ => trivial
  | .recheck _ _, _ => trivial
  | .returned _, _ => trivial

variable [Scalar V]

omit [Scalar V] in
theorem RunIteration.fits_afterPush (retryCount : ℕ) (complete : Bool) :
    (RunIteration.afterPush retryCount complete : RunIteration V).Fits L := by
  rcases RunIteration.afterPush_cases (V := V) retryCount complete with ⟨-, he⟩ | hn
  · rw [he]
    trivial
  · exact .of_neutral hn

omit [Scalar V] in
theorem RunIteration.fits_afterPoll (retryCount pollCount : ℕ) (ready : Bool) :
    (RunIteration.afterPoll retryCount pollCount ready : RunIteration V).Fits L := by
  rcases RunIteration.afterPoll_cases (V := V) retryCount pollCount ready with ⟨-, he⟩ | hn
  · rw [he]
    trivial
  · exact .of_neutral hn

theorem RunIteration.fits_onResponse {devices : Devices V} (hL : L ≠ []) {response : Response V}
    (hr : response.Fits L) {stage stage' : RunIteration V}
    (hs : stage.onResponse (aggregateGradientsMultiGpu devices) response = some stage') :
    stage'.Fits L := by
  unfold RunIteration.onResponse at hs
  split at hs
  · rename_i retryCount r means
    cases hs
    have hlay : layout r.parameters = L := hr
    have hne : r.parameters ≠ [] := by
      intro h
      rw [h] at hlay
      exact hL hlay.symm
    rcases RunIteration.afterPull_cases (aggregateGradientsMultiGpu devices) retryCount
      r.parameters with he | ⟨hnil, -, -⟩
    · rw [he]
      exact (layout_gradientsFor devices hne).trans hlay
    · exact absurd hnil hne
  · cases hs
    exact RunIteration.fits_afterPush _ _
  · cases hs
    exact RunIteration.fits_afterPoll _ _ _
  · cases hs
    exact .of_neutral (RunIteration.neutral_polling _ _)
  · cases hs

theorem RunIteration.fits_onFailure {devices : Devices V} {stage : RunIteration V}
    (hs : stage.Fits L) (hpull : ∀ retryCount, stage = .pull retryCount →
      retryCount < maxRetries - 1 ∨ layout [(dummy : Tensor V)] = L) :
    (stage.onFailure (aggregateGradientsMultiGpu devices)).Fits L := by
  cases stage with
  | pull retryCount =>
    rcases RunIteration.afterPull_cases (aggregateGradientsMultiGpu devices) retryCount
      ([] : List (Tensor V)) with he | ⟨-, -, hn⟩
    · rcases hpull retryCount rfl with hlt | hd
      · rw [RunIteration.onFailure, RunIteration.afterPull, if_pos ⟨rfl, hlt⟩]
        exact .of_neutral (RunIteration.neutral_attempt _)
      · rw [RunIteration.onFailure, he]
        exact (layout_gradientsFor_nil devices).trans hd
    · exact .of_neutral hn
  | push retryCount grads => exact RunIteration.fits_afterPush _ _
  | poll retryCount pollCount => exact RunIteration.fits_afterPoll _ _ _
  | recheck retryCount pollCount => exact .of_neutral (RunIteration.neutral_polling _ _)
  | returned done => trivial

variable (ord : VisitOrder)

/-- A pull that fails on the last attempt leads to gradients of another layout, unless the store
has the layout of the worker's own tensor. -/
def PullsAnswered (s : Cluster V) (e : (Int32 → Devices V) × ClusterEvent) : Prop :=
  ∀ w, e.2 = .fail w → LastPull s w → layout [(dummy : Tensor V)] = layout s.service.ps.parameters

theorem Fitting.step (h : Fitting L s) (hL : L ≠ []) {e : (Int32 → Devices V) × ClusterEvent}
    (he : PullsAnswered s e) : Fitting L ((Cluster.deviceMachine ord).step s e).2 := by
  obtain ⟨devices, e⟩ := e
  have hs := s.step_cases ord (fun w => aggregateGradientsMultiGpu (devices w)) e
  change Fitting L (s.step ord (fun w => aggregateGradientsMultiGpu (devices w)) e)
  generalize s.step ord _ e = s' at hs ⊢
  cases hs with
  | unchanged => exact h
  | run =>
    refine h.setWorker fun stage hstage => ?_
    cases hstage
    exact .of_neutral (RunIteration.neutral_attempt 0)
  | @send w request hwait hrequest =>
    have hs : Fitting L (s.setWorker w
        { s.workers w with waiting := true, calls := (s.workers w).calls + 1 }) :=
      h.setWorker (h.worker w)
    refine ⟨hs.store, hs.worker, fun m hm => ?_, hs.thread, hs.reply⟩
    rcases List.mem_append.mp hm with hm | hm
    · exact h.request m hm
    · rw [List.mem_singleton.mp hm]
      rcases WorkerState.request_cases hrequest with ⟨retryCount, -, rfl⟩ |
        ⟨retryCount, grads, hstage, rfl⟩ | ⟨rfl, -⟩
      · trivial
      · exact h.worker w _ hstage
      · trivial
  | arrive hrequest =>
    have harrived := h.request _ (List.mem_of_getElem? hrequest)
    exact ⟨h.store, h.worker, fun m hm => h.request m (List.mem_of_mem_eraseIdx hm),
      h.setHandler harrived, h.reply⟩
  | @receive t p hthread =>
    -- the update keeps the layout of the store
    have hne : s.service.ps.parameters ≠ [] := by
      intro hnil
      have hstore := h.store
      rw [hnil] at hstore
      exact hL hstore.symm
    have hstore : layout (s.service.ps.receive ord p).2.parameters = L := by
      rw [ParameterServerCore.receive_parameters]
      split
      · rw [ParameterServerCore.updated, layout_aggregate hne, h.store]
      · exact h.store
    exact ⟨hstore, h.worker, h.request, h.setHandler trivial, h.reply⟩
  | serve => exact ⟨h.store, h.worker, h.request, h.setHandler h.store, h.reply⟩
  | @answer t r hresponse =>
    refine ⟨h.store, h.worker, h.request, h.setHandler trivial, fun m hm => ?_⟩
    rcases List.mem_append.mp hm with hm | hm
    · exact h.reply m hm
    · rw [List.mem_singleton.mp hm]
      have hthread := h.thread t
      rcases s.service.response_cases hresponse with ⟨k, complete, ht, rfl⟩ |
        ⟨k, params, means, ht, rfl⟩ | ⟨k, ht, rfl⟩
      · trivial
      · rw [ht] at hthread
        exact hthread
      · trivial
  | dropRequest i =>
    exact ⟨h.store, h.worker, fun m hm => h.request m (List.mem_of_mem_eraseIdx hm), h.thread,
      h.reply⟩
  | dropReply i | ignore i => exact h.eraseReply i
  | deliver hreply _ _ _ hnext =>
    refine (h.eraseReply _).setWorker fun st hst => ?_
    cases hst
    exact RunIteration.fits_onResponse hL (h.reply _ (List.mem_of_getElem? hreply)) hnext
  | @fail w stage hwait hstage =>
    refine h.setWorker fun st hst => ?_
    cases hst
    refine RunIteration.fits_onFailure (h.worker w stage hstage) fun retryCount hpull => ?_
    by_cases hlt : retryCount < maxRetries - 1
    · exact .inl hlt
    · subst hpull
      exact .inr ((he w rfl ⟨hwait, retryCount, hstage, hlt⟩).trans h.store)

end Step

section Violation

/-! A pull that fails on the last attempt, and how its gradients get to the server. -/

variable [Scalar V] (ord : VisitOrder)

theorem exists_idle_step (multiGpu : Int32 → List (Tensor V) → List (Tensor V)) {s : Cluster V}
    (h : ∃ n, ∀ t, n ≤ t → s.service.handlers t = .idle) (e : ClusterEvent) :
    ∃ n, ∀ t, n ≤ t → (s.step ord multiGpu e).service.handlers t = .idle := by
  obtain ⟨n, hn⟩ := h
  have hupdate : ∀ (t : ℕ) (handler : Handler V) (t' : ℕ), max n (t + 1) ≤ t' →
      Function.update s.service.handlers t handler t' = .idle := by
    intro t handler t' ht'
    rw [Function.update_of_ne (by omega)]
    exact hn t' (by omega)
  have hs := s.step_cases ord multiGpu e
  generalize s.step ord multiGpu e = s' at hs ⊢
  cases hs with
  | @arrive i t => exact ⟨max n (t + 1), hupdate t _⟩
  | @receive t => exact ⟨max n (t + 1), hupdate t _⟩
  | @serve t => exact ⟨max n (t + 1), hupdate t _⟩
  | @answer t => exact ⟨max n (t + 1), hupdate t _⟩
  | _ => exact ⟨n, hn⟩

/-- The gradients of the worker's own tensor reach the server. -/
theorem final_of_lastPull {s : Cluster V} {w : Int32} (h : LastPull s w) {t : ℕ}
    (ht : s.service.handlers t = .idle) (devices : Int32 → Devices V) :
    let s' := (Cluster.deviceMachine ord).final s
      [(devices, .fail w), (devices, .send w), (devices, .arrive s.requests.length t)]
    s'.service.handlers t = .receiveGradients ⟨w, (s.workers w).iteration,
        gradientsFor (aggregateGradientsMultiGpu (devices w)) []⟩ ∧
      s'.service.ps = s.service.ps := by
  obtain ⟨hwait, retryCount, hstage, hlast⟩ := h
  have hpush : (RunIteration.afterPull (aggregateGradientsMultiGpu (devices w)) retryCount [] :
      RunIteration V) =
        .push retryCount (gradientsFor (aggregateGradientsMultiGpu (devices w)) []) :=
    if_neg fun h => hlast h.2
  constructor
  · simp [Machine.final, Cluster.deviceMachine, Cluster.step, hwait, hstage, ht,
      RunIteration.onFailure, hpush, Cluster.setWorker, WorkerState.request, Request.handler,
      ParameterServerService.setHandler]
  · simp [Machine.final, Cluster.deviceMachine, Cluster.step, hwait, hstage, ht,
      RunIteration.onFailure, hpush, Cluster.setWorker, WorkerState.request, Request.handler,
      ParameterServerService.setHandler]

end Violation

namespace Cluster

variable [Scalar V] (ord : VisitOrder)

omit [Scalar V] in
theorem fitting_started (ps : ParameterServerCore V) :
    Fitting (layout ps.parameters) (started ps) where
  store := rfl
  worker w stage h := by cases h
  request m hm := by cases hm
  thread t := trivial
  reply m hm := by cases hm

/-- Whatever is about to be received has the layout of the store, and so has the mean of the
iteration that it completes, in every run in which no pull of a last attempt fails. Wherever the
first one fails, the run can go on, with no other failure of the kind, until gradients of another
layout are about to be received. -/
theorem pushes_fit_store (ps : ParameterServerCore V) (hP : ps.parameters ≠ [])
    (es : List ((Int32 → Devices V) × ClusterEvent)) :
    let M := deviceMachine ord
    (M.Meets PullsAnswered (started ps) es → ∀ t p,
      (M.final (started ps) es).service.handlers t = .receiveGradients p →
      layout p.gradients = layout (M.final (started ps) es).service.ps.parameters ∧
      layout (averageGradients ord ((M.final (started ps) es).service.ps.recorded p) p.gradients) =
        layout (M.final (started ps) es).service.ps.parameters) ∧
    (¬M.Meets PullsAnswered (started ps) es → ∃ pre e post, es = pre ++ e :: post ∧
      M.Meets PullsAnswered (started ps) pre ∧ ¬PullsAnswered (M.final (started ps) pre) e ∧
      ∃ later, M.Meets PullsAnswered (M.final (started ps) (pre ++ [e])) later ∧ ∃ t p,
        (M.final (started ps) (pre ++ [e] ++ later)).service.handlers t = .receiveGradients p ∧
        layout p.gradients ≠
          layout (M.final (started ps) (pre ++ [e] ++ later)).service.ps.parameters) := by
  intro M
  have hL : layout ps.parameters ≠ [] := by simpa [layout] using hP
  have hrun : ∀ es', M.Meets PullsAnswered (started ps) es' →
      Fitting (layout ps.parameters) (M.final (started ps) es') := fun es' hes =>
    Machine.invariant_final (fun s e hs he => hs.step ord hL he) (fitting_started ps) hes
  constructor
  · intro hes t p ht
    have hs := hrun es hes
    have hp := hs.thread t
    rw [ht] at hp
    have hp : layout p.gradients = layout ps.parameters := hp
    rw [layout_averageGradients, hs.store, hp]
    exact ⟨rfl, rfl⟩
  · intro hes
    obtain ⟨pre, ⟨devices, e⟩, post, rfl, hpre, hbad⟩ := M.exists_violation hes
    refine ⟨pre, _, post, rfl, hpre, hbad, ?_⟩
    simp only [PullsAnswered, not_forall] at hbad
    obtain ⟨w, rfl, hlast, hlay⟩ := hbad
    have hidle : ∃ n, ∀ t, n ≤ t → (M.final (started ps) pre).service.handlers t = .idle :=
      Machine.invariant_final
        (I := fun s : Cluster V => ∃ n, ∀ t, n ≤ t → s.service.handlers t = .idle)
        (fun s e hs _ => exists_idle_step ord _ hs e.2) ⟨0, fun _ _ => rfl⟩ (M.meets_true _ pre)
    obtain ⟨n, hn⟩ := hidle
    obtain ⟨hreach, hps⟩ := final_of_lastPull ord hlast (hn n le_rfl) devices
    have hfinal : M.final (started ps) (pre ++ [(devices, .fail w)] ++ [(devices, .send w),
        (devices, .arrive (M.final (started ps) pre).requests.length n)]) =
        M.final (M.final (started ps) pre) [(devices, .fail w), (devices, .send w),
          (devices, .arrive (M.final (started ps) pre).requests.length n)] := by
      rw [List.append_assoc, M.final_append]
      rfl
    refine ⟨[(devices, .send w), (devices, .arrive (M.final (started ps) pre).requests.length n)],
      ⟨fun v hv => ?_, fun v hv => ?_, trivial⟩, n,
      ⟨w, ((M.final (started ps) pre).workers w).iteration,
        gradientsFor (aggregateGradientsMultiGpu (devices w)) []⟩, ?_, ?_⟩
    · cases hv
    · cases hv
    · rw [hfinal]
      exact hreach
    · rw [hfinal, layout_gradientsFor_nil]
      exact hps ▸ hlay

/-- All three pulls of a worker fail. It then pushes gradients of a tensor of its own, which
complete the iteration and change nothing in the store. -/
theorem failed_pulls_push_dummy :
    let ps : ParameterServerCore UInt32 :=
      (ParameterServerCore.new 1).initializeParameters [word 10]
    let es : List ClusterEvent := [.run 0 0, .send 0, .fail 0, .send 0, .fail 0, .send 0, .fail 0,
      .send 0, .arrive 3 0]
    let M := deviceMachine (V := UInt32) .insertion
    let s := M.final (started ps) (es.map fun e => (fun _ => .single, e))
    let t := (M.step s (fun _ => .single, .advance 0)).2
    (∃ p, s.service.handlers 0 = .receiveGradients p ∧
        layout p.gradients ≠ layout s.service.ps.parameters) ∧
      t.service.ps.checkSyncStatus 0 = (true, 1) ∧ t.service.ps.parameters = [word 10] := by
  intro ps es M s t
  refine ⟨⟨⟨0, 0, gradientsFor id []⟩, ?_, by decide +kernel⟩, by decide +kernel,
    by decide +kernel⟩
  rfl

theorem pushes_fit_store_one_worker :
    let ps : ParameterServerCore UInt32 :=
      (ParameterServerCore.new 1).initializeParameters [word 10]
    let es : List ClusterEvent := [.run 0 0, .send 0, .arrive 0 0, .advance 0, .advance 0,
      .deliver 0, .send 0, .arrive 0 0]
    ∀ t p, ((deviceMachine (V := UInt32) .insertion).final (started ps)
        (es.map fun e => (fun _ => .single, e))).service.handlers t = .receiveGradients p →
      layout p.gradients = layout ((deviceMachine (V := UInt32) .insertion).final (started ps)
        (es.map fun e => (fun _ => .single, e))).service.ps.parameters := by
  intro ps es t p ht
  have hfail : ∀ e ∈ es, ∀ w, e ≠ .fail w := by simp [es]
  have hes : (deviceMachine (V := UInt32) .insertion).Meets PullsAnswered (started ps)
      (es.map fun e => (fun _ => .single, e)) := by
    refine Machine.meets_of_forall _ (fun e he s w hw => ?_) _
    obtain ⟨e', he', rfl⟩ := List.mem_map.mp he
    exact absurd hw (hfail e' he' w)
  clear_value es
  have hP : ps.parameters ≠ [] := by decide
  clear_value ps
  exact ((pushes_fit_store .insertion ps hP _).1 hes t p ht).1

end Cluster

end ParamServer
