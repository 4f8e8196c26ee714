import ParamServer.Cluster.Order
import ParamServer.Library.CanReach

/-! No deadlock. Whatever has been lost or delayed, an iteration that enough workers still have
attempts left for can be completed, and each of these workers can be told so. -/

namespace ParamServer

open Library Worker

variable {V : Type}

section Left

/-! What a worker has left of its attempts and polls. -/

variable (ws : WorkerState V) (k : Int32)

/-- The worker has completed the iteration, or can still get an answer about it. A worker that
waits may have to give up its call first. -/
def WorkerState.CanFinish : Prop :=
  match ws.stage with
  | none => ws.waiting = false ∧ ws.next k = true
  | some (.pull retryCount) => ws.iteration = k ∧ retryCount < maxRetries
  | some (.push retryCount _) => ws.iteration = k ∧ retryCount < maxRetries
  | some (.poll _ pollCount) =>
    ws.iteration = k ∧ pollCount < maxPolls ∧ (ws.waiting = true → pollCount + 1 < maxPolls)
  | some (.recheck _ pollCount) => ws.iteration = k ∧ pollCount < maxPolls
  | some (.returned done) =>
    (done = true ∧ ws.iteration = k) ∨ (ws.waiting = false ∧ ws.next k = true)

/-- The worker still has a push to make for the iteration. -/
def WorkerState.CanPush : Prop :=
  match ws.stage with
  | some (.pull retryCount) => ws.iteration = k ∧ retryCount < maxRetries
  | some (.push retryCount _) => ws.iteration = k ∧ retryCount < maxRetries ∧
      (ws.waiting = true → retryCount < maxRetries - 1)
  | some (.poll _ _) | some (.recheck _ _) => False
  | some (.returned _) | none => ws.waiting = false ∧ ws.next k = true

instance : Decidable (ws.CanFinish k) := by
  unfold WorkerState.CanFinish
  split <;> infer_instance

instance : Decidable (ws.CanPush k) := by
  unfold WorkerState.CanPush
  split <;> infer_instance

def WorkerState.Finished : Prop := ws.iteration = k ∧ ws.stage = some (.returned true)

/-- The worker is in the iteration, at this stage. -/
structure WorkerState.At (stage : RunIteration V) (waiting : Bool) : Prop where
  iteration : ws.iteration = k
  stage : ws.stage = some stage
  waiting : ws.waiting = waiting

theorem WorkerState.At.request_eq {ws : WorkerState V} {k : Int32} {stage : RunIteration V}
    {waiting : Bool} (h : ws.At k stage waiting) (w : Int32) :
    ws.request w = match stage with
      | .pull _ => some (.pull w k)
      | .push _ grads => some (.gradientUpdate ⟨w, k, grads⟩)
      | .poll _ _ | .recheck _ _ => some (.syncStatus k)
      | .returned _ => none := by
  unfold WorkerState.request
  rw [h.stage, h.iteration]
  cases stage <;> rfl

theorem WorkerState.Finished.canFinish {ws : WorkerState V} {k : Int32} (h : ws.Finished k) :
    ws.CanFinish k := by
  unfold CanFinish
  rw [h.2]
  exact .inl ⟨rfl, h.1⟩

end Left

/-- The gradients of the worker are recorded, or no more are needed. -/
def Contributed (k w : Int32) (ps : ParameterServerCore V) : Prop :=
  (ps.stateOf k).aggregated = true ∨ w ∈ (ps.stateOf k).workerGradients.keySet

section Server

variable {k w : Int32} {ps : ParameterServerCore V}

/-- Once a quorum has contributed, the iteration is aggregated. -/
theorem aggregated_of_contributed (h : ps.Barrier) {W : Finset Int32}
    (hW : quorum ps.totalWorkers ≤ W.card) (hall : ∀ w ∈ W, Contributed k w ps) :
    (ps.stateOf k).aggregated = true := by
  by_contra hopen
  have hsub : W ⊆ (ps.stateOf k).workerGradients.keySet := fun w hw =>
    (hall w hw).resolve_left hopen
  have hsize := (hW.trans (Finset.card_le_card hsub)).trans_eq (InsertionMap.card_keySet _)
  exact hopen ((h.counted k).2.mpr (Nat.le_antisymm (h.counted k).1 hsize))

variable [Scalar V] (ord : VisitOrder)

theorem Contributed.receive (h : Contributed k w ps) (p : Push V) :
    Contributed k w (ps.receive ord p).2 := by
  by_cases hk : k = p.iteration
  · subst hk
    rw [Contributed, ps.stateOf_receive_self ord, ps.stateOf_push]
    rcases h with h | h
    · rw [if_pos h]
      exact .inl h
    · split
      · exact .inr h
      · refine .inr ?_
        rw [ParameterServerCore.recorded, InsertionMap.keySet_assign]
        exact Finset.mem_insert_of_mem h
  · rwa [Contributed, ps.stateOf_receive_ne ord p hk]

theorem contributed_receive (p : Push V) :
    Contributed p.iteration p.workerId (ps.receive ord p).2 := by
  rw [Contributed, ps.stateOf_receive_self ord, ps.stateOf_push]
  split
  · rename_i h
    exact .inl h
  · refine .inr ?_
    rw [ParameterServerCore.recorded, InsertionMap.keySet_assign]
    exact Finset.mem_insert_self ..

end Server

namespace RunIteration

theorem afterPush_retry {retryCount : ℕ} (h : retryCount < maxRetries - 1) :
    retryCount + 1 < maxRetries ∧
      (afterPush retryCount false : RunIteration V) = .pull (retryCount + 1) := by
  have hnext : retryCount + 1 < maxRetries := Nat.add_lt_of_lt_sub h
  unfold afterPush attempt
  exact ⟨hnext, (if_pos ⟨Bool.false_ne_true, h⟩).trans (if_pos hnext)⟩

/-- What comes of a push that does not complete the iteration: another attempt, or the polls. -/
theorem afterPush_next (retryCount : ℕ) :
    (retryCount + 1 < maxRetries ∧
        (afterPush retryCount false : RunIteration V) = .pull (retryCount + 1)) ∨
      (afterPush retryCount false : RunIteration V) = .poll retryCount 0 := by
  by_cases hlast : retryCount < maxRetries - 1
  · exact .inl (afterPush_retry hlast)
  · unfold afterPush polling
    refine .inr ((if_neg fun hc => hlast hc.2).trans ?_)
    rw [if_neg Bool.false_ne_true, if_pos (by decide)]

theorem afterPoll_next (retryCount : ℕ) {pollCount : ℕ} (h : pollCount + 1 < maxPolls) :
    (afterPoll retryCount pollCount false : RunIteration V) = .recheck retryCount (pollCount + 1) ∨
      (afterPoll retryCount pollCount false : RunIteration V) =
        .poll retryCount (pollCount + 1) := by
  unfold afterPoll polling
  rw [if_neg Bool.false_ne_true, if_pos h]
  split
  · exact .inl rfl
  · exact .inr rfl

theorem afterPull_next [Scalar V] (multiGpu : List (Tensor V) → List (Tensor V)) (retryCount : ℕ)
    (params : List (Tensor V)) :
    (retryCount + 1 < maxRetries ∧ afterPull multiGpu retryCount params = .pull (retryCount + 1)) ∨
      ∃ grads, afterPull multiGpu retryCount params = .push retryCount grads := by
  unfold afterPull attempt
  split
  · rename_i h
    have hnext : retryCount + 1 < maxRetries := Nat.add_lt_of_lt_sub h.2
    exact .inl ⟨hnext, if_pos hnext⟩
  · exact .inr ⟨_, rfl⟩

end RunIteration

variable [Scalar V] (ord : VisitOrder)

/-- A handler that runs without interruption. -/
def ParameterServerService.handle (s : ParameterServerService V) :
    Request V → Response V × ParameterServerService V
  | .gradientUpdate p =>
    let (complete, ps) := s.ps.receive ord p
    (.push ⟨true, "gradients received", p.iteration, complete, (ps.checkSyncStatus p.iteration).2,
      ps.getTotalWorkers⟩, { s with ps := ps, held := s.held ++ s.ps.lineage ord [p] })
  | .pull _ k => (.parameters ⟨k, s.ps.serveParameters k, (s.ps.checkSyncStatus k).1⟩ s.held, s)
  | .syncStatus k => (.syncStatus ⟨k, (s.ps.checkSyncStatus k).1, (s.ps.checkSyncStatus k).2,
      s.ps.getTotalWorkers⟩, s)

theorem ParameterServerService.handle_setHandler (s : ParameterServerService V) (t : ℕ)
    (h : Handler V) (request : Request V) :
    (s.setHandler t h).handle ord request =
      ((s.handle ord request).1, (s.handle ord request).2.setHandler t h) := by
  cases request <;> rfl

namespace Cluster

variable (multiGpu : Int32 → List (Tensor V) → List (Tensor V)) {s : Cluster V} {t : ℕ}
  {w : Int32} {request : Request V}

section Exchange

/-! One RPC from its request to its response, with nothing in between. -/

theorem final_ask (hidle : s.service.handlers t = .idle) (hwait : (s.workers w).waiting = false)
    (hrequest : (s.workers w).request w = some request) :
    let s' := (machine ord multiGpu).final s [.send w, .arrive s.requests.length t]
    s'.service = s.service.setHandler t request.handler ∧
      s'.workers = Function.update s.workers w
        { s.workers w with waiting := true, calls := (s.workers w).calls + 1 } ∧
      s'.tickets t = ⟨w, (s.workers w).calls + 1, (s.workers w).version⟩ ∧
      s'.replies = s.replies := by
  simp [Machine.final, machine, step, hwait, hrequest, setWorker, hidle]

theorem final_work (hthread : s.service.handlers t = request.handler) :
    let s' := (machine ord multiGpu).final s [.advance t, .advance t]
    s'.service = (s.service.handle ord request).2.setHandler t .idle ∧ s'.workers = s.workers ∧
      s'.replies = s.replies ++ [(s.tickets t, (s.service.handle ord request).1)] := by
  cases request with
  | pull | gradientUpdate | syncStatus =>
    simp [Machine.final, machine, step, ParameterServerService.advance, hthread, Request.handler,
      ParameterServerService.setHandler, ParameterServerService.handle]

theorem final_deliver {ticket : Ticket} {response : Response V} {stage : RunIteration V}
    {earlier : List (Ticket × Response V)} (hreplies : s.replies = earlier ++ [(ticket, response)])
    (hwait : (s.workers ticket.worker).waiting = true)
    (hcall : (s.workers ticket.worker).calls = ticket.call)
    (hnext : (s.workers ticket.worker).stage.bind
      (·.onResponse (multiGpu ticket.worker) response) = some stage) :
    let s' := (machine ord multiGpu).final s [.deliver earlier.length]
    s'.service = s.service ∧ s'.workers = Function.update s.workers ticket.worker
      { s.workers ticket.worker with
        stage := some stage
        waiting := false
        version := response.version (s.workers ticket.worker).version } := by
  simp [Machine.final, machine, step, hreplies, hwait, hcall, hnext, setWorker]

/-- The events of an RPC of a worker that an idle thread serves. -/
def exchange (s : Cluster V) (t : ℕ) (w : Int32) : List ClusterEvent :=
  [.send w, .arrive s.requests.length t] ++
    ([.advance t, .advance t] ++ [.deliver s.replies.length])

theorem final_exchange {stage : RunIteration V} (hidle : s.service.handlers t = .idle)
    (hwait : (s.workers w).waiting = false) (hrequest : (s.workers w).request w = some request)
    (hnext : (s.workers w).stage.bind
      (·.onResponse (multiGpu w) (s.service.handle ord request).1) = some stage) :
    let s' := (machine ord multiGpu).final s (s.exchange t w)
    s'.service = (s.service.handle ord request).2.setHandler t .idle ∧
      (∀ v, v ≠ w → s'.workers v = s.workers v) ∧
      (s'.workers w).At (s.workers w).iteration stage false := by
  intro s'
  dsimp only [s']
  rw [exchange, Machine.final_append, Machine.final_append]
  obtain ⟨hservice₁, hworkers₁, hticket, hreplies₁⟩ :=
    final_ask ord multiGpu hidle hwait hrequest
  generalize (machine ord multiGpu).final s [.send w, .arrive s.requests.length t] = s₁ at *
  have hthread : s₁.service.handlers t = request.handler := by
    rw [hservice₁, ParameterServerService.handlers_setHandler, if_pos rfl]
  obtain ⟨hservice₂, hworkers₂, hreplies₂⟩ := final_work ord multiGpu hthread
  generalize (machine ord multiGpu).final s₁ [.advance t, .advance t] = s₂ at *
  rw [hservice₁, ParameterServerService.handle_setHandler] at hservice₂ hreplies₂
  rw [hticket, hreplies₁] at hreplies₂
  have hself : s₂.workers w =
      { s.workers w with waiting := true, calls := (s.workers w).calls + 1 } := by
    rw [hworkers₂, hworkers₁, Function.update_self]
  have hstage : (s₂.workers w).stage.bind
      (·.onResponse (multiGpu w) (s.service.handle ord request).1) = some stage := by
    rw [hself]
    exact hnext
  obtain ⟨hservice₃, hworkers₃⟩ := final_deliver ord multiGpu hreplies₂ (by rw [hself])
    (by rw [hself]) hstage
  refine ⟨?_, fun v hv => ?_, ?_⟩
  · rw [hservice₃, hservice₂]
    simp [ParameterServerService.setHandler]
  · rw [hworkers₃, Function.update_of_ne hv, hworkers₂, hworkers₁, Function.update_of_ne hv]
  · rw [hworkers₃, Function.update_self, hself]
    exact ⟨rfl, rfl, rfl⟩

end Exchange

/-- No message is dropped on the way, and the workers go through the iterations in turn. Calls may
still fail, as they must when their message has been lost before. -/
def Undisturbed (ids : Finset Int32) (s : Cluster V) : ClusterEvent → Prop
  | .dropRequest _ | .dropReply _ => False
  | e => InTurn ids s e

/-- The system has gone on with one worker and one thread. -/
structure Onward (t : ℕ) (w : Int32) (s s' : Cluster V) : Prop where
  others : ∀ v, v ≠ w → s'.workers v = s.workers v
  idle : s'.service.handlers t = .idle
  pushes : ∃ ps, s'.service.ps = s.service.ps.runPushes ord ps

variable {ord multiGpu} in
theorem Onward.trans {s' s'' : Cluster V} (h : Onward ord t w s s') (h' : Onward ord t w s' s'') :
    Onward ord t w s s'' := by
  obtain ⟨ps, hps⟩ := h.pushes
  obtain ⟨qs, hqs⟩ := h'.pushes
  refine ⟨fun v hv => (h'.others v hv).trans (h.others v hv), h'.idle, ps ++ qs, ?_⟩
  rw [hqs, hps, ParameterServerCore.runPushes_append]

/-- The worker can get on to a state in `P`. -/
def CanGo (ids : Finset Int32) (t : ℕ) (w : Int32) (s : Cluster V) (P : Cluster V → Prop) : Prop :=
  (machine ord multiGpu).CanReach (Undisturbed ids) (fun s' => Onward ord t w s s' ∧ P s') s

section Moves

variable {ord multiGpu} {ids : Finset Int32} {P Q : Cluster V → Prop} {k : Int32}

theorem CanGo.trans (h : CanGo ord multiGpu ids t w s P)
    (hQ : ∀ s', Onward ord t w s s' → P s' → CanGo ord multiGpu ids t w s' Q) :
    CanGo ord multiGpu ids t w s Q :=
  Machine.CanReach.trans h fun s' hs' =>
    (hQ s' hs'.1 hs'.2).mono fun _ hs'' => ⟨hs'.1.trans hs''.1, hs''.2⟩

theorem CanGo.mono (h : CanGo ord multiGpu ids t w s P) (hQ : ∀ s', P s' → Q s') :
    CanGo ord multiGpu ids t w s Q := Machine.CanReach.mono h fun s' hs' => ⟨hs'.1, hQ s' hs'.2⟩

variable (hidle : s.service.handlers t = .idle)
include hidle

theorem canGo_here (h : P s) : CanGo ord multiGpu ids t w s P :=
  .here ⟨⟨fun _ _ => rfl, hidle, [], rfl⟩, h⟩

theorem canGo_run (hw : w ∈ ids) (hwait : (s.workers w).waiting = false)
    (hstage : (s.workers w).stage = none ∨ ∃ done, (s.workers w).stage = some (.returned done))
    (hnext : (s.workers w).next k = true) :
    CanGo ord multiGpu ids t w s fun s' => (s'.workers w).At k (.pull 0) false := by
  have hfinal : (machine ord multiGpu).final s [.run w k] =
      s.setWorker w { s.workers w with iteration := k, stage := some (.attempt 0) } := by
    rcases hstage with hstage | ⟨done, hstage⟩ <;>
      simp [Machine.final, machine, step, hwait, hstage]
  refine ⟨[.run w k], ⟨⟨hw, hnext⟩, trivial⟩, ?_⟩
  rw [hfinal]
  refine ⟨⟨fun v hv => ?_, hidle, [], rfl⟩, ?_⟩
  · rw [workers_setWorker, if_neg hv]
  · dsimp only
    rw [workers_setWorker, if_pos rfl]
    exact ⟨rfl, rfl, hwait⟩

theorem canGo_fail {stage : RunIteration V} (h : (s.workers w).At k stage true) :
    CanGo ord multiGpu ids t w s fun s' =>
      (s'.workers w).At k (stage.onFailure (multiGpu w)) false := by
  have hfinal : (machine ord multiGpu).final s [.fail w] = s.setWorker w { s.workers w with
      stage := some (stage.onFailure (multiGpu w)), waiting := false } := by
    simp [Machine.final, machine, step, h.waiting, h.stage]
  refine ⟨[.fail w], ⟨trivial, trivial⟩, ?_⟩
  rw [hfinal]
  refine ⟨⟨fun v hv => ?_, hidle, [], rfl⟩, ?_⟩
  · rw [workers_setWorker, if_neg hv]
  · dsimp only
    rw [workers_setWorker, if_pos rfl]
    exact ⟨h.iteration, rfl, rfl⟩

theorem canGo_exchange {stage stage' : RunIteration V} (h : (s.workers w).At k stage false)
    (hrequest : (s.workers w).request w = some request)
    (hnext : stage.onResponse (multiGpu w) (s.service.handle ord request).1 = some stage') :
    CanGo ord multiGpu ids t w s fun s' => (s'.workers w).At k stage' false ∧
      s'.service.ps = (s.service.handle ord request).2.ps := by
  have hstage : (s.workers w).stage.bind
      (·.onResponse (multiGpu w) (s.service.handle ord request).1) = some stage' := by
    rw [h.stage]
    exact hnext
  obtain ⟨hservice, hothers, hat⟩ :=
    final_exchange ord multiGpu hidle h.waiting hrequest hstage
  refine ⟨s.exchange t w, ⟨trivial, trivial, trivial, trivial, trivial, trivial⟩,
    ⟨hothers, ?_, ?_⟩, h.iteration ▸ hat, ?_⟩
  · rw [hservice, ParameterServerService.handlers_setHandler, if_pos rfl]
  · rw [hservice]
    cases request with
    | gradientUpdate p => exact ⟨[p], rfl⟩
    | pull | syncStatus => exact ⟨[], rfl⟩
  · rw [hservice]
    rfl

/-- A worker that pulls gets on to a push: with the last attempt it takes what it gets. -/
theorem canGo_pull {retryCount : ℕ} (hretry : retryCount < maxRetries)
    (h : (s.workers w).At k (.pull retryCount) false) :
    CanGo ord multiGpu ids t w s fun s' =>
      ∃ retryCount < maxRetries, ∃ grads, (s'.workers w).At k (.push retryCount grads) false := by
  obtain ⟨left, hleft⟩ : ∃ left, retryCount + left = maxRetries - 1 :=
    Nat.exists_eq_add_of_le (Nat.le_sub_one_of_lt hretry) |>.imp fun _ h => h.symm
  induction left generalizing s retryCount with
  | zero =>
    refine (canGo_exchange hidle h (h.request_eq w) rfl).mono fun s' ⟨hat, _⟩ => ?_
    obtain ⟨hnext, -⟩ | ⟨grads, he⟩ := RunIteration.afterPull_next (multiGpu w) retryCount
      (s.service.ps.serveParameters k)
    · omega
    · exact ⟨retryCount, hretry, grads, he ▸ hat⟩
  | succ left ih =>
    refine (canGo_exchange hidle h (h.request_eq w) rfl).trans fun s' hon ⟨hat, _⟩ => ?_
    obtain ⟨hnext, he⟩ | ⟨grads, he⟩ := RunIteration.afterPull_next (multiGpu w) retryCount
      (s.service.ps.serveParameters k)
    · exact ih hon.idle hnext (he ▸ hat) (by omega)
    · exact canGo_here hon.idle ⟨retryCount, hretry, grads, he ▸ hat⟩

/-- A push is recorded, unless the iteration is aggregated. -/
theorem canGo_push {retryCount : ℕ} {grads : List (Tensor V)}
    (h : (s.workers w).At k (.push retryCount grads) false) :
    CanGo ord multiGpu ids t w s fun s' => Contributed k w s'.service.ps ∧ ∃ complete,
      (s'.workers w).At k (.afterPush retryCount complete) false ∧
      (complete = false → (s.service.ps.stateOf k).aggregated = false) := by
  refine (canGo_exchange hidle h (h.request_eq w) rfl).mono fun s' hs' => ?_
  refine ⟨?_, (s.service.ps.receive ord ⟨w, k, grads⟩).1, hs'.1, fun hcomplete => ?_⟩
  · rw [hs'.2]
    exact contributed_receive ord ⟨w, k, grads⟩
  · by_contra hdone
    rw [Bool.not_eq_false] at hdone
    rw [s.service.ps.receive_late ord ⟨w, k, grads⟩ hdone] at hcomplete
    cases hcomplete

/-- What is asked about an aggregated iteration is answered so. -/
theorem canGo_poll {retryCount pollCount : ℕ} (hdone : (s.service.ps.stateOf k).aggregated = true)
    (h : (s.workers w).At k (.poll retryCount pollCount) false) :
    CanGo ord multiGpu ids t w s fun s' => (s'.workers w).Finished k := by
  refine (canGo_exchange hidle h (h.request_eq w) rfl).mono fun s' hs' => ?_
  have hat := hs'.1
  dsimp only [ParameterServerService.handle] at hat
  rw [s.service.ps.checkSyncStatus_eq, hdone] at hat
  exact ⟨hat.iteration, hat.stage⟩

theorem canGo_recheck {retryCount pollCount : ℕ} (hpolls : pollCount < maxPolls)
    (h : (s.workers w).At k (.recheck retryCount pollCount) false) :
    CanGo ord multiGpu ids t w s fun s' =>
      (s'.workers w).At k (.poll retryCount pollCount) false := by
  refine (canGo_exchange hidle h (h.request_eq w) rfl).mono fun s' hs' => ?_
  have hat := hs'.1
  unfold RunIteration.polling at hat
  rwa [if_pos hpolls] at hat

omit hidle in
/-- A worker that waits may have waited for nothing, and gives up its call. -/
theorem canGo_waiting {stage : RunIteration V} {waiting : Bool}
    (hidle : s.service.handlers t = .idle) (h : (s.workers w).At k stage waiting)
    (hready : ∀ s', Onward ord t w s s' → (s'.workers w).At k stage false →
      CanGo ord multiGpu ids t w s' P)
    (hfail : waiting = true → ∀ s', Onward ord t w s s' →
      (s'.workers w).At k (stage.onFailure (multiGpu w)) false → CanGo ord multiGpu ids t w s' P) :
    CanGo ord multiGpu ids t w s P := by
  rcases waiting with _ | _
  · exact (canGo_here hidle h).trans hready
  · exact (canGo_fail hidle h).trans (hfail rfl)

theorem canGo_push_of_pull {retryCount : ℕ} {waiting : Bool} (hretry : retryCount < maxRetries)
    (h : (s.workers w).At k (.pull retryCount) waiting) :
    CanGo ord multiGpu ids t w s fun s' =>
      ∃ retryCount < maxRetries, ∃ grads, (s'.workers w).At k (.push retryCount grads) false := by
  refine canGo_waiting hidle h (fun s' hon hat => canGo_pull hon.idle hretry hat)
    fun _ s' hon hat => ?_
  obtain ⟨hnext, he⟩ | ⟨grads, he⟩ := RunIteration.afterPull_next (multiGpu w) retryCount []
  · exact canGo_pull hon.idle hnext (he ▸ hat)
  · exact canGo_here hon.idle ⟨retryCount, hretry, grads, he ▸ hat⟩

theorem canGo_pushing (hw : w ∈ ids) (h : (s.workers w).CanPush k) :
    CanGo ord multiGpu ids t w s fun s' =>
      ∃ retryCount < maxRetries, ∃ grads, (s'.workers w).At k (.push retryCount grads) false := by
  unfold WorkerState.CanPush at h
  split at h
  · rename_i retryCount hstage
    exact canGo_push_of_pull hidle h.2 ⟨h.1, hstage, rfl⟩
  · rename_i retryCount grads hstage
    refine canGo_waiting hidle ⟨h.1, hstage, rfl⟩ (fun s' hon hat => ?_) fun hwait s' hon hat => ?_
    · exact canGo_here hon.idle ⟨retryCount, h.2.1, grads, hat⟩
    · -- a push that may be lost is repeated
      obtain ⟨hnext, he⟩ := RunIteration.afterPush_retry (V := V) (h.2.2 hwait)
      change (s'.workers w).At k (.afterPush retryCount false) false at hat
      rw [he] at hat
      exact canGo_push_of_pull hon.idle hnext hat
  · cases h
  · cases h
  · rename_i done hstage
    exact (canGo_run hidle hw h.1 (.inr ⟨done, hstage⟩) h.2).trans fun s' hon hat =>
      canGo_push_of_pull hon.idle (by decide) hat
  · rename_i hstage
    exact (canGo_run hidle hw h.1 (.inl hstage) h.2).trans fun s' hon hat =>
      canGo_push_of_pull hon.idle (by decide) hat

theorem canGo_contribute (hw : w ∈ ids) (h : (s.workers w).CanPush k) :
    CanGo ord multiGpu ids t w s fun s' =>
      Contributed k w s'.service.ps ∧ (s'.workers w).CanFinish k := by
  refine (canGo_pushing hidle hw h).trans fun s' hon ⟨retryCount, hretry, grads, hat⟩ => ?_
  refine (canGo_push hon.idle hat).mono fun s'' ⟨hc, complete, hat, _⟩ => ⟨hc, ?_⟩
  rcases complete with _ | _
  · unfold WorkerState.CanFinish
    obtain ⟨hnext, he⟩ | he := RunIteration.afterPush_next (V := V) retryCount
    · rw [he] at hat
      rw [hat.stage]
      exact ⟨hat.iteration, hnext⟩
    · rw [he] at hat
      rw [hat.stage, hat.waiting]
      exact ⟨hat.iteration, by decide, nofun⟩
  · rw [(RunIteration.afterPush_returned_iff retryCount true).mpr rfl] at hat
    exact WorkerState.Finished.canFinish ⟨hat.iteration, hat.stage⟩

section Aggregated

/-! From now on the iteration is aggregated, and every answer says so. -/

omit hidle in
theorem Onward.aggregated {s' : Cluster V} (h : Onward ord t w s s')
    (hdone : (s.service.ps.stateOf k).aggregated = true) :
    (s'.service.ps.stateOf k).aggregated = true := by
  obtain ⟨ps, hps⟩ := h.pushes
  rw [hps]
  exact ParameterServerCore.runPushes_of_receive ord
    (fun s p hs => (ParameterServerCore.aggregated_receive_iff ord s p k).mpr (.inl hs)) hdone ps

variable (hdone : (s.service.ps.stateOf k).aggregated = true)
include hdone

theorem canGo_finish_of_push {retryCount : ℕ} {grads : List (Tensor V)}
    (h : (s.workers w).At k (.push retryCount grads) false) :
    CanGo ord multiGpu ids t w s fun s' => (s'.workers w).Finished k := by
  refine (canGo_push hidle h).mono fun s' ⟨_, complete, hat, hcomplete⟩ => ?_
  have htrue : complete = true := by
    by_contra hfalse
    have hopen := hcomplete (by simpa using hfalse)
    rw [hdone] at hopen
    cases hopen
  rw [(RunIteration.afterPush_returned_iff retryCount complete).mpr htrue] at hat
  exact ⟨hat.iteration, hat.stage⟩

theorem canGo_finish_of_pull {retryCount : ℕ} {waiting : Bool} (hretry : retryCount < maxRetries)
    (h : (s.workers w).At k (.pull retryCount) waiting) :
    CanGo ord multiGpu ids t w s fun s' => (s'.workers w).Finished k :=
  (canGo_push_of_pull hidle hretry h).trans fun _ hon ⟨_, _, _, hat⟩ =>
    canGo_finish_of_push hon.idle (hon.aggregated hdone) hat

theorem canGo_finish (hw : w ∈ ids) (h : (s.workers w).CanFinish k) :
    CanGo ord multiGpu ids t w s fun s' => (s'.workers w).Finished k := by
  unfold WorkerState.CanFinish at h
  split at h
  · rename_i hstage
    exact (canGo_run hidle hw h.1 (.inl hstage) h.2).trans fun s' hon hat =>
      canGo_finish_of_pull hon.idle (hon.aggregated hdone) (by decide) hat
  · rename_i retryCount hstage
    exact canGo_finish_of_pull hidle hdone h.2 ⟨h.1, hstage, rfl⟩
  · rename_i retryCount grads hstage
    refine canGo_waiting hidle ⟨h.1, hstage, rfl⟩ (fun s' hon hat => ?_) fun _ s' hon hat => ?_
    · exact canGo_finish_of_push hon.idle (hon.aggregated hdone) hat
    · change (s'.workers w).At k (.afterPush retryCount false) false at hat
      obtain ⟨hnext, he⟩ | he := RunIteration.afterPush_next (V := V) retryCount
      · rw [he] at hat
        exact canGo_finish_of_pull hon.idle (hon.aggregated hdone) hnext hat
      · rw [he] at hat
        exact canGo_poll hon.idle (hon.aggregated hdone) hat
  · rename_i retryCount pollCount hstage
    refine canGo_waiting hidle ⟨h.1, hstage, rfl⟩ (fun s' hon hat => ?_) fun hwait s' hon hat => ?_
    · exact canGo_poll hon.idle (hon.aggregated hdone) hat
    · change (s'.workers w).At k (.afterPoll retryCount pollCount false) false at hat
      have hnext := h.2.2 hwait
      obtain he | he := RunIteration.afterPoll_next (V := V) retryCount hnext
      · rw [he] at hat
        exact (canGo_recheck hon.idle hnext hat).trans fun s'' hon' hat =>
          canGo_poll hon'.idle ((hon.trans hon').aggregated hdone) hat
      · rw [he] at hat
        exact canGo_poll hon.idle (hon.aggregated hdone) hat
  · rename_i retryCount pollCount hstage
    refine canGo_waiting hidle ⟨h.1, hstage, rfl⟩ (fun s' hon hat => ?_) fun _ s' hon hat => ?_
    · exact (canGo_recheck hon.idle h.2 hat).trans fun s'' hon' hat =>
        canGo_poll hon'.idle ((hon.trans hon').aggregated hdone) hat
    · change (s'.workers w).At k (.polling retryCount pollCount) false at hat
      unfold RunIteration.polling at hat
      rw [if_pos h.2] at hat
      exact canGo_poll hon.idle (hon.aggregated hdone) hat
  · rename_i done hstage
    rcases h with ⟨rfl, hk⟩ | h
    · exact canGo_here hidle ⟨hk, hstage⟩
    · exact (canGo_run hidle hw h.1 (.inr ⟨done, hstage⟩) h.2).trans fun s' hon hat =>
        canGo_finish_of_pull hon.idle (hon.aggregated hdone) (by decide) hat

end Aggregated

end Moves

theorem step_pushes (s : Cluster V) (e : ClusterEvent) :
    ∃ ps, (s.step ord multiGpu e).service.ps = s.service.ps.runPushes ord ps := by
  rcases s.step_ps ord multiGpu e with he | ⟨p, he⟩
  · exact ⟨[], he⟩
  · exact ⟨[p], he⟩

/-- Two core calls bring every handler to its end. -/
theorem final_drain (s : Cluster V) (t : ℕ) :
    let s' := (machine ord multiGpu).final s [.advance t, .advance t]
    s'.service.handlers t = .idle ∧ s'.workers = s.workers ∧
      ∃ ps, s'.service.ps = s.service.ps.runPushes ord ps := by
  refine ⟨?_, rfl, ?_⟩
  · rcases ht : s.service.handlers t with _ | _ | _ | _ | _ | _ <;>
      simp [Machine.final, machine, step, ParameterServerService.advance, ht,
        ParameterServerService.setHandler]
  · obtain ⟨ps, hps⟩ := s.step_pushes ord multiGpu (.advance t)
    obtain ⟨qs, hqs⟩ := (s.step ord multiGpu (.advance t)).step_pushes ord multiGpu (.advance t)
    refine ⟨ps ++ qs, ?_⟩
    rw [ParameterServerCore.runPushes_append, ← hps, ← hqs]
    rfl

/-- What the schedule relies on, and keeps. -/
structure Running (N : Int32) (s : Cluster V) : Prop where
  idle : s.service.handlers 0 = .idle
  barrier : s.service.ps.Barrier
  totalWorkers : s.service.ps.totalWorkers = N

variable {ord multiGpu}

theorem Running.onward {N : Int32} {s s' : Cluster V} (h : Running N s)
    (hon : Onward ord 0 w s s') : Running N s' := by
  obtain ⟨ps, hps⟩ := hon.pushes
  refine ⟨hon.idle, ?_, ?_⟩
  · rw [hps]
    exact ParameterServerCore.runPushes_of_receive ord (fun _ p hb => hb.receive ord p) h.barrier ps
  · rw [hps, ParameterServerCore.runPushes_totalWorkers, h.totalWorkers]

theorem Onward.contributed {v k : Int32} {s s' : Cluster V} (h : Onward ord t w s s')
    (hv : Contributed k v s.service.ps) : Contributed k v s'.service.ps := by
  obtain ⟨ps, hps⟩ := h.pushes
  rw [hps]
  exact ParameterServerCore.runPushes_of_receive ord (fun _ p hc => hc.receive ord p) hv ps

variable (ord multiGpu)

/-- The barrier does not deadlock. In every state of every run, whatever has been lost on the way:
if the workers of a quorum have each pushed for the iteration or can still do so, and have a poll
left, then there is a way to go on, on which no further message is lost, the iteration is aggregated
and all of their calls of `run_iteration` return true. -/
theorem iteration_can_complete {N : Int32} (base : List (Tensor V)) {ids W : Finset Int32}
    (hW : W ⊆ ids) (hquorum : quorum N ≤ W.card) (es : List ClusterEvent) (k : Int32) :
    let s := (machine ord multiGpu).final (initial N base) es
    (∀ w ∈ W, (s.workers w).CanFinish k ∧
      ((s.workers w).CanPush k ∨ Contributed k w s.service.ps)) →
    (machine ord multiGpu).CanReach (Undisturbed ids) (fun s' =>
      (s'.service.ps.stateOf k).aggregated = true ∧ ∀ w ∈ W, (s'.workers w).Finished k) s := by
  intro s hable
  have hserver : s.service.ps.Barrier ∧ s.service.ps.totalWorkers = N :=
    Machine.invariant_final (I := fun s : Cluster V =>
      s.service.ps.Barrier ∧ s.service.ps.totalWorkers = N)
      (fun s e h _ => barrier_step multiGpu ord h e) ⟨.of_empty rfl, rfl⟩
      ((machine ord multiGpu).meets_true _ es)
  clear_value s
  -- a thread for the schedule
  obtain ⟨hidle, hworkers, ps, hps⟩ := final_drain ord multiGpu s 0
  have hdrained : (machine ord multiGpu).CanReach (Undisturbed ids)
      (fun s' => Running N s' ∧ ∀ w ∈ W, (s'.workers w).CanFinish k ∧
        ((s'.workers w).CanPush k ∨ Contributed k w s'.service.ps)) s := by
    refine ⟨[.advance 0, .advance 0], ⟨trivial, trivial, trivial⟩, ⟨hidle, ?_, ?_⟩,
      fun w hw => ?_⟩
    · rw [hps]
      exact ParameterServerCore.runPushes_of_receive ord (fun _ p hb => hb.receive ord p)
        hserver.1 ps
    · rw [hps, ParameterServerCore.runPushes_totalWorkers, hserver.2]
    · rw [hworkers, hps]
      exact (hable w hw).imp_right fun h => h.imp_right
        (ParameterServerCore.runPushes_of_receive ord (fun _ p hc => hc.receive ord p) · ps)
  refine hdrained.trans fun s ⟨hs, hable⟩ => ?_
  -- all push
  have hpushed : (machine ord multiGpu).CanReach (Undisturbed ids) (fun s' => Running N s' ∧
      ∀ w ∈ W, Contributed k w s'.service.ps ∧ (s'.workers w).CanFinish k) s := by
    refine Machine.canReach_all (fun w hw s hs (htodo : (s.workers w).CanFinish k ∧
      ((s.workers w).CanPush k ∨ Contributed k w s.service.ps)) => ?_) hs hable
    have hgo : CanGo ord multiGpu ids 0 w s fun s' =>
        Contributed k w s'.service.ps ∧ (s'.workers w).CanFinish k := by
      rcases htodo with ⟨hfin, hpush | hc⟩
      · exact canGo_contribute hs.idle (hW hw) hpush
      · exact canGo_here hs.idle ⟨hc, hfin⟩
    refine Machine.CanReach.mono hgo fun s' ⟨hon, hdone⟩ => ?_
    refine ⟨hs.onward hon, hdone, fun v _ hv => ?_⟩
    rw [hon.others v hv]
    exact ⟨fun h => ⟨h.1, h.2.imp_right hon.contributed⟩, fun h => ⟨hon.contributed h.1, h.2⟩⟩
  · refine hpushed.trans fun s ⟨hs, hdone⟩ => ?_
    have haggregated : (s.service.ps.stateOf k).aggregated = true :=
      aggregated_of_contributed hs.barrier (hs.totalWorkers ▸ hquorum) fun w hw => (hdone w hw).1
    -- and then all are told
    have hfinished : (machine ord multiGpu).CanReach (Undisturbed ids) (fun s' =>
        (Running N s' ∧ (s'.service.ps.stateOf k).aggregated = true) ∧
          ∀ w ∈ W, (s'.workers w).Finished k) s := by
      refine Machine.canReach_all (fun w hw s hs (htodo : (s.workers w).CanFinish k) => ?_)
        ⟨hs, haggregated⟩ fun w hw => (hdone w hw).2
      refine Machine.CanReach.mono (canGo_finish hs.1.idle hs.2 (hW hw) htodo)
        fun s' ⟨hon, hfin⟩ => ?_
      refine ⟨⟨hs.1.onward hon, hon.aggregated hs.2⟩, hfin, fun v _ hv => ?_⟩
      rw [hon.others v hv]
      exact ⟨id, id⟩
    exact hfinished.mono fun s' hs' => ⟨hs'.1.2, hs'.2⟩

/-- The last attempt of worker 0 waits for a pull that is lost, and worker 1 has not begun. -/
def lostPull : List ClusterEvent :=
  [.run 0 0, .send 0, .fail 0, .send 0, .fail 0, .send 0, .dropRequest 2]

theorem iteration_can_complete_lost_pull :
    (machine (V := UInt32) .insertion fun _ => id).CanReach (Undisturbed {0, 1})
      (fun s' => (s'.service.ps.stateOf 0).aggregated = true ∧
        ∀ w ∈ ({0, 1} : Finset Int32), (s'.workers w).Finished 0)
      ((machine .insertion fun _ => id).final (initial 2 [word 10]) lostPull) := by
  have hleft : ∀ w ∈ ({0, 1} : Finset Int32),
      let ws := ((machine .insertion fun _ => id).final (initial 2 [word 10]) lostPull).workers w
      ws.CanFinish 0 ∧ ws.CanPush 0 := by
    intro w hw
    rcases Finset.mem_insert.mp hw with rfl | hw
    · decide +kernel
    · obtain rfl := Finset.mem_singleton.mp hw
      decide +kernel
  exact iteration_can_complete .insertion (fun _ => id) (N := 2) [word 10] subset_rfl (by decide)
    lostPull 0 fun w hw => (hleft w hw).imp_right .inl

end Cluster

end ParamServer
