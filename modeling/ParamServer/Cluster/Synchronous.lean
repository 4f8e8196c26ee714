import ParamServer.Cluster.Versions

/-! The invariant of synchronous training over all messages, threads and workers. What a message
says about its call matters only while its worker still waits for that call. -/

namespace ParamServer

open Library Worker

variable {V : Type}

def Current (workers : Int32 → WorkerState V) (ticket : Ticket) : Prop :=
  (workers ticket.worker).waiting = true ∧ (workers ticket.worker).calls = ticket.call

def Issued (workers : Int32 → WorkerState V) (ticket : Ticket) : Prop :=
  ticket.call ≤ (workers ticket.worker).calls

/-- An answer about an iteration: if positive then the iteration is aggregated, and a worker that
still waits for it has asked about its own iteration. -/
structure AnswerOk (held : List (Int32 × List (Tensor V))) (workers : Int32 → WorkerState V)
    (ticket : Ticket) (iteration : Int32) (answer : Bool) : Prop where
  aggregated : answer = true → iteration ∈ held.map Prod.fst
  own : Current workers ticket → iteration = (workers ticket.worker).iteration

variable [Scalar V] (base : List (Tensor V))
  (multiGpu : Int32 → List (Tensor V) → List (Tensor V))

/-- Parameters on their way to a worker: an earlier version, but not older than the worker's
iteration. -/
structure PulledOk (held : List (Int32 × List (Tensor V))) (workers : Int32 → WorkerState V)
    (ticket : Ticket) (params : List (Tensor V)) (means : List (Int32 × List (Tensor V))) :
    Prop where
  isPrefix : means <+: held
  parameters : params = applyMeans base means
  own : Current workers ticket → (workers ticket.worker).iteration.toInt ≤ means.length

/-- What holds of a handler, and of a request as of the handler that it will start. -/
def HandlerOk (held : List (Int32 × List (Tensor V))) (workers : Int32 → WorkerState V)
    (ticket : Ticket) : Handler V → Prop
  | .idle => True
  | .receiveGradients p =>
    PushOk base multiGpu held ticket p ∧ AnswerOk held workers ticket p.iteration false
  | .received iteration complete => AnswerOk held workers ticket iteration complete
  | .serveParameters _ => True
  | .served _ params means => PulledOk base held workers ticket params means
  | .checkSyncStatus iteration => AnswerOk held workers ticket iteration false

def ReplyOk (held : List (Int32 × List (Tensor V))) (workers : Int32 → WorkerState V)
    (ticket : Ticket) : Response V → Prop
  | .push r => AnswerOk held workers ticket r.iteration r.aggregationComplete
  | .parameters r means => PulledOk base held workers ticket r.parameters means
  | .syncStatus r => AnswerOk held workers ticket r.iteration r.ready

def StageOk (held : List (Int32 × List (Tensor V))) (worker : Int32) (ws : WorkerState V) :
    RunIteration V → Prop
  | .push _ grads => ws.iteration.toInt ≤ ws.version ∧ ws.version ≤ held.length ∧
      grads = gradientsFor (multiGpu worker) (paramsAt base held ws.version)
  | .returned true => ws.iteration.toInt < held.length
  | _ => True

/-- A worker runs no iteration beyond the number of aggregated ones, and one that reports
success has had its iteration aggregated. -/
structure WorkerOk (held : List (Int32 × List (Tensor V))) (worker : Int32)
    (ws : WorkerState V) : Prop where
  nonneg : 0 ≤ ws.iteration.toInt
  iteration_le : ws.iteration.toInt ≤ held.length
  stage : ∀ stage, ws.stage = some stage → StageOk base multiGpu held worker ws stage

/-- The invariant. -/
structure Synchronous (s : Cluster V) : Prop where
  server : ServerOk base multiGpu s.service.ps s.service.held s.versions
  worker : ∀ w, WorkerOk base multiGpu s.service.held w (s.workers w)
  request : ∀ m ∈ s.requests, Issued s.workers m.1 ∧
    HandlerOk base multiGpu s.service.held s.workers m.1 m.2.handler
  thread : ∀ t, Issued s.workers (s.tickets t) ∧
    HandlerOk base multiGpu s.service.held s.workers (s.tickets t) (s.service.handlers t)
  reply : ∀ m ∈ s.replies, Issued s.workers m.1 ∧
    ReplyOk base s.service.held s.workers m.1 m.2

variable {base multiGpu} {held means : List (Int32 × List (Tensor V))}
  {workers workers' : Int32 → WorkerState V} {ticket : Ticket}

section Growth

/-! More means in the parameters. -/

omit [Scalar V] in
theorem AnswerOk.append {iteration : Int32} {answer : Bool}
    (h : AnswerOk held workers ticket iteration answer) :
    AnswerOk (held ++ means) workers ticket iteration answer := by
  refine ⟨fun ha => ?_, h.own⟩
  rw [List.map_append]
  exact List.mem_append_left _ (h.aggregated ha)

theorem PushOk.append {p : Push V} (h : PushOk base multiGpu held ticket p) :
    PushOk base multiGpu (held ++ means) ticket p := by
  refine ⟨h.worker, h.nonneg, h.iteration_le, ?_, ?_⟩
  · have := h.version_le
    rw [List.length_append]
    omega
  · rw [h.gradients, paramsAt_append base means h.version_le]

theorem PulledOk.append {params : List (Tensor V)} {m : List (Int32 × List (Tensor V))}
    (h : PulledOk base held workers ticket params m) :
    PulledOk base (held ++ means) workers ticket params m :=
  ⟨h.isPrefix.trans (List.prefix_append ..), h.parameters, h.own⟩

theorem HandlerOk.append {h : Handler V} (hh : HandlerOk base multiGpu held workers ticket h) :
    HandlerOk base multiGpu (held ++ means) workers ticket h := by
  cases h with
  | idle => trivial
  | receiveGradients p => exact ⟨hh.1.append, hh.2.append⟩
  | received => exact AnswerOk.append hh
  | serveParameters => trivial
  | served => exact PulledOk.append hh
  | checkSyncStatus => exact AnswerOk.append hh

theorem ReplyOk.append {r : Response V} (h : ReplyOk base held workers ticket r) :
    ReplyOk base (held ++ means) workers ticket r := by
  cases r with
  | push => exact AnswerOk.append h
  | parameters => exact PulledOk.append h
  | syncStatus => exact AnswerOk.append h

theorem StageOk.append {w : Int32} {ws : WorkerState V} {stage : RunIteration V}
    (h : StageOk base multiGpu held w ws stage) :
    StageOk base multiGpu (held ++ means) w ws stage := by
  have hlen : held.length ≤ (held ++ means).length := by simp
  match stage, h with
  | .push _ _, h =>
    refine ⟨h.1, h.2.1.trans hlen, ?_⟩
    rw [h.2.2, paramsAt_append base means h.2.1]
  | .returned true, h =>
    have hlt : ws.iteration.toInt < held.length := h
    change ws.iteration.toInt < ((held ++ means).length : ℤ)
    omega
  | .returned false, _ => trivial
  | .pull _, _ => trivial
  | .poll _ _, _ => trivial
  | .recheck _ _, _ => trivial

theorem WorkerOk.append {w : Int32} {ws : WorkerState V}
    (h : WorkerOk base multiGpu held w ws) : WorkerOk base multiGpu (held ++ means) w ws := by
  refine ⟨h.nonneg, ?_, fun stage hstage => (h.stage stage hstage).append⟩
  have := h.iteration_le
  rw [List.length_append]
  omega

end Growth

section Movement

/-! A worker that moves on. The calls that it still waits for are among those it waited for. -/

/-- No call that was made before becomes current, or changes its iteration. -/
def Follows (workers workers' : Int32 → WorkerState V) : Prop :=
  ∀ ticket, Issued workers ticket → Issued workers' ticket ∧ (Current workers' ticket →
    Current workers ticket ∧
      (workers' ticket.worker).iteration = (workers ticket.worker).iteration)

omit [Scalar V] in
theorem follows_update {w : Int32} {ws : WorkerState V} (hcalls : (workers w).calls ≤ ws.calls)
    (hwait : ws.waiting = true → (workers w).calls < ws.calls) :
    Follows workers (Function.update workers w ws) := by
  intro ticket hi
  unfold Current Issued at *
  by_cases hw : ticket.worker = w
  · subst hw
    rw [Function.update_self]
    refine ⟨hi.trans hcalls, fun hc => ?_⟩
    have := hwait hc.1
    omega
  · rw [Function.update_of_ne hw]
    exact ⟨hi, fun hc => ⟨hc, rfl⟩⟩

variable (hf : Follows workers workers') (hi : Issued workers ticket)
include hf hi

omit [Scalar V] in
theorem AnswerOk.follow {iteration : Int32} {answer : Bool}
    (h : AnswerOk held workers ticket iteration answer) :
    AnswerOk held workers' ticket iteration answer := by
  refine ⟨h.aggregated, fun hc => ?_⟩
  obtain ⟨hc', hit⟩ := (hf ticket hi).2 hc
  rw [hit]
  exact h.own hc'

theorem PulledOk.follow {params : List (Tensor V)} {m : List (Int32 × List (Tensor V))}
    (h : PulledOk base held workers ticket params m) :
    PulledOk base held workers' ticket params m := by
  refine ⟨h.isPrefix, h.parameters, fun hc => ?_⟩
  obtain ⟨hc', hit⟩ := (hf ticket hi).2 hc
  rw [hit]
  exact h.own hc'

theorem HandlerOk.follow {h : Handler V} (hh : HandlerOk base multiGpu held workers ticket h) :
    HandlerOk base multiGpu held workers' ticket h := by
  cases h with
  | idle => trivial
  | receiveGradients p => exact ⟨hh.1, hh.2.follow hf hi⟩
  | received => exact AnswerOk.follow hf hi hh
  | serveParameters => trivial
  | served => exact PulledOk.follow hf hi hh
  | checkSyncStatus => exact AnswerOk.follow hf hi hh

theorem ReplyOk.follow {r : Response V} (h : ReplyOk base held workers ticket r) :
    ReplyOk base held workers' ticket r := by
  cases r with
  | push => exact AnswerOk.follow hf hi h
  | parameters => exact PulledOk.follow hf hi h
  | syncStatus => exact AnswerOk.follow hf hi h

end Movement

/-- A worker starts with iteration 0 and takes the next iteration after success only. -/
def WorkerState.mayRun (ws : WorkerState V) (iteration : Int32) : Bool :=
  match ws.stage with
  | some (.returned done) => done && decide (iteration.toInt = ws.iteration.toInt + 1)
  | _ => decide (iteration = 0)

/-- An attempt whose pull fails is not the last one, so that it does not push. -/
def WorkerState.mayFail (ws : WorkerState V) : Bool :=
  match ws.stage with
  | some (.pull retryCount) => decide (retryCount < maxRetries - 1)
  | _ => true

def InOrder (s : Cluster V) : ClusterEvent → Prop
  | .run w iteration => (s.workers w).mayRun iteration = true
  | .fail w => (s.workers w).mayFail = true
  | _ => True

instance (s : Cluster V) : (e : ClusterEvent) → Decidable (InOrder s e)
  | .run w iteration => inferInstanceAs (Decidable ((s.workers w).mayRun iteration = true))
  | .fail w => inferInstanceAs (Decidable ((s.workers w).mayFail = true))
  | .send _ | .arrive _ _ | .advance _ | .dropRequest _ | .dropReply _ | .deliver _ =>
    isTrue trivial

section Step

variable {s : Cluster V}

theorem StageOk.of_neutral {w : Int32} {ws : WorkerState V} {stage : RunIteration V}
    (h : stage.Neutral) : StageOk base multiGpu held w ws stage := by
  match stage, h with
  | .returned false, _ => trivial
  | .pull _, _ => trivial
  | .poll _ _, _ => trivial
  | .recheck _ _, _ => trivial

theorem Synchronous.setWorker (h : Synchronous base multiGpu s) {w : Int32} {ws : WorkerState V}
    (hok : WorkerOk base multiGpu s.service.held w ws) (hcalls : (s.workers w).calls ≤ ws.calls)
    (hwait : ws.waiting = true → (s.workers w).calls < ws.calls) :
    Synchronous base multiGpu (s.setWorker w ws) := by
  have hf : Follows s.workers (Function.update s.workers w ws) := follows_update hcalls hwait
  refine ⟨h.server, fun v => ?_, fun m hm => ?_, fun t => ?_, fun m hm => ?_⟩
  · change WorkerOk base multiGpu _ v (Function.update s.workers w ws v)
    by_cases hv : v = w
    · subst hv
      rwa [Function.update_self]
    · rw [Function.update_of_ne hv]
      exact h.worker v
  · obtain ⟨hi, hh⟩ := h.request m hm
    exact ⟨(hf m.1 hi).1, hh.follow hf hi⟩
  · obtain ⟨hi, hh⟩ := h.thread t
    exact ⟨(hf _ hi).1, hh.follow hf hi⟩
  · obtain ⟨hi, hr⟩ := h.reply m hm
    exact ⟨(hf m.1 hi).1, hr.follow hf hi⟩

omit [Scalar V] in
/-- The call that a worker makes is about its own iteration. -/
theorem answerOk_of_send (s : Cluster V) (w : Int32) :
    AnswerOk s.service.held (s.setWorker w
        { s.workers w with waiting := true, calls := (s.workers w).calls + 1 }).workers
      ⟨w, (s.workers w).calls + 1, (s.workers w).version⟩ (s.workers w).iteration false :=
  ⟨by simp, fun _ => by simp [Cluster.setWorker]⟩

variable (ord : VisitOrder)

omit [Scalar V] in
/-- The iteration that a worker may take up: the next one after an aggregated one. -/
theorem WorkerState.mayRun_cases {ws : WorkerState V} {k : Int32} (h : ws.mayRun k = true)
    (hstage : ws.stage = none ∨ ∃ done, ws.stage = some (.returned done)) :
    k = 0 ∨ (ws.stage = some (.returned true) ∧ k.toInt = ws.iteration.toInt + 1) := by
  rcases hstage with hnone | ⟨done, hdone⟩
  · exact .inl (by simpa [mayRun, hnone] using h)
  · obtain ⟨rfl, hk⟩ : done = true ∧ k.toInt = ws.iteration.toInt + 1 := by
      simpa [mayRun, hdone] using h
    exact .inr ⟨hdone, hk⟩

theorem Synchronous.run (h : Synchronous base multiGpu s) {w k : Int32}
    (ho : InOrder s (.run w k)) (hwait : (s.workers w).waiting = false)
    (hstage : (s.workers w).stage = none ∨ ∃ done, (s.workers w).stage = some (.returned done)) :
    Synchronous base multiGpu (s.setWorker w
      { s.workers w with iteration := k, stage := some (.attempt 0) }) := by
  have hstart : 0 ≤ k.toInt → k.toInt ≤ s.service.held.length → Synchronous base multiGpu
      (s.setWorker w { s.workers w with iteration := k, stage := some (.attempt 0) }) := by
    intro h0 hle
    refine h.setWorker ⟨h0, hle, fun stage hstage => ?_⟩ le_rfl (by simp [hwait])
    cases hstage
    exact .of_neutral (RunIteration.neutral_attempt 0)
  rcases WorkerState.mayRun_cases ho hstage with rfl | ⟨hdone, hk⟩
  · exact hstart (by simp) (by simp)
  · -- the worker goes on after success only, when its iteration is aggregated
    have hlt : (s.workers w).iteration.toInt < s.service.held.length :=
      (h.worker w).stage _ hdone
    have h0 := (h.worker w).nonneg
    exact hstart (by omega) (by omega)

theorem Synchronous.send (h : Synchronous base multiGpu s) {w : Int32} {request : Request V}
    (hrequest : (s.workers w).request w = some request) :
    Synchronous base multiGpu
      { s.setWorker w { s.workers w with waiting := true, calls := (s.workers w).calls + 1 } with
        requests := s.requests ++
          [(⟨w, (s.workers w).calls + 1, (s.workers w).version⟩, request)] } := by
  have hw := h.worker w
  have hs : Synchronous base multiGpu (s.setWorker w
      { s.workers w with waiting := true, calls := (s.workers w).calls + 1 }) :=
    h.setWorker ⟨hw.nonneg, hw.iteration_le, hw.stage⟩ (Nat.le_succ _)
      fun _ => Nat.lt_succ_self _
  refine ⟨hs.server, hs.worker, fun m hm => ?_, hs.thread, hs.reply⟩
  rcases List.mem_append.mp hm with hm | hm
  · exact hs.request m hm
  · rw [List.mem_singleton] at hm
    subst hm
    have hanswer := answerOk_of_send s w
    refine ⟨by simp [Issued, Cluster.setWorker], ?_⟩
    rcases WorkerState.request_cases hrequest with ⟨retryCount, -, rfl⟩ |
      ⟨retryCount, grads, hstage, rfl⟩ | ⟨rfl, -⟩
    · trivial
    · obtain ⟨hle, hlen, hgrads⟩ := hw.stage _ hstage
      exact ⟨⟨rfl, hw.nonneg, hle, hlen, hgrads⟩, hanswer⟩
    · exact hanswer

theorem Synchronous.arrive (h : Synchronous base multiGpu s) {i : ℕ} {ticket : Ticket}
    {request : Request V} (hrequest : s.requests[i]? = some (ticket, request)) (t : ℕ) :
    Synchronous base multiGpu { s with
      service := s.service.setHandler t request.handler
      tickets := Function.update s.tickets t ticket
      requests := s.requests.eraseIdx i } := by
  have hthread := Cluster.thread_arrive
    (P := fun ticket handler => Issued s.workers ticket ∧
      HandlerOk base multiGpu s.service.held s.workers ticket handler)
    h.thread (h.request _ (List.mem_of_getElem? hrequest)) t
  exact ⟨h.server, h.worker, fun m hm => h.request m (List.mem_of_mem_eraseIdx hm), hthread,
    h.reply⟩

theorem Synchronous.thread_update (h : Synchronous base multiGpu s) {t : ℕ} {next : Handler V}
    (hn : HandlerOk base multiGpu s.service.held s.workers (s.tickets t) next) (t' : ℕ) :
    Issued s.workers (s.tickets t') ∧ HandlerOk base multiGpu s.service.held s.workers
      (s.tickets t') (Function.update s.service.handlers t next t') :=
  Cluster.thread_setHandler
    (P := fun ticket handler => Issued s.workers ticket ∧
      HandlerOk base multiGpu s.service.held s.workers ticket handler)
    h.thread ⟨(h.thread t).1, hn⟩ t'

theorem Synchronous.answer (h : Synchronous base multiGpu s) {t : ℕ} {r : Response V}
    (hresponse : s.service.response t = some r) :
    Synchronous base multiGpu { s with
      service := s.service.setHandler t .idle
      replies := s.replies ++ [(s.tickets t, r)] } := by
  obtain ⟨hi, hh⟩ := h.thread t
  have hr : ReplyOk base s.service.held s.workers (s.tickets t) r := by
    rcases s.service.response_cases hresponse with ⟨k, complete, ht, rfl⟩ |
      ⟨k, params, means, ht, rfl⟩ | ⟨k, ht, rfl⟩
    · rw [ht] at hh
      exact hh
    · rw [ht] at hh
      exact hh
    · rw [ht] at hh
      refine ⟨fun hready => ?_, hh.own⟩
      rw [ParameterServerCore.checkSyncStatus_eq] at hready
      exact (h.server.flags k).mp hready
  refine ⟨h.server, h.worker, h.request, h.thread_update trivial, fun m hm => ?_⟩
  rcases List.mem_append.mp hm with hm | hm
  · exact h.reply m hm
  · rw [List.mem_singleton] at hm
    subst hm
    exact ⟨hi, hr⟩

theorem Synchronous.receive (h : Synchronous base multiGpu s) {t : ℕ} {p : Push V}
    (ht : s.service.handlers t = .receiveGradients p) :
    Synchronous base multiGpu { s with
      service := {
        ps := (s.service.ps.receive ord p).2
        held := s.service.held ++ s.service.ps.lineage ord [p]
        handlers := Function.update s.service.handlers t
          (.received p.iteration (s.service.ps.receive ord p).1) }
      versions := recordVersion s.service.ps s.versions (s.tickets t) p } := by
  obtain ⟨hi, hh⟩ := h.thread t
  rw [ht] at hh
  have hserver := h.server.receive ord hh.1
  refine ⟨hserver, fun w => (h.worker w).append, fun m hm => ?_, fun t' => ?_, fun m hm => ?_⟩
  · exact ⟨(h.request m hm).1, (h.request m hm).2.append⟩
  · dsimp only
    by_cases htt : t' = t
    · subst htt
      rw [Function.update_self]
      -- a positive answer comes with the flag, and so with the mean in the parameters
      refine ⟨hi, ⟨fun ha => ?_, hh.2.own⟩⟩
      rw [ParameterServerCore.receive_fst] at ha
      exact (hserver.flags p.iteration).mp ha
    · rw [Function.update_of_ne htt]
      exact ⟨(h.thread t').1, (h.thread t').2.append⟩
  · exact ⟨(h.reply m hm).1, (h.reply m hm).2.append⟩

theorem StageOk.onResponse (h : Synchronous base multiGpu s) {ticket : Ticket}
    {response : Response V} (hr : ReplyOk base s.service.held s.workers ticket response)
    (hc : Current s.workers ticket) {stage stage' : RunIteration V}
    (hs : stage.onResponse (multiGpu ticket.worker) response = some stage') :
    StageOk base multiGpu s.service.held ticket.worker
      { s.workers ticket.worker with
        stage := some stage'
        waiting := false
        version := response.version (s.workers ticket.worker).version } stage' := by
  have hdone : ∀ {k : Int32}, AnswerOk s.service.held s.workers ticket k true →
      (s.workers ticket.worker).iteration.toInt < s.service.held.length := by
    intro k hk
    rw [← hk.own hc]
    exact ((h.server.mem_held_iff k).mp (hk.aggregated rfl)).2
  unfold RunIteration.onResponse at hs
  split at hs
  · rename_i retryCount r means
    cases hs
    have hp : PulledOk base s.service.held s.workers ticket r.parameters means := hr
    rcases RunIteration.afterPull_cases (multiGpu ticket.worker) retryCount r.parameters with
      he | ⟨-, -, hn⟩
    · rw [he]
      refine ⟨hp.own hc, hp.isPrefix.length_le, ?_⟩
      rw [hp.parameters, paramsAt, Response.version, ← List.prefix_iff_eq_take.mp hp.isPrefix]
    · exact .of_neutral hn
  · rename_i retryCount grads r
    cases hs
    have ha : AnswerOk s.service.held s.workers ticket r.iteration r.aggregationComplete := hr
    rcases RunIteration.afterPush_cases (V := V) retryCount r.aggregationComplete with
      ⟨hcomplete, he⟩ | hn
    · rw [he]
      rw [hcomplete] at ha
      exact hdone ha
    · exact .of_neutral hn
  · rename_i retryCount pollCount r
    cases hs
    have ha : AnswerOk s.service.held s.workers ticket r.iteration r.ready := hr
    rcases RunIteration.afterPoll_cases (V := V) retryCount pollCount r.ready with
      ⟨hready, he⟩ | hn
    · rw [he]
      rw [hready] at ha
      exact hdone ha
    · exact .of_neutral hn
  · cases hs
    exact .of_neutral (RunIteration.neutral_polling _ _)
  · cases hs

theorem Synchronous.eraseReply (h : Synchronous base multiGpu s) (i : ℕ) :
    Synchronous base multiGpu { s with replies := s.replies.eraseIdx i } :=
  ⟨h.server, h.worker, h.request, h.thread, fun m hm => h.reply m (List.mem_of_mem_eraseIdx hm)⟩

theorem StageOk.onFailure {w : Int32} {ws : WorkerState V}
    (h : WorkerOk base multiGpu s.service.held w ws) (ho : ws.mayFail = true)
    {stage : RunIteration V} (hstage : ws.stage = some stage) :
    StageOk base multiGpu s.service.held w
      { ws with stage := some (stage.onFailure (multiGpu w)), waiting := false }
      (stage.onFailure (multiGpu w)) := by
  cases stage with
  | pull retryCount =>
    rcases RunIteration.afterPull_cases (multiGpu w) retryCount ([] : List (Tensor V)) with
      he | ⟨-, -, hn⟩
    · -- the last attempt, which would push what it has not computed from an answer
      have hlt : retryCount < maxRetries - 1 := by simpa [WorkerState.mayFail, hstage] using ho
      rw [RunIteration.afterPull, if_pos ⟨rfl, hlt⟩] at he
      have hn := RunIteration.neutral_attempt (V := V) (retryCount + 1)
      rw [he] at hn
      exact hn.elim
    · exact .of_neutral hn
  | push retryCount grads =>
    rcases RunIteration.afterPush_cases (V := V) retryCount false with ⟨hf, -⟩ | hn
    · simp at hf
    · exact .of_neutral hn
  | poll retryCount pollCount =>
    rcases RunIteration.afterPoll_cases (V := V) retryCount pollCount false with ⟨hf, -⟩ | hn
    · simp at hf
    · exact .of_neutral hn
  | recheck retryCount pollCount =>
    exact .of_neutral (RunIteration.neutral_polling retryCount pollCount)
  | returned done =>
    have hold := h.stage _ hstage
    cases done with
    | true => exact hold
    | false => trivial

theorem Synchronous.step (h : Synchronous base multiGpu s) {e : ClusterEvent}
    (ho : InOrder s e) : Synchronous base multiGpu (s.step ord multiGpu e) := by
  have hs := s.step_cases ord multiGpu e
  generalize s.step ord multiGpu e = s' at hs ⊢
  cases hs with
  | unchanged => exact h
  | run hwait hstage => exact h.run ho hwait hstage
  | send _ hrequest => exact h.send hrequest
  | arrive hrequest => exact h.arrive hrequest _
  | receive hthread => exact h.receive ord hthread
  | serve =>
    refine ⟨h.server, h.worker, h.request, ?_, h.reply⟩
    apply h.thread_update
    -- the newest version, which no worker is ahead of
    exact ⟨List.prefix_rfl, h.server.parameters, fun _ => (h.worker _).iteration_le⟩
  | answer hresponse => exact h.answer hresponse
  | dropRequest i =>
    exact ⟨h.server, h.worker, fun m hm => h.request m (List.mem_of_mem_eraseIdx hm), h.thread,
      h.reply⟩
  | dropReply i | ignore i => exact h.eraseReply i
  | @deliver i ticket response stage stage' hreply hwait hcall hstage hnext =>
    have hw := h.worker ticket.worker
    obtain ⟨-, hr⟩ := h.reply _ (List.mem_of_getElem? hreply)
    refine (h.eraseReply i).setWorker ⟨hw.nonneg, hw.iteration_le, fun st hst => ?_⟩ le_rfl
      (by simp)
    cases hst
    exact StageOk.onResponse h hr ⟨hwait, hcall⟩ hnext
  | @fail w stage hwait hstage =>
    have hw := h.worker w
    refine h.setWorker ⟨hw.nonneg, hw.iteration_le, fun st hst => ?_⟩ le_rfl (by simp)
    cases hst
    exact .onFailure hw ho hstage

end Step

theorem synchronous_initial (totalWorkers : Int32) :
    Synchronous base multiGpu (Cluster.initial totalWorkers base) := by
  have hempty : ∀ k, (((ParameterServerCore.new totalWorkers).initializeParameters base).stateOf
      k) = .initial := fun _ => rfl
  refine ⟨⟨rfl, by simp [Cluster.initial, ParameterServerService.start], fun k => ?_, rfl,
    fun k w G hG => ?_⟩, fun w => ⟨by simp [Cluster.initial], by simp [Cluster.initial], ?_⟩,
    by simp [Cluster.initial], fun t => ⟨Nat.le_refl 0, trivial⟩, by simp [Cluster.initial]⟩
  · simp [Cluster.initial, ParameterServerService.start, hempty]
  · simp [Cluster.initial, ParameterServerService.start, hempty] at hG
  · simp [Cluster.initial]

namespace Cluster

variable (ord : VisitOrder) (multiGpu)

theorem barrier_step {N : Int32} {s : Cluster V}
    (h : s.service.ps.Barrier ∧ s.service.ps.totalWorkers = N) (e : ClusterEvent) :
    (s.step ord multiGpu e).service.ps.Barrier ∧
      (s.step ord multiGpu e).service.ps.totalWorkers = N := by
  rcases s.step_ps ord multiGpu e with he | ⟨p, he⟩
  · rwa [he]
  · rw [he, ParameterServerCore.receive_totalWorkers]
    exact ⟨h.1.receive ord p, h.2⟩

/-- In every state of every run that keeps to the order, the iterations have been aggregated one
by one from 0 on, and every gradient recorded for an iteration was computed from the version of
that number; a complete iteration has the gradients of exactly `N` workers. -/
theorem versions_eq_iteration {N : Int32} (hN : 1 ≤ N.toInt) (base : List (Tensor V))
    (es : List ClusterEvent)
    (hes : (machine ord multiGpu).Meets InOrder (initial N base) es) :
    let s := (machine ord multiGpu).final (initial N base) es
    s.service.held.map Prod.fst = (List.range s.service.held.length).map Int32.ofNat ∧
    s.service.ps.parameters = paramsAt base s.service.held s.service.held.length ∧
    ∀ k, ((s.service.ps.stateOf k).aggregated = true ↔ k ∈ s.service.held.map Prod.fst) ∧
      ((s.service.ps.stateOf k).aggregated = true →
        (s.service.ps.stateOf k).workerGradients.size = N.toInt.toNat) ∧
      ∀ w G, (s.service.ps.stateOf k).workerGradients.find? w = some G →
        (s.versions k w : ℤ) = k.toInt ∧
        G = gradientsFor (multiGpu w) (paramsAt base s.service.held (s.versions k w)) := by
  intro s
  have hs : Synchronous base multiGpu s :=
    Machine.invariant_final (fun s e h ho => h.step ord ho) (synchronous_initial N) hes
  have hb : s.service.ps.Barrier ∧ s.service.ps.totalWorkers = N := by
    apply Machine.invariant_final
      (I := fun s : Cluster V => s.service.ps.Barrier ∧ s.service.ps.totalWorkers = N) _ _ hes
    · intro s e h _
      exact barrier_step multiGpu ord h e
    · exact ⟨.of_empty rfl, rfl⟩
  refine ⟨hs.server.order, ?_, fun k => ⟨hs.server.flags k, fun ha => ?_, fun w G hG => ?_⟩⟩
  · rw [paramsAt, List.take_length]
    exact hs.server.parameters
  · rw [(hb.1.counted k).2.mp ha, hb.2, quorum_of_pos hN]
  · obtain ⟨h1, -, h3⟩ := hs.server.recorded k w G hG
    exact ⟨h1, h3⟩

/-- The reply to a push is lost, and the worker pulls the next version and pushes again for the
iteration that the other worker has completed in the meantime. -/
theorem versions_eq_iteration_two_workers :
    let es : List ClusterEvent := [.run 0 0, .run 1 0, .send 0, .send 1, .arrive 0 0,
      .arrive 0 1, .advance 0, .advance 0, .advance 1, .advance 1, .deliver 0, .deliver 0,
      .send 0, .arrive 0 0, .advance 0, .advance 0, .dropReply 0, .fail 0, .send 1, .arrive 0 1,
      .advance 1, .send 0, .arrive 0 0, .advance 0, .advance 0, .deliver 0, .send 0, .arrive 0 0,
      .advance 0]
    let s := (machine .insertion fun _ => id).final (initial 2 [word 10]) es
    s.service.ps.parameters = [word 9] ∧ (s.workers 0).version = 1 ∧
      ∀ w G, (s.service.ps.stateOf 0).workerGradients.find? w = some G →
        (s.versions 0 w : ℤ) = 0 := by
  intro es s
  refine ⟨by decide +kernel, by decide +kernel, fun w G hG => ?_⟩
  exact (((versions_eq_iteration (fun _ => id) .insertion (by decide) [word 10] es
    (by decide +kernel)).2.2 0).2.2 w G hG).1

end Cluster

end ParamServer
