import ParamServer.Cluster.Synchronous

/-! The order of the updates when every worker goes through the iterations in turn, whatever
`run_iteration` reports. The server checks no order, so an update can come without the one before
it, but only once every worker has given that iteration up. -/

namespace ParamServer

open Library Worker

variable {V : Type}

/-- The loop of `worker_main`. -/
def WorkerState.next (ws : WorkerState V) (iteration : Int32) : Bool :=
  match ws.stage with
  | some (.returned _) => decide (iteration.toInt = ws.iteration.toInt + 1)
  | _ => decide (iteration = 0)

def InTurn (ids : Finset Int32) (s : Cluster V) : ClusterEvent → Prop
  | .run w iteration => w ∈ ids ∧ (s.workers w).next iteration = true
  | _ => True

instance (ids : Finset Int32) (s : Cluster V) : (e : ClusterEvent) → Decidable (InTurn ids s e)
  | .run w iteration =>
    inferInstanceAs (Decidable (w ∈ ids ∧ (s.workers w).next iteration = true))
  | .send _ | .arrive _ _ | .advance _ | .dropRequest _ | .dropReply _ | .deliver _ | .fail _ =>
    isTrue trivial

/-- The worker's `run_iteration` has returned false for the iteration. -/
def WorkerState.GivesUp (ws : WorkerState V) (iteration : Int32) : Prop :=
  ws.iteration = iteration ∧ ws.stage = some (.returned false)

/-- The worker is done with the iteration before `k`, one way or the other. -/
def Passed (held : List (Int32 × List (Tensor V))) (gaveUp : Int32 → Int32 → Prop)
    (w k : Int32) : Prop :=
  ∀ j, 0 ≤ j.toInt → j.toInt + 1 = k.toInt → j ∈ held.map Prod.fst ∨ gaveUp w j

variable (ids : Finset Int32) (gaveUp : Int32 → Int32 → Prop)
  (held : List (Int32 × List (Tensor V))) (workers : Int32 → WorkerState V)

def Handler.InTurn (ticket : Ticket) : Handler V → Prop
  | .receiveGradients p =>
    (p.workerId ∈ ids ∧ Passed held gaveUp p.workerId p.iteration) ∧
      AnswerOk held workers ticket p.iteration false
  | .received iteration complete => AnswerOk held workers ticket iteration complete
  | .checkSyncStatus iteration => AnswerOk held workers ticket iteration false
  | _ => True

def Response.InTurn (ticket : Ticket) : Response V → Prop
  | .push r => AnswerOk held workers ticket r.iteration r.aggregationComplete
  | .syncStatus r => AnswerOk held workers ticket r.iteration r.ready
  | .parameters _ _ => True

structure WorkerState.InTurn (w : Int32) (ws : WorkerState V) : Prop where
  mem : ∀ stage, ws.stage = some stage → w ∈ ids
  passed : Passed held gaveUp w ws.iteration
  done : ws.stage = some (.returned true) → ws.iteration ∈ held.map Prod.fst

variable {ids gaveUp held workers}

section Growth

/-! More updates, and more iterations given up. -/

variable {gaveUp' : Int32 → Int32 → Prop} {held' : List (Int32 × List (Tensor V))}
  {ticket : Ticket} (hh : held.map Prod.fst ⊆ held'.map Prod.fst)
  (hg : ∀ w k, gaveUp w k → gaveUp' w k)
include hh

theorem AnswerOk.grow {iteration : Int32} {answer : Bool}
    (h : AnswerOk held workers ticket iteration answer) :
    AnswerOk held' workers ticket iteration answer :=
  ⟨fun ha => hh (h.aggregated ha), h.own⟩

theorem Response.InTurn.grow {r : Response V} (h : r.InTurn held workers ticket) :
    r.InTurn held' workers ticket := by
  cases r with
  | push => exact AnswerOk.grow hh h
  | syncStatus => exact AnswerOk.grow hh h
  | parameters => trivial

include hg

theorem Passed.grow {w k : Int32} (h : Passed held gaveUp w k) : Passed held' gaveUp' w k :=
  fun j h0 hj => (h j h0 hj).imp (fun hm => hh hm) (hg w j)

theorem Handler.InTurn.grow {h : Handler V} (hi : h.InTurn ids gaveUp held workers ticket) :
    h.InTurn ids gaveUp' held' workers ticket := by
  cases h with
  | receiveGradients p => exact ⟨⟨hi.1.1, hi.1.2.grow hh hg⟩, hi.2.grow hh⟩
  | received => exact AnswerOk.grow hh hi
  | checkSyncStatus => exact AnswerOk.grow hh hi
  | _ => trivial

theorem WorkerState.InTurn.grow {w : Int32} {ws : WorkerState V}
    (h : ws.InTurn ids gaveUp held w) : ws.InTurn ids gaveUp' held' w :=
  ⟨h.mem, h.passed.grow hh hg, fun hs => hh (h.done hs)⟩

end Growth

section Movement

variable {workers' : Int32 → WorkerState V} {ticket : Ticket} (hf : Follows workers workers')
  (hi : Issued workers ticket)
include hf hi

theorem Handler.InTurn.follow {h : Handler V} (hh : h.InTurn ids gaveUp held workers ticket) :
    h.InTurn ids gaveUp held workers' ticket := by
  cases h with
  | receiveGradients p => exact ⟨hh.1, hh.2.follow hf hi⟩
  | received => exact AnswerOk.follow hf hi hh
  | checkSyncStatus => exact AnswerOk.follow hf hi hh
  | _ => trivial

theorem Response.InTurn.follow {r : Response V} (h : r.InTurn held workers ticket) :
    r.InTurn held workers' ticket := by
  cases r with
  | push => exact AnswerOk.follow hf hi h
  | syncStatus => exact AnswerOk.follow hf hi h
  | parameters => trivial

end Movement

variable [Scalar V]

variable (ids gaveUp held) in
/-- The updates of the server: each one comes after the one before it, or after all workers have
given that one up. -/
structure Updates (base : List (Tensor V)) (ps : ParameterServerCore V) : Prop where
  card : ids.card ≤ quorum ps.totalWorkers
  flags : ∀ k, (ps.stateOf k).aggregated = true ↔ k ∈ held.map Prod.fst
  parameters : ps.parameters = applyMeans base held
  nodup : (held.map Prod.fst).Nodup
  recorded : ∀ k, ∀ w ∈ (ps.stateOf k).workerGradients.keySet, w ∈ ids ∧ Passed held gaveUp w k
  order : ∀ pre k post, held.map Prod.fst = pre ++ k :: post → ∀ j, 0 ≤ j.toInt →
    j.toInt + 1 = k.toInt → j ∈ pre ∨ ∀ w ∈ ids, gaveUp w j

variable (ids gaveUp) in
/-- The invariant. -/
structure Cluster.Ordered (base : List (Tensor V)) (s : Cluster V) : Prop where
  server : Updates ids gaveUp s.service.held base s.service.ps
  worker : ∀ w, (s.workers w).InTurn ids gaveUp s.service.held w
  request : ∀ m ∈ s.requests, Issued s.workers m.1 ∧
    m.2.handler.InTurn ids gaveUp s.service.held s.workers m.1
  thread : ∀ t, Issued s.workers (s.tickets t) ∧
    (s.service.handlers t).InTurn ids gaveUp s.service.held s.workers (s.tickets t)
  reply : ∀ m ∈ s.replies, Issued s.workers m.1 ∧
    m.2.InTurn s.service.held s.workers m.1

/-- What the loss of its next call does to a worker. -/
def WorkerState.lose (w : Int32) (ws : WorkerState V) : WorkerState V :=
  match ws.request w, ws.stage with
  | some _, some stage =>
    { ws with
      stage := some (stage.onFailure (aggregateGradientsMultiGpu .single))
      waiting := false
      calls := ws.calls + 1 }
  | _, _ => ws

theorem WorkerState.waiting_lose {w : Int32} {ws : WorkerState V} (h : ws.waiting = false) :
    (ws.lose w).waiting = false := by
  unfold WorkerState.lose
  split
  · rfl
  · exact h

section Step

variable {base : List (Tensor V)} {ps : ParameterServerCore V} {s : Cluster V}
  (ord : VisitOrder)

/-- A push of a worker that is done with the iteration before. -/
theorem Updates.receive (h : Updates ids gaveUp held base ps) {p : Push V}
    (hmem : p.workerId ∈ ids) (hp : Passed held gaveUp p.workerId p.iteration) :
    Updates ids gaveUp (held ++ ps.lineage ord [p]) base (ps.receive ord p).2 := by
  have hheld : held.map Prod.fst ⊆ (held ++ ps.lineage ord [p]).map Prod.fst := by
    rw [List.map_append]
    exact List.subset_append_left ..
  have hrecorded : ∀ k, ∀ w ∈ ((ps.receive ord p).2.stateOf k).workerGradients.keySet,
      w ∈ ids ∧ Passed held gaveUp w k := by
    intro k w hw
    rcases ps.mem_keySet_receive ord p hw with hw | ⟨rfl, rfl⟩
    · exact h.recorded k w hw
    · exact ⟨hmem, hp⟩
  have hflags := ParameterServerCore.aggregated_receive_iff_mem ord h.flags p
  refine ⟨?_, hflags, ParameterServerCore.receive_parameters_eq ord h.parameters p, ?_,
    fun k w hw => ⟨(hrecorded k w hw).1, (hrecorded k w hw).2.grow hheld fun _ _ hg => hg⟩, ?_⟩
  · rw [ParameterServerCore.receive_totalWorkers]
    exact h.card
  · rw [List.map_append, ps.updates_singleton ord]
    split
    · rename_i hc
      have hnew : p.iteration ∉ held.map Prod.fst := by
        rw [← h.flags, hc.1]
        simp
      rw [← List.concat_eq_append]
      exact h.nodup.concat hnew
    · rw [List.append_nil]
      exact h.nodup
  · intro pre k post he j h0 hj
    rw [List.map_append, ps.updates_singleton ord] at he
    split at he
    · rename_i hc
      rcases concat_eq_append_cons_iff.mp he with ⟨rfl, rfl, -⟩ | ⟨mid, -, he⟩
      · -- the recorded workers are all the workers there are
        have hstate := ps.stateOf_receive_self ord p
        rw [ps.stateOf_push, if_neg (by simp [hc.1])] at hstate
        have hall : (ps.recorded p).keySet = ids := by
          refine Finset.eq_of_subset_of_card_le (fun w hw => ?_) ?_
          · exact (hrecorded p.iteration w (by rwa [hstate])).1
          · rw [InsertionMap.card_keySet]
            exact h.card.trans hc.2
        by_cases hjm : j ∈ held.map Prod.fst
        · exact .inl hjm
        · refine .inr fun w hw => ?_
          have hpassed := (hrecorded p.iteration w (by rw [hstate]; exact hall ▸ hw)).2
          exact (hpassed j h0 hj).resolve_left hjm
      · exact h.order pre k mid he j h0 hj
    · rw [List.append_nil] at he
      exact h.order pre k post he j h0 hj

namespace Cluster

theorem Ordered.setWorker (h : Ordered ids gaveUp base s) {w : Int32} {ws : WorkerState V}
    (hok : ws.InTurn ids gaveUp s.service.held w) (hcalls : (s.workers w).calls ≤ ws.calls)
    (hwait : ws.waiting = true → (s.workers w).calls < ws.calls) :
    Ordered ids gaveUp base (s.setWorker w ws) := by
  have hf : Follows s.workers (Function.update s.workers w ws) := follows_update hcalls hwait
  refine ⟨h.server, fun v => ?_, fun m hm => ?_, fun t => ?_, fun m hm => ?_⟩
  · rw [workers_setWorker]
    split
    · rename_i hv
      exact hv ▸ hok
    · exact h.worker v
  · obtain ⟨hi, hh⟩ := h.request m hm
    exact ⟨(hf m.1 hi).1, hh.follow hf hi⟩
  · obtain ⟨hi, hh⟩ := h.thread t
    exact ⟨(hf _ hi).1, hh.follow hf hi⟩
  · obtain ⟨hi, hr⟩ := h.reply m hm
    exact ⟨(hf m.1 hi).1, hr.follow hf hi⟩

theorem Ordered.thread_update (h : Ordered ids gaveUp base s) {t : ℕ} {next : Handler V}
    (hn : next.InTurn ids gaveUp s.service.held s.workers (s.tickets t)) (t' : ℕ) :
    Issued s.workers (s.tickets t') ∧ (Function.update s.service.handlers t next t').InTurn
      ids gaveUp s.service.held s.workers (s.tickets t') :=
  thread_setHandler
    (P := fun ticket handler => Issued s.workers ticket ∧
      handler.InTurn ids gaveUp s.service.held s.workers ticket)
    h.thread ⟨(h.thread t).1, hn⟩ t'

/-- More iterations may have been given up. -/
theorem Ordered.grow {gaveUp' : Int32 → Int32 → Prop} (h : Ordered ids gaveUp base s)
    (hg : ∀ w k, gaveUp w k → gaveUp' w k) : Ordered ids gaveUp' base s := by
  have hh := List.Subset.refl (s.service.held.map Prod.fst)
  have hserver : Updates ids gaveUp' s.service.held base s.service.ps := by
    refine ⟨h.server.card, h.server.flags, h.server.parameters, h.server.nodup, ?_, ?_⟩
    · intro k w hw
      obtain ⟨hm, hp⟩ := h.server.recorded k w hw
      exact ⟨hm, hp.grow hh hg⟩
    · intro pre k post he j h0 hj
      rcases h.server.order pre k post he j h0 hj with hpre | hall
      · exact .inl hpre
      · exact .inr fun w hw => hg w j (hall w hw)
  refine ⟨hserver, fun w => (h.worker w).grow hh hg, fun m hm => ?_, fun t => ?_, h.reply⟩
  · obtain ⟨hi, hr⟩ := h.request m hm
    exact ⟨hi, hr.grow hh hg⟩
  · obtain ⟨hi, ht⟩ := h.thread t
    exact ⟨hi, ht.grow hh hg⟩

/-- A worker takes up the next iteration when it is done with its own. -/
theorem Ordered.run (h : Ordered ids gaveUp base s) {w k : Int32}
    (he : InTurn ids s (.run w k)) (hgave : ∀ w k, (s.workers w).GivesUp k → gaveUp w k)
    (hwait : (s.workers w).waiting = false)
    (hstage : (s.workers w).stage = none ∨ ∃ done, (s.workers w).stage = some (.returned done)) :
    Ordered ids gaveUp base
      (s.setWorker w { s.workers w with iteration := k, stage := some (.attempt 0) }) := by
  obtain ⟨hmem, hnext⟩ := he
  have hpassed : Passed s.service.held gaveUp w k := by
    intro j h0 hj
    rcases hstage with hnone | ⟨done, hdone⟩
    · have hk : k = 0 := by simpa [WorkerState.next, hnone] using hnext
      have hzero : (0 : Int32).toInt = 0 := rfl
      rw [hk] at hj
      omega
    · have hk : k.toInt = (s.workers w).iteration.toInt + 1 := by
        simpa [WorkerState.next, hdone] using hnext
      have hj' : j = (s.workers w).iteration := Int32.toInt_inj.mp (by omega)
      subst hj'
      cases done with
      | true => exact .inl ((h.worker w).done hdone)
      | false => exact .inr (hgave w _ ⟨rfl, hdone⟩)
  have hdone : some (RunIteration.attempt 0 : RunIteration V) ≠ some (.returned true) := by
    intro hs
    exact (RunIteration.neutral_attempt 0).ne_returned (Option.some.inj hs)
  exact h.setWorker ⟨fun _ _ => hmem, hpassed, fun hs => absurd hs hdone⟩ le_rfl (by simp [hwait])

theorem Ordered.send (h : Ordered ids gaveUp base s) {w : Int32} {request : Request V}
    (hrequest : (s.workers w).request w = some request) :
    Ordered ids gaveUp base
      { s.setWorker w { s.workers w with waiting := true, calls := (s.workers w).calls + 1 } with
        requests := s.requests ++
          [(⟨w, (s.workers w).calls + 1, (s.workers w).version⟩, request)] } := by
  have hw := h.worker w
  have hs : Ordered ids gaveUp base (s.setWorker w
      { s.workers w with waiting := true, calls := (s.workers w).calls + 1 }) :=
    h.setWorker ⟨hw.mem, hw.passed, hw.done⟩ (Nat.le_succ _) fun _ => Nat.lt_succ_self _
  refine ⟨hs.server, hs.worker, fun m hm => ?_, hs.thread, hs.reply⟩
  rcases List.mem_append.mp hm with hm | hm
  · exact hs.request m hm
  · rw [List.mem_singleton] at hm
    subst hm
    have hanswer := answerOk_of_send s w
    refine ⟨by simp [Issued, Cluster.setWorker], ?_⟩
    rcases WorkerState.request_cases hrequest with ⟨retryCount, -, rfl⟩ |
      ⟨retryCount, grads, hstage, rfl⟩ | ⟨rfl, -⟩
    · trivial
    · exact ⟨⟨hw.mem _ hstage, hw.passed⟩, hanswer⟩
    · exact hanswer

theorem Ordered.receive (h : Ordered ids gaveUp base s) {t : ℕ} {p : Push V}
    (hthread : s.service.handlers t = .receiveGradients p) :
    Ordered ids gaveUp base { s with
      service := {
        ps := (s.service.ps.receive ord p).2
        held := s.service.held ++ s.service.ps.lineage ord [p]
        handlers := Function.update s.service.handlers t
          (.received p.iteration (s.service.ps.receive ord p).1) }
      versions := recordVersion s.service.ps s.versions (s.tickets t) p } := by
  obtain ⟨hi, hp⟩ := h.thread t
  rw [hthread] at hp
  have hheld : s.service.held.map Prod.fst ⊆
      (s.service.held ++ s.service.ps.lineage ord [p]).map Prod.fst := by
    rw [List.map_append]
    exact List.subset_append_left ..
  have hg : ∀ w k, gaveUp w k → gaveUp w k := fun _ _ => id
  have hserver := h.server.receive ord hp.1.1 hp.1.2
  have hanswer : AnswerOk (s.service.held ++ s.service.ps.lineage ord [p]) s.workers (s.tickets t)
      p.iteration (s.service.ps.receive ord p).1 := by
    refine ⟨fun ha => ?_, hp.2.own⟩
    rw [ParameterServerCore.receive_fst] at ha
    exact (hserver.flags p.iteration).mp ha
  have hreceived : (Handler.received p.iteration (s.service.ps.receive ord p).1).InTurn ids gaveUp
      (s.service.held ++ s.service.ps.lineage ord [p]) s.workers (s.tickets t) := hanswer
  have hthreads := thread_setHandler
    (P := fun ticket handler => Issued s.workers ticket ∧ handler.InTurn ids gaveUp
      (s.service.held ++ s.service.ps.lineage ord [p]) s.workers ticket)
    (fun t' => ⟨(h.thread t').1, (h.thread t').2.grow hheld hg⟩) ⟨hi, hreceived⟩
  refine ⟨hserver, fun w => (h.worker w).grow hheld hg, fun m hm => ?_, hthreads, fun m hm => ?_⟩
  · obtain ⟨hm, hr⟩ := h.request m hm
    exact ⟨hm, hr.grow hheld hg⟩
  · obtain ⟨hm, hr⟩ := h.reply m hm
    exact ⟨hm, hr.grow hheld⟩

theorem Ordered.answer (h : Ordered ids gaveUp base s) {t : ℕ} {r : Response V}
    (hresponse : s.service.response t = some r) :
    Ordered ids gaveUp base { s with
      service := s.service.setHandler t .idle
      replies := s.replies ++ [(s.tickets t, r)] } := by
  obtain ⟨hi, hh⟩ := h.thread t
  have hr : r.InTurn s.service.held s.workers (s.tickets t) := by
    rcases s.service.response_cases hresponse with ⟨k, complete, ht, rfl⟩ |
      ⟨k, params, means, ht, rfl⟩ | ⟨k, ht, rfl⟩
    · rw [ht] at hh
      exact hh
    · trivial
    · rw [ht] at hh
      refine ⟨fun hready => ?_, hh.own⟩
      rw [ParameterServerCore.checkSyncStatus_eq] at hready
      exact (h.server.flags k).mp hready
  refine ⟨h.server, h.worker, h.request, h.thread_update trivial, fun m hm => ?_⟩
  rcases List.mem_append.mp hm with hm | hm
  · exact h.reply m hm
  · rw [List.mem_singleton.mp hm]
    exact ⟨hi, hr⟩

theorem Ordered.eraseReply (h : Ordered ids gaveUp base s) (i : ℕ) :
    Ordered ids gaveUp base { s with replies := s.replies.eraseIdx i } :=
  ⟨h.server, h.worker, h.request, h.thread, fun m hm => h.reply m (List.mem_of_mem_eraseIdx hm)⟩

theorem Ordered.deliver (multiGpu : Int32 → List (Tensor V) → List (Tensor V))
    (h : Ordered ids gaveUp base s) {i : ℕ} {ticket : Ticket} {response : Response V}
    (hreply : s.replies[i]? = some (ticket, response)) (hc : Current s.workers ticket)
    {stage stage' : RunIteration V} (hstage : (s.workers ticket.worker).stage = some stage)
    (hnext : stage.onResponse (multiGpu ticket.worker) response = some stage') :
    Ordered ids gaveUp base (Cluster.setWorker { s with replies := s.replies.eraseIdx i }
      ticket.worker { s.workers ticket.worker with
        stage := some stage'
        waiting := false
        version := response.version (s.workers ticket.worker).version }) := by
  have hw := h.worker ticket.worker
  obtain ⟨-, hr⟩ := h.reply _ (List.mem_of_getElem? hreply)
  have hdone : some stage' = some (.returned true) →
      (s.workers ticket.worker).iteration ∈ s.service.held.map Prod.fst := by
    intro hs
    rw [Option.some.inj hs] at hnext
    -- the answer is about the iteration that the worker runs
    rcases RunIteration.onResponse_returned hnext with ⟨r, rfl, ha⟩ | ⟨r, rfl, ha⟩
    · have hok : AnswerOk s.service.held s.workers ticket r.iteration r.aggregationComplete := hr
      rw [← hok.own hc]
      exact hok.aggregated ha
    · have hok : AnswerOk s.service.held s.workers ticket r.iteration r.ready := hr
      rw [← hok.own hc]
      exact hok.aggregated ha
  exact (h.eraseReply i).setWorker ⟨fun _ _ => hw.mem stage hstage, hw.passed, hdone⟩ le_rfl
    (by simp)

theorem Ordered.step (multiGpu : Int32 → List (Tensor V) → List (Tensor V))
    (h : Ordered ids gaveUp base s) {e : ClusterEvent} (he : InTurn ids s e)
    (hgave : ∀ w k, (s.workers w).GivesUp k → gaveUp w k) :
    Ordered ids gaveUp base (s.step ord multiGpu e) := by
  have hs := s.step_cases ord multiGpu e
  generalize s.step ord multiGpu e = s' at hs ⊢
  cases hs with
  | unchanged => exact h
  | run hwait hstage => exact h.run he hgave hwait hstage
  | send _ hrequest => exact h.send hrequest
  | arrive hrequest =>
    have hthread := thread_arrive
      (P := fun ticket handler => Issued s.workers ticket ∧
        handler.InTurn ids gaveUp s.service.held s.workers ticket)
      h.thread (h.request _ (List.mem_of_getElem? hrequest))
    exact ⟨h.server, h.worker, fun m hm => h.request m (List.mem_of_mem_eraseIdx hm), hthread _,
      h.reply⟩
  | receive hthread => exact h.receive ord hthread
  | serve => exact ⟨h.server, h.worker, h.request, h.thread_update trivial, h.reply⟩
  | answer hresponse => exact h.answer hresponse
  | dropRequest i =>
    exact ⟨h.server, h.worker, fun m hm => h.request m (List.mem_of_mem_eraseIdx hm), h.thread,
      h.reply⟩
  | dropReply i | ignore i => exact h.eraseReply i
  | deliver hreply hwait hcall hstage hnext =>
    exact h.deliver multiGpu hreply ⟨hwait, hcall⟩ hstage hnext
  | @fail w stage hwait hstage =>
    have hw := h.worker w
    have hdone : some (stage.onFailure (multiGpu w)) = some (.returned true) →
        (s.workers w).iteration ∈ s.service.held.map Prod.fst := by
      intro hs
      rw [RunIteration.onFailure_returned (Option.some.inj hs)] at hstage
      exact hw.done hstage
    exact h.setWorker ⟨fun _ _ => hw.mem stage hstage, hw.passed, hdone⟩ le_rfl (by simp)

end Cluster

end Step

namespace Cluster

variable (ord : VisitOrder)

/-- In the course of the run the worker has given the iteration up. -/
def GaveUp (s : Cluster V) (es : List ((Int32 → Devices V) × ClusterEvent)) (w k : Int32) :
    Prop :=
  ∃ pre, pre <+: es ∧ (((deviceMachine ord).final s pre).workers w).GivesUp k

theorem GaveUp.append {s : Cluster V} {es : List ((Int32 → Devices V) × ClusterEvent)}
    {w k : Int32} (h : GaveUp ord s es w k) (later : List ((Int32 → Devices V) × ClusterEvent)) :
    GaveUp ord s (es ++ later) w k := by
  obtain ⟨pre, hpre, hg⟩ := h
  exact ⟨pre, hpre.trans (List.prefix_append ..), hg⟩

theorem ordered_initial {N : Int32} (hN : 1 ≤ N.toInt) (base : List (Tensor V))
    {ids : Finset Int32} (hids : ids.card = N.toInt.toNat) (gaveUp : Int32 → Int32 → Prop) :
    Ordered ids gaveUp base (initial N base) := by
  have hempty : ∀ k, (((ParameterServerCore.new N).initializeParameters base).stateOf
      k) = .initial := fun _ => rfl
  refine ⟨⟨?_, fun k => ?_, rfl, List.nodup_nil, fun k w hw => ?_, fun pre k post he => ?_⟩,
    fun w => ⟨nofun, fun j h0 hj => ?_, nofun⟩, nofun, fun t => ⟨Nat.le_refl 0, trivial⟩, nofun⟩
  · change ids.card ≤ quorum N
    rw [quorum_of_pos hN, hids]
  · simp [initial, ParameterServerService.start, hempty]
  · simp [initial, ParameterServerService.start, hempty, InsertionMap.keySet] at hw
  · simp [initial, ParameterServerService.start] at he
  · have hzero : j.toInt + 1 = 0 := hj
    omega

/-- `N` workers go through the iterations in turn, with any failures on the way. The server
applies each iteration at most once, and an iteration comes after the one before it unless all
of the workers have given that one up. -/
theorem updates_in_turn {N : Int32} (hN : 1 ≤ N.toInt) (base : List (Tensor V))
    {ids : Finset Int32} (hids : ids.card = N.toInt.toNat)
    (es : List ((Int32 → Devices V) × ClusterEvent))
    (hes : (deviceMachine ord).Meets (fun s e => InTurn ids s e.2) (initial N base) es) :
    let s := (deviceMachine ord).final (initial N base) es
    s.service.ps.parameters = applyMeans base s.service.held ∧
    (∀ k, (s.service.ps.stateOf k).aggregated = true ↔ k ∈ s.service.held.map Prod.fst) ∧
    (s.service.held.map Prod.fst).Nodup ∧
    ∀ pre k post, s.service.held.map Prod.fst = pre ++ k :: post → ∀ j, 0 ≤ j.toInt →
      j.toInt + 1 = k.toInt → j ∈ pre ∨ ∀ w ∈ ids, GaveUp ord (initial N base) es w j := by
  have hs : Ordered ids (GaveUp ord (initial N base) es) base
      ((deviceMachine ord).final (initial N base) es) := by
    refine Machine.invariant_history
      (I := fun es s => Ordered ids (GaveUp ord (initial N base) es) base s) _
      (ordered_initial hN base hids _) (fun es e h he => ?_) hes
    rw [Machine.final_append]
    have hstep := h.step ord (fun w => aggregateGradientsMultiGpu (e.1 w)) he
      fun w k hg => ⟨es, List.prefix_rfl, hg⟩
    exact hstep.grow fun w k hg => hg.append ord [e]
  exact ⟨hs.server.parameters, hs.server.flags, hs.server.nodup, hs.server.order⟩

theorem updates_in_turn_one_worker :
    let es : List ((Int32 → Devices UInt32) × ClusterEvent) :=
      ([.run 0 0, .send 0, .arrive 0 0, .advance 0, .advance 0, .deliver 0, .send 0, .arrive 0 0,
        .advance 0, .advance 0, .deliver 0, .run 0 1, .send 0, .fail 0, .send 0, .arrive 1 0,
        .advance 0, .advance 0, .deliver 0, .send 0, .arrive 1 0, .advance 0] :
          List ClusterEvent).map fun e => (fun _ => .single, e)
    let s := (deviceMachine .insertion).final (initial 1 [word 10]) es
    (s.service.ps.stateOf 1).aggregated = true ∧
      ∀ pre post, s.service.held.map Prod.fst = pre ++ 1 :: post →
        0 ∈ pre ∨ ∀ w ∈ ({0} : Finset Int32), GaveUp .insertion (initial 1 [word 10]) es w 0 := by
  intro es s
  refine ⟨by decide +kernel, fun pre post h => ?_⟩
  exact (updates_in_turn .insertion (by decide) [word 10] (by decide) es
    (by decide +kernel)).2.2.2 pre 1 post h 0 (by decide) (by decide)

section Lost

/-! A worker whose calls are all lost. -/

/-- The next call of the worker and its failure. -/
def lostCall (w : Int32) : List ((Int32 → Devices V) × ClusterEvent) :=
  [(fun _ => .single, .send w), (fun _ => .single, .dropRequest 0), (fun _ => .single, .fail w)]

theorem final_lostCall {s : Cluster V} {w : Int32} (hr : s.requests = [])
    (hw : (s.workers w).waiting = false) :
    (deviceMachine ord).final s (lostCall w) = s.setWorker w ((s.workers w).lose w) := by
  obtain ⟨service, tickets, workers, requests, replies, versions⟩ := s
  dsimp only at hr hw
  subst hr
  rcases hq : (workers w).request w with _ | request
  · simp [Machine.final, deviceMachine, lostCall, step, hw, hq, WorkerState.lose, setWorker]
  · obtain ⟨stage, hstage⟩ : ∃ stage, (workers w).stage = some stage := by
      rcases WorkerState.request_cases hq with ⟨_, h, -⟩ | ⟨_, _, h, -⟩ | ⟨-, h⟩
      · exact ⟨_, h⟩
      · exact ⟨_, h⟩
      · exact h
    simp [Machine.final, deviceMachine, lostCall, step, hw, hq, hstage, WorkerState.lose, setWorker]

theorem final_lostCalls {s : Cluster V} {w : Int32} (hr : s.requests = [])
    (hw : (s.workers w).waiting = false) (n : ℕ) :
    (deviceMachine ord).final s (List.replicate n (lostCall w)).flatten =
      s.setWorker w ((WorkerState.lose w)^[n] (s.workers w)) := by
  induction n generalizing s with
  | zero => exact (s.setWorker_self w).symm
  | succ n ih =>
    rw [List.replicate_succ, List.flatten_cons, Machine.final_append, final_lostCall ord hr hw,
      ih, setWorker_setWorker, Function.iterate_succ_apply, workers_setWorker, if_pos rfl]
    · exact hr
    · rw [workers_setWorker, if_pos rfl]
      exact WorkerState.waiting_lose hw

/-- An iteration whose calls are all lost, before whatever comes later. -/
def lostIteration (w k : Int32) (n : ℕ) (later : List ((Int32 → Devices V) × ClusterEvent)) :
    List ((Int32 → Devices V) × ClusterEvent) :=
  (fun _ => .single, .run w k) :: ((List.replicate n (lostCall w)).flatten ++ later)

variable {s : Cluster V} {w : Int32} (hr : s.requests = []) (hw : (s.workers w).waiting = false)
  (hstage : (s.workers w).stage = none) (k : Int32) (n : ℕ)
  (later : List ((Int32 → Devices V) × ClusterEvent))
include hr hw hstage

omit hr in
theorem step_lostIteration :
    ((deviceMachine ord).step s (fun _ => .single, .run w k)).2 =
      s.setWorker w { s.workers w with iteration := k, stage := some (.attempt 0) } := by
  simp [deviceMachine, step, hw, hstage]

theorem final_lostIteration :
    (deviceMachine ord).final s (lostIteration w k n later) =
      (deviceMachine ord).final (s.setWorker w ((WorkerState.lose w)^[n]
        { s.workers w with iteration := k, stage := some (.attempt 0) })) later := by
  rw [lostIteration, Machine.final, step_lostIteration ord hw hstage, Machine.final_append,
    final_lostCalls ord (s := s.setWorker w _) hr (by rwa [workers_setWorker, if_pos rfl]),
    setWorker_setWorker, workers_setWorker, if_pos rfl]

theorem meets_lostIteration {ids : Finset Int32} (hturn : InTurn ids s (.run w k))
    (hlater : (deviceMachine ord).Meets (fun s e => InTurn ids s e.2) (s.setWorker w
      ((WorkerState.lose w)^[n] { s.workers w with iteration := k, stage := some (.attempt 0) }))
      later) :
    (deviceMachine ord).Meets (fun s e => InTurn ids s e.2) s (lostIteration w k n later) := by
  refine ⟨hturn, (Machine.meets_append _).mpr ⟨?_, ?_⟩⟩
  · refine Machine.meets_of_forall _ (fun e he t => ?_) _
    obtain ⟨call, hcall, he⟩ := List.mem_flatten.mp he
    rw [List.eq_of_mem_replicate hcall] at he
    rcases he with _ | ⟨_, _ | ⟨_, _ | ⟨_, ⟨⟩⟩⟩⟩ <;> trivial
  · rwa [step_lostIteration ord hw hstage,
      final_lostCalls ord (s := s.setWorker w _) hr (by rwa [workers_setWorker, if_pos rfl]),
      setWorker_setWorker, workers_setWorker, if_pos rfl]

end Lost

/-- All calls of the only worker are lost, in all attempts and polls for iteration 0. It goes on
with iteration 1, which is applied. -/
theorem update_without_predecessor :
    let tail : List ClusterEvent := [.run 0 1, .send 0, .arrive 0 0, .advance 0, .advance 0,
      .deliver 0, .send 0, .arrive 0 0, .advance 0]
    let es := lostIteration 0 0 214 (tail.map fun e => (fun _ => .single, e))
    let s := (deviceMachine (V := UInt32) .insertion).final (initial 1 [word 10]) es
    (deviceMachine (V := UInt32) .insertion).Meets (fun s e => InTurn {0} s e.2)
        (initial 1 [word 10]) es ∧
      (s.service.ps.stateOf 1).aggregated = true ∧ (s.service.ps.stateOf 0).aggregated = false := by
  intro tail es s
  refine ⟨meets_lostIteration .insertion rfl rfl rfl 0 214 _ (by decide) (by decide +kernel), ?_⟩
  dsimp only [s, es]
  rw [final_lostIteration .insertion rfl rfl rfl]
  decide +kernel

end Cluster

end ParamServer
