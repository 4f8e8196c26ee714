import ParamServer.Service.Handlers
import ParamServer.Worker.MultiGpu

/-! Workers that run `run_iteration` against one server. Every RPC is a numbered call: its
request travels to a thread of the server, the handler runs there one core call at a time, and
the response travels back. Requests and responses may be delayed for any time or lost, and a
worker may see any of its calls fail while the request or the response is still under way. -/

namespace ParamServer

open Library Worker

variable {V : Type}

/-- Which call of which worker a message belongs to. `version` tells how many iterations were
aggregated in the parameters that the worker has pulled last. -/
structure Ticket where
  worker : Int32
  call : ℕ
  version : ℕ

/-- A worker process. `stage` is `none` before its first `run_iteration`, `waiting` tells
whether the RPC of the stage is under way, `calls` numbers the RPCs. -/
structure WorkerState (V : Type) where
  iteration : Int32
  stage : Option (RunIteration V)
  waiting : Bool
  calls : ℕ
  version : ℕ

/-- The system. `tickets` are the calls that the threads of the server work on; `versions`
tells for each recorded gradient, by iteration and worker, from which version it was computed. -/
structure Cluster (V : Type) where
  service : ParameterServerService V
  tickets : ℕ → Ticket
  workers : Int32 → WorkerState V
  requests : List (Ticket × Request V)
  replies : List (Ticket × Response V)
  versions : Int32 → Int32 → ℕ

inductive ClusterEvent
  | run (worker iteration : Int32)
  | send (worker : Int32)
  /-- A request reaches an idle thread of the server. -/
  | arrive (request thread : ℕ)
  | advance (thread : ℕ)
  | dropRequest (request : ℕ)
  | dropReply (reply : ℕ)
  /-- A response reaches its worker, which ignores it if it has given up the call. -/
  | deliver (reply : ℕ)
  /-- The RPC of a worker ends with a status that is not OK. -/
  | fail (worker : Int32)

/-- The versions of the recorded gradients after a push, which is recorded unless its iteration
is aggregated. -/
def recordVersion (ps : ParameterServerCore V) (versions : Int32 → Int32 → ℕ) (ticket : Ticket)
    (p : Push V) : Int32 → Int32 → ℕ :=
  if (ps.stateOf p.iteration).aggregated then versions
  else fun k w => if k = p.iteration ∧ w = p.workerId then ticket.version else versions k w

def WorkerState.request (worker : Int32) (ws : WorkerState V) : Option (Request V) :=
  match ws.stage with
  | some (.pull _) => some (.pull worker ws.iteration)
  | some (.push _ grads) => some (.gradientUpdate ⟨worker, ws.iteration, grads⟩)
  | some (.poll _ _) | some (.recheck _ _) => some (.syncStatus ws.iteration)
  | some (.returned _) | none => none

/-- The requests of a worker are about the iteration that it runs. -/
theorem WorkerState.request_cases {w : Int32} {ws : WorkerState V} {request : Request V}
    (h : ws.request w = some request) :
    (∃ retryCount, ws.stage = some (.pull retryCount) ∧ request = .pull w ws.iteration) ∨
      (∃ retryCount grads, ws.stage = some (.push retryCount grads) ∧
        request = .gradientUpdate ⟨w, ws.iteration, grads⟩) ∨
      (request = .syncStatus ws.iteration ∧ ∃ stage, ws.stage = some stage) := by
  unfold WorkerState.request at h
  split at h
  · rename_i retryCount hstage
    exact .inl ⟨retryCount, hstage, (Option.some.inj h).symm⟩
  · rename_i retryCount grads hstage
    exact .inr (.inl ⟨retryCount, grads, hstage, (Option.some.inj h).symm⟩)
  · rename_i hstage
    exact .inr (.inr ⟨(Option.some.inj h).symm, _, hstage⟩)
  · rename_i hstage
    exact .inr (.inr ⟨(Option.some.inj h).symm, _, hstage⟩)
  · cases h
  · cases h

section Continue

variable [Scalar V] (multiGpu : List (Tensor V) → List (Tensor V))

def RunIteration.onResponse : RunIteration V → Response V → Option (RunIteration V)
  | .pull retryCount, .parameters r _ => some (afterPull multiGpu retryCount r.parameters)
  | .push retryCount _, .push r => some (afterPush retryCount r.aggregationComplete)
  | .poll retryCount pollCount, .syncStatus r => some (afterPoll retryCount pollCount r.ready)
  | .recheck retryCount pollCount, .syncStatus _ => some (polling retryCount pollCount)
  | _, _ => none

def RunIteration.onFailure : RunIteration V → RunIteration V
  | .pull retryCount => afterPull multiGpu retryCount []
  | .push retryCount _ => afterPush retryCount false
  | .poll retryCount pollCount => afterPoll retryCount pollCount false
  | .recheck retryCount pollCount => polling retryCount pollCount
  | .returned done => .returned done

variable {multiGpu}

/-- Success is what a positive answer leads to, and nothing else. -/
theorem RunIteration.onResponse_returned {stage : RunIteration V} {response : Response V}
    (h : stage.onResponse multiGpu response = some (.returned true)) :
    (∃ r, response = .push r ∧ r.aggregationComplete = true) ∨
      ∃ r, response = .syncStatus r ∧ r.ready = true := by
  unfold RunIteration.onResponse at h
  split at h
  · exact absurd (Option.some.inj h) (afterPull_ne_returned multiGpu _ _)
  · rename_i retryCount grads r
    exact .inl ⟨r, rfl, (afterPush_returned_iff _ _).mp (Option.some.inj h)⟩
  · rename_i retryCount pollCount r
    exact .inr ⟨r, rfl, (afterPoll_returned_iff _ _ _).mp (Option.some.inj h)⟩
  · exact absurd (Option.some.inj h) (neutral_polling _ _).ne_returned
  · cases h

theorem RunIteration.onFailure_returned {stage : RunIteration V}
    (h : stage.onFailure multiGpu = .returned true) : stage = .returned true := by
  cases stage with
  | pull retryCount => exact absurd h (afterPull_ne_returned multiGpu retryCount [])
  | push retryCount grads => cases (afterPush_returned_iff _ _).mp h
  | poll retryCount pollCount => cases (afterPoll_returned_iff _ _ _).mp h
  | recheck retryCount pollCount => exact absurd h (neutral_polling _ _).ne_returned
  | returned done => exact h

def Response.version (version : ℕ) : Response V → ℕ
  | .parameters _ held => held.length
  | _ => version

end Continue

namespace Cluster

def setWorker (s : Cluster V) (worker : Int32) (ws : WorkerState V) : Cluster V :=
  { s with workers := Function.update s.workers worker ws }

theorem workers_setWorker (s : Cluster V) (w v : Int32) (ws : WorkerState V) :
    (s.setWorker w ws).workers v = if v = w then ws else s.workers v := Function.update_apply ..

theorem setWorker_setWorker (s : Cluster V) (w : Int32) (ws ws' : WorkerState V) :
    (s.setWorker w ws).setWorker w ws' = s.setWorker w ws' := by
  simp [setWorker]

theorem setWorker_self (s : Cluster V) (w : Int32) : s.setWorker w (s.workers w) = s := by
  simp [setWorker]

section Threads

/-! What holds of every thread and its call, when one thread goes on. -/

variable {P : Ticket → Handler V → Prop} {s : Cluster V}
  (h : ∀ t, P (s.tickets t) (s.service.handlers t))
include h

theorem thread_setHandler {t : ℕ} {next : Handler V} (hn : P (s.tickets t) next) (t' : ℕ) :
    P (s.tickets t') (Function.update s.service.handlers t next t') := by
  by_cases htt : t' = t
  · subst htt
    rwa [Function.update_self]
  · rw [Function.update_of_ne htt]
    exact h t'

theorem thread_arrive {ticket : Ticket} {next : Handler V} (hn : P ticket next) (t t' : ℕ) :
    P (Function.update s.tickets t ticket t') (Function.update s.service.handlers t next t') := by
  by_cases htt : t' = t
  · subst htt
    rwa [Function.update_self, Function.update_self]
  · rw [Function.update_of_ne htt, Function.update_of_ne htt]
    exact h t'

end Threads

def nextVersions (s : Cluster V) (thread : ℕ) : Int32 → Int32 → ℕ :=
  match s.service.handlers thread with
  | .receiveGradients p => recordVersion s.service.ps s.versions (s.tickets thread) p
  | _ => s.versions

def initial (totalWorkers : Int32) (params : List (Tensor V)) : Cluster V where
  service := .start ((ParameterServerCore.new totalWorkers).initializeParameters params) []
  tickets _ := ⟨0, 0, 0⟩
  workers _ := ⟨0, none, false, 0, 0⟩
  requests := []
  replies := []
  versions _ _ := 0

variable [Scalar V] (ord : VisitOrder) (multiGpu : Int32 → List (Tensor V) → List (Tensor V))

/-- One event; one that cannot happen changes nothing. -/
def step (s : Cluster V) : ClusterEvent → Cluster V
  | .run worker iteration =>
    let ws := s.workers worker
    let start := s.setWorker worker { ws with iteration := iteration, stage := some (.attempt 0) }
    match ws.waiting, ws.stage with
    | false, none => start
    | false, some (.returned _) => start
    | _, _ => s
  | .send worker =>
    let ws := s.workers worker
    match ws.waiting, ws.request worker with
    | false, some request =>
      { s.setWorker worker { ws with waiting := true, calls := ws.calls + 1 } with
        requests := s.requests ++ [(⟨worker, ws.calls + 1, ws.version⟩, request)] }
    | _, _ => s
  | .arrive request thread =>
    match s.requests[request]?, s.service.handlers thread with
    | some (ticket, r), .idle =>
      { s with
        service := s.service.setHandler thread r.handler
        tickets := Function.update s.tickets thread ticket
        requests := s.requests.eraseIdx request }
    | _, _ => s
  | .advance thread =>
    let (response, service) := s.service.advance ord thread
    { s with
      service := service
      replies := s.replies ++ (response.map fun r => (s.tickets thread, r)).toList
      versions := s.nextVersions thread }
  | .dropRequest request => { s with requests := s.requests.eraseIdx request }
  | .dropReply reply => { s with replies := s.replies.eraseIdx reply }
  | .deliver reply =>
    match s.replies[reply]? with
    | none => s
    | some (ticket, response) =>
      let s := { s with replies := s.replies.eraseIdx reply }
      let ws := s.workers ticket.worker
      -- a response to a call that the worker has given up is lost
      if ws.waiting ∧ ws.calls = ticket.call then
        match ws.stage.bind (·.onResponse (multiGpu ticket.worker) response) with
        | none => s
        | some stage => s.setWorker ticket.worker
            { ws with
              stage := some stage, waiting := false, version := response.version ws.version }
      else s
  | .fail worker =>
    let ws := s.workers worker
    match ws.waiting, ws.stage with
    | true, some stage =>
      s.setWorker worker
        { ws with stage := some (stage.onFailure (multiGpu worker)), waiting := false }
    | _, _ => s

def machine : Machine (Cluster V) ClusterEvent Unit where
  step s e := ((), s.step ord multiGpu e)

/-- The system before anything happens, around a server that holds parameters already. -/
def started (ps : ParameterServerCore V) : Cluster V :=
  { initial ps.totalWorkers [] with service := .start ps [] }

/-- The system with the devices of the workers, which may behave differently at every event. -/
def deviceMachine : Machine (Cluster V) ((Int32 → Devices V) × ClusterEvent) Unit where
  step s e := ((), s.step ord (fun w => aggregateGradientsMultiGpu (e.1 w)) e.2)

/-- What an event can do, with all that is known when it does. -/
inductive StepCases (s : Cluster V) : ClusterEvent → Cluster V → Prop
  | unchanged (e) : StepCases s e s
  | run {w k} (hwait : (s.workers w).waiting = false)
      (hstage : (s.workers w).stage = none ∨ ∃ done, (s.workers w).stage = some (.returned done)) :
      StepCases s (.run w k)
        (s.setWorker w { s.workers w with iteration := k, stage := some (.attempt 0) })
  | send {w request} (hwait : (s.workers w).waiting = false)
      (hrequest : (s.workers w).request w = some request) :
      StepCases s (.send w)
        { s.setWorker w { s.workers w with waiting := true, calls := (s.workers w).calls + 1 } with
          requests := s.requests ++
            [(⟨w, (s.workers w).calls + 1, (s.workers w).version⟩, request)] }
  | arrive {i t ticket request} (hrequest : s.requests[i]? = some (ticket, request)) :
      StepCases s (.arrive i t)
        { s with
          service := s.service.setHandler t request.handler
          tickets := Function.update s.tickets t ticket
          requests := s.requests.eraseIdx i }
  | receive {t p} (hthread : s.service.handlers t = .receiveGradients p) :
      StepCases s (.advance t)
        { s with
          service := {
            ps := (s.service.ps.receive ord p).2
            held := s.service.held ++ s.service.ps.lineage ord [p]
            handlers := Function.update s.service.handlers t
              (.received p.iteration (s.service.ps.receive ord p).1) }
          versions := recordVersion s.service.ps s.versions (s.tickets t) p }
  | serve {t k} (hthread : s.service.handlers t = .serveParameters k) :
      StepCases s (.advance t)
        { s with
          service := s.service.setHandler t
            (.served k (s.service.ps.serveParameters k) s.service.held) }
  | answer {t r} (hresponse : s.service.response t = some r) :
      StepCases s (.advance t)
        { s with
          service := s.service.setHandler t .idle
          replies := s.replies ++ [(s.tickets t, r)] }
  | dropRequest (i) : StepCases s (.dropRequest i) { s with requests := s.requests.eraseIdx i }
  | dropReply (i) : StepCases s (.dropReply i) { s with replies := s.replies.eraseIdx i }
  | ignore (i) : StepCases s (.deliver i) { s with replies := s.replies.eraseIdx i }
  | deliver {i ticket response stage stage'} (hreply : s.replies[i]? = some (ticket, response))
      (hwait : (s.workers ticket.worker).waiting = true)
      (hcall : (s.workers ticket.worker).calls = ticket.call)
      (hstage : (s.workers ticket.worker).stage = some stage)
      (hnext : stage.onResponse (multiGpu ticket.worker) response = some stage') :
      StepCases s (.deliver i)
        (setWorker { s with replies := s.replies.eraseIdx i } ticket.worker
          { s.workers ticket.worker with
            stage := some stage'
            waiting := false
            version := response.version (s.workers ticket.worker).version })
  | fail {w stage} (hwait : (s.workers w).waiting = true)
      (hstage : (s.workers w).stage = some stage) :
      StepCases s (.fail w)
        (s.setWorker w
          { s.workers w with stage := some (stage.onFailure (multiGpu w)), waiting := false })

theorem step_cases (s : Cluster V) (e : ClusterEvent) :
    StepCases ord multiGpu s e (s.step ord multiGpu e) := by
  cases e with
  | run w k =>
    dsimp only [step]
    split
    · rename_i hwait hstage
      exact .run hwait (.inl hstage)
    · rename_i hwait hstage
      exact .run hwait (.inr ⟨_, hstage⟩)
    · exact .unchanged _
  | send w =>
    dsimp only [step]
    split
    · rename_i hwait hrequest
      exact .send hwait hrequest
    · exact .unchanged _
  | arrive i t =>
    dsimp only [step]
    split
    · rename_i hrequest _
      exact .arrive hrequest
    · exact .unchanged _
  | advance t =>
    rcases ht : s.service.handlers t with _ | p | ⟨k, complete⟩ | k | ⟨k, params, means⟩ | k
    · have h : StepCases ord multiGpu s (.advance t) s := .unchanged _
      simpa [step, ParameterServerService.advance, nextVersions, ht] using h
    · have h := @StepCases.receive V _ ord multiGpu s t p ht
      simpa [step, ParameterServerService.advance, nextVersions, ht] using h
    · have h := @StepCases.answer V _ ord multiGpu s t _ (s.service.response_received ht)
      simpa [step, ParameterServerService.advance, nextVersions, ht] using h
    · have h := @StepCases.serve V _ ord multiGpu s t k ht
      simpa [step, ParameterServerService.advance, nextVersions, ht] using h
    · have h := @StepCases.answer V _ ord multiGpu s t _ (s.service.response_served ht)
      simpa [step, ParameterServerService.advance, nextVersions, ht] using h
    · have h := @StepCases.answer V _ ord multiGpu s t _ (s.service.response_checkSyncStatus ht)
      simpa [step, ParameterServerService.advance, nextVersions, ht] using h
  | dropRequest i => exact .dropRequest i
  | dropReply i => exact .dropReply i
  | deliver i =>
    dsimp only [step]
    split
    · exact .unchanged _
    · rename_i ticket response hreply
      split
      · rename_i hc
        split
        · exact .ignore i
        · rename_i stage' hstage'
          obtain ⟨stage, hstage, hnext⟩ := Option.bind_eq_some_iff.mp hstage'
          exact .deliver hreply hc.1 hc.2 hstage hnext
      · exact .ignore i
  | fail w =>
    dsimp only [step]
    split
    · rename_i hwait hstage
      exact .fail hwait hstage
    · exact .unchanged _

/-- The only event that reaches into the server is a push. -/
theorem step_ps (s : Cluster V) (e : ClusterEvent) :
    (s.step ord multiGpu e).service.ps = s.service.ps ∨
      ∃ p, (s.step ord multiGpu e).service.ps = (s.service.ps.receive ord p).2 := by
  have hs := s.step_cases ord multiGpu e
  generalize s.step ord multiGpu e = s' at hs ⊢
  cases hs with
  | @receive t p hthread => exact .inr ⟨p, rfl⟩
  | _ => exact .inl rfl

end Cluster

end ParamServer
