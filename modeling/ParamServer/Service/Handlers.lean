import Mathlib.Logic.Function.Basic
import ParamServer.Library.Machine
import ParamServer.Server.History

/-! The handlers of `parameter_server_service_impl` as sequences of core calls. Each core call
is one step, and the handlers of any number of threads interleave. -/

namespace ParamServer

open Library

variable {V : Type}

/-- `GradientUpdate`, `PullRequest` and `SyncStatusRequest`. -/
inductive Request (V : Type)
  | gradientUpdate (p : Push V)
  | pull (workerId iteration : Int32)
  | syncStatus (iteration : Int32)

structure PushResponse where
  success : Bool
  message : String
  iteration : Int32
  aggregationComplete : Bool
  workersReceived : Int32
  totalWorkers : Int32
deriving DecidableEq

structure ParameterUpdate (V : Type) where
  iteration : Int32
  parameters : List (Tensor V)
  ready : Bool
deriving DecidableEq

structure SyncStatusResponse where
  iteration : Int32
  ready : Bool
  workersReceived : Int32
  totalWorkers : Int32
deriving DecidableEq

/-- A response; a parameter update also tells which means its parameters hold. -/
inductive Response (V : Type)
  | push (r : PushResponse)
  | parameters (r : ParameterUpdate V) (held : List (Int32 × List (Tensor V)))
  | syncStatus (r : SyncStatusResponse)
deriving DecidableEq

/-- Where a thread stands between core calls, with the local variables of its handler.
`served` keeps the means that its parameters hold. -/
inductive Handler (V : Type)
  | idle
  | receiveGradients (p : Push V)
  | received (iteration : Int32) (complete : Bool)
  | serveParameters (iteration : Int32)
  | served (iteration : Int32) (params : List (Tensor V)) (held : List (Int32 × List (Tensor V)))
  | checkSyncStatus (iteration : Int32)

def Request.handler : Request V → Handler V
  | gradientUpdate p => .receiveGradients p
  | pull _ iteration => .serveParameters iteration
  | syncStatus iteration => .checkSyncStatus iteration

theorem Request.handler_ne_received (request : Request V) (iteration : Int32) (complete : Bool) :
    request.handler ≠ .received iteration complete := by
  cases request <;> exact nofun

theorem Request.handler_ne_served (request : Request V) (iteration : Int32)
    (params : List (Tensor V)) (held : List (Int32 × List (Tensor V))) :
    request.handler ≠ .served iteration params held := by
  cases request <;> exact nofun

/-- The server with its threads. `held` are the means applied to the parameters so far. -/
structure ParameterServerService (V : Type) where
  ps : ParameterServerCore V
  held : List (Int32 × List (Tensor V))
  handlers : ℕ → Handler V

/-- A request arrives at an idle thread, or a thread makes its next core call. -/
inductive Action (V : Type)
  | call (thread : ℕ) (request : Request V)
  | advance (thread : ℕ)

namespace ParameterServerService

def setHandler (s : ParameterServerService V) (thread : ℕ) (h : Handler V) :
    ParameterServerService V := { s with handlers := Function.update s.handlers thread h }

theorem handlers_setHandler (s : ParameterServerService V) (i j : ℕ) (h : Handler V) :
    (s.setHandler i h).handlers j = if j = i then h else s.handlers j :=
  Function.update_apply ..

def start (ps : ParameterServerCore V) (held : List (Int32 × List (Tensor V))) :
    ParameterServerService V := ⟨ps, held, fun _ => .idle⟩

/-- The response that the next core call of a thread leads to. -/
def response (s : ParameterServerService V) (thread : ℕ) : Option (Response V) :=
  match s.handlers thread with
  | .received iteration complete =>
    some (.push ⟨true, "gradients received", iteration, complete,
      (s.ps.checkSyncStatus iteration).2, s.ps.getTotalWorkers⟩)
  | .served iteration params held =>
    some (.parameters ⟨iteration, params, (s.ps.checkSyncStatus iteration).1⟩ held)
  | .checkSyncStatus iteration =>
    some (.syncStatus ⟨iteration, (s.ps.checkSyncStatus iteration).1,
      (s.ps.checkSyncStatus iteration).2, s.ps.getTotalWorkers⟩)
  | _ => none

section Response

variable (s : ParameterServerService V) {thread : ℕ}

theorem response_received {iteration : Int32} {complete : Bool}
    (h : s.handlers thread = .received iteration complete) :
    s.response thread = some (.push ⟨true, "gradients received", iteration, complete,
      (s.ps.checkSyncStatus iteration).2, s.ps.getTotalWorkers⟩) := by simp [response, h]

theorem response_served {iteration : Int32} {params : List (Tensor V)}
    {held : List (Int32 × List (Tensor V))}
    (h : s.handlers thread = .served iteration params held) :
    s.response thread = some (.parameters
      ⟨iteration, params, (s.ps.checkSyncStatus iteration).1⟩ held) := by simp [response, h]

theorem response_checkSyncStatus {iteration : Int32}
    (h : s.handlers thread = .checkSyncStatus iteration) :
    s.response thread = some (.syncStatus ⟨iteration, (s.ps.checkSyncStatus iteration).1,
      (s.ps.checkSyncStatus iteration).2, s.ps.getTotalWorkers⟩) := by simp [response, h]

theorem response_cases {r : Response V} (h : s.response thread = some r) :
    (∃ iteration complete, s.handlers thread = .received iteration complete ∧
      r = .push ⟨true, "gradients received", iteration, complete,
        (s.ps.checkSyncStatus iteration).2, s.ps.getTotalWorkers⟩) ∨
    (∃ iteration params held, s.handlers thread = .served iteration params held ∧
      r = .parameters ⟨iteration, params, (s.ps.checkSyncStatus iteration).1⟩ held) ∨
    (∃ iteration, s.handlers thread = .checkSyncStatus iteration ∧
      r = .syncStatus ⟨iteration, (s.ps.checkSyncStatus iteration).1,
        (s.ps.checkSyncStatus iteration).2, s.ps.getTotalWorkers⟩) := by
  unfold response at h
  split at h
  · rename_i iteration complete ht
    exact .inl ⟨iteration, complete, ht, (Option.some.inj h).symm⟩
  · rename_i iteration params held ht
    exact .inr (.inl ⟨iteration, params, held, ht, (Option.some.inj h).symm⟩)
  · rename_i iteration ht
    exact .inr (.inr ⟨iteration, ht, (Option.some.inj h).symm⟩)
  · cases h

end Response

variable [Scalar V] (ord : VisitOrder)

def advance (s : ParameterServerService V) (thread : ℕ) :
    Option (Response V) × ParameterServerService V :=
  match s.handlers thread with
  | .idle => (none, s)
  | .receiveGradients p =>
    let (complete, ps) := s.ps.receive ord p
    (none, { ps := ps
             held := s.held ++ s.ps.lineage ord [p]
             handlers := Function.update s.handlers thread (.received p.iteration complete) })
  | .received iteration complete =>
    let (_, workersReceived) := s.ps.checkSyncStatus iteration
    (some (.push ⟨true, "gradients received", iteration, complete, workersReceived,
      s.ps.getTotalWorkers⟩), s.setHandler thread .idle)
  | .serveParameters iteration =>
    (none, s.setHandler thread (.served iteration (s.ps.serveParameters iteration) s.held))
  | .served iteration params held =>
    let (ready, _) := s.ps.checkSyncStatus iteration
    (some (.parameters ⟨iteration, params, ready⟩ held), s.setHandler thread .idle)
  | .checkSyncStatus iteration =>
    let (ready, workersReceived) := s.ps.checkSyncStatus iteration
    (some (.syncStatus ⟨iteration, ready, workersReceived, s.ps.getTotalWorkers⟩),
      s.setHandler thread .idle)

def machine : Machine (ParameterServerService V) (Action V) (Option (Response V)) where
  step s
    | .call thread request =>
      match s.handlers thread with
      | .idle => (none, s.setHandler thread request.handler)
      | _ => (none, s)
    | .advance thread => s.advance ord thread

/-- What an action can do, with its output and all that is known when it does. -/
inductive StepCases (s : ParameterServerService V) :
    Action V → Option (Response V) × ParameterServerService V → Prop
  | unchanged (a) : StepCases s a (none, s)
  | call {i} (request : Request V) (hthread : s.handlers i = .idle) :
      StepCases s (.call i request) (none, s.setHandler i request.handler)
  | receive {i p} (hthread : s.handlers i = .receiveGradients p) :
      StepCases s (.advance i)
        (none,
          { ps := (s.ps.receive ord p).2
            held := s.held ++ s.ps.lineage ord [p]
            handlers := Function.update s.handlers i
              (.received p.iteration (s.ps.receive ord p).1) })
  | serve {i k} (hthread : s.handlers i = .serveParameters k) :
      StepCases s (.advance i)
        (none, s.setHandler i (.served k (s.ps.serveParameters k) s.held))
  | answer {i r} (hresponse : s.response i = some r) :
      StepCases s (.advance i) (some r, s.setHandler i .idle)

theorem step_cases (s : ParameterServerService V) (a : Action V) :
    StepCases ord s a ((machine ord).step s a) := by
  cases a with
  | call i request =>
    dsimp only [machine]
    split
    · rename_i hi
      exact .call request hi
    · exact .unchanged _
  | advance i =>
    dsimp only [machine, advance]
    split
    · exact .unchanged _
    · rename_i p hi
      exact .receive hi
    · rename_i k complete hi
      exact .answer (s.response_received hi)
    · rename_i k hi
      exact .serve hi
    · rename_i k params held hi
      exact .answer (s.response_served hi)
    · rename_i k hi
      exact .answer (s.response_checkSyncStatus hi)

section Step

variable (s : ParameterServerService V) (a : Action V)

/-- The core changes by the first core call of a `ReceiveGradients` handler only. -/
theorem ps_step_cases : ((machine ord).step s a).2.ps = s.ps ∨
    ∃ p, ((machine ord).step s a).2.ps = (s.ps.receive ord p).2 := by
  have hs := step_cases ord s a
  generalize (machine ord).step s a = out at hs ⊢
  cases hs with
  | @receive i p hthread => exact .inr ⟨p, rfl⟩
  | _ => exact .inl rfl

theorem aggregated_step {k : Int32} (h : (s.ps.stateOf k).aggregated = true) :
    (((machine ord).step s a).2.ps.stateOf k).aggregated = true := by
  rcases ps_step_cases ord s a with hps | ⟨p, hps⟩
  · rw [hps]
    exact h
  · rw [hps]
    exact (ParameterServerCore.aggregated_receive_iff ord _ p k).mpr (.inl h)

variable {s a}

/-- A thread that has work to do stays where it is until it is its turn. -/
theorem handlers_step {i : ℕ} (hi : s.handlers i ≠ .idle) (ha : a ≠ .advance i) :
    ((machine ord).step s a).2.handlers i = s.handlers i := by
  have hs := step_cases ord s a
  generalize (machine ord).step s a = out at hs ⊢
  have hturn : ∀ j, Action.advance j ≠ (.advance i : Action V) → i ≠ j := by
    rintro j hne rfl
    exact hne rfl
  cases hs with
  | unchanged => rfl
  | @call j request hthread =>
    refine Function.update_of_ne ?_ ..
    rintro rfl
    exact hi hthread
  | receive => exact Function.update_of_ne (hturn _ ha) ..
  | serve => exact Function.update_of_ne (hturn _ ha) ..
  | answer => exact Function.update_of_ne (hturn _ ha) ..

end Step

end ParameterServerService

end ParamServer
