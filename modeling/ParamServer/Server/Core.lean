import ParamServer.Library.InsertionMap
import ParamServer.Library.ZipPrefix
import ParamServer.Tensor

/-! The state and the operations of `ParameterServerCore`, apart from its checkpoints. Each
operation runs under a lock and is one atomic step here. -/

namespace ParamServer

open Library

variable {V : Type}

/-- `iteration_state`: the last gradients of every worker, and whether they were applied. -/
structure IterationState (V : Type) where
  workerGradients : InsertionMap Int32 (List (Tensor V))
  aggregated : Bool

def IterationState.initial : IterationState V := ⟨.empty, false⟩

@[simp] theorem IterationState.initial_workerGradients :
    (initial : IterationState V).workerGradients = .empty := rfl

@[simp] theorem IterationState.initial_aggregated :
    (initial : IterationState V).aggregated = false := rfl

structure ParameterServerCore (V : Type) where
  totalWorkers : Int32
  parameters : List (Tensor V)
  iterationStates : InsertionMap Int32 (IterationState V)
  currentIteration : Int32

/-- The order in which the averaging loop visits a worker map: some permutation of the keys
that is fixed by the order in which they were inserted. -/
structure VisitOrder where
  visit : List Int32 → List Int32
  perm : ∀ ks, (visit ks).Perm ks

def VisitOrder.insertion : VisitOrder := ⟨id, fun _ => List.Perm.refl _⟩

def VisitOrder.visited (ord : VisitOrder) (m : InsertionMap Int32 (List (Tensor V))) :
    List (List (Tensor V)) := (ord.visit m.keys).filterMap m.find?

theorem VisitOrder.length_visited (ord : VisitOrder) (m : InsertionMap Int32 (List (Tensor V))) :
    (ord.visited m).length = m.size := InsertionMap.length_inOrder (ord.perm m.keys)

section Averaging

variable [Scalar V]

/-- The sum over the visited workers of the data of tensor `i`, by position and up to
`dataSize` elements. -/
def sumTensor (visited : List (List (Tensor V))) (i dataSize : ℕ) : List V :=
  visited.foldl (fun acc gradVec =>
    match gradVec[i]? with
    | some g => zipPrefix Scalar.add acc g.data
    | none => acc) (List.replicate dataSize Scalar.zero)

/-- The averaging loop of `receive_gradients`: `gradients` are those of the push at hand. -/
def averageGradients (ord : VisitOrder) (workerGradients : InsertionMap Int32 (List (Tensor V)))
    (gradients : List (Tensor V)) : List (Tensor V) :=
  let actualWorkers := Int32.ofNat workerGradients.size
  gradients.mapIdx fun i t =>
    { t with
      data := (sumTensor (ord.visited workerGradients) i t.data.length).map
        (Scalar.divCount · actualWorkers) }

/-- One round of the loop in `aggregate_gradients`. -/
def subtractTensor (p g : Tensor V) : Tensor V :=
  if g.name = p.name ∧ g.shape = p.shape then
    { p with data := zipPrefix Scalar.sub p.data g.data }
  else p

def aggregate (parameters gradients : List (Tensor V)) : List (Tensor V) :=
  if parameters.isEmpty then gradients else zipPrefix subtractTensor parameters gradients

end Averaging

namespace ParameterServerCore

def new (totalWorkers : Int32) : ParameterServerCore V := ⟨totalWorkers, [], .empty, 0⟩

def initializeParameters (s : ParameterServerCore V) (initialParams : List (Tensor V)) :
    ParameterServerCore V := { s with parameters := initialParams }

@[simp] theorem initializeParameters_parameters (s : ParameterServerCore V)
    (ts : List (Tensor V)) : (s.initializeParameters ts).parameters = ts := rfl

/-- A server with the parameters and the iteration of another one, and its own barrier. -/
def restored (s saved : ParameterServerCore V) : ParameterServerCore V :=
  { s with parameters := saved.parameters, currentIteration := saved.currentIteration }

@[simp] theorem restored_parameters (s saved : ParameterServerCore V) :
    (s.restored saved).parameters = saved.parameters := rfl

def serveParameters (s : ParameterServerCore V) (_iteration : Int32) : List (Tensor V) :=
  s.parameters

/-- Whether the iteration is aggregated, and the count of workers received. -/
def checkSyncStatus (s : ParameterServerCore V) (iteration : Int32) : Bool × Int32 :=
  match s.iterationStates.find? iteration with
  | none => (false, 0)
  | some st => (st.aggregated, Int32.ofNat st.workerGradients.size)

def getTotalWorkers (s : ParameterServerCore V) : Int32 := s.totalWorkers

def getCurrentIteration (s : ParameterServerCore V) : Int32 := s.currentIteration

/-- `iteration_states_[iteration]`, read. -/
def stateOf (s : ParameterServerCore V) (iteration : Int32) : IterationState V :=
  (s.iterationStates.find? iteration).getD .initial

theorem checkSyncStatus_eq (s : ParameterServerCore V) (iteration : Int32) :
    s.checkSyncStatus iteration = ((s.stateOf iteration).aggregated,
      Int32.ofNat (s.stateOf iteration).workerGradients.size) := by
  unfold checkSyncStatus stateOf
  rcases s.iterationStates.find? iteration with _ | st <;> rfl

/-- `iteration_states_[iteration]`, written. -/
def setState (s : ParameterServerCore V) (iteration : Int32) (st : IterationState V) :
    ParameterServerCore V := { s with iterationStates := s.iterationStates.assign iteration st }

variable [Scalar V]

def aggregateGradients (s : ParameterServerCore V) (gradients : List (Tensor V)) :
    ParameterServerCore V := { s with parameters := aggregate s.parameters gradients }

def receiveGradients (ord : VisitOrder) (s : ParameterServerCore V) (workerId iteration : Int32)
    (gradients : List (Tensor V)) : Bool × ParameterServerCore V :=
  let s := if s.currentIteration < iteration then { s with currentIteration := iteration } else s
  let state := s.stateOf iteration
  -- a late push is not recorded
  if state.aggregated then (true, s)
  else
    let workerGradients := state.workerGradients.assign workerId gradients
    if toSizeT s.totalWorkers ≤ workerGradients.size then
      let s := s.aggregateGradients (averageGradients ord workerGradients gradients)
      (true, s.setState iteration ⟨workerGradients, true⟩)
    else (false, s.setState iteration ⟨workerGradients, false⟩)

end ParameterServerCore

end ParamServer
