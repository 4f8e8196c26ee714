import ParamServer.Tensor

/-! `Worker::run_iteration` as a machine that stops at every RPC. Each continuation below is
what the code does with the result of the RPC it has waited for. -/

namespace ParamServer

variable {V : Type} [Scalar V]

namespace Worker

def maxRetries : ℕ := 3

def maxPolls : ℕ := 200

/-- What is pushed for when there are no parameters. -/
def dummy : Tensor V :=
  { name := [119, 101, 105, 103, 104, 116]
    shape := [10, 10]
    data := List.replicate 100 Scalar.zero
    dtype := 0 }

/-- `compute_gradients`; `multiGpu` is `aggregate_gradients_multi_gpu` on a worker with several
devices, and the identity on any other. -/
def computeGradients (multiGpu : List (Tensor V) → List (Tensor V)) (params : List (Tensor V)) :
    List (Tensor V) :=
  multiGpu (params.map fun t => { t with data := t.data.map fun _ => Scalar.hundredth })

def gradientsFor (multiGpu : List (Tensor V) → List (Tensor V)) (params : List (Tensor V)) :
    List (Tensor V) :=
  computeGradients multiGpu (if params.isEmpty then [dummy] else params)

end Worker

/-- Where `run_iteration` stands: waiting for the RPC it is named after, or returned. -/
inductive RunIteration (V : Type)
  | pull (retryCount : ℕ)
  | push (retryCount : ℕ) (grads : List (Tensor V))
  | poll (retryCount pollCount : ℕ)
  | recheck (retryCount pollCount : ℕ)
  | returned (done : Bool)
deriving DecidableEq

namespace RunIteration

open Worker

def attempt (retryCount : ℕ) : RunIteration V :=
  if retryCount < maxRetries then .pull retryCount else .returned false

/-- The head of the polling loop, and what follows it when no poll was ready. -/
def polling (retryCount pollCount : ℕ) : RunIteration V :=
  if pollCount < maxPolls then .poll retryCount pollCount
  else if retryCount < maxRetries - 1 then attempt (retryCount + 1)
  else .returned false

/-- After `pull_parameters`, which gives no parameters when the RPC fails. -/
def afterPull (multiGpu : List (Tensor V) → List (Tensor V)) (retryCount : ℕ)
    (params : List (Tensor V)) : RunIteration V :=
  if params.isEmpty ∧ retryCount < maxRetries - 1 then attempt (retryCount + 1)
  else .push retryCount (gradientsFor multiGpu params)

/-- After `push_gradients`, which gives false when the RPC fails. -/
def afterPush (retryCount : ℕ) (aggregationComplete : Bool) : RunIteration V :=
  -- only the last attempt goes on to poll
  if ¬aggregationComplete ∧ retryCount < maxRetries - 1 then attempt (retryCount + 1)
  else if aggregationComplete then .returned true
  else polling retryCount 0

/-- After the `check_sync_ready` of a round, which gives false when the RPC fails. -/
def afterPoll (retryCount pollCount : ℕ) (ready : Bool) : RunIteration V :=
  if ready then .returned true
  else if (pollCount + 1) % 20 = 0 then .recheck retryCount (pollCount + 1)
  else polling retryCount (pollCount + 1)

/-- Neither holds gradients nor reports success. -/
def Neutral : RunIteration V → Prop
  | push _ _ => False
  | returned done => done = false
  | _ => True

section Cases

omit [Scalar V]

theorem Neutral.ne_returned {stage : RunIteration V} (h : stage.Neutral) :
    stage ≠ .returned true := by
  rintro rfl
  cases h

theorem neutral_attempt (retryCount : ℕ) : (attempt retryCount : RunIteration V).Neutral := by
  unfold attempt
  split
  · trivial
  · rfl

theorem neutral_polling (retryCount pollCount : ℕ) :
    (polling retryCount pollCount : RunIteration V).Neutral := by
  unfold polling
  split
  · trivial
  · split
    · exact neutral_attempt _
    · rfl

theorem afterPush_cases (retryCount : ℕ) (complete : Bool) :
    (complete = true ∧ (afterPush retryCount complete : RunIteration V) = .returned true) ∨
      (afterPush retryCount complete : RunIteration V).Neutral := by
  unfold afterPush
  rcases complete with _ | _
  · refine .inr ?_
    split
    · exact neutral_attempt _
    · rw [if_neg (by simp)]
      exact neutral_polling _ _
  · exact .inl ⟨rfl, by simp⟩

theorem afterPoll_cases (retryCount pollCount : ℕ) (ready : Bool) :
    (ready = true ∧ (afterPoll retryCount pollCount ready : RunIteration V) = .returned true) ∨
      (afterPoll retryCount pollCount ready : RunIteration V).Neutral := by
  unfold afterPoll
  rcases ready with _ | _
  · refine .inr ?_
    rw [if_neg (by simp)]
    split
    · trivial
    · exact neutral_polling _ _
  · exact .inl ⟨rfl, by simp⟩

theorem afterPush_returned_iff (retryCount : ℕ) (complete : Bool) :
    (afterPush retryCount complete : RunIteration V) = .returned true ↔ complete = true := by
  constructor
  · intro h
    rcases afterPush_cases (V := V) retryCount complete with ⟨hc, -⟩ | hn
    · exact hc
    · exact absurd h hn.ne_returned
  · rintro rfl
    simp [afterPush]

theorem afterPoll_returned_iff (retryCount pollCount : ℕ) (ready : Bool) :
    (afterPoll retryCount pollCount ready : RunIteration V) = .returned true ↔ ready = true := by
  constructor
  · intro h
    rcases afterPoll_cases (V := V) retryCount pollCount ready with ⟨hc, -⟩ | hn
    · exact hc
    · exact absurd h hn.ne_returned
  · rintro rfl
    simp [afterPoll]

end Cases

theorem afterPull_cases (multiGpu : List (Tensor V) → List (Tensor V)) (retryCount : ℕ)
    (params : List (Tensor V)) :
    afterPull multiGpu retryCount params = .push retryCount (gradientsFor multiGpu params) ∨
      (params = [] ∧ retryCount < maxRetries - 1 ∧
        (afterPull multiGpu retryCount params).Neutral) := by
  unfold afterPull
  split
  · rename_i h
    exact .inr ⟨List.isEmpty_iff.mp h.1, h.2, neutral_attempt _⟩
  · exact .inl rfl

theorem afterPull_ne_returned (multiGpu : List (Tensor V) → List (Tensor V)) (retryCount : ℕ)
    (params : List (Tensor V)) : afterPull multiGpu retryCount params ≠ .returned true := by
  rcases afterPull_cases multiGpu retryCount params with he | ⟨-, -, hn⟩
  · rw [he]
    exact nofun
  · exact hn.ne_returned

end RunIteration

end ParamServer
