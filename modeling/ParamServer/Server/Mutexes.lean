import ParamServer.Library.Locks
import ParamServer.Server.Checkpoint
import ParamServer.Server.Receive

/-! The operations of `ParameterServerCore` as the programs of its threads, with their locks:
`state_mutex_` guards the iteration states, `params_mutex_` the parameters and the files.
`current_iteration_` has no mutex of its own: the pushes write it under the one, a load under the
other, and `get_current_iteration` reads it under none. A program reads or writes it at most once
in one action. -/

namespace ParamServer

open Library

variable {V : Type}

inductive Mutex
  | state
  | params
deriving DecidableEq

/-- Where `params_mutex_` is taken under `state_mutex_`, and never the other way. -/
def Mutex.rank : Mutex → ℕ
  | state => 0
  | params => 1

theorem Mutex.rank_le (m : Mutex) : m.rank ≤ 1 := by
  cases m
  · exact Nat.zero_le 1
  · exact le_rfl

/-- What the threads share: the server, and the files that it can open. -/
structure Memory (V : Type) where
  core : ParameterServerCore V
  files : List UInt8 → Option (List UInt8)

def Memory.fresh (totalWorkers : Int32) (files : List UInt8 → Option (List UInt8)) : Memory V :=
  ⟨.new totalWorkers, files⟩

inductive Operation (V : Type)
  | initializeParameters (ts : List (Tensor V))
  | receiveGradients (p : Push V)
  | serveParameters (iteration : Int32)
  | checkSyncStatus (iteration : Int32)
  | saveCheckpoint (opens : Bool) (fault : ℕ → Option ℕ) (epoch : Int32) (path : List UInt8)
  | loadCheckpoint (uninit : ℕ → Int32) (epoch : Int32) (path : List UInt8)
  | getCurrentIteration

inductive Outcome (V : Type)
  | initialized
  | received (aggregated : Bool)
  | parameters (ts : List (Tensor V))
  | status (aggregated : Bool) (workersReceived : Int32)
  | saved (success : Bool)
  | loaded (result : LoadResult) (epoch : Int32)
  | iteration (currentIteration : Int32)
deriving DecidableEq

def Operation.IsLoad : Operation V → Prop
  | loadCheckpoint .. => True
  | _ => False

abbrev ServerProg (V : Type) := Prog Mutex (Memory V) (Outcome V)

/-- The gradients of the push in `iteration_states_`, unless it comes late. -/
def ParameterServerCore.noted (s : ParameterServerCore V) (p : Push V) : ParameterServerCore V :=
  if (s.stateOf p.iteration).aggregated then s
  else s.setState p.iteration ⟨s.recorded p, false⟩

/-- `state.aggregated = true` -/
def ParameterServerCore.marked (s : ParameterServerCore V) (p : Push V) : ParameterServerCore V :=
  let state := s.stateOf p.iteration
  s.setState p.iteration { state with aggregated := true }

/-! `receive_gradients`, from its last step to its first. -/

def leaveState (aggregated : Bool) : ServerProg V :=
  .release .state (.ret (.received aggregated))

theorem ordered_leaveState (aggregated : Bool) :
    (leaveState aggregated : ServerProg V).Ordered Mutex.rank fun x => x = .state := by
  refine ⟨rfl, ?_⟩
  rintro x ⟨hne, heq⟩
  exact hne heq

def markAggregated (p : Push V) : ServerProg V :=
  .act (fun m => { m with core := m.core.marked p }) fun _ => leaveState true

variable [Scalar V] (ord : VisitOrder)

def applyMean (p : Push V) (mean : List (Tensor V)) : ServerProg V :=
  .act (fun m => { m with core := m.core.aggregateGradients mean }) fun _ =>
    .release .params (markAggregated p)

/-- How the push goes on from the iteration state that it has found. -/
def afterRecording (s : ParameterServerCore V) (p : Push V) : ServerProg V :=
  if (s.stateOf p.iteration).aggregated then leaveState true
  else if toSizeT s.totalWorkers ≤ (s.recorded p).size then
    .acquire .params (applyMean p (averageGradients ord (s.recorded p) p.gradients))
  else leaveState false

def recordGradients (p : Push V) : ServerProg V :=
  .act (fun m => { m with core := m.core.noted p }) fun m => afterRecording ord m.core p

def raiseIteration (p : Push V) : ServerProg V :=
  .act (fun m => { m with core := { m.core with currentIteration := p.iteration } }) fun _ =>
    recordGradients ord p

/-- The comparison is one access, the assignment after it another. -/
def compareIteration (p : Push V) : ServerProg V :=
  .act id fun m =>
    if m.core.currentIteration < p.iteration then raiseIteration ord p else recordGradients ord p

theorem ordered_applyMean (p : Push V) (mean : List (Tensor V)) :
    (Prog.acquire .params (applyMean p mean)).Ordered Mutex.rank fun x => x = .state := by
  refine ⟨?_, fun _ => ⟨.inl rfl, fun _ => ?_⟩⟩
  · rintro x rfl
    exact Nat.zero_lt_one
  · have hback : (fun x => x ≠ Mutex.params ∧ (x = .params ∨ x = .state)) =
        fun x => x = .state := by
      funext x
      cases x <;> simp
    show (leaveState true).Ordered Mutex.rank fun x => x ≠ .params ∧ (x = .params ∨ x = .state)
    rw [hback]
    exact ordered_leaveState true

theorem ordered_recordGradients (p : Push V) :
    (recordGradients ord p).Ordered Mutex.rank fun x => x = .state := by
  intro m
  dsimp only [afterRecording]
  split
  · exact ordered_leaveState true
  · split
    · exact ordered_applyMean p _
    · exact ordered_leaveState false

theorem ordered_compareIteration (p : Push V) :
    (compareIteration ord p).Ordered Mutex.rank fun x => x = .state := by
  intro m
  dsimp only
  split
  · exact fun _ => ordered_recordGradients ord p
  · exact ordered_recordGradients ord p

theorem within_recordGradients (p : Push V) : (recordGradients ord p).Within 7 := by
  intro m
  dsimp only [afterRecording]
  split
  · trivial
  · split
    · exact fun _ _ => trivial
    · trivial

theorem within_compareIteration (p : Push V) : (compareIteration ord p).Within 9 := by
  intro m
  dsimp only
  split
  · exact fun _ => within_recordGradients ord p
  · exact (within_recordGradients ord p).mono (by omega)

variable [Word V] (alloc : Allocator)

/-- An operation done in one piece. -/
def Memory.answer (m : Memory V) : Operation V → Outcome V × Memory V
  | .initializeParameters ts => (.initialized, { m with core := m.core.initializeParameters ts })
  | .receiveGradients p =>
    (.received (m.core.receive ord p).1, { m with core := (m.core.receive ord p).2 })
  | .serveParameters iteration => (.parameters (m.core.serveParameters iteration), m)
  | .checkSyncStatus iteration =>
    (.status (m.core.checkSyncStatus iteration).1 (m.core.checkSyncStatus iteration).2, m)
  | .saveCheckpoint opens fault epoch path =>
    let r := m.core.saveCheckpoint opens fault epoch (m.files path)
    (.saved r.1, { m with files := Function.update m.files path r.2 })
  | .loadCheckpoint uninit epoch path =>
    let r := m.core.loadCheckpoint alloc uninit epoch (m.files path)
    (.loaded r.1 r.2.2, { m with core := r.2.1 })
  | .getCurrentIteration => (.iteration m.core.getCurrentIteration, m)

/-- The server as an object that does one operation after another. -/
def serverObject : Machine (Memory V) (Operation V) (Outcome V) :=
  ⟨fun m r => m.answer ord alloc r⟩

def Operation.prog : Operation V → ServerProg V
  | initializeParameters ts => .guarded .params (·.answer ord alloc (.initializeParameters ts))
  | receiveGradients p => .acquire .state (compareIteration ord p)
  | serveParameters iteration => .guarded .params (·.answer ord alloc (.serveParameters iteration))
  | checkSyncStatus iteration => .guarded .state (·.answer ord alloc (.checkSyncStatus iteration))
  | saveCheckpoint opens fault epoch path =>
    .guarded .params (·.answer ord alloc (.saveCheckpoint opens fault epoch path))
  | loadCheckpoint uninit epoch path =>
    .guarded .params (·.answer ord alloc (.loadCheckpoint uninit epoch path))
  | getCurrentIteration =>
    .act id fun m => .ret (.iteration m.core.getCurrentIteration)

/-- The threads `T` of the server. -/
def serverThreads (T : Type) [DecidableEq T] :
    Transitions (Config T Mutex (Memory V) (Outcome V)) (Event T (Operation V) (Outcome V)) :=
  Config.transitions T (Operation.prog ord alloc)

theorem Operation.ordered_prog (r : Operation V) :
    (r.prog ord alloc).Ordered Mutex.rank fun _ => False := by
  cases r with
  | receiveGradients p =>
    refine ⟨fun _ h => h.elim, ?_⟩
    simp only [or_false]
    exact ordered_compareIteration ord p
  | getCurrentIteration => exact fun _ _ h => h
  | initializeParameters => exact Prog.ordered_guarded ..
  | serveParameters => exact Prog.ordered_guarded ..
  | checkSyncStatus => exact Prog.ordered_guarded ..
  | saveCheckpoint => exact Prog.ordered_guarded ..
  | loadCheckpoint => exact Prog.ordered_guarded ..

theorem Operation.within_prog (r : Operation V) : (r.prog ord alloc).Within 10 := by
  cases r with
  | receiveGradients p => exact within_compareIteration ord p
  | getCurrentIteration => exact fun _ => trivial
  | initializeParameters => exact fun _ => trivial
  | serveParameters => exact fun _ => trivial
  | checkSyncStatus => exact fun _ => trivial
  | saveCheckpoint => exact fun _ => trivial
  | loadCheckpoint => exact fun _ => trivial

/-- The threads never stop each other for good: whatever they are doing, they can go on until all
have returned and no mutex is locked, and without new calls they get there in ten steps each. -/
theorem threads_drain {T : Type} [DecidableEq T] [Fintype T] (m : Memory V)
    (h : List (Event T (Operation V) (Outcome V))) (c : Config T Mutex (Memory V) (Outcome V))
    (trace : (serverThreads ord alloc T).Trace (.start m) h c) :
    (∀ cs, List.IsChain (Config.Runs (Operation.prog ord alloc)) (c :: cs) →
      cs.length ≤ 10 * (Finset.univ.filter fun t => (c.prog t).isSome).card) ∧
    ∀ c', Relation.ReflTransGen (Config.Runs (Operation.prog ord alloc)) c c' →
      (∃ c'', Config.Runs (Operation.prog ord alloc) c' c'') ∨
        (∀ t, c'.prog t = none) ∧ ∀ x, c'.owner x = none := by
  constructor
  · intro cs hcs
    obtain ⟨b, hb, hten⟩ := Config.bounded_of_trace (Operation.within_prog ord alloc) trace
    exact (hb.length_le (Operation.within_prog ord alloc) hcs).trans (hb.sum_le hten)
  · intro c' hc'
    have hdisc : c'.Disciplined Mutex.rank := by
      have hc := Config.disciplined_of_trace (Operation.ordered_prog ord alloc) trace
      induction hc' with
      | refl => exact hc
      | tail _ last ih =>
        obtain ⟨l, hstep, -⟩ := last
        exact ih.step (Operation.ordered_prog ord alloc) hstep
    by_cases hbusy : ∃ t, c'.prog t ≠ none
    · obtain ⟨t, ht⟩ := hbusy
      exact .inl (hdisc.runs Mutex.rank_le ht)
    · have hidle : ∀ t, c'.prog t = none := fun t => not_not.mp (not_exists.mp hbusy t)
      refine .inr ⟨hidle, fun x => ?_⟩
      rcases hown : c'.owner x with _ | u
      · rfl
      · exact absurd hown (hdisc.idle u x (hidle u))

/-- One thread holds `state_mutex_` and another waits for it. -/
theorem threads_drain_contended :
    ∃ c : Config Bool Mutex (Memory UInt32) (Outcome UInt32),
      c.owner .state = some true ∧ c.prog false ≠ none ∧
      ∀ cs, List.IsChain (Config.Runs (Operation.prog .insertion .unbounded)) (c :: cs) →
        cs.length ≤ 20 := by
  have s1 : (serverThreads (V := UInt32) .insertion .unbounded Bool).Trace
      (.start (.fresh 2 fun _ => none)) _ _ :=
    .tail .refl (.call (t := true) (.receiveGradients ⟨0, 1, []⟩) rfl)
  have s2 := s1.silent (.acquire (t := true) rfl rfl)
  have s3 := s2.tail (.call (t := false) (.checkSyncStatus 1) rfl)
  exact ⟨_, rfl, Option.some_ne_none _, (threads_drain .insertion .unbounded _ _ _ s3).1⟩

end ParamServer
