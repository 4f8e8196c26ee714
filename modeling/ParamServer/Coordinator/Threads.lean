import ParamServer.Coordinator.Registry
import ParamServer.Library.OnePiece

/-! The threads of the coordinator: the handlers of its RPCs and `cleanup_loop`, which all take
`workers_mutex_` for the whole of a call, and time, which goes on all the while. Whatever the
interleaving, every answer is that of the history of the calls before it. -/

namespace ParamServer

open Library

inductive CoordinatorMutex
  | workers
deriving DecidableEq

/-- What the threads share: the coordinator and the steady clock. -/
structure CoordinatorMemory where
  core : CoordinatorCore
  clock : ℤ

inductive CoordinatorOperation
  | registerWorker (workerInfo : WorkerRegistryEntry)
  | updateHeartbeat (workerId status : Int32)
  | listWorkers (ord : VisitOrder)
  | getParameterServerAddress
  | removeStaleWorkers (timeoutSeconds : Int64)
  /-- Time goes on. -/
  | tick (nanoseconds : ℕ)

inductive CoordinatorOutcome
  | reply (reply : CoordinatorReply)
  | address (psAddress : List UInt8) (psPort : Int32)
  | ticked

/-- The call that reads or changes the registry, with the time at which it is made. -/
def CoordinatorOperation.call? (clock : ℤ) : CoordinatorOperation → Option CoordinatorCall
  | registerWorker info => some (.registerWorker clock info)
  | updateHeartbeat workerId status => some (.updateHeartbeat clock workerId status)
  | listWorkers ord => some (.listWorkers ord)
  | removeStaleWorkers timeoutSeconds => some (.removeStaleWorkers clock timeoutSeconds)
  | getParameterServerAddress | tick _ => none

def CoordinatorOperation.duration : CoordinatorOperation → ℤ
  | tick nanoseconds => nanoseconds
  | _ => 0

namespace CoordinatorMemory

def call (m : CoordinatorMemory) (c : CoordinatorCall) : CoordinatorOutcome × CoordinatorMemory :=
  let (reply, core) := CoordinatorCore.machine.step m.core c
  (.reply reply, { m with core := core })

/-- An operation done in one piece. -/
def answer (m : CoordinatorMemory) : CoordinatorOperation → CoordinatorOutcome × CoordinatorMemory
  | .registerWorker info => m.call (.registerWorker m.clock info)
  | .updateHeartbeat workerId status => m.call (.updateHeartbeat m.clock workerId status)
  | .listWorkers ord => m.call (.listWorkers ord)
  | .getParameterServerAddress =>
    let (psAddress, psPort) := m.core.getParameterServerAddress
    (.address psAddress psPort, m)
  | .removeStaleWorkers timeoutSeconds => m.call (.removeStaleWorkers m.clock timeoutSeconds)
  | .tick nanoseconds => (.ticked, { m with clock := m.clock + nanoseconds })

end CoordinatorMemory

def coordinatorObject : Machine CoordinatorMemory CoordinatorOperation CoordinatorOutcome :=
  ⟨CoordinatorMemory.answer⟩

/-- `get_parameter_server_address` takes no lock. -/
def CoordinatorOperation.prog (r : CoordinatorOperation) :
    Prog CoordinatorMutex CoordinatorMemory CoordinatorOutcome :=
  match r with
  | registerWorker _ | updateHeartbeat _ _ | listWorkers _ | removeStaleWorkers _ =>
    .guarded .workers (·.answer r)
  | getParameterServerAddress | tick _ => .access (·.answer r)

/-- The threads `T` of the coordinator. -/
def coordinatorThreads (T : Type) [DecidableEq T] :
    Transitions (Config T CoordinatorMutex CoordinatorMemory CoordinatorOutcome)
      (Event T CoordinatorOperation CoordinatorOutcome) :=
  Config.transitions T CoordinatorOperation.prog

theorem inOnePiece_prog : InOnePiece coordinatorObject CoordinatorOperation.prog := by
  intro r
  cases r with
  | getParameterServerAddress | tick => exact .inr rfl
  | registerWorker | updateHeartbeat | listWorkers | removeStaleWorkers =>
    exact .inl ⟨.workers, rfl⟩

section History

variable {T : Type}

/-- The call that an operation was, with its answer. -/
def CoordinatorOperation.event? (clock : ℤ) (r : CoordinatorOperation) (o : CoordinatorOutcome) :
    Option CoordinatorEvent :=
  match r.call? clock, o with
  | some c, .reply reply => some (c, reply)
  | _, _ => none

/-- The calls that the operations were, one after another from the time `clock` on. -/
def registryCalls (clock : ℤ) : List (T × CoordinatorOperation × CoordinatorOutcome) →
    List CoordinatorEvent
  | [] => []
  | (_, r, o) :: ops => (r.event? clock o).toList ++ registryCalls (clock + r.duration) ops

/-- The time when the operations have been done. -/
def clockAfter (clock : ℤ) (ops : List (T × CoordinatorOperation × CoordinatorOutcome)) : ℤ :=
  clock + (ops.map fun op => op.2.1.duration).sum

theorem registryCalls_concat (clock : ℤ)
    (ops : List (T × CoordinatorOperation × CoordinatorOutcome)) (t : T)
    (r : CoordinatorOperation) (o : CoordinatorOutcome) :
    registryCalls clock (ops ++ [(t, r, o)]) =
      registryCalls clock ops ++ (r.event? (clockAfter clock ops) o).toList := by
  induction ops generalizing clock with
  | nil => simp [registryCalls, clockAfter]
  | cons op ops ih =>
    obtain ⟨u, r', o'⟩ := op
    rw [List.cons_append, registryCalls, registryCalls, ih, List.append_assoc]
    simp [clockAfter, add_assoc]

theorem clockAfter_concat (clock : ℤ)
    (ops : List (T × CoordinatorOperation × CoordinatorOutcome)) (t : T)
    (r : CoordinatorOperation) (o : CoordinatorOutcome) :
    clockAfter clock (ops ++ [(t, r, o)]) = clockAfter clock ops + r.duration := by
  simp [clockAfter, add_assoc]

end History

theorem CoordinatorOperation.duration_nonneg (r : CoordinatorOperation) : 0 ≤ r.duration := by
  cases r with
  | tick nanoseconds => exact Int.natCast_nonneg nanoseconds
  | _ => exact le_rfl

/-- An operation is a call of the core at the time at hand, or leaves the core alone. -/
theorem CoordinatorMemory.answer_cases (m : CoordinatorMemory) (r : CoordinatorOperation) :
    (∃ c, r.call? m.clock = some c ∧ r.duration = 0 ∧ m.answer r = m.call c) ∨
      ((∀ o, r.event? m.clock o = none) ∧
        (m.answer r).2 = { m with clock := m.clock + r.duration }) := by
  cases r with
  | getParameterServerAddress =>
    refine .inr ⟨fun o => rfl, ?_⟩
    simp [CoordinatorMemory.answer, CoordinatorOperation.duration]
  | tick nanoseconds => exact .inr ⟨fun o => rfl, rfl⟩
  | _ => exact .inl ⟨_, rfl, rfl, rfl⟩

theorem CoordinatorCore.step_address (s : CoordinatorCore) (c : CoordinatorCall) :
    (machine.step s c).2.psAddress = s.psAddress ∧ (machine.step s c).2.psPort = s.psPort := by
  cases c with
  | registerWorker | listWorkers | removeStaleWorkers => exact ⟨rfl, rfl⟩
  | updateHeartbeat now w status =>
    dsimp only [machine, updateHeartbeat]
    split <;> exact ⟨rfl, rfl⟩

def CoordinatorCall.time? : CoordinatorCall → Option ℤ
  | registerWorker now _ | updateHeartbeat now _ _ | removeStaleWorkers now _ => some now
  | listWorkers _ => none

theorem CoordinatorOperation.time_event? {clock now : ℤ} {r : CoordinatorOperation}
    {o : CoordinatorOutcome} {e : CoordinatorEvent} (he : r.event? clock o = some e)
    (hnow : e.1.time? = some now) : now = clock := by
  unfold event? at he
  split at he
  · rename_i c reply hc
    rw [← Option.some.inj he] at hnow
    cases r <;> cases hc <;> cases hnow <;> rfl
  · cases he

/-- The calls read a clock that never goes back. -/
theorem registryCalls_sorted {T : Type} (clock : ℤ)
    (ops : List (T × CoordinatorOperation × CoordinatorOutcome)) :
    ((registryCalls clock ops).filterMap fun e => e.1.time?).Pairwise (· ≤ ·) ∧
      ∀ now ∈ (registryCalls clock ops).filterMap fun e => e.1.time?, clock ≤ now := by
  induction ops generalizing clock with
  | nil => exact ⟨.nil, nofun⟩
  | cons op ops ih =>
    obtain ⟨t, r, o⟩ := op
    obtain ⟨hsorted, hlater⟩ := ih (clock + r.duration)
    have hnow : ∀ now ∈ (r.event? clock o).toList.filterMap fun e => e.1.time?, now = clock := by
      intro now hmem
      obtain ⟨e, he, htime⟩ := List.mem_filterMap.mp hmem
      exact CoordinatorOperation.time_event? (Option.mem_toList.mp he) htime
    have hle : clock ≤ clock + r.duration := Int.le_add_of_nonneg_right r.duration_nonneg
    rw [registryCalls, List.filterMap_append]
    refine ⟨List.pairwise_append.mpr ⟨?_, hsorted, fun a ha b hb => ?_⟩, fun now hmem => ?_⟩
    · rcases r.event? clock o with _ | e
      · exact .nil
      · rw [Option.toList_some, List.filterMap_cons]
        split
        · exact .nil
        · exact List.pairwise_singleton _ _
    · rw [hnow a ha]
      exact hle.trans (hlater b hb)
    · rcases List.mem_append.mp hmem with hmem | hmem
      · exact (hnow now hmem).ge
      · exact hle.trans (hlater now hmem)

/-- What the answer to an operation says, after the calls `es`: the registry holds the workers that
have registered and have been heard of in time before every cleanup since. -/
def Truthful (psAddress : List UInt8) (psPort : Int32) (es : List CoordinatorEvent) :
    CoordinatorOperation × CoordinatorOutcome → Prop
  | (.registerWorker info, .reply (.registered success address totalWorkers)) =>
    success = true ∧ address = psAddress ∧ ∃ W : Finset Int32,
      (∀ w, w ∈ W ↔ w = info.workerId ∨ Kept id w es) ∧ totalWorkers = Int32.ofNat W.card
  | (.updateHeartbeat w _, .reply (.heartbeat success)) => success = true ↔ Kept id w es
  | (.listWorkers _, .reply (.listed workers)) =>
    (workers.map WorkerRegistryEntry.workerId).Nodup ∧
      (∀ w, w ∈ workers.map WorkerRegistryEntry.workerId ↔ Kept id w es) ∧
      ∀ entry ∈ workers, ∃ now info post, RegisteredSince entry.workerId es now info post ∧
        entry.address = info.address ∧ entry.port = info.port ∧
        entry.hostname = info.hostname ∧
        entry.lastHeartbeat = lastContact id entry.workerId now post
  | (.getParameterServerAddress, .address address port) => address = psAddress ∧ port = psPort
  | (.removeStaleWorkers _, .reply .removed) | (.tick _, .ticked) => True
  | _ => False

section Runs

variable {T : Type} {psAddress : List UInt8} {psPort : Int32} {clock : ℤ}
  {ops : List (T × CoordinatorOperation × CoordinatorOutcome)} {m : CoordinatorMemory}

/-- The memory after the operations. -/
structure CoordinatorMemory.After (psAddress : List UInt8) (psPort : Int32) (clock : ℤ)
    (ops : List (T × CoordinatorOperation × CoordinatorOutcome)) (m : CoordinatorMemory) :
    Prop where
  address : m.core.psAddress = psAddress ∧ m.core.psPort = psPort
  time : m.clock = clockAfter clock ops
  tracked : ∀ w, Tracked id w (registryCalls clock ops) (m.core.workers.find? w)

theorem CoordinatorMemory.After.step (h : m.After psAddress psPort clock ops) (t : T)
    (r : CoordinatorOperation) :
    (m.answer r).2.After psAddress psPort clock (ops ++ [(t, r, (m.answer r).1)]) := by
  rcases m.answer_cases r with ⟨c, hc, hduration, ha⟩ | ⟨hnone, ha⟩
  · have hevent : r.event? m.clock (m.answer r).1 =
        some (c, (CoordinatorCore.machine.step m.core c).1) := by
      unfold CoordinatorOperation.event?
      rw [ha, hc]
      rfl
    refine ⟨?_, ?_, fun w => ?_⟩
    · rw [ha, ← h.address.1, ← h.address.2]
      exact m.core.step_address c
    · rw [clockAfter_concat, ← h.time, hduration, add_zero, ha]
      rfl
    · rw [registryCalls_concat, ← h.time, hevent, ha]
      exact CoordinatorCore.tracked_step rfl h.tracked c w
  · rw [ha]
    refine ⟨h.address, ?_, fun w => ?_⟩
    · rw [clockAfter_concat, ← h.time]
    · rw [registryCalls_concat, ← h.time, hnone, Option.toList_none, List.append_nil]
      exact h.tracked w

theorem CoordinatorMemory.After.truthful (h : m.After psAddress psPort clock ops)
    (r : CoordinatorOperation) :
    Truthful psAddress psPort (registryCalls clock ops) (r, (m.answer r).1) := by
  have hkept : ∀ w, (m.core.workers.find? w).isSome = true ↔ Kept id w (registryCalls clock ops) :=
    fun w => (h.tracked w).kept_iff
  cases r with
  | registerWorker info =>
    refine ⟨rfl, h.address.1, insert info.workerId m.core.workers.keySet, fun w => ?_, ?_⟩
    · rw [Finset.mem_insert, InsertionMap.mem_keySet_iff, ← Option.isSome_iff_exists, hkept]
    · rw [← InsertionMap.keySet_assign m.core.workers info.workerId
        { info with lastHeartbeat := m.clock }, InsertionMap.card_keySet]
      rfl
  | updateHeartbeat w status =>
    show (m.core.updateHeartbeat m.clock w status).1 = true ↔ _
    rw [CoordinatorCore.updateHeartbeat_fst, hkept]
  | listWorkers ord =>
    refine ⟨m.core.nodup_listWorkers ord, fun w => ?_, fun entry hentry => ?_⟩
    · rw [← hkept]
      exact m.core.mem_ids_listWorkers_iff ord w
    · have hw := h.tracked entry.workerId
      rw [(m.core.mem_listWorkers_iff ord entry).mp hentry] at hw
      obtain ⟨now, info, post, hs, -, hsame⟩ := hw
      exact ⟨now, info, post, hs, hsame⟩
  | getParameterServerAddress => exact h.address
  | removeStaleWorkers timeoutSeconds => trivial
  | tick nanoseconds => trivial

theorem CoordinatorMemory.after_start (psAddress : List UInt8) (psPort : Int32) (clock : ℤ) :
    After psAddress psPort clock ([] : List (T × CoordinatorOperation × CoordinatorOutcome))
      ⟨.new psAddress psPort, clock⟩ := by
  refine ⟨⟨rfl, rfl⟩, (add_zero clock).symm, fun w => ?_⟩
  exact CoordinatorCore.tracked_final psAddress psPort rfl [] w

/-- One operation after another, every answer is true. -/
theorem truthful_of_legal
    (h : Legal coordinatorObject.spec ⟨.new psAddress psPort, clock⟩ ops m) :
    m.After psAddress psPort clock ops ∧
      AtEach (fun before op =>
        Truthful psAddress psPort (registryCalls clock before) op.2) ops := by
  induction h with
  | nil => exact ⟨CoordinatorMemory.after_start psAddress psPort clock, atEach_nil _⟩
  | @concat ops m t r o m' _ last ih =>
    have hanswer : m.answer r = (o, m') := last
    have hafter := ih.1.step t r
    have htrue := ih.1.truthful r
    rw [hanswer] at hafter htrue
    exact ⟨hafter, atEach_concat_iff.mpr ⟨ih.2, htrue⟩⟩

end Runs

/-- However the RPC threads and the cleanup thread interleave, there is an order of their calls in
which the clock never goes back, which agrees with what each thread has seen and when, and in which
every answer is true of the calls before it. -/
theorem threads_follow_registry {T : Type} [DecidableEq T] (psAddress : List UInt8)
    (psPort : Int32) (clock : ℤ) (h : List (Event T CoordinatorOperation CoordinatorOutcome))
    (c : Config T CoordinatorMutex CoordinatorMemory CoordinatorOutcome)
    (trace : (coordinatorThreads T).Trace (.start ⟨.new psAddress psPort, clock⟩) h c) :
    ∃ ops, Linearization coordinatorObject.spec ⟨.new psAddress psPort, clock⟩ h ops c.memory ∧
      ((registryCalls clock ops).filterMap fun e => e.1.time?).Pairwise (· ≤ ·) ∧
      AtEach (fun before op =>
        Truthful psAddress psPort (registryCalls clock before) op.2) ops := by
  obtain ⟨ops, hops⟩ := inOnePiece_prog.linearization trace
  exact ⟨ops, hops, (registryCalls_sorted clock ops).1, (truthful_of_legal hops.1).2⟩

/-- A list is asked for while a registration holds the mutex. -/
theorem threads_follow_registry_waiting :
    let info : WorkerRegistryEntry := ⟨7, [97], 1, [], 0, 0⟩
    let entry : WorkerRegistryEntry := { info with lastHeartbeat := 5 }
    ∃ ops m, Linearization coordinatorObject.spec ⟨.new [112] 9, 5⟩
      [.call true (.registerWorker info), .call false (.listWorkers .insertion),
        .ret true (.reply (.registered true [112] 1)), .ret false (.reply (.listed [entry]))]
      ops m ∧ ((registryCalls 5 ops).filterMap fun e => e.1.time?).Pairwise (· ≤ ·) ∧
      AtEach (fun before op => Truthful [112] 9 (registryCalls 5 before) op.2) ops := by
  intro info entry
  have s1 : (coordinatorThreads Bool).Trace (.start ⟨.new [112] 9, 5⟩) _ _ :=
    .tail .refl (.call (t := true) (.registerWorker info) rfl)
  have s2 := s1.silent (.acquire (t := true) rfl rfl)
  have s3 := s2.tail (.call (t := false) (.listWorkers .insertion) rfl)
  have s4 := s3.silent (.act (t := true) rfl)
  have s5 := s4.silent (.release (t := true) rfl)
  have s6 := s5.tail (.ret (t := true) rfl)
  have s7 := s6.silent (.acquire (t := false) rfl rfl)
  have s8 := s7.silent (.act (t := false) rfl)
  have s9 := s8.silent (.release (t := false) rfl)
  have s10 := s9.tail (.ret (t := false) rfl)
  obtain ⟨ops, hops⟩ := threads_follow_registry [112] 9 5 _ _ s10
  exact ⟨ops, _, hops⟩

end ParamServer
