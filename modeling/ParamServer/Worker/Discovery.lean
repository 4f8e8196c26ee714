import ParamServer.Coordinator.Registry
import ParamServer.Text

/-! `Worker::initialize` against a coordinator. The worker learns the address of the parameter
server twice, with its port from `GetParameterServerAddress` and without it from `RegisterWorker`,
and keeps the one that comes last. -/

namespace ParamServer

open Library

/-- The fields of a `Worker` that the setup reads or writes. -/
structure WorkerClient where
  workerId : Int32
  workerAddress : List UInt8
  workerPort : Int32
  psAddress : List UInt8
  initialized : Bool
  currentStatus : Int32
deriving DecidableEq

/-- How an RPC goes: it never reaches the coordinator, or it does but ends with a status that is
not OK, or it is answered. -/
inductive RpcOutcome
  | lost
  | unanswered
  | answered
deriving DecidableEq

/-- One attempt of a worker. `others` are the calls that the coordinator serves before. -/
structure Attempt where
  others : List CoordinatorCall
  now : ℤ
  outcome : RpcOutcome

structure Session where
  client : WorkerClient
  coordinator : CoordinatorCore

section Retry

variable {σ : Type} (query : ℕ → σ → Bool × σ)

/-- The attempts from number `attempt` on, of which `retries` are left. -/
def queryWithRetry : (retries attempt : ℕ) → σ → Bool × σ
  | 0, _, s => (false, s)
  | retries + 1, attempt, s =>
    match query attempt s with
    | (true, s) => (true, s)
    | (false, s) => queryWithRetry retries (attempt + 1) s

theorem queryWithRetry_fst_iff {ok : ℕ → Prop} (h : ∀ i s, (query i s).1 = true ↔ ok i)
    (retries attempt : ℕ) (s : σ) : (queryWithRetry query retries attempt s).1 = true ↔
      ∃ i < retries, ok (attempt + i) := by
  induction retries generalizing attempt s with
  | zero => simp [queryWithRetry]
  | succ n ih =>
    have hs := h attempt s
    rw [queryWithRetry, Nat.exists_lt_succ_left]
    split
    · rename_i s' hq
      rw [hq] at hs
      exact iff_of_true rfl (.inl (hs.mp rfl))
    · rename_i s' hq
      rw [hq] at hs
      have hnot : ¬ok (attempt + 0) := fun hok => by cases hs.mpr hok
      simp only [ih, hnot, false_or, Nat.add_assoc, Nat.add_comm 1]

/-- Failed attempts keep `I`, and the one that succeeds brings about `J`. -/
theorem queryWithRetry_spec {I J : σ → Prop} (hfail : ∀ i s, I s → (query i s).1 = false →
      I (query i s).2) (hok : ∀ i s, I s → (query i s).1 = true → J (query i s).2)
    (retries attempt : ℕ) {s : σ} (hs : I s) :
    ((queryWithRetry query retries attempt s).1 = true →
        J (queryWithRetry query retries attempt s).2) ∧
      ((queryWithRetry query retries attempt s).1 = false →
        I (queryWithRetry query retries attempt s).2) := by
  induction retries generalizing attempt s with
  | zero => exact ⟨nofun, fun _ => hs⟩
  | succ n ih =>
    rw [queryWithRetry]
    split
    · rename_i s' hq
      have h := hok attempt s hs
      rw [hq] at h
      exact ⟨fun _ => h rfl, nofun⟩
    · rename_i s' hq
      have h := hfail attempt s hs
      rw [hq] at h
      exact ih (attempt + 1) (h rfl)

end Retry

namespace Session

def maxRetries : ℕ := 5

def discover (a : Attempt) (s : Session) : Bool × Session :=
  let coordinator := CoordinatorCore.machine.final s.coordinator a.others
  match a.outcome with
  | .answered =>
    let resp := CoordinatorService.getParameterServerAddress coordinator
    (true, ⟨{ s.client with psAddress := resp.address ++ [58] ++ decimal resp.port }, coordinator⟩)
  | _ => (false, ⟨s.client, coordinator⟩)

def discoverParameterServer (attempts : ℕ → Attempt) (s : Session) : Bool × Session :=
  queryWithRetry (fun i => discover (attempts i)) maxRetries 0 s

/-- The address is `localhost` unless one was given; the hostname is `worker-` and the id. -/
def workerInfo (client : WorkerClient) : WorkerInfo where
  workerId := client.workerId
  address :=
    if client.workerAddress ≠ [] then client.workerAddress
    else [108, 111, 99, 97, 108, 104, 111, 115, 116]
  port := client.workerPort
  hostname := [119, 111, 114, 107, 101, 114, 45] ++ decimal client.workerId

def register (a : Attempt) (s : Session) : Bool × Session :=
  let coordinator := CoordinatorCore.machine.final s.coordinator a.others
  let (resp, registered) :=
    CoordinatorService.registerWorker coordinator a.now (workerInfo s.client)
  match a.outcome with
  | .lost => (false, ⟨s.client, coordinator⟩)
  | .unanswered => (false, ⟨s.client, registered⟩)
  | .answered =>
    if resp.success then
      let client :=
        if s.client.psAddress ≠ [] ∧ s.client.psAddress ≠ resp.parameterServerAddress then
          { s.client with psAddress := resp.parameterServerAddress }
        else s.client
      (true, ⟨client, registered⟩)
    else (false, ⟨s.client, registered⟩)

def registerWithCoordinator (attempts : ℕ → Attempt) (s : Session) : Bool × Session :=
  queryWithRetry (fun i => register (attempts i)) maxRetries 0 s

/-- `initialize`, with the attempts of its two phases. -/
def initializeWorker (discovery registration : ℕ → Attempt) (s : Session) : Bool × Session :=
  if s.client.initialized then (true, s)
  else
    match discoverParameterServer discovery s with
    | (false, s) => (false, s)
    | (true, s) =>
      match registerWithCoordinator registration s with
      | (false, s) => (false, s)
      | (true, s) =>
        (true, { s with client := { s.client with initialized := true, currentStatus := 0 } })

def reconnect (discovery registration : ℕ → Attempt) (s : Session) : Bool × Session :=
  initializeWorker discovery registration
    { s with client := { s.client with initialized := false } }

/-- A call of `reconnect` or of `initialize`, with the attempts of its two phases. -/
structure SetupCall where
  reconnects : Bool
  discovery : ℕ → Attempt
  registration : ℕ → Attempt

def machine : Machine Session SetupCall Bool where
  step s c :=
    if c.reconnects then s.reconnect c.discovery c.registration
    else s.initializeWorker c.discovery c.registration

/-- The call goes to the coordinator. -/
def SetupCall.Connects (s : Session) (c : SetupCall) : Prop :=
  c.reconnects = true ∨ s.client.initialized = false

section Address

/-! The coordinator does not change what it says about the parameter server. -/

def Serves (psAddress : List UInt8) (psPort : Int32) (coordinator : CoordinatorCore) : Prop :=
  coordinator.psAddress = psAddress ∧ coordinator.psPort = psPort

variable {A : List UInt8} {P : Int32} {coordinator : CoordinatorCore} {s : Session}

theorem Serves.step (h : Serves A P coordinator) (c : CoordinatorCall) :
    Serves A P (CoordinatorCore.machine.step coordinator c).2 := by
  cases c with
  | registerWorker | listWorkers | removeStaleWorkers => exact h
  | updateHeartbeat now w status =>
    dsimp only [CoordinatorCore.machine, CoordinatorCore.updateHeartbeat]
    split <;> exact h

theorem Serves.final (h : Serves A P coordinator) (cs : List CoordinatorCall) :
    Serves A P (CoordinatorCore.machine.final coordinator cs) :=
  Machine.invariant_final (fun _ c h _ => h.step c) h (Machine.meets_true _ _ cs)

theorem endpoint_ne (A : List UInt8) (P : Int32) : A ++ [58] ++ decimal P ≠ A := by
  intro h
  have hlength := congrArg List.length h
  simp at hlength

theorem discover_fst (a : Attempt) (s : Session) :
    (discover a s).1 = true ↔ a.outcome = .answered := by
  unfold discover
  rcases a.outcome <;> simp

theorem register_fst (a : Attempt) (s : Session) :
    (register a s).1 = true ↔ a.outcome = .answered := by
  unfold register
  rcases a.outcome <;> simp [CoordinatorService.registerWorker, CoordinatorCore.registerWorker]

theorem discoverParameterServer_fst (attempts : ℕ → Attempt) (s : Session) :
    (discoverParameterServer attempts s).1 = true ↔
      ∃ i < maxRetries, (attempts i).outcome = .answered := by
  rw [discoverParameterServer,
    queryWithRetry_fst_iff _ fun i s => discover_fst (attempts i) s]
  simp only [Nat.zero_add]

theorem registerWithCoordinator_fst (attempts : ℕ → Attempt) (s : Session) :
    (registerWithCoordinator attempts s).1 = true ↔
      ∃ i < maxRetries, (attempts i).outcome = .answered := by
  rw [registerWithCoordinator,
    queryWithRetry_fst_iff _ fun i s => register_fst (attempts i) s]
  simp only [Nat.zero_add]

def Unset (A : List UInt8) (P : Int32) (s : Session) : Prop :=
  Serves A P s.coordinator ∧ s.client.initialized = false

/-- The discovery sets the whole endpoint. -/
theorem discover_spec (hs : Unset A P s) (a : Attempt) :
    Unset A P (discover a s).2 ∧ ((discover a s).1 = true →
      (discover a s).2.client.psAddress = A ++ [58] ++ decimal P) := by
  have hfinal := hs.1.final a.others
  unfold discover
  rcases a.outcome with _ | _ | _
  · exact ⟨⟨hfinal, hs.2⟩, nofun⟩
  · exact ⟨⟨hfinal, hs.2⟩, nofun⟩
  · refine ⟨⟨hfinal, hs.2⟩, fun _ => ?_⟩
    rw [← hfinal.1, ← hfinal.2]
    rfl

/-- The registration puts the address alone in its place. -/
theorem register_spec (hs : Unset A P s) (ha : s.client.psAddress = A ++ [58] ++ decimal P)
    (a : Attempt) :
    Unset A P (register a s).2 ∧ (register a s).2.client.psAddress =
      if (register a s).1 then A else A ++ [58] ++ decimal P := by
  have hfinal := hs.1.final a.others
  have hne : s.client.psAddress ≠ [] ∧ s.client.psAddress ≠
      (CoordinatorCore.machine.final s.coordinator a.others).psAddress := by
    rw [ha, hfinal.1]
    exact ⟨by simp, endpoint_ne A P⟩
  have hclient : (register a s).2.client = if a.outcome = .answered then
      { s.client with
        psAddress := (CoordinatorCore.machine.final s.coordinator a.others).psAddress }
      else s.client := by
    unfold register
    rcases a.outcome with _ | _ | _
    · rfl
    · rfl
    · exact if_pos hne
  have hserves : Serves A P (register a s).2.coordinator := by
    unfold register
    rcases a.outcome <;> exact hfinal
  rw [Unset, hclient]
  by_cases hout : a.outcome = .answered
  · rw [if_pos hout, if_pos ((register_fst a s).mpr hout)]
    exact ⟨⟨hserves, hs.2⟩, hfinal.1⟩
  · rw [if_neg hout, if_neg (mt (register_fst a s).mp hout)]
    exact ⟨⟨hserves, hs.2⟩, ha⟩

theorem discoverParameterServer_spec (hs : Unset A P s) (attempts : ℕ → Attempt) :
    ((discoverParameterServer attempts s).1 = true →
      Unset A P (discoverParameterServer attempts s).2 ∧
      (discoverParameterServer attempts s).2.client.psAddress = A ++ [58] ++ decimal P) ∧
    ((discoverParameterServer attempts s).1 = false →
      Unset A P (discoverParameterServer attempts s).2) := by
  refine queryWithRetry_spec (I := Unset A P) (J := fun s : Session => Unset A P s ∧
    s.client.psAddress = A ++ [58] ++ decimal P) _ (fun i s h _ => ?_) (fun i s h ht => ?_)
    maxRetries 0 hs
  · exact (discover_spec h (attempts i)).1
  · exact ⟨(discover_spec h (attempts i)).1, (discover_spec h (attempts i)).2 ht⟩

theorem registerWithCoordinator_spec (hs : Unset A P s)
    (ha : s.client.psAddress = A ++ [58] ++ decimal P) (attempts : ℕ → Attempt) :
    ((registerWithCoordinator attempts s).1 = true →
      Unset A P (registerWithCoordinator attempts s).2 ∧
      (registerWithCoordinator attempts s).2.client.psAddress = A) ∧
    ((registerWithCoordinator attempts s).1 = false →
      Unset A P (registerWithCoordinator attempts s).2 ∧
      (registerWithCoordinator attempts s).2.client.psAddress = A ++ [58] ++ decimal P) := by
  refine queryWithRetry_spec (I := fun s : Session => Unset A P s ∧
      s.client.psAddress = A ++ [58] ++ decimal P)
    (J := fun s : Session => Unset A P s ∧ s.client.psAddress = A) _ (fun i s h ht => ?_)
    (fun i s h ht => ?_) maxRetries 0 ⟨hs, ha⟩
  · have hreg := register_spec h.1 h.2 (attempts i)
    rwa [if_neg (by simp [ht])] at hreg
  · have hreg := register_spec h.1 h.2 (attempts i)
    rwa [if_pos ht] at hreg

/-- The address without the port is what the worker is left with when it connects. -/
theorem initializeWorker_spec (hs : Unset A P s) (discovery registration : ℕ → Attempt) :
    ((s.initializeWorker discovery registration).1 = true ↔
      (∃ i < maxRetries, (discovery i).outcome = .answered) ∧
        ∃ i < maxRetries, (registration i).outcome = .answered) ∧
    Serves A P (s.initializeWorker discovery registration).2.coordinator ∧
    ((s.initializeWorker discovery registration).1 = true →
      (s.initializeWorker discovery registration).2.client.psAddress = A) ∧
    ((s.initializeWorker discovery registration).1 = false →
      (s.initializeWorker discovery registration).2.client.initialized = false) := by
  have hinit : ¬s.client.initialized = true := by simp [hs.2]
  rw [initializeWorker, if_neg hinit, ← discoverParameterServer_fst discovery s,
    ← registerWithCoordinator_fst registration (discoverParameterServer discovery s).2]
  have hd := discoverParameterServer_spec hs discovery
  generalize discoverParameterServer discovery s = d at hd ⊢
  rcases d with ⟨_ | _, t⟩
  · exact ⟨by simp, (hd.2 rfl).1, nofun, fun _ => (hd.2 rfl).2⟩
  · obtain ⟨ht, haddr⟩ := hd.1 rfl
    have hr := registerWithCoordinator_spec ht haddr registration
    dsimp only
    generalize registerWithCoordinator registration t = r at hr ⊢
    rcases r with ⟨_ | _, u⟩
    · exact ⟨by simp, (hr.2 rfl).1.1, nofun, fun _ => (hr.2 rfl).1.2⟩
    · exact ⟨by simp, (hr.1 rfl).1.1, fun _ => (hr.1 rfl).2, nofun⟩

/-- What a worker knows of the parameter server once it has connected. -/
def Connected (A : List UInt8) (P : Int32) (s : Session) : Prop :=
  Serves A P s.coordinator ∧ (s.client.initialized = true → s.client.psAddress = A)

/-- A call that connects starts the setup, and any other one is answered at once. -/
theorem step_cases (s : Session) (c : SetupCall) :
    (c.Connects s ∧ ∃ t : Session, t.client.initialized = false ∧ t.coordinator = s.coordinator ∧
      machine.step s c = t.initializeWorker c.discovery c.registration) ∨
    (¬c.Connects s ∧ s.client.initialized = true ∧ machine.step s c = (true, s)) := by
  dsimp only [machine, SetupCall.Connects]
  by_cases hc : c.reconnects = true
  · rw [if_pos hc]
    exact .inl ⟨.inl hc, { s with client := { s.client with initialized := false } }, rfl, rfl, rfl⟩
  · rw [if_neg hc]
    by_cases hs : s.client.initialized = true
    · refine .inr ⟨fun h => ?_, hs, if_pos hs⟩
      rcases h with h | h
      · exact hc h
      · simp [hs] at h
    · have hs : s.client.initialized = false := by simpa using hs
      exact .inl ⟨.inr hs, s, hs, rfl, rfl⟩

theorem Connected.step (h : Connected A P s) (c : SetupCall) :
    Connected A P (machine.step s c).2 := by
  rcases s.step_cases c with ⟨-, t, ht, hc, he⟩ | ⟨-, -, he⟩
  · obtain ⟨-, hserves, haddr, hfail⟩ :=
      initializeWorker_spec (A := A) (P := P) (s := t) ⟨hc ▸ h.1, ht⟩ c.discovery c.registration
    rw [he]
    refine ⟨hserves, fun hinit => haddr ?_⟩
    by_contra hnot
    rw [hfail (by simpa using hnot)] at hinit
    cases hinit
  · rw [he]
    exact h

end Address

/-- In every run of `initialize` and `reconnect` calls, a call that returns true leaves the worker
with the address of the parameter server without the port. A call is right about the endpoint only
when it connects and all attempts of its discovery or all those of its registration fail. -/
theorem endpoint_loses_port (s₀ : Session) (h₀ : s₀.client.initialized = false)
    (calls : List SetupCall) (c : SetupCall) :
    let s := machine.final s₀ calls
    let r := machine.step s c
    ((r.1 = true → r.2.client.psAddress =
        s₀.coordinator.psAddress ++ [58] ++ decimal s₀.coordinator.psPort) ↔
      c.Connects s ∧ ((∀ i < maxRetries, (c.discovery i).outcome ≠ .answered) ∨
        ∀ i < maxRetries, (c.registration i).outcome ≠ .answered)) ∧
    (r.1 = true → r.2.client.psAddress = s₀.coordinator.psAddress) := by
  intro s r
  have hs : Connected s₀.coordinator.psAddress s₀.coordinator.psPort s :=
    Machine.invariant_final (I := Connected s₀.coordinator.psAddress s₀.coordinator.psPort)
      (fun _ c h _ => h.step c) ⟨⟨rfl, rfl⟩, fun h => by simp [h₀] at h⟩
      (Machine.meets_true _ _ calls)
  have hne := endpoint_ne s₀.coordinator.psAddress s₀.coordinator.psPort
  rcases s.step_cases c with ⟨hconn, t, ht, hc, he⟩ | ⟨hconn, hinit, he⟩
  · obtain ⟨hfst, -, haddr, -⟩ :=
      initializeWorker_spec (s := t) ⟨hc ▸ hs.1, ht⟩ c.discovery c.registration
    dsimp only [r]
    rw [he]
    refine ⟨?_, haddr⟩
    rw [and_iff_right hconn]
    constructor
    · intro h
      have hnot : ¬((∃ i < maxRetries, (c.discovery i).outcome = .answered) ∧
          ∃ i < maxRetries, (c.registration i).outcome = .answered) := by
        intro hok
        have hdone := hfst.mpr hok
        exact hne ((h hdone).symm.trans (haddr hdone))
      rcases not_and_or.mp hnot with hdisc | hreg
      · exact .inl fun i hi hd => hdisc ⟨i, hi, hd⟩
      · exact .inr fun i hi hr => hreg ⟨i, hi, hr⟩
    · rintro hfail hdone
      obtain ⟨⟨i, hi, hd⟩, ⟨j, hj, hr⟩⟩ := hfst.mp hdone
      rcases hfail with hfail | hfail
      · exact absurd hd (hfail i hi)
      · exact absurd hr (hfail j hj)
  · dsimp only [r]
    rw [he]
    have haddr := hs.2 hinit
    refine ⟨iff_of_false (fun h => hne ((h rfl).symm.trans haddr)) fun h => hconn h.1,
      fun _ => haddr⟩

/-- A first `initialize`, whose every RPC is answered, against the coordinator of `ps:50051`. -/
theorem first_initialize_drops_port :
    let s : Session := ⟨⟨0, [], 0, [], false, 0⟩, .new [112, 115] 50051⟩
    let r := machine.step s ⟨false, fun _ => ⟨[], 0, .answered⟩, fun _ => ⟨[], 0, .answered⟩⟩
    r.1 = true ∧ r.2.client.psAddress = [112, 115] ∧
      s.coordinator.psAddress ++ [58] ++ decimal s.coordinator.psPort =
        [112, 115, 58, 53, 48, 48, 53, 49] := by
  decide

/-- The reconnect of a worker that is connected. Two attempts fail on the way. -/
theorem endpoint_loses_port_reconnect :
    let s₀ : Session := ⟨⟨0, [], 0, [], false, 0⟩, .new [112, 115] 50051⟩
    let answered : ℕ → Attempt := fun _ => ⟨[], 0, .answered⟩
    let s := machine.final s₀ [⟨false, answered, answered⟩]
    let r := machine.step s ⟨true,
      fun i => ⟨[.removeStaleWorkers 90000000000 30], 0, if i = 0 then .lost else .answered⟩,
      fun i => ⟨[], 100000000000, if i = 0 then .unanswered else .answered⟩⟩
    r.2.client.psAddress = [112, 115] := by
  intro s₀ answered s r
  have hdone : r.1 = true := by decide
  exact (endpoint_loses_port s₀ rfl [⟨false, answered, answered⟩] _).2 hdone

end Session

end ParamServer
