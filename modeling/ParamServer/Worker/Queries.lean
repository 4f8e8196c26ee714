import ParamServer.Service.Checkpoints
import ParamServer.Worker.Discovery

/-! What else a worker asks: the coordinator for its peers, and the server for a checkpoint. Peers
are those of the first answer that comes, and so those of the history up to it. -/

namespace ParamServer

open Library

section Retry

variable {σ : Type} {query : ℕ → σ → Bool × σ}

/-- The first attempt that succeeds ends the retries, in the state that the failed ones have
brought about. -/
theorem queryWithRetry_of_first {st : ℕ → σ} {retries attempt i : ℕ} (hi : i < retries)
    (hfail : ∀ j < i, query (attempt + j) (st j) = (false, st (j + 1)))
    (hok : (query (attempt + i) (st i)).1 = true) :
    queryWithRetry query retries attempt (st 0) = (true, (query (attempt + i) (st i)).2) := by
  induction retries generalizing attempt i st with
  | zero => cases hi
  | succ n ih =>
    rw [queryWithRetry]
    cases i with
    | zero =>
      rw [Nat.add_zero] at hok ⊢
      generalize query attempt (st 0) = r at hok ⊢
      obtain ⟨_ | _, s⟩ := r
      · cases hok
      · rfl
    | succ i =>
      have hhead := hfail 0 (Nat.zero_lt_succ i)
      rw [Nat.add_zero] at hhead
      rw [hhead]
      have hshift : ∀ j, attempt + 1 + j = attempt + (j + 1) := fun j =>
        Nat.add_right_comm attempt 1 j
      rw [← hshift i] at hok ⊢
      have hlater : ∀ j < i, query (attempt + 1 + j) (st (j + 1)) = (false, st (j + 1 + 1)) := by
        intro j hj
        rw [hshift]
        exact hfail (j + 1) (Nat.succ_lt_succ hj)
      exact ih (Nat.lt_of_succ_lt_succ hi) hlater hok

end Retry

namespace Session

/-- `address:port`, as peers are told apart. -/
def endpoint (worker : WorkerInfo) : List UInt8 := worker.address ++ [58] ++ decimal worker.port

/-- The peers in an answer, which are the workers of the list but for the one that asks. -/
def peersOf (workerId : Int32) (resp : ListWorkersResponse) : List (List UInt8) :=
  (resp.workers.filter fun worker => worker.workerId ≠ workerId).map endpoint

/-- One attempt of `discover_peer_workers`, with the peers found so far. -/
def listPeers (ord : VisitOrder) (a : Attempt) (found : List (List UInt8) × Session) :
    Bool × List (List UInt8) × Session :=
  let (peers, s) := found
  let coordinator := CoordinatorCore.machine.final s.coordinator a.others
  match a.outcome with
  | .answered =>
    (true, peersOf s.client.workerId (CoordinatorService.listWorkers coordinator ord),
      ⟨s.client, coordinator⟩)
  | _ => (false, peers, ⟨s.client, coordinator⟩)

def discoverPeerWorkers (ord : VisitOrder) (attempts : ℕ → Attempt) (s : Session) :
    List (List UInt8) × Session :=
  (queryWithRetry (fun i => listPeers ord (attempts i)) maxRetries 0 ([], s)).2

section Peers

variable (ord : VisitOrder) (attempts : ℕ → Attempt) (s : Session)

theorem listPeers_fst (a : Attempt) (found : List (List UInt8) × Session) :
    (listPeers ord a found).1 = true ↔ a.outcome = .answered := by
  unfold listPeers
  rcases a.outcome <;> simp

theorem listPeers_fail {a : Attempt} (h : a.outcome ≠ .answered) (peers : List (List UInt8)) :
    listPeers ord a (peers, s) =
      (false, peers, ⟨s.client, CoordinatorCore.machine.final s.coordinator a.others⟩) := by
  unfold listPeers
  rcases hout : a.outcome with _ | _ | _
  · rfl
  · rfl
  · exact absurd hout h

/-- The calls that the coordinator serves before attempt `n`. -/
def served (n : ℕ) : List CoordinatorCall := (List.range n).flatMap fun i => (attempts i).others

theorem served_succ (n : ℕ) :
    served attempts (n + 1) = served attempts n ++ (attempts n).others := by
  rw [served, List.range_succ, List.flatMap_append, List.flatMap_singleton, served]

/-- The peers are those of the first attempt that is answered. -/
theorem discoverPeerWorkers_of_first {i : ℕ} (hi : i < maxRetries)
    (hfail : ∀ j < i, (attempts j).outcome ≠ .answered)
    (hok : (attempts i).outcome = .answered) :
    discoverPeerWorkers ord attempts s =
      let coordinator := CoordinatorCore.machine.final s.coordinator (served attempts (i + 1))
      (peersOf s.client.workerId (CoordinatorService.listWorkers coordinator ord),
        ⟨s.client, coordinator⟩) := by
  let st : ℕ → List (List UInt8) × Session := fun n =>
    ([], ⟨s.client, CoordinatorCore.machine.final s.coordinator (served attempts n)⟩)
  have hstep : ∀ n, CoordinatorCore.machine.final s.coordinator (served attempts (n + 1)) =
      CoordinatorCore.machine.final
        (CoordinatorCore.machine.final s.coordinator (served attempts n)) (attempts n).others := by
    intro n
    rw [served_succ, Machine.final_append]
  have hquery : ∀ j < i, listPeers ord (attempts (0 + j)) (st j) = (false, st (j + 1)) := by
    intro j hj
    rw [Nat.zero_add, listPeers_fail ord _ (hfail j hj)]
    dsimp only [st]
    rw [hstep]
  have hanswer : (listPeers ord (attempts (0 + i)) (st i)).1 = true := by
    rw [Nat.zero_add, listPeers_fst, hok]
  have hfirst : queryWithRetry (fun i => listPeers ord (attempts i)) maxRetries 0 (st 0) =
      (true, (listPeers ord (attempts (0 + i)) (st i)).2) :=
    queryWithRetry_of_first hi hquery hanswer
  rw [discoverPeerWorkers, show ([], s) = st 0 from rfl, hfirst, Nat.zero_add]
  dsimp only
  rw [hstep]
  unfold listPeers
  rw [hok]

theorem discoverPeerWorkers_of_none (h : ∀ i < maxRetries, (attempts i).outcome ≠ .answered) :
    (discoverPeerWorkers ord attempts s).1 = [] := by
  have hfail : (queryWithRetry (fun i => listPeers ord (attempts i)) maxRetries 0 ([], s)).1 =
      false := by
    rw [← Bool.not_eq_true,
      queryWithRetry_fst_iff _ fun i found => listPeers_fst ord (attempts i) found]
    rintro ⟨i, hi, hok⟩
    rw [Nat.zero_add] at hok
    exact h i hi hok
  refine (queryWithRetry_spec (I := fun found : List (List UInt8) × Session => found.1 = [])
    (J := fun _ => True) _ (fun i found hfound hno => ?_) (fun _ _ _ _ => trivial) maxRetries 0
    rfl).2 hfail
  have hnot : (attempts i).outcome ≠ .answered := fun hout =>
    Bool.false_ne_true (hno.symm.trans ((listPeers_fst ord (attempts i) found).mpr hout))
  rw [listPeers_fail ord found.2 hnot]
  exact hfound

/-- What an answer of the coordinator tells about the others, when its registry is that of the
history `es`. -/
theorem peersOf_listWorkers (workerId : Int32) {coordinator : CoordinatorCore}
    {es : List CoordinatorEvent} (h : ∀ w, Tracked id w es (coordinator.workers.find? w)) :
    ∃ workers : List WorkerInfo,
      peersOf workerId (CoordinatorService.listWorkers coordinator ord) = workers.map endpoint ∧
        (workers.map WorkerInfo.workerId).Nodup ∧
        (∀ w, w ∈ workers.map WorkerInfo.workerId ↔ w ≠ workerId ∧ Kept id w es) ∧
        ∀ worker ∈ workers, ∃ now info post, RegisteredSince worker.workerId es now info post ∧
          worker.address = info.address ∧ worker.port = info.port ∧
          worker.hostname = info.hostname := by
  have hids := CoordinatorService.map_workerId_listWorkers coordinator ord
  refine ⟨_, rfl, ?_, fun w => ?_, fun worker hworker => ?_⟩
  · have hall : ((CoordinatorService.listWorkers coordinator ord).workers.map
        WorkerInfo.workerId).Nodup := hids ▸ coordinator.nodup_listWorkers ord
    exact hall.sublist (List.filter_sublist.map _)
  · have hlisted : w ∈ (CoordinatorService.listWorkers coordinator ord).workers.map
        WorkerInfo.workerId ↔ Kept id w es := by
      rw [hids, CoordinatorCore.mem_ids_listWorkers_iff, (h w).kept_iff]
    rw [← hlisted]
    simp only [List.mem_map, List.mem_filter, decide_eq_true_eq]
    constructor
    · rintro ⟨worker, ⟨hmem, hne⟩, rfl⟩
      exact ⟨hne, worker, hmem, rfl⟩
    · rintro ⟨hne, worker, hmem, rfl⟩
      exact ⟨worker, ⟨hmem, hne⟩, rfl⟩
  · obtain ⟨entry, hentry, rfl⟩ := List.mem_map.mp (List.mem_filter.mp hworker).1
    have hw := h entry.workerId
    rw [(coordinator.mem_listWorkers_iff ord entry).mp hentry] at hw
    obtain ⟨now, info, post, hs, -, ha, hp, hh, -⟩ := hw
    exact ⟨now, info, post, hs, ha, hp, hh⟩

end Peers

/-- The peers of a worker, at any point of any history of the coordinator and however the attempts
go: none when no attempt is answered, and otherwise one for each other worker that has registered
and been heard of in time before every cleanup since, at what it has registered last. -/
theorem peers_follow_history (psAddress : List UInt8) (psPort : Int32) (ord : VisitOrder)
    (client : WorkerClient) (past : List CoordinatorCall) (attempts : ℕ → Attempt) :
    let s : Session := ⟨client, CoordinatorCore.machine.final (.new psAddress psPort) past⟩
    let peers := (discoverPeerWorkers ord attempts s).1
    ((∀ i < maxRetries, (attempts i).outcome ≠ .answered) → peers = []) ∧
    ∀ i < maxRetries, (∀ j < i, (attempts j).outcome ≠ .answered) →
      (attempts i).outcome = .answered →
      let calls := past ++ served attempts (i + 1)
      let es := calls.zip (CoordinatorCore.machine.outputs (.new psAddress psPort) calls)
      ∃ workers : List WorkerInfo, peers = workers.map endpoint ∧
        (workers.map WorkerInfo.workerId).Nodup ∧
        (∀ w, w ∈ workers.map WorkerInfo.workerId ↔ w ≠ client.workerId ∧ Kept id w es) ∧
        ∀ worker ∈ workers, ∃ now info post, RegisteredSince worker.workerId es now info post ∧
          worker.address = info.address ∧ worker.port = info.port ∧
          worker.hostname = info.hostname := by
  intro s peers
  refine ⟨discoverPeerWorkers_of_none ord attempts s, fun i hi hfail hok => ?_⟩
  intro calls es
  have hpeers : peers = _ :=
    congrArg Prod.fst (discoverPeerWorkers_of_first ord attempts s hi hfail hok)
  rw [hpeers]
  dsimp only
  rw [← Machine.final_append]
  exact peersOf_listWorkers ord client.workerId
    (CoordinatorCore.tracked_final psAddress psPort rfl calls)

/-- The first attempt is lost, and worker 1 registers before the second. -/
example :
    let coordinator := (CoordinatorCore.new [] 0).registerWorker 0 ⟨0, [97], 6, [], 0, 0⟩
    (discoverPeerWorkers .insertion
      (fun i => if i = 0 then ⟨[], 0, .lost⟩ else
        ⟨[.registerWorker 1 ⟨1, [98], 7, [], 0, 0⟩], 2, .answered⟩)
      ⟨⟨0, [97], 6, [], true, 0⟩, coordinator.2⟩).1 = [[98, 58, 55]] := by
  decide

section Load

variable {V : Type} [Word V] (alloc : Allocator) (uninit : ℕ → Int32) (path : List UInt8)

/-- A worker that does not know the server looks for it. -/
def findServer (discovery : ℕ → Attempt) (s : Session) : Bool × Session :=
  if s.client.initialized = false ∧ s.client.psAddress = [] then
    discoverParameterServer discovery s
  else (true, s)

theorem findServer_fst (discovery : ℕ → Attempt) (s : Session) :
    (s.findServer discovery).1 = true ↔ s.client.initialized = true ∨ s.client.psAddress ≠ [] ∨
      ∃ i < maxRetries, (discovery i).outcome = .answered := by
  unfold findServer
  split
  · rename_i h
    rw [discoverParameterServer_fst, h.1, h.2]
    simp
  · rename_i h
    rw [not_and_or, Bool.not_eq_false] at h
    exact iff_of_true rfl (h.imp_right .inl)

/-- `load_checkpoint_from_server` with the caller's `epoch`; `outcome` is that of its RPC. A handler
that throws ends with a status that is not OK. -/
def loadCheckpointFromServer (discovery : ℕ → Attempt) (outcome : RpcOutcome) (epoch : Int32)
    (s : Session) (server : CheckpointService V) :
    (Bool × Int32) × Session × CheckpointService V :=
  match s.findServer discovery, outcome with
  | (false, s), _ | (true, s), .lost => ((false, epoch), s, server)
  | (true, s), .unanswered => ((false, epoch), s, (server.loadCheckpoint alloc uninit path).2)
  | (true, s), .answered =>
    match server.loadCheckpoint alloc uninit path with
    | (some resp, server) => ((resp.success, if resp.success then resp.epoch else epoch), s, server)
    | (none, server) => ((false, epoch), s, server)

/-- A worker is told the truth about a checkpoint that has been saved, unless it learns nothing: the
answer may get lost after the server has loaded the file. -/
theorem loadCheckpointFromServer_image {ts : List (Tensor V)} (hfits : alloc.Fits ts)
    (discovery : ℕ → Attempt) (outcome : RpcOutcome) (epoch : Int32) (s : Session)
    {server : CheckpointService V} {marked iteration : Int32} {rest : List UInt8}
    (hfile : server.files path = some (checkpointImage marked iteration ts ++ rest)) :
    let asked := s.client.initialized = true ∨ s.client.psAddress ≠ [] ∨
      ∃ i < maxRetries, (discovery i).outcome = .answered
    let r := s.loadCheckpointFromServer alloc uninit path discovery outcome epoch server
    (r.1.1 = true ↔ asked ∧ outcome = .answered) ∧ r.1.2 = (if r.1.1 then marked else epoch) ∧
      r.2.2.files = server.files ∧
      (asked ∧ outcome ≠ .lost → r.2.2.ps =
        { server.ps with parameters := ts, currentIteration := iteration }) ∧
      (¬(asked ∧ outcome ≠ .lost) → r.2.2.ps = server.ps) := by
  intro asked r
  have hload : server.loadCheckpoint alloc uninit path =
      (some ⟨true, "checkpoint loaded", marked, ts⟩, { server with
        ps := { server.ps with parameters := ts, currentIteration := iteration } }) := by
    unfold CheckpointService.loadCheckpoint
    rw [hfile, ParameterServerCore.loadCheckpoint_image uninit hfits]
    rfl
  have hasked := s.findServer_fst discovery
  have hr : r = s.loadCheckpointFromServer alloc uninit path discovery outcome epoch server := rfl
  clear_value r
  unfold loadCheckpointFromServer at hr
  generalize s.findServer discovery = found at hasked hr
  obtain ⟨_ | _, t⟩ := found
  · have hnot : ¬asked := fun h => Bool.false_ne_true (hasked.mpr h)
    subst hr
    simp [hnot]
  · have hasked : asked := hasked.mp rfl
    rcases outcome with _ | _ | _
    · subst hr
      simp
    · subst hr
      simp [hasked, hload]
    · rw [hload] at hr
      subst hr
      simp [hasked]

end Load

end Session

end ParamServer
