import ParamServer.Library.InsertionMap
import ParamServer.Server.Core

/-! `CoordinatorCore` and the handlers of `coordinator_service_impl`. Every operation of the core
runs under a lock, and every handler makes one call of it, at a time that the clock gives. -/

namespace ParamServer

open Library

/-- The message of a worker that registers. -/
structure WorkerInfo where
  workerId : Int32
  address : List UInt8
  port : Int32
  hostname : List UInt8
deriving DecidableEq

/-- `lastHeartbeat` counts the nanoseconds of the steady clock. -/
structure WorkerRegistryEntry where
  workerId : Int32
  address : List UInt8
  port : Int32
  hostname : List UInt8
  status : Int32
  lastHeartbeat : ℤ
deriving DecidableEq

/-- The registry holds every entry under its own worker id. -/
structure CoordinatorCore where
  psAddress : List UInt8
  psPort : Int32
  workers : InsertionMap Int32 WorkerRegistryEntry
  ids : ∀ w entry, workers.find? w = some entry → entry.workerId = w

/-- `duration_cast<seconds>(now - last)`. -/
def elapsedSeconds (now last : ℤ) : ℤ := (now - last).tdiv (10 ^ 9)

namespace CoordinatorCore

def new (psAddress : List UInt8) (psPort : Int32) : CoordinatorCore :=
  ⟨psAddress, psPort, .empty, fun _ _ h => by simp at h⟩

/-- Writes an entry under its own id. -/
def setEntry (s : CoordinatorCore) (entry : WorkerRegistryEntry) : CoordinatorCore :=
  { s with
    workers := s.workers.assign entry.workerId entry
    ids := fun w e h => by
      rw [InsertionMap.find?_assign] at h
      split at h
      · rename_i hw
        rw [← Option.some.inj h, hw]
      · exact s.ids w e h }

/-- Also gives `ps_address` and `total_workers`. -/
def registerWorker (s : CoordinatorCore) (now : ℤ) (workerInfo : WorkerRegistryEntry) :
    (Bool × List UInt8 × Int32) × CoordinatorCore :=
  let s := s.setEntry { workerInfo with lastHeartbeat := now }
  ((true, s.psAddress, Int32.ofNat s.workers.size), s)

def updateHeartbeat (s : CoordinatorCore) (now : ℤ) (workerId status : Int32) :
    Bool × CoordinatorCore :=
  match s.workers.find? workerId with
  | none => (false, s)
  | some it => (true, s.setEntry { it with lastHeartbeat := now, status := status })

/-- In the order of the hash table. -/
def listWorkers (s : CoordinatorCore) (ord : VisitOrder) : List WorkerRegistryEntry :=
  s.workers.inOrder (ord.visit s.workers.keys)

def getParameterServerAddress (s : CoordinatorCore) : List UInt8 × Int32 :=
  (s.psAddress, s.psPort)

def stale (now : ℤ) (timeoutSeconds : Int64) (entry : WorkerRegistryEntry) : Bool :=
  decide (timeoutSeconds.toInt < elapsedSeconds now entry.lastHeartbeat)

def removeStaleWorkers (s : CoordinatorCore) (now : ℤ) (timeoutSeconds : Int64) :
    CoordinatorCore :=
  { s with
    workers := s.workers.filter fun entry => !stale now timeoutSeconds entry
    ids := fun w entry h => by
      rw [InsertionMap.find?_filter, Option.filter_eq_some_iff] at h
      exact s.ids w entry h.1 }

section Entries

variable (s : CoordinatorCore) (now : ℤ)

@[simp] theorem find?_registerWorker (info : WorkerRegistryEntry) (w : Int32) :
    (s.registerWorker now info).2.workers.find? w =
      if w = info.workerId then some { info with lastHeartbeat := now }
      else s.workers.find? w := InsertionMap.find?_assign ..

theorem updateHeartbeat_of_none {w : Int32} (h : s.workers.find? w = none) (status : Int32) :
    s.updateHeartbeat now w status = (false, s) := by
  rw [updateHeartbeat, h]

theorem updateHeartbeat_of_some {w : Int32} {it : WorkerRegistryEntry}
    (h : s.workers.find? w = some it) (status : Int32) :
    s.updateHeartbeat now w status =
      (true, s.setEntry { it with lastHeartbeat := now, status := status }) := by
  rw [updateHeartbeat, h]

theorem updateHeartbeat_fst (w status : Int32) :
    (s.updateHeartbeat now w status).1 = (s.workers.find? w).isSome := by
  rcases h : s.workers.find? w with _ | it
  · rw [s.updateHeartbeat_of_none now h]
    rfl
  · rw [s.updateHeartbeat_of_some now h]
    rfl

theorem find?_updateHeartbeat_ne {w v : Int32} (hv : v ≠ w) (status : Int32) :
    (s.updateHeartbeat now w status).2.workers.find? v = s.workers.find? v := by
  rcases h : s.workers.find? w with _ | it
  · rw [s.updateHeartbeat_of_none now h]
  · rw [s.updateHeartbeat_of_some now h, setEntry, s.ids w it h]
    exact InsertionMap.find?_assign_ne _ hv _

theorem find?_updateHeartbeat_self {w : Int32} {it : WorkerRegistryEntry}
    (h : s.workers.find? w = some it) (status : Int32) :
    (s.updateHeartbeat now w status).2.workers.find? w =
      some { it with lastHeartbeat := now, status := status } := by
  rw [s.updateHeartbeat_of_some now h, setEntry, s.ids w it h, InsertionMap.find?_assign_self]

@[simp] theorem find?_removeStaleWorkers (timeoutSeconds : Int64) (w : Int32) :
    (s.removeStaleWorkers now timeoutSeconds).workers.find? w =
      (s.workers.find? w).filter fun entry => !stale now timeoutSeconds entry :=
  InsertionMap.find?_filter ..

end Entries

section Listing

variable (s : CoordinatorCore) (ord : VisitOrder)

theorem map_workerId_listWorkers :
    (s.listWorkers ord).map WorkerRegistryEntry.workerId = ord.visit s.workers.keys :=
  InsertionMap.map_inOrder (ord.perm _) s.ids

theorem nodup_listWorkers : ((s.listWorkers ord).map WorkerRegistryEntry.workerId).Nodup := by
  rw [map_workerId_listWorkers]
  exact (ord.perm _).nodup_iff.mpr s.workers.keys_nodup

theorem mem_listWorkers_iff (entry : WorkerRegistryEntry) :
    entry ∈ s.listWorkers ord ↔ s.workers.find? entry.workerId = some entry := by
  rw [listWorkers, InsertionMap.mem_inOrder_iff (ord.perm _)]
  constructor
  · rintro ⟨w, hw⟩
    rwa [s.ids w entry hw]
  · exact fun h => ⟨_, h⟩

theorem mem_ids_listWorkers_iff (w : Int32) :
    w ∈ (s.listWorkers ord).map WorkerRegistryEntry.workerId ↔ (s.workers.find? w).isSome := by
  rw [map_workerId_listWorkers, (ord.perm _).mem_iff, InsertionMap.find?_isSome_iff]

theorem length_listWorkers : (s.listWorkers ord).length = s.workers.size := by
  rw [← List.length_map WorkerRegistryEntry.workerId, map_workerId_listWorkers,
    (ord.perm _).length_eq, InsertionMap.size_eq_length_keys]

end Listing

end CoordinatorCore

structure RegisterResponse where
  success : Bool
  message : String
  parameterServerAddress : List UInt8
  totalWorkers : Int32
deriving DecidableEq

structure HeartbeatResponse where
  success : Bool
  timestamp : Int64

structure ListWorkersResponse where
  workers : List WorkerInfo
  totalWorkers : Int32

structure GetPSAddressResponse where
  address : List UInt8
  port : Int32

/-! The handlers. The registration cannot fail, so its other response is never given. -/

/-- The entry that a request asks for, before the core puts in the time. -/
def WorkerInfo.entry (request : WorkerInfo) : WorkerRegistryEntry :=
  ⟨request.workerId, request.address, request.port, request.hostname, 0, 0⟩

namespace CoordinatorService

variable (coordinator : CoordinatorCore)

def registerWorker (now : ℤ) (request : WorkerInfo) : RegisterResponse × CoordinatorCore :=
  let ((success, psAddr, totalWorkers), coordinator) :=
    coordinator.registerWorker now request.entry
  (if success then ⟨success, "worker registered", psAddr, totalWorkers⟩
    else ⟨success, "registration failed", [], 0⟩, coordinator)

/-- `timestamp` is what the system clock tells, in seconds. -/
def heartbeat (now : ℤ) (timestamp : Int64) (workerId status : Int32) :
    HeartbeatResponse × CoordinatorCore :=
  let (success, coordinator) := coordinator.updateHeartbeat now workerId status
  (⟨success, timestamp⟩, coordinator)

def listWorkers (ord : VisitOrder) : ListWorkersResponse :=
  let workers := coordinator.listWorkers ord
  ⟨workers.map fun w => ⟨w.workerId, w.address, w.port, w.hostname⟩, Int32.ofNat workers.length⟩

def getParameterServerAddress : GetPSAddressResponse :=
  let (address, port) := coordinator.getParameterServerAddress
  ⟨address, port⟩

theorem map_workerId_listWorkers (ord : VisitOrder) :
    (listWorkers coordinator ord).workers.map WorkerInfo.workerId =
      (coordinator.listWorkers ord).map WorkerRegistryEntry.workerId := List.map_map ..

end CoordinatorService

end ParamServer
