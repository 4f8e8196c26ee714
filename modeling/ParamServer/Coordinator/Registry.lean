import ParamServer.Coordinator.Core
import ParamServer.Library.Machine

/-! The registry after any run of calls, as a function of the history: who has registered, who
has been heard of since, and how long before each cleanup. -/

namespace ParamServer

open Library

/-- The calls, with the time at which each one that reads the clock runs. -/
inductive CoordinatorCall
  | registerWorker (now : ℤ) (workerInfo : WorkerRegistryEntry)
  | updateHeartbeat (now : ℤ) (workerId status : Int32)
  | listWorkers (ord : VisitOrder)
  | removeStaleWorkers (now : ℤ) (timeoutSeconds : Int64)

inductive CoordinatorReply
  | registered (success : Bool) (psAddress : List UInt8) (totalWorkers : Int32)
  | heartbeat (success : Bool)
  | listed (workers : List WorkerRegistryEntry)
  | removed

abbrev CoordinatorEvent : Type := CoordinatorCall × CoordinatorReply

def CoordinatorCore.machine : Machine CoordinatorCore CoordinatorCall CoordinatorReply where
  step s
    | .registerWorker now info =>
      let ((success, psAddress, totalWorkers), s) := s.registerWorker now info
      (.registered success psAddress totalWorkers, s)
    | .updateHeartbeat now workerId status =>
      (.heartbeat (s.updateHeartbeat now workerId status).1,
        (s.updateHeartbeat now workerId status).2)
    | .listWorkers ord => (.listed (s.listWorkers ord), s)
    | .removeStaleWorkers now timeoutSeconds =>
      (.removed, s.removeStaleWorkers now timeoutSeconds)

def CoordinatorCall.Registers (w : Int32) : CoordinatorCall → Prop
  | .registerWorker _ info => info.workerId = w
  | _ => False

/-- The time of a heartbeat of `w`, if one with its answer counts. -/
def heartbeatTime (counts : Bool → Bool) (w : Int32) : CoordinatorEvent → Option ℤ
  | (.updateHeartbeat now workerId _, .heartbeat success) =>
    if workerId = w ∧ counts success then some now else none
  | _ => none

/-- When `w` was last heard of, for a registration and what came after it. -/
def lastContact (counts : Bool → Bool) (w : Int32) (registered : ℤ)
    (es : List CoordinatorEvent) : ℤ :=
  (es.reverse.findSome? (heartbeatTime counts w)).getD registered

/-- The latest registration of `w`, and everything after it. -/
def RegisteredSince (w : Int32) (es : List CoordinatorEvent) (now : ℤ)
    (info : WorkerRegistryEntry) (post : List CoordinatorEvent) : Prop :=
  ∃ reply, LastAt (fun e => e.1.Registers w) es (.registerWorker now info, reply) post

/-- At every cleanup `w` had been heard of within the time that the cleanup allows. -/
def InTime (counts : Bool → Bool) (w : Int32) (registered : ℤ) (post : List CoordinatorEvent) :
    Prop :=
  AtEach (fun pre e => ∀ now timeoutSeconds, e.1 = .removeStaleWorkers now timeoutSeconds →
    elapsedSeconds now (lastContact counts w registered pre) ≤ timeoutSeconds.toInt) post

/-- `w` has registered, and every cleanup since its latest registration was in time. -/
def Kept (counts : Bool → Bool) (w : Int32) (es : List CoordinatorEvent) : Prop :=
  ∃ now info post, RegisteredSince w es now info post ∧ InTime counts w now post

variable {counts : Bool → Bool} {w : Int32} {es post : List CoordinatorEvent} {e : CoordinatorEvent}
  {registered : ℤ}

theorem lastContact_concat : lastContact counts w registered (post ++ [e]) =
    (heartbeatTime counts w e).getD (lastContact counts w registered post) := by
  rw [lastContact, List.reverse_append, List.findSome?_append, lastContact]
  rcases h : heartbeatTime counts w e with _ | t <;> simp [h]

theorem registeredSince_concat {now : ℤ} {info : WorkerRegistryEntry} (he : ¬e.1.Registers w) :
    RegisteredSince w (es ++ [e]) now info post ↔
      ∃ mid, post = mid ++ [e] ∧ RegisteredSince w es now info mid := by
  simp only [RegisteredSince, lastAt_concat_of_neg (p := fun e : CoordinatorEvent =>
    e.1.Registers w) he]
  constructor
  · rintro ⟨reply, mid, rfl, h⟩
    exact ⟨mid, rfl, reply, h⟩
  · rintro ⟨mid, rfl, reply, h⟩
    exact ⟨reply, mid, rfl, h⟩

theorem inTime_concat : InTime counts w registered (post ++ [e]) ↔
    InTime counts w registered post ∧ ∀ now timeoutSeconds,
      e.1 = .removeStaleWorkers now timeoutSeconds →
        elapsedSeconds now (lastContact counts w registered post) ≤ timeoutSeconds.toInt :=
  atEach_concat_iff

/-- What the history says about the entry of `w`, if there is one. -/
def Tracked (counts : Bool → Bool) (w : Int32) (es : List CoordinatorEvent) :
    Option WorkerRegistryEntry → Prop
  | none => ¬Kept counts w es
  | some entry => ∃ now info post, RegisteredSince w es now info post ∧
      InTime counts w now post ∧ entry.address = info.address ∧ entry.port = info.port ∧
      entry.hostname = info.hostname ∧ entry.lastHeartbeat = lastContact counts w now post

namespace Tracked

theorem kept_iff {o : Option WorkerRegistryEntry} (h : Tracked counts w es o) :
    o.isSome = true ↔ Kept counts w es := by
  cases o with
  | none => exact ⟨nofun, fun hk => absurd hk h⟩
  | some entry =>
    obtain ⟨now, info, post, hs, ht, -⟩ := h
    exact ⟨fun _ => ⟨now, info, post, hs, ht⟩, fun _ => rfl⟩

theorem of_register {now : ℤ} {info : WorkerRegistryEntry} (hw : info.workerId = w)
    (reply : CoordinatorReply) :
    Tracked counts w (es ++ [(.registerWorker now info, reply)])
      (some { info with lastHeartbeat := now }) := by
  have hs : LastAt (fun e : CoordinatorEvent => e.1.Registers w)
      (es ++ [(.registerWorker now info, reply)]) (.registerWorker now info, reply) [] := by
    refine (lastAt_concat_of_pos ?_).mpr ⟨rfl, rfl⟩
    exact hw
  exact ⟨now, info, [], ⟨reply, hs⟩, atEach_nil _, rfl, rfl, rfl, rfl⟩

/-- An event that is neither a registration of `w` nor a cleanup. -/
theorem concat {o : Option WorkerRegistryEntry} (h : Tracked counts w es o)
    (he : ¬e.1.Registers w)
    (hr : ∀ now timeoutSeconds, e.1 ≠ .removeStaleWorkers now timeoutSeconds)
    (ht : heartbeatTime counts w e = none ∨ o = none) : Tracked counts w (es ++ [e]) o := by
  cases o with
  | none =>
    rintro ⟨now, info, post', hs, hin⟩
    obtain ⟨post, rfl, hold⟩ := (registeredSince_concat he).mp hs
    exact h ⟨now, info, post, hold, (inTime_concat.mp hin).1⟩
  | some entry =>
    obtain ⟨now, info, post, hs, hin, ha, hp, hh, hl⟩ := h
    have ht : heartbeatTime counts w e = none := ht.resolve_right (by simp)
    refine ⟨now, info, post ++ [e], (registeredSince_concat he).mpr ⟨post, rfl, hs⟩,
      inTime_concat.mpr ⟨hin, fun now T h => absurd h (hr now T)⟩, ha, hp, hh, ?_⟩
    rw [lastContact_concat, ht, hl, Option.getD_none]

theorem heartbeat {it : WorkerRegistryEntry} (h : Tracked counts w es (some it))
    (hcounts : counts true = true) (now : ℤ) (status : Int32) :
    Tracked counts w (es ++ [(.updateHeartbeat now w status, .heartbeat true)])
      (some { it with lastHeartbeat := now, status := status }) := by
  obtain ⟨registered, info, post, hs, hin, ha, hp, hh, -⟩ := h
  refine ⟨registered, info, _, (registeredSince_concat (by simp [CoordinatorCall.Registers])).mpr
    ⟨post, rfl, hs⟩, inTime_concat.mpr ⟨hin, nofun⟩, ha, hp, hh, ?_⟩
  rw [lastContact_concat]
  simp [heartbeatTime, hcounts]

theorem removeStale {o : Option WorkerRegistryEntry} (h : Tracked counts w es o) (now : ℤ)
    (timeoutSeconds : Int64) (reply : CoordinatorReply) :
    Tracked counts w (es ++ [(.removeStaleWorkers now timeoutSeconds, reply)])
      (o.filter fun entry => !CoordinatorCore.stale now timeoutSeconds entry) := by
  have he : ¬(CoordinatorCall.removeStaleWorkers now timeoutSeconds).Registers w := id
  cases o with
  | none =>
    rintro ⟨registered, info, post', hs, hin⟩
    obtain ⟨post, rfl, hold⟩ := (registeredSince_concat he).mp hs
    exact h ⟨registered, info, post, hold, (inTime_concat.mp hin).1⟩
  | some entry =>
    obtain ⟨registered, info, post, hs, hin, ha, hp, hh, hl⟩ := h
    by_cases hstale : elapsedSeconds now entry.lastHeartbeat ≤ timeoutSeconds.toInt
    · rw [Option.filter_some_pos (by simpa [CoordinatorCore.stale] using hstale)]
      refine ⟨registered, info, _, (registeredSince_concat he).mpr ⟨post, rfl, hs⟩,
        inTime_concat.mpr ⟨hin, fun now' T hT => ?_⟩, ha, hp, hh, ?_⟩
      · cases hT
        rwa [← hl]
      · rw [lastContact_concat, hl]
        rfl
    · -- the entry goes, and the history has a cleanup that came too late for it
      rw [Option.filter_some_neg (by simpa [CoordinatorCore.stale] using hstale)]
      rintro ⟨registered', info', post', hs', hin'⟩
      obtain ⟨mid, rfl, hold⟩ := (registeredSince_concat he).mp hs'
      obtain ⟨reply₁, h₁⟩ := hs
      obtain ⟨reply₂, h₂⟩ := hold
      obtain ⟨hx, rfl⟩ := h₁.unique h₂
      cases hx
      rw [hl] at hstale
      exact hstale ((inTime_concat.mp hin').2 now timeoutSeconds rfl)

end Tracked

namespace CoordinatorCore

variable {s : CoordinatorCore}

/-- One call keeps the registry in line with the history. -/
theorem tracked_step (hcounts : counts true = true)
    (h : ∀ w, Tracked counts w es (s.workers.find? w)) (c : CoordinatorCall) (w : Int32) :
    Tracked counts w (es ++ [(c, (machine.step s c).1)])
      ((machine.step s c).2.workers.find? w) := by
  cases c with
  | registerWorker now info =>
    dsimp only [machine]
    rw [find?_registerWorker]
    split
    · rename_i hw
      exact .of_register hw.symm _
    · rename_i hw
      exact (h w).concat (fun hr => hw hr.symm) nofun (.inl rfl)
  | updateHeartbeat now v status =>
    have hreg : ¬(CoordinatorCall.updateHeartbeat now v status).Registers w := id
    dsimp only [machine]
    by_cases hw : w = v
    · subst hw
      rcases hf : s.workers.find? w with _ | it
      · rw [s.updateHeartbeat_of_none now hf, hf]
        exact (hf ▸ h w).concat hreg nofun (.inr rfl)
      · rw [s.find?_updateHeartbeat_self now hf, s.updateHeartbeat_fst, hf]
        exact (hf ▸ h w).heartbeat hcounts now status
    · rw [s.find?_updateHeartbeat_ne now hw]
      refine (h w).concat hreg nofun (.inl ?_)
      exact if_neg fun hv => hw hv.1.symm
  | listWorkers ord => exact (h w).concat id nofun (.inl rfl)
  | removeStaleWorkers now timeoutSeconds =>
    dsimp only [machine]
    rw [find?_removeStaleWorkers]
    exact (h w).removeStale now timeoutSeconds _

variable (psAddress : List UInt8) (psPort : Int32)

theorem tracked_final (hcounts : counts true = true) (cs : List CoordinatorCall) (w : Int32) :
    Tracked counts w (cs.zip (machine.outputs (new psAddress psPort) cs))
      ((machine.final (new psAddress psPort) cs).workers.find? w) := by
  induction cs using List.reverseRecOn generalizing w with
  | nil =>
    rintro ⟨now, info, post, ⟨reply, ⟨pre, he⟩, -⟩, -⟩
    simp at he
  | append_singleton cs c ih =>
    rw [Machine.zip_outputs_concat, Machine.final_append]
    exact tracked_step hcounts ih c w

/-- At every point of every run, the registry lists exactly the workers that have registered and
have been heard of in time before every cleanup since, under what they have registered last. The
total that a registration returns is the length of the list as an `int32_t`. -/
theorem registry_follows_history (cs : List CoordinatorCall) :
    let s := machine.final (new psAddress psPort) cs
    let es := cs.zip (machine.outputs (new psAddress psPort) cs)
    (∀ ord, ((s.listWorkers ord).map WorkerRegistryEntry.workerId).Nodup) ∧
    (∀ ord w, w ∈ (s.listWorkers ord).map WorkerRegistryEntry.workerId ↔ Kept id w es) ∧
    (∀ ord, ∀ entry ∈ s.listWorkers ord, ∃ now info post,
      RegisteredSince entry.workerId es now info post ∧ entry.address = info.address ∧
        entry.port = info.port ∧ entry.hostname = info.hostname) ∧
    (∀ now w status, (s.updateHeartbeat now w status).1 = true ↔ Kept id w es) ∧
    ∀ now info ord, (s.registerWorker now info).1.2.2 =
      Int32.ofNat ((s.registerWorker now info).2.listWorkers ord).length := by
  intro s es
  have h : ∀ w, Tracked id w es (s.workers.find? w) := tracked_final psAddress psPort rfl cs
  refine ⟨s.nodup_listWorkers, fun ord w => ?_, fun ord entry hentry => ?_,
    fun now w status => ?_, fun now info ord => ?_⟩
  · rw [mem_ids_listWorkers_iff, (h w).kept_iff]
  · have hw := h entry.workerId
    rw [(s.mem_listWorkers_iff ord entry).mp hentry] at hw
    obtain ⟨now, info, post, hs, -, ha, hp, hh, -⟩ := hw
    exact ⟨now, info, post, hs, ha, hp, hh⟩
  · rw [updateHeartbeat_fst, (h w).kept_iff]
  · rw [length_listWorkers]
    rfl

def registration (i : ℕ) : WorkerRegistryEntry := ⟨Int32.ofNat i, [], 0, [], 0, 0⟩

theorem size_registrations {n : ℕ} (hn : n ≤ 2 ^ 31) :
    let s := machine.final (new psAddress psPort)
      ((List.range n).map fun i => .registerWorker 0 (registration i))
    s.workers.size = n ∧ ∀ w ∈ s.workers.keySet, ∃ i < n, w = Int32.ofNat i := by
  induction n with
  | zero =>
    refine ⟨rfl, fun w hw => ?_⟩
    simp [machine, Machine.final, new, InsertionMap.keySet] at hw
  | succ n ih =>
    rw [List.range_succ, List.map_append, Machine.final_append]
    have hs := ih (by omega)
    generalize machine.final (new psAddress psPort)
      ((List.range n).map fun i => .registerWorker 0 (registration i)) = s at hs ⊢
    obtain ⟨hsize, hkeys⟩ := hs
    have hnew : Int32.ofNat n ∉ s.workers.keySet := by
      intro hmem
      obtain ⟨i, hi, he⟩ := hkeys _ hmem
      have htoInt := congrArg Int32.toInt he
      rw [Int32.toInt_ofNat_of_lt (by omega), Int32.toInt_ofNat_of_lt (by omega)] at htoInt
      omega
    refine ⟨?_, fun w hw => ?_⟩
    · exact (InsertionMap.size_assign_of_notMem hnew _).trans (congrArg (· + 1) hsize)
    · have hinsert : w ∈ insert (Int32.ofNat n) s.workers.keySet := by
        rw [← InsertionMap.keySet_assign s.workers (Int32.ofNat n) (registration n)]
        exact hw
      rcases Finset.mem_insert.mp hinsert with rfl | hold
      · exact ⟨n, Nat.lt_succ_self n, rfl⟩
      · obtain ⟨i, hi, he⟩ := hkeys w hold
        exact ⟨i, by omega, he⟩

theorem total_of_registrations {n : ℕ} (hn : n < 2 ^ 31) (ord : VisitOrder) :
    let s := machine.final (new psAddress psPort)
      ((List.range n).map fun i => .registerWorker 0 (registration i))
    (s.registerWorker 0 (registration n)).1.2.2 = Int32.ofNat (n + 1) ∧
      ((s.registerWorker 0 (registration n)).2.listWorkers ord).length = n + 1 := by
  intro s
  have hsize : (s.registerWorker 0 (registration n)).2.workers.size = n + 1 := by
    have h := (size_registrations psAddress psPort (n := n + 1) hn).1
    rw [List.range_succ, List.map_append, Machine.final_append] at h
    exact h
  refine ⟨?_, ?_⟩
  · rw [← hsize]
    rfl
  · rw [length_listWorkers, hsize]

/-- The total wraps around when the list gets too long for an `int32_t`. -/
theorem total_workers_wraps :
    let n := 2 ^ 31 - 1
    let s := machine.final (new [] 0)
      ((List.range n).map fun i => .registerWorker 0 (registration i))
    let r := s.registerWorker 0 (registration n)
    r.1.2.2.toInt = -2 ^ 31 ∧ (r.2.listWorkers .insertion).length = 2 ^ 31 := by
  intro n
  have hn : n + 1 = 2 ^ 31 := Nat.sub_add_cancel Nat.one_le_two_pow
  clear_value n
  obtain ⟨htotal, hlength⟩ := total_of_registrations [] 0 (n := n) (by omega) .insertion
  refine ⟨?_, hlength.trans hn⟩
  rw [htotal, hn]
  decide

end CoordinatorCore

end ParamServer
