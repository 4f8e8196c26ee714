import ParamServer.Coordinator.Registry

/-! The coordinator with its cleanup thread, and workers that register once and send heartbeats.
Messages may be delayed for any time or lost. A worker looks neither at the status nor at the
answer of a heartbeat, so that it never learns that it is not listed any more. -/

namespace ParamServer

open Library

/-- The side of a worker: `heartbeat_loop` sleeps until `wake`, or waits for the call `calls`. -/
structure HeartbeatThread where
  initialized : Bool
  waiting : Bool
  calls : ℕ
  wake : ℤ

/-- The system. `history` are the calls of the core with their answers; `exchanged` tells which
workers have processed an answer to a heartbeat since the latest cleanup. -/
structure HeartbeatSystem where
  coordinator : CoordinatorCore
  clock : ℤ
  nextCleanup : ℤ
  workers : Int32 → HeartbeatThread
  registrations : List WorkerInfo
  registered : List (Int32 × RegisterResponse)
  heartbeats : List (Int32 × ℕ × Int32)
  answers : List (Int32 × ℕ × HeartbeatResponse)
  history : List CoordinatorEvent
  exchanged : Int32 → Bool

inductive HeartbeatEvent
  | tick (nanoseconds : ℕ)
  | sendRegistration (info : WorkerInfo)
  | registerWorker (registration : ℕ)
  /-- `initialize` returns true. -/
  | finish (response : ℕ)
  | sendHeartbeat (worker status : Int32)
  | heartbeat (request : ℕ) (timestamp : Int64)
  | processAnswer (answer : ℕ)
  /-- The RPC of a heartbeat ends with a status that is not OK. -/
  | failHeartbeat (worker : Int32)
  | cleanup
  | dropRegistration (i : ℕ)
  | dropRegistered (i : ℕ)
  | dropHeartbeat (i : ℕ)
  | dropAnswer (i : ℕ)

namespace HeartbeatSystem

def seconds (n : ℕ) : ℤ := n * 10 ^ 9

def start (psAddress : List UInt8) (psPort : Int32) : HeartbeatSystem where
  coordinator := .new psAddress psPort
  clock := 0
  nextCleanup := seconds 10
  workers _ := ⟨false, false, 0, seconds 5⟩
  registrations := []
  registered := []
  heartbeats := []
  answers := []
  history := []
  exchanged _ := false

def setWorker (s : HeartbeatSystem) (w : Int32) (thread : HeartbeatThread) : HeartbeatSystem :=
  { s with workers := Function.update s.workers w thread }

/-- One event; one that cannot happen changes nothing. -/
def step (s : HeartbeatSystem) : HeartbeatEvent → HeartbeatSystem
  | .tick nanoseconds => { s with clock := s.clock + nanoseconds }
  | .sendRegistration info =>
    if (s.workers info.workerId).initialized then s
    else { s with registrations := s.registrations ++ [info] }
  | .registerWorker registration =>
    match s.registrations[registration]? with
    | none => s
    | some info =>
      let (response, coordinator) := CoordinatorService.registerWorker s.coordinator s.clock info
      { s with
        coordinator := coordinator
        registrations := s.registrations.eraseIdx registration
        registered := s.registered ++ [(info.workerId, response)]
        history := s.history ++ [(.registerWorker s.clock info.entry,
          .registered response.success response.parameterServerAddress response.totalWorkers)] }
  | .finish response =>
    match s.registered[response]? with
    | none => s
    | some (w, r) =>
      let s := { s with registered := s.registered.eraseIdx response }
      if r.success then s.setWorker w { s.workers w with initialized := true } else s
  | .sendHeartbeat worker status =>
    let thread := s.workers worker
    if thread.initialized ∧ ¬thread.waiting ∧ thread.wake ≤ s.clock then
      { s.setWorker worker { thread with waiting := true, calls := thread.calls + 1 } with
        heartbeats := s.heartbeats ++ [(worker, thread.calls + 1, status)] }
    else s
  | .heartbeat request timestamp =>
    match s.heartbeats[request]? with
    | none => s
    | some (w, call, status) =>
      let (response, coordinator) :=
        CoordinatorService.heartbeat s.coordinator s.clock timestamp w status
      { s with
        coordinator := coordinator
        heartbeats := s.heartbeats.eraseIdx request
        answers := s.answers ++ [(w, call, response)]
        history := s.history ++
          [(.updateHeartbeat s.clock w status, .heartbeat response.success)] }
  | .processAnswer answer =>
    match s.answers[answer]? with
    | none => s
    | some (w, call, _) =>
      let s := { s with answers := s.answers.eraseIdx answer }
      let thread := s.workers w
      if thread.waiting ∧ thread.calls = call then
        { s.setWorker w { thread with waiting := false, wake := s.clock + seconds 5 } with
          exchanged := Function.update s.exchanged w true }
      else s
  | .failHeartbeat worker =>
    let thread := s.workers worker
    if thread.waiting then
      s.setWorker worker { thread with waiting := false, wake := s.clock + seconds 5 }
    else s
  | .cleanup =>
    if s.nextCleanup ≤ s.clock then
      { s with
        coordinator := s.coordinator.removeStaleWorkers s.clock 30
        nextCleanup := s.clock + seconds 10
        history := s.history ++ [(.removeStaleWorkers s.clock 30, .removed)]
        exchanged := fun _ => false }
    else s
  | .dropRegistration i => { s with registrations := s.registrations.eraseIdx i }
  | .dropRegistered i => { s with registered := s.registered.eraseIdx i }
  | .dropHeartbeat i => { s with heartbeats := s.heartbeats.eraseIdx i }
  | .dropAnswer i => { s with answers := s.answers.eraseIdx i }

def machine : Machine HeartbeatSystem HeartbeatEvent Unit where
  step s e := ((), s.step e)

/-- What an event does to the core: nothing, or one call that is added to the history. -/
theorem step_core (s : HeartbeatSystem) (e : HeartbeatEvent) :
    ((s.step e).coordinator = s.coordinator ∧ (s.step e).history = s.history) ∨
      ∃ c, (s.step e).coordinator = (CoordinatorCore.machine.step s.coordinator c).2 ∧
        (s.step e).history =
          s.history ++ [(c, (CoordinatorCore.machine.step s.coordinator c).1)] ∧
        ∀ now timeoutSeconds, c = .removeStaleWorkers now timeoutSeconds →
          e = .cleanup ∧ s.nextCleanup ≤ s.clock ∧ now = s.clock ∧ timeoutSeconds = 30 := by
  cases e with
  | registerWorker registration =>
    dsimp only [step]
    split
    · exact .inl ⟨rfl, rfl⟩
    · rename_i info _
      exact .inr ⟨.registerWorker s.clock info.entry, rfl, rfl, nofun⟩
  | heartbeat request timestamp =>
    dsimp only [step]
    split
    · exact .inl ⟨rfl, rfl⟩
    · rename_i w call status _
      exact .inr ⟨.updateHeartbeat s.clock w status, rfl, rfl, nofun⟩
  | cleanup =>
    dsimp only [step]
    split
    · rename_i hdue
      refine .inr ⟨.removeStaleWorkers s.clock 30, rfl, rfl, fun now T h => ?_⟩
      cases h
      exact ⟨rfl, hdue, rfl, rfl⟩
    · exact .inl ⟨rfl, rfl⟩
  | tick | dropRegistration | dropRegistered | dropHeartbeat | dropAnswer => exact .inl ⟨rfl, rfl⟩
  | sendRegistration | sendHeartbeat | failHeartbeat =>
    dsimp only [step]
    split <;> exact .inl ⟨rfl, rfl⟩
  | finish | processAnswer =>
    dsimp only [step]
    split
    · exact .inl ⟨rfl, rfl⟩
    · split <;> exact .inl ⟨rfl, rfl⟩

variable {s : HeartbeatSystem} {w : Int32}

/-- The registry is in line with the history, in which every heartbeat that arrives counts. -/
def InLine (s : HeartbeatSystem) : Prop :=
  ∀ w, Tracked (fun _ => true) w s.history (s.coordinator.workers.find? w)

theorem InLine.step (h : InLine s) (e : HeartbeatEvent) : InLine (s.step e) := by
  intro w
  rcases s.step_core e with ⟨hc, hh⟩ | ⟨c, hc, hh, -⟩
  · rw [hc, hh]
    exact h w
  · rw [hc, hh]
    exact CoordinatorCore.tracked_step rfl h c w

def HasRegistered (w : Int32) (history : List CoordinatorEvent) : Prop :=
  ∃ e ∈ history, e.1.Registers w

/-- Workers with an answer have registered. -/
structure Enrolled (s : HeartbeatSystem) : Prop where
  registered : ∀ m ∈ s.registered, HasRegistered m.1 s.history
  initialized : ∀ w, (s.workers w).initialized = true → HasRegistered w s.history
  waiting : ∀ w, (s.workers w).waiting = true → (s.workers w).initialized = true
  exchanged : ∀ w, s.exchanged w = true → (s.workers w).initialized = true

/-- Whenever a cleanup runs, `w` has been heard of at most 30 whole seconds before, through its
latest registration or a heartbeat since. -/
def CleanupInTime (w : Int32) (s : HeartbeatSystem) (e : HeartbeatEvent) : Prop :=
  e = .cleanup → s.nextCleanup ≤ s.clock → ∀ now info post,
    RegisteredSince w s.history now info post →
      elapsedSeconds s.clock (lastContact (fun _ => true) w now post) ≤ 30

theorem HasRegistered.append {history : List CoordinatorEvent} (h : HasRegistered w history)
    (later : List CoordinatorEvent) : HasRegistered w (history ++ later) := by
  obtain ⟨e, he, hr⟩ := h
  exact ⟨e, List.mem_append_left _ he, hr⟩

theorem HasRegistered.of_concat {history : List CoordinatorEvent} {e : CoordinatorEvent}
    (h : HasRegistered w (history ++ [e])) (he : ¬e.1.Registers w) : HasRegistered w history := by
  obtain ⟨x, hx, hr⟩ := h
  rcases List.mem_append.mp hx with hx | hx
  · exact ⟨x, hx, hr⟩
  · rw [List.mem_singleton.mp hx] at hr
    exact absurd hr he

section Enrolled

/-- The history only grows, and answers may get lost. -/
theorem Enrolled.mono (h : Enrolled s) {s' : HeartbeatSystem}
    (hregistered : s'.registered ⊆ s.registered) (hhistory : s.history <+: s'.history)
    (hworkers : s'.workers = s.workers)
    (hexchanged : ∀ w, s'.exchanged w = true → s.exchanged w = true) : Enrolled s' := by
  have hgrow : ∀ w, HasRegistered w s.history → HasRegistered w s'.history := by
    obtain ⟨later, hlater⟩ := hhistory
    intro w hw
    rw [← hlater]
    exact hw.append later
  refine ⟨fun m hm => hgrow _ (h.registered m (hregistered hm)), ?_, ?_, ?_⟩
  · rw [hworkers]
    exact fun w hw => hgrow w (h.initialized w hw)
  · rw [hworkers]
    exact h.waiting
  · rw [hworkers]
    exact fun w hw => h.exchanged w (hexchanged w hw)

theorem Enrolled.setWorker (h : Enrolled s) {thread : HeartbeatThread}
    (hi : thread.initialized = true → HasRegistered w s.history)
    (hw : thread.waiting = true → thread.initialized = true)
    (hmono : (s.workers w).initialized = true → thread.initialized = true) :
    Enrolled (s.setWorker w thread) := by
  have hv : ∀ v, (s.setWorker w thread).workers v = if v = w then thread else s.workers v :=
    fun v => Function.update_apply ..
  refine ⟨h.registered, fun v => ?_, fun v => ?_, fun v hx => ?_⟩
  · rw [hv]
    split
    · rename_i he
      exact he ▸ hi
    · exact h.initialized v
  · rw [hv]
    split
    · exact hw
    · exact h.waiting v
  · rw [hv]
    split
    · rename_i he
      exact hmono (he ▸ h.exchanged v hx)
    · exact h.exchanged v hx

theorem Enrolled.step (h : Enrolled s) (e : HeartbeatEvent) : Enrolled (s.step e) := by
  have hsame : s.history <+: s.history := List.prefix_rfl
  cases e with
  | tick | dropRegistration | dropHeartbeat | dropAnswer =>
    exact h.mono (List.Subset.refl _) hsame rfl fun _ => id
  | dropRegistered i => exact h.mono (List.eraseIdx_subset ..) hsame rfl fun _ => id
  | sendRegistration =>
    dsimp only [HeartbeatSystem.step]
    split
    · exact h
    · exact h.mono (List.Subset.refl _) hsame rfl fun _ => id
  | registerWorker registration =>
    dsimp only [HeartbeatSystem.step]
    split
    · exact h
    · rename_i info _
      refine ⟨fun m hm => ?_, fun v hv => (h.initialized v hv).append _, h.waiting, h.exchanged⟩
      rcases List.mem_append.mp hm with hm | hm
      · exact (h.registered m hm).append _
      · rw [List.mem_singleton.mp hm]
        exact ⟨_, List.mem_append_right _ (List.mem_singleton_self _), rfl⟩
  | finish response =>
    dsimp only [HeartbeatSystem.step]
    split
    · exact h
    · rename_i v r hr
      have hrest : Enrolled { s with registered := s.registered.eraseIdx response } :=
        h.mono (List.eraseIdx_subset ..) hsame rfl fun _ => id
      split
      · exact hrest.setWorker (fun _ => h.registered _ (List.mem_of_getElem? hr)) (fun _ => rfl)
          fun _ => rfl
      · exact hrest
  | sendHeartbeat worker status =>
    dsimp only [HeartbeatSystem.step]
    split
    · rename_i hc
      have hs : Enrolled (s.setWorker worker { s.workers worker with
          waiting := true, calls := (s.workers worker).calls + 1 }) :=
        h.setWorker (h.initialized worker) (fun _ => hc.1) id
      exact hs.mono (List.Subset.refl _) List.prefix_rfl rfl fun _ => id
    · exact h
  | heartbeat request timestamp =>
    dsimp only [HeartbeatSystem.step]
    split
    · exact h
    · exact h.mono (List.Subset.refl _) (List.prefix_append ..) rfl fun _ => id
  | processAnswer answer =>
    dsimp only [HeartbeatSystem.step]
    split
    · exact h
    · rename_i v call r _
      have hrest : Enrolled { s with answers := s.answers.eraseIdx answer } :=
        h.mono (List.Subset.refl _) hsame rfl fun _ => id
      split
      · rename_i hc
        have hs : Enrolled (HeartbeatSystem.setWorker
            { s with answers := s.answers.eraseIdx answer } v
            { s.workers v with waiting := false, wake := s.clock + seconds 5 }) :=
          hrest.setWorker (h.initialized v) nofun id
        refine ⟨hs.registered, hs.initialized, hs.waiting, fun u hu => ?_⟩
        by_cases hv : u = v
        · -- a worker that waits for an answer has been initialized
          subst hv
          have hw := h.waiting u hc.1
          simpa [HeartbeatSystem.setWorker] using hw
        · have hold : Function.update s.exchanged v true u = true := hu
          rw [Function.update_of_ne hv] at hold
          exact hs.exchanged u hold
      · exact hrest
  | failHeartbeat worker =>
    dsimp only [HeartbeatSystem.step]
    split
    · exact h.setWorker (h.initialized worker) nofun id
    · exact h
  | cleanup =>
    dsimp only [HeartbeatSystem.step]
    split
    · exact h.mono (List.Subset.refl _) (List.prefix_append ..) rfl nofun
    · exact h

end Enrolled

theorem listed_step (h : InLine s) (hlisted : HasRegistered w s.history →
      (s.coordinator.workers.find? w).isSome = true) {e : HeartbeatEvent}
    (he : CleanupInTime w s e) (hr : HasRegistered w (s.step e).history) :
    ((s.step e).coordinator.workers.find? w).isSome = true := by
  rcases s.step_core e with ⟨hc, hh⟩ | ⟨c, hc, hh, hclean⟩
  · rw [hh] at hr
    rw [hc]
    exact hlisted hr
  · rw [hh] at hr
    rw [hc]
    cases c with
    | registerWorker now info =>
      dsimp only [CoordinatorCore.machine]
      rw [CoordinatorCore.find?_registerWorker]
      split
      · rfl
      · rename_i hw
        exact hlisted (hr.of_concat fun hreg => hw hreg.symm)
    | updateHeartbeat now v status =>
      have hsome := hlisted (hr.of_concat id)
      dsimp only [CoordinatorCore.machine]
      by_cases hw : w = v
      · subst hw
        obtain ⟨it, hit⟩ := Option.isSome_iff_exists.mp hsome
        rw [s.coordinator.find?_updateHeartbeat_self now hit]
        rfl
      · rwa [s.coordinator.find?_updateHeartbeat_ne now hw]
    | listWorkers ord => exact hlisted (hr.of_concat id)
    | removeStaleWorkers now timeoutSeconds =>
      obtain ⟨rfl, hdue, rfl, rfl⟩ := hclean now timeoutSeconds rfl
      obtain ⟨entry, hentry⟩ := Option.isSome_iff_exists.mp (hlisted (hr.of_concat id))
      obtain ⟨registered, info, post, hs, -, -, -, -, hlast⟩ := hentry ▸ h w
      have hstale := he rfl hdue registered info post hs
      rw [← hlast] at hstale
      dsimp only [CoordinatorCore.machine]
      rw [CoordinatorCore.find?_removeStaleWorkers, hentry,
        Option.filter_some_pos (by simpa [CoordinatorCore.stale] using hstale)]
      rfl

variable (psAddress : List UInt8) (psPort : Int32)

theorem inLine_final (es : List HeartbeatEvent) :
    InLine (machine.final (start psAddress psPort) es) :=
  Machine.invariant_final (I := InLine) (fun _ e h _ => h.step e)
    (CoordinatorCore.tracked_final psAddress psPort rfl []) (machine.meets_true _ es)

theorem enrolled_start : Enrolled (start psAddress psPort) := ⟨nofun, nofun, nofun, nofun⟩

/-- In every state of every run, a worker that has exchanged a heartbeat is listed exactly when it
had been heard of in time before every cleanup since its latest registration. Heartbeats that come
after a late one do not help. So it is listed in every state of a run whose cleanups are in time. -/
theorem exchanged_listed_iff (es : List HeartbeatEvent) :
    let s := machine.final (start psAddress psPort) es
    ∀ ord w, s.exchanged w = true →
      (w ∈ (CoordinatorService.listWorkers s.coordinator ord).workers.map WorkerInfo.workerId ↔
        Kept (fun _ => true) w s.history) ∧
      (machine.Meets (CleanupInTime w) (start psAddress psPort) es →
        w ∈ (CoordinatorService.listWorkers s.coordinator ord).workers.map
          WorkerInfo.workerId) := by
  intro s ord w hx
  have hstart : InLine (start psAddress psPort) := inLine_final psAddress psPort []
  have hline : InLine s := inLine_final psAddress psPort es
  have henrolled : Enrolled s :=
    Machine.invariant_final (I := Enrolled) (fun s e h _ => h.step e)
      (enrolled_start psAddress psPort) (machine.meets_true _ es)
  rw [CoordinatorService.map_workerId_listWorkers, CoordinatorCore.mem_ids_listWorkers_iff]
  refine ⟨(hline w).kept_iff, fun hes => ?_⟩
  have hlisted : InLine s ∧
      (HasRegistered w s.history → (s.coordinator.workers.find? w).isSome = true) :=
    Machine.invariant_final
      (I := fun s : HeartbeatSystem => InLine s ∧
        (HasRegistered w s.history → (s.coordinator.workers.find? w).isSome = true))
      (fun s e h he => ⟨h.1.step e, listed_step h.1 h.2 he⟩) ⟨hstart, nofun⟩ hes
  exact hlisted.2 (henrolled.initialized w (henrolled.exchanged w hx))

/-- A heartbeat takes 36 seconds, and meanwhile a cleanup removes the worker. It is answered and
the worker goes on, but nothing lists it again. -/
theorem exchanged_worker_unlisted :
    let s := machine.final (start [] 0) [.sendRegistration ⟨0, [], 0, []⟩, .registerWorker 0,
      .finish 0, .tick 5000000000, .sendHeartbeat 0 0, .tick 5000000000, .cleanup,
      .tick 10000000000, .cleanup, .tick 10000000000, .cleanup, .tick 10000000000, .cleanup,
      .tick 1000000000, .heartbeat 0 0, .processAnswer 0]
    s.exchanged 0 = true ∧
      0 ∉ (CoordinatorService.listWorkers s.coordinator .insertion).workers.map
        WorkerInfo.workerId := by
  decide +kernel

/-- Whether a cleanup that comes now finds the worker in time, by its entry. -/
def inTime (w : Int32) (s : HeartbeatSystem) : HeartbeatEvent → Bool
  | .cleanup => (s.coordinator.workers.find? w).any fun entry =>
      elapsedSeconds s.clock entry.lastHeartbeat ≤ 30
  | _ => true

theorem meets_cleanupInTime {es : List HeartbeatEvent}
    (h : machine.Meets (fun s e => inTime w s e = true) (start psAddress psPort) es) :
    machine.Meets (CleanupInTime w) (start psAddress psPort) es := by
  have hreached := machine.meets_reached (start psAddress psPort) [] es
  refine (machine.meets_and hreached h).mono ?_
  rintro _ _ ⟨⟨pre, -, rfl⟩, htime⟩ rfl - now info post ⟨reply, hlast⟩
  have hline := inLine_final psAddress psPort pre w
  dsimp only [inTime] at htime
  rcases hentry : (machine.final (start psAddress psPort) pre).coordinator.workers.find? w with
    _ | entry
  · rw [hentry] at htime
    cases htime
  · rw [hentry] at htime hline
    obtain ⟨now', info', post', ⟨reply', hlast'⟩, -, -, -, -, hcontact⟩ := hline
    obtain ⟨he, rfl⟩ := hlast.unique hlast'
    cases he
    rw [← hcontact]
    exact of_decide_eq_true htime

/-- Two cleanups run between the heartbeats of a worker. -/
theorem exchanged_listed_iff_one_worker :
    let exchange : List HeartbeatEvent := [.sendHeartbeat 0 0, .heartbeat 0 0, .processAnswer 0]
    let es : List HeartbeatEvent := [.sendRegistration ⟨0, [], 0, []⟩, .registerWorker 0,
      .finish 0, .tick 5000000000] ++ exchange ++ [.tick 5000000000, .cleanup] ++ exchange ++
      [.tick 10000000000, .cleanup] ++ exchange
    let s := machine.final (start [] 0) es
    s.history.length = 6 ∧ Kept (fun _ => true) 0 s.history ∧
      0 ∈ (CoordinatorService.listWorkers s.coordinator .insertion).workers.map
        WorkerInfo.workerId := by
  intro exchange es s
  have h := exchanged_listed_iff [] 0 es .insertion 0 (by decide +kernel)
  exact ⟨by decide +kernel, h.1.mp (by decide +kernel),
    h.2 (meets_cleanupInTime [] 0 (by decide +kernel))⟩

end HeartbeatSystem

end ParamServer
