import ParamServer.Service.Rollback
import ParamServer.Worker.Report

/-! Workers that are started with a checkpoint. Each of them asks the server for it before it pushes
anything, and no iteration is complete while one of them has yet to push: a load that comes while
others train already takes no update back. -/

namespace ParamServer

open Library

variable {V : Type}

/-- What a worker asks of the server that may change it. -/
inductive MainCall (V : Type)
  | load (path : List UInt8)
  | push (p : Push V)
deriving DecidableEq

/-- The push that a stage of `run_iteration` makes. -/
def RunIteration.pushed (workerId iteration : Int32) : RunIteration V → Option (MainCall V)
  | push _ grads => some (.push ⟨workerId, iteration, grads⟩)
  | _ => none

section Main

variable [Scalar V] (multiGpu : List (Tensor V) → List (Tensor V)) (workerId : Int32)

/-- The loop of `main` from iteration `it` on. The entries of `runs` are what comes of the RPCs of
one `run_iteration` each. -/
def mainLoop : (it : ℕ) → (runs : List (List (Option (Response V)))) → List (MainCall V)
  | _, [] => []
  | it, outcomes :: runs =>
    ((RunIteration.calls multiGpu).outputs (.attempt 0) outcomes).filterMap
      (RunIteration.pushed workerId (Int32.ofNat it)) ++ mainLoop (it + 1) runs

/-- `main` goes on with its iterations also when the load has failed. -/
def workerMain (checkpointPath : List UInt8) (runs : List (List (Option (Response V)))) :
    List (MainCall V) :=
  (if checkpointPath ≠ [] then [.load checkpointPath] else []) ++ mainLoop multiGpu workerId 0 runs

variable {multiGpu workerId}

theorem mem_mainLoop {it : ℕ} {runs : List (List (Option (Response V)))} {call : MainCall V}
    (h : call ∈ mainLoop multiGpu workerId it runs) :
    ∃ p : Push V, call = .push p ∧ p.workerId = workerId := by
  induction runs generalizing it with
  | nil => cases h
  | cons outcomes runs ih =>
    rcases List.mem_append.mp h with h | h
    · obtain ⟨stage, -, hstage⟩ := List.mem_filterMap.mp h
      cases stage with
      | push retryCount grads => exact ⟨_, (Option.some.inj hstage).symm, rfl⟩
      | pull | poll | recheck | returned => cases hstage
    · exact ih h

variable {checkpointPath : List UInt8} {runs : List (List (Option (Response V)))}

theorem workerId_of_mem_workerMain {p : Push V}
    (h : .push p ∈ workerMain multiGpu workerId checkpointPath runs) : p.workerId = workerId := by
  rcases List.mem_append.mp h with h | h
  · split at h
    · cases List.mem_singleton.mp h
    · cases h
  · obtain ⟨q, hq, hworker⟩ := mem_mainLoop h
    cases hq
    exact hworker

/-- Nothing that a worker asks for comes before its load. -/
theorem eq_nil_of_load_workerMain {calls : List (MainCall V)} {path : List UInt8}
    (h : (calls ++ [MainCall.load path]).Sublist
      (workerMain multiGpu workerId checkpointPath runs)) :
    calls = [] := by
  obtain ⟨first, later, hsplit, hfirst, hlater⟩ := List.sublist_append_iff.mp h
  have hnil : later = [] := by
    rcases List.eq_nil_or_concat' later with hnil | ⟨later, call, rfl⟩
    · exact hnil
    · rw [← List.append_assoc] at hsplit
      obtain ⟨p, hp, -⟩ := mem_mainLoop (hlater.subset (List.mem_append_right _ List.mem_cons_self))
      rw [hp] at hsplit
      cases (List.append_singleton_inj.mp hsplit).2
  have hlength : first.length ≤ 1 := hfirst.length_le.trans (by split <;> simp)
  rw [hnil, List.append_nil] at hsplit
  rw [← hsplit, List.length_append, List.length_singleton] at hlength
  exact List.eq_nil_of_length_eq_zero (Nat.le_zero.mp (Nat.le_of_succ_le_succ hlength))

end Main

/-- What happens at a server that workers are started against. -/
inductive StartupEvent (V : Type)
  | call (worker : Int32) (call : MainCall V) (alloc : Allocator) (uninit : ℕ → Int32)
  | save (opens : Bool) (epoch : Int32) (path : List UInt8)
  | wake
  | write (opens : Bool)

namespace StartupEvent

def toProcess : StartupEvent V → ProcessEvent V
  | call _ (.push p) _ _ => .push p
  | call _ (.load path) alloc uninit => .load path alloc uninit
  | save opens epoch path => .save opens epoch path
  | wake => .wake
  | write opens => .write opens

def callOf (w : Int32) : StartupEvent V → Option (MainCall V)
  | call worker c _ _ => if worker = w then some c else none
  | _ => none

def push? (e : StartupEvent V) : Option (Push V) := e.toProcess.push?

def isLoad : StartupEvent V → Bool
  | call _ (.load _) _ _ => true
  | _ => false

/-- A run as far as its last load. -/
def upToLastLoad (es : List (StartupEvent V)) : List (StartupEvent V) := es.rdropWhile (!·.isLoad)

theorem callOf_of_push? {e : StartupEvent V} {p : Push V} (h : e.push? = some p) :
    ∃ worker, e.callOf worker = some (.push p) := by
  cases e with
  | call worker c alloc uninit =>
    cases c with
    | push q =>
      cases h
      exact ⟨worker, if_pos rfl⟩
    | load path => cases h
  | save | wake | write => cases h

variable [Scalar V]

/-- The workers in `W` run their `main`. Their requests may be lost on the way to the server, but
do not overtake each other. -/
def Started (W : Finset Int32) (multiGpu : Int32 → List (Tensor V) → List (Tensor V))
    (checkpointPath : Int32 → List UInt8) (runs : Int32 → List (List (Option (Response V))))
    (es : List (StartupEvent V)) : Prop :=
  ∀ w, (es.filterMap (callOf w)).Sublist
    (if w ∈ W then workerMain (multiGpu w) w (checkpointPath w) (runs w) else [])

section Started

variable {W : Finset Int32} {multiGpu : Int32 → List (Tensor V) → List (Tensor V)}
  {checkpointPath : Int32 → List UInt8} {runs : Int32 → List (List (Option (Response V)))}
  {es : List (StartupEvent V)}

theorem Started.init {e : StartupEvent V}
    (h : Started W multiGpu checkpointPath runs (es ++ [e])) :
    Started W multiGpu checkpointPath runs es := by
  intro w
  have hw := h w
  rw [List.filterMap_append] at hw
  exact (List.sublist_append_left ..).trans hw

/-- Who has pushed has been started, and is not one that the server has not heard of. -/
theorem Started.pusher (h : Started W multiGpu checkpointPath runs es) {p : Push V}
    (hp : p ∈ es.filterMap push?) :
    p.workerId ∈ W ∧ .push p ∈ es.filterMap (callOf p.workerId) := by
  obtain ⟨e, he, hpush⟩ := List.mem_filterMap.mp hp
  obtain ⟨worker, hcall⟩ := callOf_of_push? hpush
  have hmem := List.mem_filterMap.mpr ⟨e, he, hcall⟩
  have hprogram := (h worker).subset hmem
  split at hprogram
  · rename_i hworker
    rw [workerId_of_mem_workerMain hprogram]
    exact ⟨hworker, hmem⟩
  · cases hprogram

/-- While a worker has yet to load, too few have pushed for any iteration. -/
theorem Started.card_pushers_lt {w : Int32} {path : List UInt8} {alloc : Allocator}
    {uninit : ℕ → Int32}
    (h : Started W multiGpu checkpointPath runs (es ++ [.call w (.load path) alloc uninit]))
    (k : Int32) : (pushers k (es.filterMap push?)).card < W.card := by
  have hcalls : (es ++ [StartupEvent.call w (.load path) alloc uninit]).filterMap (callOf w) =
      es.filterMap (callOf w) ++ [.load path] := by
    rw [List.filterMap_append]
    exact congrArg _ (List.filterMap_cons_some (if_pos rfl))
  have hprogram := h w
  rw [hcalls] at hprogram
  split at hprogram
  · rename_i hw
    have hnone := eq_nil_of_load_workerMain hprogram
    have hsub : pushers k (es.filterMap push?) ⊆ W.erase w := by
      intro v hv
      obtain ⟨p, hp, rfl⟩ := List.mem_map.mp (List.mem_toFinset.mp hv)
      obtain ⟨hmem, hcall⟩ := h.init.pusher (List.mem_filter.mp hp).1
      refine Finset.mem_erase.mpr ⟨fun hself => ?_, hmem⟩
      rw [hself, hnone] at hcall
      cases hcall
    exact (Finset.card_le_card hsub).trans_lt (Finset.card_erase_lt_of_mem hw)
  · cases (List.append_eq_nil_iff.mp (List.sublist_nil.mp hprogram)).2

end Started

end StartupEvent

namespace CheckpointProcess

open StartupEvent ParameterServerCore

variable [Word V] [Scalar V] (ord : VisitOrder)

theorem step_toProcess (s : CheckpointProcess V) {e : StartupEvent V} (hload : e.isLoad = false)
    (hpush : e.push? = none) :
    ((machine ord).step s e.toProcess).2.service.ps = s.service.ps := by
  refine step_passive ord s ?_
  cases e with
  | call worker c alloc uninit =>
    cases c with
    | load path => cases hload
    | push p => cases hpush
  | save | wake | write => trivial

theorem barrier_startup {s₀ : ParameterServerCore V} (checkpointInterval : Int32)
    (files : List UInt8 → Option (List UInt8)) (es : List (StartupEvent V)) :
    let s := ((machine ord).final (start s₀ checkpointInterval files)
      (es.map toProcess)).service.ps
    s.totalWorkers = s₀.totalWorkers ∧
      s.iterationStates = (s₀.runPushes ord (es.filterMap push?)).iterationStates := by
  have hcrash : ∀ e ∈ es.map toProcess, ∀ cut N interval,
      e ≠ ProcessEvent.crash cut N interval := by
    intro e he
    obtain ⟨e, -, rfl⟩ := List.mem_map.mp he
    match e with
    | .call _ (.push _) _ _ | .call _ (.load _) _ _ | .save _ _ _ | .wake | .write _ => exact nofun
  rw [show es.filterMap push? = (es.map toProcess).filterMap ProcessEvent.push? from
    (List.filterMap_map ..).symm]
  exact barrier_final ord checkpointInterval files hcrash

/-- While the workers that push are too few, a load finds the parameters that it replaces without
any mean; and later pushes apply theirs to what it leaves. -/
theorem parameters_startup {s₀ : ParameterServerCore V} (hs₀ : s₀.iterationStates = .empty)
    (checkpointInterval : Int32) (files : List UInt8 → Option (List UInt8)) {W : Finset Int32}
    (hW : W.card ≤ quorum s₀.totalWorkers)
    {multiGpu : Int32 → List (Tensor V) → List (Tensor V)} {checkpointPath : Int32 → List UInt8}
    {runs : Int32 → List (List (Option (Response V)))} {es : List (StartupEvent V)}
    (hes : Started W multiGpu checkpointPath runs es) :
    let server (es : List (StartupEvent V)) :=
      ((machine ord).final (start s₀ checkpointInterval files) (es.map toProcess)).service.ps
    (server es).parameters =
      applyMeans (server (upToLastLoad es)).parameters (s₀.lineage ord (es.filterMap push?)) := by
  intro server
  have hbarrier : ∀ es : List (StartupEvent V), (server es).totalWorkers = s₀.totalWorkers ∧
      (server es).iterationStates = (s₀.runPushes ord (es.filterMap push?)).iterationStates :=
    fun es => barrier_startup ord checkpointInterval files es
  induction es using List.reverseRecOn with
  | nil => rfl
  | append_singleton es e ih =>
    have h := ih hes.init
    have hserver : server (es ++ [e]) = ((machine ord).step ((machine ord).final
        (start s₀ checkpointInterval files) (es.map toProcess)) e.toProcess).2.service.ps := by
      change ((machine ord).final _ _).service.ps = _
      rw [List.map_append, Machine.final_append]
      rfl
    rw [List.filterMap_append]
    by_cases hload : e.isLoad = true
    · have hlast : upToLastLoad (es ++ [e]) = es ++ [e] :=
        List.rdropWhile_concat_neg _ _ _ (by simp [hload])
      match e, hload with
      | .call w (.load path) alloc uninit, _ =>
        -- the worker that loads has not pushed, and the others are too few
        have hnone : s₀.lineage ord (es.filterMap push?) = [] :=
          lineage_eq_nil ord hs₀ fun k => (hes.card_pushers_lt k).trans_le hW
        rw [hlast, List.filterMap_cons_none rfl, List.filterMap_nil, List.append_nil, hnone]
        rfl
    · have hlast : upToLastLoad (es ++ [e]) = upToLastLoad es :=
        List.rdropWhile_concat_pos _ _ _ (by simpa using hload)
      rw [hlast, hserver]
      rcases hpush : e.push? with _ | p
      · rw [List.filterMap_cons_none hpush, List.filterMap_nil, List.append_nil,
          step_toProcess ord _ (Bool.not_eq_true _ ▸ hload) hpush]
        exact h
      · rw [List.filterMap_cons_some hpush, List.filterMap_nil]
        match e, hpush with
        | .call w (.push p) alloc uninit, rfl =>
          have hN : (server es).totalWorkers =
              (s₀.runPushes ord (es.filterMap push?)).totalWorkers := by
            rw [(hbarrier es).1, runPushes_totalWorkers]
          rw [lineage_append, ← lineage_congr ord hN (hbarrier es).2]
          exact receive_parameters_eq ord h p

/-- No update is lost to a load while at most `total_workers` workers are started, with or without
a checkpoint and at any time: the parameters are what the last load has left, with the mean of every
aggregated iteration applied once. -/
theorem startup_keeps_means {N : Int32} (hN : 1 ≤ N.toInt) (P₀ : List (Tensor V))
    (checkpointInterval : Int32) (files : List UInt8 → Option (List UInt8)) {W : Finset Int32}
    (hW : W.card ≤ N.toInt.toNat) (multiGpu : Int32 → List (Tensor V) → List (Tensor V))
    (checkpointPath : Int32 → List UInt8) (runs : Int32 → List (List (Option (Response V))))
    {es : List (StartupEvent V)} (hes : Started W multiGpu checkpointPath runs es) :
    let s₀ := (ParameterServerCore.new N).initializeParameters P₀
    let server (es : List (StartupEvent V)) :=
      ((machine ord).final (start s₀ checkpointInterval files) (es.map toProcess)).service.ps
    let means := s₀.lineage ord (es.filterMap push?)
    (server es).parameters = applyMeans (server (upToLastLoad es)).parameters means ∧
      ∀ k, ((server es).checkSyncStatus k).1 =
          decide (N.toInt.toNat ≤ (pushers k (es.filterMap push?)).card) ∧
        (means.map Prod.fst).count k =
          if N.toInt.toNat ≤ (pushers k (es.filterMap push?)).card then 1 else 0 := by
  intro s₀ server means
  have hquorum : quorum s₀.totalWorkers = N.toInt.toNat := quorum_of_pos hN
  refine ⟨parameters_startup ord rfl checkpointInterval files (hquorum ▸ hW) hes,
    fun k => ⟨?_, ?_⟩⟩
  · have hbarrier : (server es).iterationStates =
        (s₀.runPushes ord (es.filterMap push?)).iterationStates :=
      (barrier_startup ord checkpointInterval files es).2
    rw [checkSyncStatus_eq, stateOf_congr hbarrier, Bool.eq_iff_iff, decide_eq_true_iff, ← hquorum]
    exact aggregated_runPushes_iff ord rfl _
  · rw [← hquorum]
    exact count_updates ord rfl _ k

/-- Worker 1 comes and loads the checkpoint when worker 0 has pushed already. -/
def lateLoad : List (StartupEvent UInt32) :=
  let G := Worker.gradientsFor id [word 5]
  [.call 0 (.load [97]) .unbounded fun _ => 0, .call 0 (.push ⟨0, 0, G⟩) .unbounded fun _ => 0,
    .wake, .write true, .call 1 (.load [97]) .unbounded fun _ => 0,
    .call 1 (.push ⟨1, 0, G⟩) .unbounded fun _ => 0]

theorem started_lateLoad : Started {0, 1} (fun _ => id) (fun _ => [97])
    (fun _ => [[some (.parameters ⟨7, [word 5], false⟩ []), none]]) lateLoad := by
  intro w
  by_cases h0 : w = 0
  · subst h0
    decide +kernel
  by_cases h1 : w = 1
  · subst h1
    decide +kernel
  · have hnone : lateLoad.filterMap (callOf w) = [] := by
      simp [lateLoad, callOf, Ne.symm h0, Ne.symm h1]
    rw [hnone]
    exact List.nil_sublist _

theorem startup_keeps_means_late_load :
    let s₀ : ParameterServerCore UInt32 := (new 2).initializeParameters [word 1]
    let server (es : List (StartupEvent UInt32)) := ((machine .insertion).final (start s₀ 2
      fun _ => some (checkpointImage 3 7 [word 5])) (es.map toProcess)).service.ps
    let means := s₀.lineage .insertion (lateLoad.filterMap push?)
    (server lateLoad).parameters = [word 4] ∧
      (server lateLoad).parameters = applyMeans (server (upToLastLoad lateLoad)).parameters means ∧
      ∀ k, ((server lateLoad).checkSyncStatus k).1 =
          decide ((2 : Int32).toInt.toNat ≤ (pushers k (lateLoad.filterMap push?)).card) ∧
        (means.map Prod.fst).count k =
          if (2 : Int32).toInt.toNat ≤ (pushers k (lateLoad.filterMap push?)).card then 1 else 0 :=
  ⟨by decide +kernel, startup_keeps_means .insertion (N := 2) (by decide) [word 1] 2 _
    (W := {0, 1}) (by decide) _ _ _ started_lateLoad⟩

end CheckpointProcess

end ParamServer
