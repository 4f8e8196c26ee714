import ParamServer.Library.Machine
import ParamServer.Server.Checkpoint
import ParamServer.Server.History

/-! The server as a machine that answers calls, the states it can reach, and what holds of the
barrier in all of them. -/

namespace ParamServer

open Library

variable {V : Type}

/-- A call into the server, with all file writes of a checkpoint succeeding. -/
inductive Call (V : Type)
  | receiveGradients (p : Push V)
  | checkSyncStatus (iteration : Int32)
  | serveParameters (iteration : Int32)
  | saveCheckpoint (epoch : Int32)

inductive Reply (V : Type)
  | received (aggregated : Bool)
  | status (aggregated : Bool) (workersReceived : Int32)
  | parameters (ts : List (Tensor V))
  | saved (success : Bool) (file : Option (List UInt8))
deriving DecidableEq

def Call.Within (F : Int32 → Prop) : Call V → Prop
  | receiveGradients p => F p.iteration
  | checkSyncStatus iteration => F iteration
  | _ => True

def Call.NoSave : Call V → Prop
  | saveCheckpoint _ => False
  | _ => True

/-- An entry is aggregated exactly when it holds a quorum of workers, and never holds more. -/
def IterationState.Counted (q : ℕ) (st : IterationState V) : Prop :=
  st.workerGradients.size ≤ q ∧ (st.aggregated = true ↔ st.workerGradients.size = q)

namespace IterationState

theorem counted_initial {q : ℕ} (hq : 1 ≤ q) : (initial : IterationState V).Counted q := by
  simp only [Counted, initial_workerGradients, InsertionMap.size_empty, initial_aggregated,
    Bool.false_eq_true, false_iff]
  omega

theorem Counted.push {q : ℕ} {st : IterationState V} (h : st.Counted q) (p : Push V) :
    (st.push q p).Counted q := by
  unfold IterationState.push
  split
  · exact h
  · rename_i ha
    -- an open entry is below the quorum and gains at most one worker
    have hne : st.workerGradients.size ≠ q := fun hs => ha (h.2.mpr hs)
    have hle := st.workerGradients.size_assign_le p.workerId p.gradients
    have hq := h.1
    refine ⟨show (st.workerGradients.assign p.workerId p.gradients).size ≤ q by omega, ?_⟩
    change decide (q ≤ (st.workerGradients.assign p.workerId p.gradients).size) = true ↔
      (st.workerGradients.assign p.workerId p.gradients).size = q
    rw [decide_eq_true_iff]
    omega

theorem one_le_size_push {q : ℕ} (hq : 1 ≤ q) {st : IterationState V} (h : st.Counted q)
    (p : Push V) : 1 ≤ (st.push q p).workerGradients.size := by
  unfold IterationState.push
  split
  · rename_i ha
    rw [h.2.mp ha]
    exact hq
  · exact st.workerGradients.one_le_size_assign ..

end IterationState

namespace ParameterServerCore

structure Barrier (s : ParameterServerCore V) : Prop where
  counted : ∀ k, (s.stateOf k).Counted (quorum s.totalWorkers)
  occupied : ∀ k st, s.iterationStates.find? k = some st → 1 ≤ st.workerGradients.size

theorem Barrier.of_empty {s : ParameterServerCore V} (hs : s.iterationStates = .empty) :
    s.Barrier := by
  refine ⟨fun k => ?_, fun k st hst => ?_⟩
  · rw [stateOf, hs]
    exact IterationState.counted_initial (one_le_quorum _)
  · rw [hs] at hst
    exact absurd hst (by simp)

theorem Barrier.congr {s t : ParameterServerCore V} (h : s.Barrier)
    (hN : t.totalWorkers = s.totalWorkers) (he : t.iterationStates = s.iterationStates) :
    t.Barrier := by
  refine ⟨fun k => ?_, fun k st => ?_⟩
  · rw [stateOf, he, hN]
    exact h.counted k
  · rw [he]
    exact h.occupied k st

variable [Scalar V] (ord : VisitOrder)

theorem Barrier.receive {s : ParameterServerCore V} (h : s.Barrier) (p : Push V) :
    (s.receive ord p).2.Barrier := by
  refine ⟨fun k => ?_, fun k st hst => ?_⟩
  · rw [receive_totalWorkers]
    by_cases hk : k = p.iteration
    · subst hk
      rw [stateOf_receive_self]
      exact (h.counted _).push p
    · rw [s.stateOf_receive_ne ord p hk]
      exact h.counted k
  · by_cases hk : k = p.iteration
    · subst hk
      rw [find?_receive_self, Option.some_inj] at hst
      rw [← hst]
      exact IterationState.one_le_size_push (one_le_quorum _) (h.counted _) p
    · rw [s.find?_receive_ne ord p hk] at hst
      exact h.occupied k st hst

/-- The workers of an entry after a run: as long as it is open, those from before and those that
have pushed since. -/
theorem keySet_runPushes (s : ParameterServerCore V) (ps : List (Push V)) (k : Int32) :
    let workers := (s.stateOf k).workerGradients.keySet ∪ pushers k ps
    let entry := (s.runPushes ord ps).stateOf k
    entry.workerGradients.keySet ⊆ workers ∧
      (entry.aggregated = false → entry.workerGradients.keySet = workers) := by
  induction ps using List.reverseRecOn with
  | nil =>
    rw [runPushes_nil, pushers_nil, Finset.union_empty]
    exact ⟨Finset.Subset.refl _, fun _ => rfl⟩
  | append_singleton ps p ih =>
    rw [runPushes_concat]
    by_cases hk : k = p.iteration
    · subst hk
      rw [stateOf_receive_self, stateOf_push, pushers_concat_self, Finset.union_insert]
      split
      · rename_i ha
        refine ⟨ih.1.trans (Finset.subset_insert ..), fun hopen => ?_⟩
        rw [ha] at hopen
        cases hopen
      · rename_i ha
        have hkeys := ih.2 (Bool.not_eq_true _ ▸ ha)
        dsimp only
        rw [recorded, InsertionMap.keySet_assign, hkeys]
        exact ⟨Finset.Subset.refl _, fun _ => rfl⟩
    · rw [stateOf_receive_ne _ _ _ hk, pushers_concat_ne ps p hk]
      exact ih

theorem Barrier.runPushes {s : ParameterServerCore V} (h : s.Barrier) (ps : List (Push V)) :
    (s.runPushes ord ps).Barrier :=
  runPushes_of_receive ord (P := Barrier) (fun _ p hs => hs.receive ord p) h ps

/-- An iteration that has been open is applied once its earlier workers and those that push for it
now are a quorum together. -/
theorem Barrier.mem_updates_iff {s : ParameterServerCore V} (h : s.Barrier) (ps : List (Push V))
    (k : Int32) :
    k ∈ s.updates ord ps ↔ (s.stateOf k).aggregated = false ∧
      quorum s.totalWorkers ≤ ((s.stateOf k).workerGradients.keySet ∪ pushers k ps).card := by
  obtain ⟨hsub, heq⟩ := keySet_runPushes ord s ps k
  obtain ⟨hle, hcount⟩ := (h.runPushes ord ps).counted k
  rw [← InsertionMap.card_keySet, runPushes_totalWorkers] at hle hcount
  have hdone : ((s.runPushes ord ps).stateOf k).aggregated = true ↔ quorum s.totalWorkers ≤
      ((s.stateOf k).workerGradients.keySet ∪ pushers k ps).card := by
    constructor
    · intro hagg
      rw [← hcount.mp hagg]
      exact Finset.card_le_card hsub
    · intro hquorum
      by_contra hopen
      rw [← heq (Bool.not_eq_true _ ▸ hopen)] at hquorum
      exact hopen (hcount.mpr (hle.antisymm hquorum))
  constructor
  · intro hmem
    refine ⟨open_of_mem_updates ord hmem, hdone.mp ?_⟩
    exact (aggregated_runPushes_iff_mem ord s ps k).mpr (.inr hmem)
  · rintro ⟨hopen, hquorum⟩
    have hagg := (aggregated_runPushes_iff_mem ord s ps k).mp (hdone.mpr hquorum)
    rw [hopen] at hagg
    exact hagg.resolve_left Bool.false_ne_true

variable [Word V]

def machine : Machine (ParameterServerCore V) (Call V) (Reply V) where
  step s
    | .receiveGradients p => (.received (s.receive ord p).1, (s.receive ord p).2)
    | .checkSyncStatus iteration =>
      (.status (s.checkSyncStatus iteration).1 (s.checkSyncStatus iteration).2, s)
    | .serveParameters iteration => (.parameters (s.serveParameters iteration), s)
    | .saveCheckpoint epoch =>
      let r := s.saveCheckpoint true (fun _ => none) epoch none
      (.saved r.1 r.2, s)

/-- The states that the operations of the server lead to, with the means applied since the
parameters were last set: by `initialize_parameters`, or by whoever wrote the loaded file. Those in
a file are known if its writer is (`restored`); otherwise (`loaded`) its parameters are taken as a
new beginning, so that one state can come with several such histories. -/
inductive Reachable :
    ParameterServerCore V → List (Tensor V) → List (Int32 × List (Tensor V)) → Prop
  | new (totalWorkers : Int32) : Reachable (new totalWorkers) [] []
  | initialized {s base held} (h : Reachable s base held) (ts : List (Tensor V)) :
      Reachable (s.initializeParameters ts) ts []
  | receive {s base held} (h : Reachable s base held) (p : Push V) :
      Reachable (s.receive ord p).2 base (held ++ s.lineage ord [p])
  | restored {s saved base base' held held'} (h : Reachable s base held)
      (hsaved : Reachable saved base' held') (hsized : Sized saved.parameters) :
      Reachable (s.restored saved) base' held'
  | loaded {s base held} (h : Reachable s base held) (alloc : Allocator) (uninit : ℕ → Int32)
      (epoch : Int32) (file : Option (List UInt8)) :
      Reachable (s.loadCheckpoint alloc uninit epoch file).2.1
        (s.loadCheckpoint alloc uninit epoch file).2.1.parameters []

theorem Reachable.barrier {s : ParameterServerCore V} {base held}
    (h : Reachable ord s base held) : s.Barrier := by
  induction h with
  | new N => exact .of_empty rfl
  | initialized _ _ ih => exact ih.congr rfl rfl
  | receive _ p ih => exact ih.receive ord p
  | restored _ _ _ ih _ => exact ih.congr rfl rfl
  | loaded _ _ _ _ _ ih =>
    exact ih.congr (loadCheckpoint_totalWorkers ..) (loadCheckpoint_iterationStates ..)

theorem Reachable.parameters_eq {s : ParameterServerCore V} {base held}
    (h : Reachable ord s base held) : s.parameters = applyMeans base held := by
  induction h with
  | new => rfl
  | initialized => rfl
  | receive h p ih => rw [applyMeans_append, ← ih, ← runPushes_parameters, runPushes_cons,
      runPushes_nil]
  | restored _ _ _ _ ih => exact ih
  | loaded => rfl

theorem Reachable.runPushes {s : ParameterServerCore V} {base held}
    (h : Reachable ord s base held) (ps : List (Push V)) :
    Reachable ord (s.runPushes ord ps) base (held ++ s.lineage ord ps) := by
  induction ps using List.reverseRecOn with
  | nil => simpa [lineage] using h
  | append_singleton ps p ih =>
    rw [runPushes_concat, lineage_concat, ← List.append_assoc]
    exact ih.receive p

end ParameterServerCore

end ParamServer
