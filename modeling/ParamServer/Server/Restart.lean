import ParamServer.Server.Calls
import ParamServer.Server.Damage

/-! Two servers with the same parameters whose barriers agree on some iterations cannot be told
apart by calls on these. So a restart goes unnoticed as long as the calls are about iterations that
nothing had been pushed for. -/

namespace ParamServer

open Library

variable {V : Type}

/-- Two entries that the operations cannot tell apart. The gradients of an aggregated one are
never looked at again. -/
def IterationState.Agree (a b : IterationState V) : Prop :=
  a.aggregated = b.aggregated ∧ a.workerGradients.size = b.workerGradients.size ∧
    (a.aggregated = false → a.workerGradients = b.workerGradients)

theorem IterationState.Agree.refl (a : IterationState V) : a.Agree a := ⟨rfl, rfl, fun _ => rfl⟩

theorem IterationState.Agree.push {a b : IterationState V} (h : a.Agree b) (q : ℕ)
    (p : Push V) : (a.push q p).Agree (b.push q p) := by
  rcases ha : a.aggregated with _ | _
  · have hb : b.aggregated = false := h.1 ▸ ha
    rw [IterationState.push, IterationState.push, if_neg (by simp [ha]), if_neg (by simp [hb]),
      h.2.2 ha]
    exact .refl _
  · have hb : b.aggregated = true := h.1 ▸ ha
    rwa [IterationState.push, IterationState.push, if_pos ha, if_pos hb]

namespace ParameterServerCore

/-- Two servers that calls on the iterations in `F` cannot tell apart. -/
structure Agree (F : Int32 → Prop) (s t : ParameterServerCore V) : Prop where
  totalWorkers : s.totalWorkers = t.totalWorkers
  parameters : s.parameters = t.parameters
  currentIteration : s.currentIteration = t.currentIteration
  entries : ∀ k, F k → (s.stateOf k).Agree (t.stateOf k)

theorem Agree.restored {F : Int32 → Prop} {s t : ParameterServerCore V}
    (hN : s.totalWorkers = t.totalWorkers) (saved : ParameterServerCore V)
    (h : ∀ k, F k → (s.stateOf k).Agree (t.stateOf k)) :
    Agree F (s.restored saved) (t.restored saved) := ⟨hN, rfl, rfl, h⟩

theorem agree_stateOf_of_find? {s t : ParameterServerCore V} {k : Int32}
    (hs : s.iterationStates.find? k = none) (ht : t.iterationStates.find? k = none) :
    (s.stateOf k).Agree (t.stateOf k) := by
  rw [stateOf, stateOf, hs, ht]
  exact .refl _

section Receive

variable {F : Int32 → Prop} {s t : ParameterServerCore V} (h : Agree F s t) {p : Push V}
  (hp : F p.iteration)
include h hp

theorem Agree.recorded_eq (ha : (s.stateOf p.iteration).aggregated = false) :
    s.recorded p = t.recorded p := by
  rw [recorded, recorded, (h.entries _ hp).2.2 ha]

theorem Agree.completes_iff : s.Completes p ↔ t.Completes p := by
  unfold Completes
  rw [h.totalWorkers, (h.entries _ hp).1]
  refine and_congr_right fun ha => ?_
  rw [h.recorded_eq hp ((h.entries _ hp).1.trans ha)]

variable [Scalar V] (ord : VisitOrder)

theorem Agree.receive : Agree F (s.receive ord p).2 (t.receive ord p).2 := by
  refine ⟨by simp [h.totalWorkers], ?_, by simp [h.currentIteration], fun k hk => ?_⟩
  · rw [receive_parameters, receive_parameters]
    refine if_ctx_congr (h.completes_iff hp) (fun hc => ?_) fun _ => h.parameters
    rw [updated, updated, h.parameters, h.recorded_eq hp ((h.completes_iff hp).mpr hc).1]
  · by_cases hkp : k = p.iteration
    · subst hkp
      rw [stateOf_receive_self, stateOf_receive_self, h.totalWorkers]
      exact (h.entries _ hk).push _ p
    · rw [s.stateOf_receive_ne ord p hkp, t.stateOf_receive_ne ord p hkp]
      exact h.entries k hk

theorem Agree.receive_fst : (s.receive ord p).1 = (t.receive ord p).1 := by
  rw [ParameterServerCore.receive_fst, ParameterServerCore.receive_fst]
  exact ((h.receive hp ord).entries _ hp).1

end Receive

theorem Agree.checkSyncStatus_eq {F : Int32 → Prop} {s t : ParameterServerCore V}
    (h : Agree F s t) {k : Int32} (hk : F k) : s.checkSyncStatus k = t.checkSyncStatus k := by
  rw [ParameterServerCore.checkSyncStatus_eq, ParameterServerCore.checkSyncStatus_eq,
    (h.entries k hk).1, (h.entries k hk).2.1]

variable [Scalar V] [Word V] (ord : VisitOrder)

theorem bisimulation_agree (F : Int32 → Prop) :
    Machine.Bisimulation (machine (V := V) ord) (machine ord) (Call.Within F) (Agree F) where
  output := by
    intro s t c h hc
    cases c with
    | receiveGradients p => exact congrArg Reply.received (h.receive_fst hc ord)
    | checkSyncStatus k =>
      have hs := h.checkSyncStatus_eq hc
      exact congrArg₂ Reply.status (congrArg Prod.fst hs) (congrArg Prod.snd hs)
    | serveParameters k => exact congrArg Reply.parameters h.parameters
    | saveCheckpoint epoch =>
      simp only [machine, saveCheckpoint_reliable, h.parameters, h.currentIteration]
  next := by
    intro s t c h hc
    cases c with
    | receiveGradients p => exact h.receive hc ord
    | _ => exact h

/-- No run of calls from `A` tells the two servers apart, by its answers or by the parameters
and the iteration it ends with. -/
def SameBehaviour (A : Call V → Prop) (s t : ParameterServerCore V) : Prop :=
  ∀ calls, (∀ c ∈ calls, A c) → (machine ord).outputs s calls = (machine ord).outputs t calls ∧
    ((machine ord).final s calls).parameters = ((machine ord).final t calls).parameters ∧
    ((machine ord).final s calls).currentIteration =
      ((machine ord).final t calls).currentIteration

theorem sameBehaviour_of_bisimulation {A : Call V → Prop}
    {R : ParameterServerCore V → ParameterServerCore V → Prop}
    (hb : Machine.Bisimulation (machine ord) (machine ord) A R)
    (hR : ∀ {s t}, R s t → s.parameters = t.parameters ∧ s.currentIteration = t.currentIteration)
    {s t : ParameterServerCore V} (h : R s t) : SameBehaviour ord A s t := by
  intro calls hcalls
  exact ⟨hb.outputs_eq h hcalls, hR (hb.final_related h hcalls)⟩

theorem Agree.sameBehaviour {F : Int32 → Prop} {s t : ParameterServerCore V} (h : Agree F s t) :
    SameBehaviour ord (Call.Within F) s t :=
  sameBehaviour_of_bisimulation ord (bisimulation_agree ord F)
    (fun h => ⟨h.parameters, h.currentIteration⟩) h

section Distinguish

variable {ord} {A B : Call V → Prop} {s t : ParameterServerCore V} {k : Int32}

theorem SameBehaviour.mono (h : SameBehaviour ord A s t) (hBA : ∀ c, B c → A c) :
    SameBehaviour ord B s t := fun calls hcalls => h calls fun c hc => hBA c (hcalls c hc)

theorem SameBehaviour.symm (h : SameBehaviour ord A s t) : SameBehaviour ord A t s := by
  intro calls hcalls
  obtain ⟨ho, hp, hi⟩ := h calls hcalls
  exact ⟨ho.symm, hp.symm, hi.symm⟩

theorem SameBehaviour.receive (h : SameBehaviour ord A s t) {p : Push V}
    (hp : A (.receiveGradients p)) :
    SameBehaviour ord A (s.receive ord p).2 (t.receive ord p).2 := by
  intro calls hcalls
  obtain ⟨ho, hparams, hi⟩ := h (.receiveGradients p :: calls) fun c hc =>
    (List.mem_cons.mp hc).elim (fun he => he ▸ hp) (hcalls c)
  exact ⟨(Machine.step_eq_of_outputs_eq ho).2, hparams, hi⟩

section Status

variable (h : SameBehaviour ord A s t) (hk : A (.checkSyncStatus k))
include h hk

theorem SameBehaviour.checkSyncStatus_eq : s.checkSyncStatus k = t.checkSyncStatus k := by
  have ho := (h [.checkSyncStatus k] (by simpa using hk)).1
  simpa [machine, Machine.outputs, Prod.ext_iff] using ho

theorem SameBehaviour.aggregated_eq : (s.stateOf k).aggregated = (t.stateOf k).aggregated := by
  have hc := h.checkSyncStatus_eq hk
  rw [ParameterServerCore.checkSyncStatus_eq, ParameterServerCore.checkSyncStatus_eq] at hc
  exact congrArg Prod.fst hc

theorem SameBehaviour.size_eq :
    Int32.ofNat (s.stateOf k).workerGradients.size =
      Int32.ofNat (t.stateOf k).workerGradients.size := by
  have hc := h.checkSyncStatus_eq hk
  rw [ParameterServerCore.checkSyncStatus_eq, ParameterServerCore.checkSyncStatus_eq] at hc
  exact congrArg Prod.snd hc

variable (hpush : ∀ p : Push V, p.iteration = k → A (.receiveGradients p))
include hpush

/-- A worker that one of the servers has not recorded yet is told apart by its next push. -/
theorem SameBehaviour.keySet_subset (ha : (s.stateOf k).aggregated = false) :
    (s.stateOf k).workerGradients.keySet ⊆ (t.stateOf k).workerGradients.keySet := by
  intro w hw
  by_contra hn
  have hb : (t.stateOf k).aggregated = false := h.aggregated_eq hk ▸ ha
  have hsize := h.size_eq hk
  have hnext := (h.receive (hpush ⟨w, k, []⟩ rfl)).size_eq hk
  have hs := s.stateOf_receive_self ord ⟨w, k, []⟩
  have ht := t.stateOf_receive_self ord ⟨w, k, []⟩
  dsimp only at hs ht
  rw [hs, ht, IterationState.push, IterationState.push, if_neg (by simp [ha]),
    if_neg (by simp [hb])] at hnext
  dsimp only at hnext
  -- the push raises the count of `t` but not that of `s`, which were equal before
  rw [InsertionMap.size_assign_of_mem hw, InsertionMap.size_assign_of_notMem hn, hsize] at hnext
  simp at hnext

theorem SameBehaviour.keySet_eq (ha : (s.stateOf k).aggregated = false) :
    (s.stateOf k).workerGradients.keySet = (t.stateOf k).workerGradients.keySet :=
  (h.keySet_subset hk hpush ha).antisymm
    (h.symm.keySet_subset hk hpush (h.aggregated_eq hk ▸ ha))

end Status

end Distinguish

/-- After a restart from its own checkpoint the server behaves as if it had not been restarted,
for iterations that it had no entry for. -/
theorem sameBehaviour_restart {alloc : Allocator} {uninit : ℕ → Int32}
    {s t : ParameterServerCore V} (hsized : Sized s.parameters)
    {epoch epoch₀ epoch₁ : Int32} {file : Option (List UInt8)} {image : List UInt8}
    (hsave : s.saveCheckpoint true (fun _ => none) epoch file = (true, some image))
    (hload : (new s.totalWorkers).loadCheckpoint alloc uninit epoch₀ (some image) =
      (.returned true, t, epoch₁)) :
    SameBehaviour ord (Call.Within fun k => s.iterationStates.find? k = none) s t := by
  obtain rfl := loadCheckpoint_of_saveCheckpoint hsized hsave hload
  exact Agree.sameBehaviour ord ⟨rfl, rfl, rfl, fun k hk => agree_stateOf_of_find? hk rfl⟩

/-- A server with a complete and an open iteration is restarted while a third one runs. -/
theorem sameBehaviour_restart_two_workers :
    let s : ParameterServerCore UInt32 := ((new 2).initializeParameters [word 10]).runPushes
      .insertion [⟨0, 0, [word 2]⟩, ⟨1, 0, [word 4]⟩, ⟨0, 1, [word 2]⟩]
    let t := (new s.totalWorkers).restored s
    let calls : List (Call UInt32) := [.receiveGradients ⟨0, 2, [word 1]⟩,
      .receiveGradients ⟨1, 2, [word 3]⟩, .serveParameters 2, .saveCheckpoint 2]
    (machine .insertion).outputs s calls = (machine .insertion).outputs t calls := by
  intro s t calls
  have hsized : Sized s.parameters := ⟨by decide +kernel, by decide +kernel⟩
  have hload := loadCheckpoint_image (fun _ => 0) hsized.fits_unbounded (new s.totalWorkers) 0 1
    s.currentIteration []
  rw [List.append_nil] at hload
  have h2 : s.iterationStates.find? 2 = none := by
    rw [← Option.isNone_iff_eq_none]
    decide +kernel
  have h := sameBehaviour_restart .insertion hsized (saveCheckpoint_reliable s 1 none) hload
  exact (h calls (by simp [calls, Call.Within, h2])).1

end ParameterServerCore

end ParamServer
