import ParamServer.Server.Restart
import ParamServer.Server.TotalWorkers

/-! What a load leaves of the time before it. It sets the parameters and the iteration, but not the
barrier: gradients from before the load count for iterations that are still open, and iterations
that were aggregated are not applied again. -/

namespace ParamServer

open Library

variable {V : Type}

/-- The calls that are made of a server after a load, about the iterations in `F`. -/
def Call.Later (F : Int32 → Prop) (c : Call V) : Prop := c.NoSave ∧ c.Within F

theorem Call.Later.of_mem_pushesOf {F : Int32 → Prop} {calls : List (Call V)}
    (hcalls : ∀ c ∈ calls, c.Later F) {p : Push V} (hp : p ∈ pushesOf calls) : F p.iteration := by
  obtain ⟨c, hc, hpush⟩ := List.mem_filterMap.mp hp
  cases c with
  | receiveGradients r =>
    cases hpush
    exact (hcalls _ hc).2
  | _ => cases hpush

theorem pushesOf_map_receiveGradients (ps : List (Push V)) :
    pushesOf (ps.map Call.receiveGradients) = ps := by
  rw [pushesOf, List.filterMap_map]
  exact List.filterMap_some

namespace ParameterServerCore

variable [Scalar V] (ord : VisitOrder)

section CountsAnew

/-- Only what is pushed after the load counts. In every run of calls from `A` the mean of an
iteration is applied to `base`, once, if and only if a quorum of workers pushes for it in this run,
and it is over what they push in this run. -/
def CountsAnew [Word V] (A : Call V → Prop) (base : List (Tensor V)) (t : ParameterServerCore V) :
    Prop :=
  ∀ calls, (∀ c ∈ calls, A c) →
    let ps := pushesOf calls
    ((machine ord).final t calls).parameters = applyMeans base (t.lineage ord ps) ∧
    (∀ k, ((t.lineage ord ps).map Prod.fst).count k =
      if quorum t.totalWorkers ≤ (pushers k ps).card then 1 else 0) ∧
    ∀ k mean, (k, mean) ∈ t.lineage ord ps → ∃ pre p post,
      ps = pre ++ p :: post ∧ p.iteration = k ∧ mean = averageGradients ord
        (recordAll Push.workerId Push.gradients (pushesFor k (pre ++ [p]))) p.gradients

variable {F : Int32 → Prop} {t : ParameterServerCore V}

theorem of_mem_updates {ps : List (Push V)} (hps : ∀ p ∈ ps, F p.iteration) {k : Int32}
    (h : k ∈ t.updates ord ps) : F k := by
  obtain ⟨m, hm, rfl⟩ := List.mem_map.mp h
  obtain ⟨pre, p, post, rfl, hp, -⟩ := exists_of_mem_lineage ord hm
  exact hp ▸ hps p (by simp)

variable [Word V]

theorem countsAnew_of_find? (h : ∀ k, F k → t.iterationStates.find? k = none) :
    CountsAnew ord (Call.Later F) t.parameters t := by
  intro calls hcalls ps
  have hps : ∀ p ∈ ps, F p.iteration := fun p hp => Call.Later.of_mem_pushesOf hcalls hp
  refine ⟨?_, fun k => ?_, fun k mean hmem => ?_⟩
  · rw [final_eq_runPushes, runPushes_parameters]
  · by_cases hk : F k
    · exact count_updates_of_find? ord (h k hk) ps
    · have hnone : pushesFor k ps = [] := List.filter_eq_nil_iff.mpr fun p hp hpk =>
        hk (of_decide_eq_true hpk ▸ hps p hp)
      have hq := one_le_quorum t.totalWorkers
      rw [← updates, List.count_eq_zero_of_not_mem fun hmem => hk (of_mem_updates ord hps hmem),
        pushers, hnone, senders_nil, Finset.card_empty, if_neg (by omega)]
  · have hk : F k := of_mem_updates ord hps (List.mem_map_of_mem hmem)
    exact exists_of_mem_lineage_of_find? ord (h k hk) hmem

/-- What `CountsAnew` says of a run in which the workers in `W` push for one iteration. -/
theorem CountsAnew.quorum_iff {A : Call V → Prop} {base : List (Tensor V)}
    (h : CountsAnew ord A base t) (ht : t.Barrier) {k : Int32}
    (hpush : ∀ p : Push V, p.iteration = k → A (.receiveGradients p)) (W : Finset Int32) :
    ((t.stateOf k).aggregated = false ∧
        quorum t.totalWorkers ≤ ((t.stateOf k).workerGradients.keySet ∪ W).card) ↔
      quorum t.totalWorkers ≤ W.card := by
  let ps : List (Push V) := W.toList.map fun w => ⟨w, k, []⟩
  have hcalls : ∀ c ∈ ps.map Call.receiveGradients, A c := by
    intro c hc
    obtain ⟨p, hp, rfl⟩ := List.mem_map.mp hc
    obtain ⟨w, -, rfl⟩ := List.mem_map.mp hp
    exact hpush _ rfl
  have hcount := (h _ hcalls).2.1 k
  have hupdate := ht.mem_updates_iff ord ps k
  rw [pushesOf_map_receiveGradients, pushers_map] at hcount
  rw [pushers_map] at hupdate
  rw [← hupdate, updates, ← List.count_pos_iff, hcount]
  split <;> simp [*]

/-- An entry from before gives itself away: pushing for an aggregated iteration again does nothing,
and an open one completes with too few. -/
theorem CountsAnew.find?_eq_none {A : Call V → Prop} {base : List (Tensor V)}
    (h : CountsAnew ord A base t) (ht : t.Barrier) (hN : 0 ≤ t.totalWorkers.toInt) {k : Int32}
    (hpush : ∀ p : Push V, p.iteration = k → A (.receiveGradients p)) :
    t.iterationStates.find? k = none := by
  have hiff := h.quorum_iff ord ht hpush
  rcases hf : t.iterationStates.find? k with _ | st
  · rfl
  exfalso
  have hst : t.stateOf k = st := by rw [stateOf, hf, Option.getD_some]
  have hone := ht.occupied k st hf
  obtain ⟨hle, hagg⟩ := ht.counted k
  rw [← hst] at hone
  rw [← InsertionMap.card_keySet] at hle hagg hone
  rcases ha : (t.stateOf k).aggregated with _ | _
  · -- the workers recorded before and some new ones are a quorum
    have hsmall : quorum t.totalWorkers ≤ 2 ^ 31 := by
      have hlt := t.totalWorkers.toInt_lt
      exact (quorum_le_iff _ (by omega)).mpr ⟨by omega, hN, by omega⟩
    obtain ⟨W, hKW, hW⟩ := exists_workers hle hsmall
    have hfew := (hiff (W \ (t.stateOf k).workerGradients.keySet)).mp
      ⟨ha, by rw [Finset.union_sdiff_of_subset hKW, hW]⟩
    rw [Finset.card_sdiff_of_subset hKW, hW] at hfew
    omega
  · -- the same workers are a quorum again
    have hopen := ((hiff (t.stateOf k).workerGradients.keySet).mpr (hagg.mp ha).ge).1
    rw [ha] at hopen
    cases hopen

end CountsAnew

section Negative

/-! A server that was started with a negative number of workers never applies anything. -/

variable {s t : ParameterServerCore V}

omit [Scalar V] in
theorem lt_quorum {N : Int32} (hN : N.toInt < 0) (W : Finset Int32) : W.card < quorum N := by
  by_contra hle
  have hnonneg := ((quorum_le_iff N (card_le_ids W)).mp (Nat.not_lt.mp hle)).2.1
  omega

omit [Scalar V] in
theorem Barrier.aggregated_eq_false (h : s.Barrier) (hN : s.totalWorkers.toInt < 0) (k : Int32) :
    (s.stateOf k).aggregated = false := by
  by_contra ha
  have hsize := (h.counted k).2.mp (Bool.not_eq_false _ ▸ ha)
  rw [← InsertionMap.card_keySet] at hsize
  exact (lt_quorum hN _).ne hsize

omit [Scalar V] in
theorem not_completes_of_neg (hN : s.totalWorkers.toInt < 0) (p : Push V) : ¬s.Completes p := by
  rintro ⟨-, hquorum⟩
  rw [← InsertionMap.card_keySet] at hquorum
  exact absurd hquorum (Nat.not_le.mpr (lt_quorum hN _))

/-- Two such servers that wait for the same workers. -/
structure Waiting (F : Int32 → Prop) (s t : ParameterServerCore V) : Prop where
  negative : s.totalWorkers.toInt < 0
  totalWorkers : s.totalWorkers = t.totalWorkers
  parameters : s.parameters = t.parameters
  currentIteration : s.currentIteration = t.currentIteration
  barrier : s.Barrier ∧ t.Barrier
  workers : ∀ k, F k →
    (s.stateOf k).workerGradients.keySet = (t.stateOf k).workerGradients.keySet

section Waiting

variable {F : Int32 → Prop} (h : Waiting F s t)
include h

omit [Scalar V] in
theorem Waiting.unaggregated (k : Int32) :
    (s.stateOf k).aggregated = false ∧ (t.stateOf k).aggregated = false :=
  ⟨h.barrier.1.aggregated_eq_false h.negative k,
    h.barrier.2.aggregated_eq_false (h.totalWorkers ▸ h.negative) k⟩

theorem Waiting.receive (p : Push V) :
    Waiting F (s.receive ord p).2 (t.receive ord p).2 := by
  have hnegative : t.totalWorkers.toInt < 0 := h.totalWorkers ▸ h.negative
  refine ⟨by simp [h.negative], by simp [h.totalWorkers], ?_, by simp [h.currentIteration],
    ⟨h.barrier.1.receive ord p, h.barrier.2.receive ord p⟩, fun k hk => ?_⟩
  · rw [receive_parameters, receive_parameters, if_neg (not_completes_of_neg h.negative p),
      if_neg (not_completes_of_neg hnegative p)]
    exact h.parameters
  · by_cases hkp : k = p.iteration
    · subst hkp
      obtain ⟨ha, hb⟩ := h.unaggregated p.iteration
      rw [stateOf_receive_self, stateOf_receive_self, stateOf_push, stateOf_push,
        if_neg (by simp [ha]), if_neg (by simp [hb])]
      dsimp only
      rw [recorded, recorded, InsertionMap.keySet_assign, InsertionMap.keySet_assign,
        h.workers _ hk]
    · rw [s.stateOf_receive_ne ord p hkp, t.stateOf_receive_ne ord p hkp]
      exact h.workers k hk

omit [Scalar V] in
theorem Waiting.checkSyncStatus_eq {k : Int32} (hk : F k) :
    s.checkSyncStatus k = t.checkSyncStatus k := by
  obtain ⟨ha, hb⟩ := h.unaggregated k
  rw [ParameterServerCore.checkSyncStatus_eq, ParameterServerCore.checkSyncStatus_eq, ha, hb,
    ← InsertionMap.card_keySet, ← InsertionMap.card_keySet, h.workers k hk]

end Waiting

variable [Word V]

theorem bisimulation_waiting (F : Int32 → Prop) :
    Machine.Bisimulation (machine (V := V) ord) (machine ord) (Call.Within F) (Waiting F) where
  output := by
    intro s t c h hc
    cases c with
    | receiveGradients p =>
      obtain ⟨ha, hb⟩ := (h.receive ord p).unaggregated p.iteration
      refine congrArg Reply.received ?_
      rw [ParameterServerCore.receive_fst, ParameterServerCore.receive_fst, ha, hb]
    | checkSyncStatus k =>
      have hs := h.checkSyncStatus_eq hc
      exact congrArg₂ Reply.status (congrArg Prod.fst hs) (congrArg Prod.snd hs)
    | serveParameters k => exact congrArg Reply.parameters h.parameters
    | saveCheckpoint epoch =>
      simp only [machine, saveCheckpoint_reliable, h.parameters, h.currentIteration]
  next := by
    intro s t c h _
    cases c with
    | receiveGradients p => exact h.receive ord p
    | _ => exact h

theorem Waiting.sameBehaviour {F : Int32 → Prop} (h : Waiting F s t) :
    SameBehaviour ord (Call.Within F) s t :=
  sameBehaviour_of_bisimulation ord (bisimulation_waiting ord F)
    (fun h => ⟨h.parameters, h.currentIteration⟩) h

theorem countsAnew_of_neg (ht : t.Barrier) (hN : t.totalWorkers.toInt < 0) (A : Call V → Prop) :
    CountsAnew ord A t.parameters t := by
  intro calls _ ps
  have hnone : t.updates ord ps = [] := by
    refine List.eq_nil_iff_forall_not_mem.mpr fun k hk => ?_
    exact absurd ((ht.mem_updates_iff ord ps k).mp hk).2 (Nat.not_le.mpr (lt_quorum hN _))
  have hnone : t.lineage ord ps = [] := List.map_eq_nil_iff.mp hnone
  refine ⟨?_, fun k => ?_, fun k mean hmem => ?_⟩
  · rw [final_eq_runPushes, runPushes_parameters]
  · rw [hnone, if_neg (Nat.not_le.mpr (lt_quorum hN _))]
    rfl
  · rw [hnone] at hmem
    cases hmem

end Negative

variable [Word V]

/-- Two servers load the same checkpoint. From then on the calls about the iterations in `F` are
answered alike by both and depend on nothing that was pushed before the load, if and only if neither
has an entry for any of these iterations. With a negative number of workers nothing is ever applied,
and the same workers in both are enough. -/
theorem loadCheckpoint_determines_iff {saved : ParameterServerCore V}
    (hsized : Sized saved.parameters) {epoch : Int32} {file : Option (List UInt8)}
    {image : List UInt8}
    (hsave : saved.saveCheckpoint true (fun _ => none) epoch file = (true, some image))
    {s₁ s₂ t₁ t₂ : ParameterServerCore V} {base₁ base₂ : List (Tensor V)}
    {held₁ held₂ : List (Int32 × List (Tensor V))} (hs₁ : Reachable ord s₁ base₁ held₁)
    (hs₂ : Reachable ord s₂ base₂ held₂) (hN : s₁.totalWorkers = s₂.totalWorkers)
    {alloc₁ alloc₂ : Allocator} {uninit₁ uninit₂ : ℕ → Int32}
    {epoch₁ epoch₂ epoch₁' epoch₂' : Int32}
    (hload₁ : s₁.loadCheckpoint alloc₁ uninit₁ epoch₁ (some image) =
      (.returned true, t₁, epoch₁'))
    (hload₂ : s₂.loadCheckpoint alloc₂ uninit₂ epoch₂ (some image) =
      (.returned true, t₂, epoch₂')) (F : Int32 → Prop) :
    (SameBehaviour ord (Call.Later F) t₁ t₂ ∧ CountsAnew ord (Call.Later F) saved.parameters t₁ ∧
      CountsAnew ord (Call.Later F) saved.parameters t₂) ↔
    ∀ k, F k → (s₁.iterationStates.find? k = none ∧ s₂.iterationStates.find? k = none) ∨
      (s₁.totalWorkers.toInt < 0 ∧
        (s₁.stateOf k).workerGradients.keySet = (s₂.stateOf k).workerGradients.keySet) := by
  obtain rfl := loadCheckpoint_of_saveCheckpoint hsized hsave hload₁
  obtain rfl := loadCheckpoint_of_saveCheckpoint hsized hsave hload₂
  have hb₁ : (s₁.restored saved).Barrier := (hs₁.barrier ord).congr rfl rfl
  have hb₂ : (s₂.restored saved).Barrier := (hs₂.barrier ord).congr rfl rfl
  have hpush : ∀ k, F k → ∀ p : Push V, p.iteration = k → (Call.receiveGradients p).Later F := by
    rintro k hk p rfl
    exact ⟨trivial, hk⟩
  by_cases hsign : 0 ≤ s₁.totalWorkers.toInt
  · constructor
    · rintro ⟨-, h₁, h₂⟩ k hk
      exact .inl ⟨h₁.find?_eq_none ord hb₁ hsign (hpush k hk),
        h₂.find?_eq_none ord hb₂ (hN ▸ hsign) (hpush k hk)⟩
    · intro h
      have hnone : ∀ k, F k →
          s₁.iterationStates.find? k = none ∧ s₂.iterationStates.find? k = none :=
        fun k hk => (h k hk).resolve_right fun hneg => absurd hneg.1 (not_lt.mpr hsign)
      have hagree : Agree F (s₁.restored saved) (s₂.restored saved) :=
        .restored hN saved fun k hk => agree_stateOf_of_find? (hnone k hk).1 (hnone k hk).2
      exact ⟨(hagree.sameBehaviour ord).mono fun c hc => hc.2,
        countsAnew_of_find? ord fun k hk => (hnone k hk).1,
        countsAnew_of_find? ord fun k hk => (hnone k hk).2⟩
  · have hneg : s₁.totalWorkers.toInt < 0 := not_le.mp hsign
    constructor
    · rintro ⟨hsame, -, -⟩ k hk
      have hopen := hb₁.aggregated_eq_false hneg k
      exact .inr ⟨hneg, hsame.keySet_eq ⟨trivial, hk⟩ (hpush k hk) hopen⟩
    · intro h
      have hwaiting : Waiting F (s₁.restored saved) (s₂.restored saved) := by
        refine ⟨hneg, hN, rfl, rfl, ⟨hb₁, hb₂⟩, fun k hk => ?_⟩
        change (s₁.stateOf k).workerGradients.keySet = (s₂.stateOf k).workerGradients.keySet
        rcases h k hk with ⟨hf₁, hf₂⟩ | ⟨-, hworkers⟩
        · rw [stateOf, stateOf, hf₁, hf₂]
        · exact hworkers
      exact ⟨(hwaiting.sameBehaviour ord).mono fun c hc => hc.2,
        countsAnew_of_neg ord hb₁ hneg _, countsAnew_of_neg ord hb₂ (hN ▸ hneg) _⟩

/-- A live server and a new one load the checkpoint that the live one wrote before iteration 0:
the new one applies the iteration again, the live one does not. -/
theorem loadCheckpoint_keeps_barrier :
    let p : Push UInt32 := ⟨0, 0, [word 1]⟩
    let saved : ParameterServerCore UInt32 := (new 1).initializeParameters [word 10]
    let image := checkpointImage 0 saved.currentIteration saved.parameters
    let live := (saved.receive .insertion p).2
    let r₁ := live.loadCheckpoint .unbounded (fun _ => 0) 0 (some image)
    let r₂ := (new 1).loadCheckpoint .unbounded (fun _ => 0) 0 (some image)
    saved.saveCheckpoint true (fun _ => none) 0 none = (true, some image) ∧
      r₁.1 = .returned true ∧ r₂.1 = .returned true ∧
      r₁.2.1.serveParameters 0 = [word 10] ∧ r₂.2.1.serveParameters 0 = [word 10] ∧
      r₁.2.1.checkSyncStatus 0 = (true, 1) ∧ r₂.2.1.checkSyncStatus 0 = (false, 0) ∧
      (r₁.2.1.receive .insertion p).2.serveParameters 0 = [word 10] ∧
      (r₂.2.1.receive .insertion p).2.serveParameters 0 = [word 9] := by
  decide +kernel

/-- A server that has aggregated iteration 0 and a new one go on with the other iterations. -/
theorem loadCheckpoint_determines_other_iterations :
    let saved : ParameterServerCore UInt32 := (new 2).initializeParameters [word 10]
    let s₁ := ((new 2).initializeParameters [word 7]).runPushes .insertion
      [⟨0, 0, [word 2]⟩, ⟨1, 0, [word 4]⟩]
    let s₂ : ParameterServerCore UInt32 := new 2
    let later : Call UInt32 → Prop := Call.Later (· ≠ 0)
    SameBehaviour .insertion later (s₁.restored saved) (s₂.restored saved) ∧
      CountsAnew .insertion later [word 10] (s₁.restored saved) ∧
      CountsAnew .insertion later [word 10] (s₂.restored saved) := by
  intro saved s₁ s₂ later
  have hsized : Sized saved.parameters := ⟨by decide, by decide⟩
  have hload₁ := loadCheckpoint_image (fun _ => 0) hsized.fits_unbounded s₁ 0 5
    saved.currentIteration []
  have hload₂ := loadCheckpoint_image (fun _ => 1) hsized.fits_unbounded s₂ 0 5
    saved.currentIteration []
  rw [List.append_nil] at hload₁ hload₂
  have hstart : Reachable .insertion ((new 2).initializeParameters [word 7]) [word 7] [] :=
    .initialized (.new 2) _
  refine (loadCheckpoint_determines_iff .insertion hsized (saveCheckpoint_reliable saved 5 none)
    (hstart.runPushes .insertion _) (.new 2) rfl hload₁ hload₂ (· ≠ 0)).mpr
    fun k hk => .inl ⟨?_, rfl⟩
  have hnone : pushesFor k [(⟨0, 0, [word 2]⟩ : Push UInt32), ⟨1, 0, [word 4]⟩] = [] := by
    simp [pushesFor, hk.symm]
  change (ParameterServerCore.runPushes .insertion _ _).iterationStates.find? k = none
  rw [find?_runPushes .insertion rfl, if_pos hnone]

theorem SameBehaviour.find?_eq_none {s t : ParameterServerCore V}
    (h : SameBehaviour ord Call.NoSave s t) (hs : s.Barrier)
    (ht : ∀ k, t.iterationStates.find? k = none) (k : Int32) :
    s.iterationStates.find? k = none := by
  rcases hf : s.iterationStates.find? k with _ | st
  · rfl
  have hsk : s.stateOf k = st := by rw [stateOf, hf, Option.getD_some]
  have htk : t.stateOf k = .initial := by rw [stateOf, ht, Option.getD_none]
  have ha : (s.stateOf k).aggregated = false := by
    rw [h.aggregated_eq trivial, htk]
    rfl
  have hsize := h.keySet_eq trivial (fun _ _ => trivial) ha
  rw [hsk, htk] at hsize
  have hcard := congrArg Finset.card hsize
  rw [InsertionMap.card_keySet, InsertionMap.card_keySet] at hcard
  -- an entry holds at least one worker, which `t` would have recorded too
  have hone := hs.occupied k st hf
  rw [hcard] at hone
  exact absurd hone (by simp)

/-- For the two servers to be alike, whatever they do, it is enough that their barriers agree. They
are told apart if some iteration is aggregated in only one of them or open with different workers,
so that a server that has received any gradients never behaves like a new one. -/
theorem sameBehaviour_loadCheckpoint {saved : ParameterServerCore V}
    (hsized : Sized saved.parameters) {epoch : Int32} {file : Option (List UInt8)}
    {image : List UInt8}
    (hsave : saved.saveCheckpoint true (fun _ => none) epoch file = (true, some image))
    {s₁ s₂ t₁ t₂ : ParameterServerCore V} (hN : s₁.totalWorkers = s₂.totalWorkers)
    {alloc₁ alloc₂ : Allocator} {uninit₁ uninit₂ : ℕ → Int32}
    {epoch₁ epoch₂ epoch₁' epoch₂' : Int32}
    (hload₁ : s₁.loadCheckpoint alloc₁ uninit₁ epoch₁ (some image) =
      (.returned true, t₁, epoch₁'))
    (hload₂ : s₂.loadCheckpoint alloc₂ uninit₂ epoch₂ (some image) =
      (.returned true, t₂, epoch₂')) :
    ((∀ k, (s₁.stateOf k).Agree (s₂.stateOf k)) → SameBehaviour ord (fun _ => True) t₁ t₂) ∧
    (SameBehaviour ord Call.NoSave t₁ t₂ → ∀ k,
      (s₁.stateOf k).aggregated = (s₂.stateOf k).aggregated ∧
      ((s₁.stateOf k).aggregated = false →
        (s₁.stateOf k).workerGradients.keySet = (s₂.stateOf k).workerGradients.keySet)) ∧
    (∀ base held, Reachable ord s₁ base held → s₂ = new s₁.totalWorkers →
      (SameBehaviour ord Call.NoSave t₁ t₂ ↔ ∀ k, s₁.iterationStates.find? k = none)) := by
  obtain rfl := loadCheckpoint_of_saveCheckpoint hsized hsave hload₁
  obtain rfl := loadCheckpoint_of_saveCheckpoint hsized hsave hload₂
  have hagree : ∀ A, (∀ k, (s₁.stateOf k).Agree (s₂.stateOf k)) →
      SameBehaviour ord A (s₁.restored saved) (s₂.restored saved) := by
    intro A h calls _
    have ha : Agree (fun _ => True) (s₁.restored saved) (s₂.restored saved) :=
      .restored hN saved fun k _ => h k
    exact ha.sameBehaviour ord calls fun c _ => by cases c <;> trivial
  refine ⟨hagree _, fun h k => ⟨h.aggregated_eq trivial, fun ha =>
    h.keySet_eq trivial (fun _ _ => trivial) ha⟩, ?_⟩
  rintro base held hs rfl
  constructor
  · intro h
    exact h.find?_eq_none ord ((hs.barrier ord).congr rfl rfl) fun _ => rfl
  · intro h
    exact hagree _ fun k => agree_stateOf_of_find? (h k) rfl

/-- Two live servers whose barriers agree: in both a gradient from before the load counts. -/
example :
    let saved : ParameterServerCore UInt32 := (new 2).initializeParameters [word 10]
    let s : ParameterServerCore UInt32 := ((new 2).receive .insertion ⟨0, 0, [word 2]⟩).2
    ((s.restored saved).receive .insertion ⟨1, 0, [word 4]⟩).2.parameters = [word 7] := by
  decide +kernel

end ParameterServerCore

end ParamServer
