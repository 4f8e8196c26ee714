import ParamServer.Library.Machine
import ParamServer.Library.Resources
import ParamServer.Worker.Collective

/-! The life of an `NCCLManager`: which communicators its calls create, use and destroy, when the
calls into NCCL may fail. -/

namespace ParamServer

open Library

/-- The calls about communicators, `none` being what an index out of range would read. -/
abbrev NcclCall := Library.Action (Option ℕ)

/-- How the calls of one `initialize` go; `initRank i` tells whether the one for rank `i` succeeds
and makes a communicator. -/
structure InitOutcome where
  uniqueId : Bool
  groupStart : Bool
  initRank : ℕ → Bool
  groupEnd : Bool

/-- An `NCCLManager` with its communicators, `none` for a null pointer. NCCL has created `created`
of them so far. -/
structure CommManager extends NCCLManager where
  comms : Option (List ℕ)
  created : ℕ

namespace CommManager

def new : CommManager := ⟨⟨false, 0⟩, none, 0⟩

def cleanup (s : CommManager) : List NcclCall × CommManager :=
  match s.initialized, s.comms with
  | true, some comms =>
    ((List.range s.numGpus.toInt.toNat).map fun i => .destroy comms[i]?,
      ⟨⟨false, 0⟩, none, s.created⟩)
  | _, _ => ([], { s with initialized := false, numGpus := 0 })

theorem created_cleanup (s : CommManager) : s.cleanup.2.created = s.created := by
  unfold cleanup
  split <;> rfl

/-- How many ranks are set up before one of them fails. -/
def initRanks (outcome : InitOutcome) (numGpus : Int32) : ℕ :=
  ((List.range numGpus.toInt.toNat).takeWhile outcome.initRank).length

theorem initRanks_le (outcome : InitOutcome) (numGpus : Int32) :
    initRanks outcome numGpus ≤ numGpus.toInt.toNat := by
  have hprefix := (List.takeWhile_prefix outcome.initRank
    (l := List.range numGpus.toInt.toNat)).length_le
  rwa [List.length_range] at hprefix

def initializeManager (outcome : InitOutcome) (s : CommManager) (numGpus : Int32) :
    Bool × List NcclCall × CommManager :=
  let (calls, s) := if s.initialized then s.cleanup else ([], s)
  if numGpus ≤ 1 then (false, calls, s)
  else
    let s := { s with numGpus := numGpus }
    if outcome.uniqueId = false ∨ outcome.groupStart = false then (false, calls, s)
    else
      let comms := List.range' s.created (initRanks outcome numGpus)
      let calls := calls ++ comms.map fun comm => .create (some comm)
      let s := { s with created := s.created + comms.length }
      -- `delete[] comms` forgets the communicators that there are already
      if comms.length < numGpus.toInt.toNat then (false, calls, s)
      else if outcome.groupEnd = false then
        (false, calls ++ comms.map fun comm => .destroy (some comm), s)
      else (true, calls, { s with comms := some comms, initialized := true })

/-- `allreduce_float` with the communicator that it uses. -/
def allreduce (s : CommManager) (ncclAllReduce : Int32 → Bool) (gpuId : Int32) :
    Bool × List NcclCall :=
  (s.allreduceFloat ncclAllReduce gpuId,
    if s.initialized = false ∨ gpuId < 0 ∨ s.numGpus ≤ gpuId then []
    else [.use ((s.comms.getD [])[gpuId.toInt.toNat]?)])

end CommManager

inductive CommOp
  | initializeManager (outcome : InitOutcome) (numGpus : Int32)
  | allreduce (ncclAllReduce : Int32 → Bool) (gpuId : Int32)
  | cleanup

namespace CommManager

def machine : Machine CommManager CommOp (Bool × List NcclCall) where
  step s
    | .initializeManager outcome numGpus =>
      let (success, calls, s) := s.initializeManager outcome numGpus
      ((success, calls), s)
    | .allreduce ncclAllReduce gpuId => (s.allreduce ncclAllReduce gpuId, s)
    | .cleanup => ((true, s.cleanup.1), s.cleanup.2)

/-- All calls into NCCL of a run. -/
def calls (ops : List CommOp) : List NcclCall :=
  (machine.outputs new ops).flatMap Prod.snd

theorem calls_concat (ops : List CommOp) (op : CommOp) :
    calls (ops ++ [op]) = calls ops ++ (machine.step (machine.final new ops) op).1.2 := by
  rw [calls, Machine.outputs_concat, List.flatMap_append, ← calls, List.flatMap_singleton]

end CommManager

/-- How many communicators an `initialize` leaves behind: those of the ranks before the one that
fails. -/
def CommOp.leaked : CommOp → ℕ
  | initializeManager outcome numGpus =>
    if numGpus ≤ 1 ∨ outcome.uniqueId = false ∨ outcome.groupStart = false then 0
    else
      let ranks := CommManager.initRanks outcome numGpus
      if ranks < numGpus.toInt.toNat then ranks else 0
  | _ => 0

namespace CommManager

def commSet (comms : List ℕ) : Finset (Option ℕ) := (comms.map some).toFinset

/-- The communicators that the calls of `ops` leave behind, from `s` on. -/
def leftBehind (s : CommManager) : List CommOp → Finset (Option ℕ)
  | [] => ∅
  | op :: ops => commSet (List.range' s.created op.leaked) ∪ leftBehind (machine.step s op).2 ops

/-- The calls so far are sound, and what is there belongs to the manager or is in `left`. -/
structure Owned (trace : List NcclCall) (left : Finset (Option ℕ)) (s : CommManager) : Prop where
  sound : Sound ∅ trace
  fresh : ∀ comm ∈ liveAfter ∅ trace, ∃ n < s.created, comm = some n
  idle : s.initialized = false → s.comms = none ∧ liveAfter ∅ trace = left
  ready : s.initialized = true → ∃ comms, s.comms = some comms ∧ comms.Nodup ∧
    comms.length = s.numGpus.toInt.toNat ∧ Disjoint (commSet comms) left ∧
    liveAfter ∅ trace = commSet comms ∪ left

section Trace

variable {comms : List ℕ} {live : Finset (Option ℕ)}

theorem map_action_some (f : Option ℕ → NcclCall) (comms : List ℕ) :
    comms.map (fun comm => f (some comm)) = (comms.map some).map f := by
  rw [List.map_map]
  rfl

theorem mem_commSet {comm : Option ℕ} : comm ∈ commSet comms ↔ ∃ n ∈ comms, some n = comm := by
  rw [commSet, List.mem_toFinset, List.mem_map]

theorem card_commSet (h : comms.Nodup) : (commSet comms).card = comms.length := by
  rw [commSet, List.toFinset_card_of_nodup (h.map (Option.some_injective ℕ)), List.length_map]

/-- Reading the communicators by index gives all of them. -/
theorem map_destroy_getElem? (comms : List ℕ) :
    ((List.range comms.length).map fun i => (.destroy comms[i]? : NcclCall)) =
      (comms.map some).map .destroy := by
  apply List.ext_getElem?
  intro i
  rw [List.getElem?_map, List.getElem?_map, List.getElem?_map]
  by_cases hi : i < comms.length
  · rw [List.getElem?_range hi, Option.map_some, List.getElem?_eq_getElem hi]
    rfl
  · rw [List.getElem?_eq_none (by simpa using hi), List.getElem?_eq_none (by simpa using hi)]
    rfl

/-- Destroying communicators that are all there. -/
theorem destroy_spec (h : comms.Nodup) (hlive : commSet comms ⊆ live) :
    Sound live ((comms.map some).map .destroy) ∧
      liveAfter live ((comms.map some).map .destroy) = live \ commSet comms :=
  ⟨sound_destroy (h.map (Option.some_injective ℕ)) fun _ hcomm =>
    hlive (List.mem_toFinset.mpr hcomm), liveAfter_destroy ..⟩

end Trace

variable {trace : List NcclCall} {left : Finset (Option ℕ)} {s : CommManager}

/-- The manager lets go of everything that it owns. -/
theorem Owned.cleanup (h : Owned trace left s) :
    Owned (trace ++ s.cleanup.1) left s.cleanup.2 ∧ s.cleanup.2.initialized = false := by
  unfold CommManager.cleanup
  rcases hinit : s.initialized with _ | _
  · dsimp only
    rw [List.append_nil]
    exact ⟨⟨h.sound, h.fresh, fun _ => h.idle hinit, nofun⟩, rfl⟩
  · obtain ⟨comms, hcomms, hnodup, hlength, hdisjoint, hlive⟩ := h.ready hinit
    rw [hcomms]
    dsimp only
    rw [← hlength, map_destroy_getElem?]
    have hsub : commSet comms ⊆ liveAfter ∅ trace := hlive ▸ Finset.subset_union_left
    obtain ⟨hsound, hrest⟩ := destroy_spec hnodup hsub
    refine ⟨⟨sound_append.mpr ⟨h.sound, hsound⟩, fun comm hcomm => ?_, fun _ => ⟨rfl, ?_⟩, nofun⟩,
      rfl⟩
    · rw [liveAfter_append, hrest] at hcomm
      exact h.fresh comm (Finset.sdiff_subset hcomm)
    · rw [liveAfter_append, hrest, hlive, Finset.union_sdiff_cancel_left hdisjoint]

/-- The manager is idle before it sets anything up. -/
theorem Owned.restart (h : Owned trace left s) : ∃ calls t,
    (if s.initialized then s.cleanup else ([], s)) = (calls, t) ∧
      Owned (trace ++ calls) left t ∧ t.initialized = false ∧ t.created = s.created := by
  split
  · exact ⟨_, _, rfl, h.cleanup.1, h.cleanup.2, s.created_cleanup⟩
  · rename_i hinit
    exact ⟨[], s, rfl, by rwa [List.append_nil], Bool.not_eq_true _ ▸ hinit, rfl⟩

/-- New communicators are different from all that were there. -/
theorem Owned.create (h : Owned trace left s) (count : ℕ) :
    let comms := List.range' s.created count
    let calls := (comms.map some).map .create
    Sound ∅ (trace ++ calls) ∧
      (∀ comm ∈ liveAfter ∅ (trace ++ calls), ∃ n < s.created + count, comm = some n) ∧
      Disjoint (commSet comms) (liveAfter ∅ trace) ∧
      liveAfter ∅ (trace ++ calls) = commSet comms ∪ liveAfter ∅ trace := by
  intro comms calls
  have hnew : ∀ comm ∈ comms.map some, comm ∉ liveAfter ∅ trace := by
    intro comm hcomm hold
    obtain ⟨n, hn, rfl⟩ := List.mem_map.mp hcomm
    obtain ⟨m, hm, he⟩ := h.fresh _ hold
    obtain rfl := Option.some.inj he
    exact absurd (List.mem_range'_1.mp hn).1 (Nat.not_le.mpr hm)
  have hnodup : comms.Nodup := List.nodup_range' 1
  have hlive : liveAfter ∅ (trace ++ calls) = commSet comms ∪ liveAfter ∅ trace := by
    rw [liveAfter_append, liveAfter_create, Finset.union_comm, commSet]
  rw [hlive]
  refine ⟨sound_append.mpr ⟨h.sound, sound_create ?_ hnew⟩, fun comm hcomm => ?_, ?_, rfl⟩
  · exact hnodup.map (Option.some_injective ℕ)
  · rcases Finset.mem_union.mp hcomm with hcomm | hcomm
    · obtain ⟨n, hn, rfl⟩ := mem_commSet.mp hcomm
      exact ⟨n, (List.mem_range'_1.mp hn).2, rfl⟩
    · obtain ⟨n, hn, rfl⟩ := h.fresh comm hcomm
      exact ⟨n, by omega, rfl⟩
  · exact Finset.disjoint_left.mpr fun comm hcomm => hnew comm (List.mem_toFinset.mp hcomm)

/-- What is left to do after the previous communicators are gone. -/
theorem Owned.initializeManager (h : Owned trace left s) (outcome : InitOutcome)
    (numGpus : Int32) :
    let leaked := (CommOp.initializeManager outcome numGpus).leaked
    Owned (trace ++ (s.initializeManager outcome numGpus).2.1)
      (commSet (List.range' s.created leaked) ∪ left)
      (s.initializeManager outcome numGpus).2.2 ∧
      s.created + leaked ≤ (s.initializeManager outcome numGpus).2.2.created := by
  unfold CommManager.initializeManager CommOp.leaked
  obtain ⟨calls, t, hstart, ht, hidle, hcreated⟩ := h.restart
  rw [hstart, ← hcreated]
  dsimp only
  obtain ⟨hcomms, hleft⟩ := ht.idle hidle
  have hnone : commSet (List.range' t.created 0) ∪ left = left := Finset.empty_union left
  by_cases hgpus : numGpus ≤ 1
  · rw [if_pos hgpus, if_pos (.inl hgpus), hnone]
    exact ⟨ht, le_rfl⟩
  rw [if_neg hgpus]
  by_cases hgroup : outcome.uniqueId = false ∨ outcome.groupStart = false
  · rw [if_pos hgroup, if_pos (.inr hgroup), hnone]
    exact ⟨⟨ht.sound, ht.fresh, ht.idle, fun hinit => by cases hidle.symm.trans hinit⟩, le_rfl⟩
  rw [if_neg hgroup, if_neg (not_or.mpr ⟨hgpus, hgroup⟩)]
  have hle := initRanks_le outcome numGpus
  generalize initRanks outcome numGpus = count at hle ⊢
  obtain ⟨hsound, hfresh, hdisjoint, hlive⟩ := ht.create count
  rw [hleft] at hdisjoint hlive
  rw [map_action_some .create, List.length_range']
  by_cases hlt : count < numGpus.toInt.toNat
  · rw [if_pos hlt, if_pos hlt]
    dsimp only
    rw [← List.append_assoc]
    exact ⟨⟨hsound, hfresh, fun _ => ⟨hcomms, hlive⟩,
      fun hinit => by cases hidle.symm.trans hinit⟩, le_rfl⟩
  rw [if_neg hlt, if_neg hlt, hnone]
  have hnodup : (List.range' t.created count).Nodup := List.nodup_range' 1
  by_cases hend : outcome.groupEnd = false
  · rw [if_pos hend]
    dsimp only
    obtain ⟨hsound', hrest⟩ := destroy_spec hnodup (hlive ▸ Finset.subset_union_left)
    rw [map_action_some .destroy, ← List.append_assoc, ← List.append_assoc]
    refine ⟨⟨sound_append.mpr ⟨hsound, hsound'⟩, fun comm hcomm => ?_, fun _ => ⟨hcomms, ?_⟩,
      fun hinit => by cases hidle.symm.trans hinit⟩, Nat.le_add_right ..⟩
    · rw [liveAfter_append, hrest] at hcomm
      exact hfresh comm (Finset.sdiff_subset hcomm)
    · rw [liveAfter_append, hrest, hlive, Finset.union_sdiff_cancel_left hdisjoint]
  · rw [if_neg hend]
    dsimp only
    rw [← List.append_assoc]
    refine ⟨⟨hsound, hfresh, nofun, fun _ => ⟨_, rfl, hnodup, ?_, hdisjoint, hlive⟩⟩,
      Nat.le_add_right ..⟩
    rw [List.length_range']
    exact Nat.le_antisymm hle (Nat.not_lt.mp hlt)

/-- A call on a device finds the communicator of its rank. -/
theorem Owned.allreduce (h : Owned trace left s) (ncclAllReduce : Int32 → Bool)
    (gpuId : Int32) : Owned (trace ++ (s.allreduce ncclAllReduce gpuId).2) left s := by
  unfold CommManager.allreduce
  dsimp only
  split
  · rwa [List.append_nil]
  · rename_i hcall
    obtain ⟨hinit, hnonneg, hlt⟩ : s.initialized = true ∧ 0 ≤ gpuId ∧ gpuId < s.numGpus := by
      rw [not_or, not_or, Bool.not_eq_false, Int32.not_lt, Int32.not_le] at hcall
      exact hcall
    obtain ⟨comms, hcomms, hnodup, hlength, hdisjoint, hlive⟩ := h.ready hinit
    have hrank : gpuId.toInt.toNat < comms.length := by
      rw [Int32.le_iff_toInt_le] at hnonneg
      rw [Int32.lt_iff_toInt_lt] at hlt
      have hzero : (0 : Int32).toInt = 0 := rfl
      omega
    have hused : (s.comms.getD [])[gpuId.toInt.toNat]? = some comms[gpuId.toInt.toNat] := by
      rw [hcomms, Option.getD_some, List.getElem?_eq_getElem hrank]
    have hthere : some comms[gpuId.toInt.toNat] ∈ liveAfter ∅ trace := by
      rw [hlive]
      exact Finset.mem_union_left _ (mem_commSet.mpr ⟨_, List.getElem_mem hrank, rfl⟩)
    rw [hused]
    have hlive' : ∀ comm, liveAfter ∅ (trace ++ [(.use comm : NcclCall)]) = liveAfter ∅ trace :=
      fun comm => liveAfter_append ..
    refine ⟨sound_append.mpr ⟨h.sound, hthere, trivial⟩, ?_, ?_, ?_⟩
    · rw [hlive']
      exact h.fresh
    · rw [hlive']
      exact h.idle
    · rw [hlive']
      exact h.ready

theorem Owned.step (h : Owned trace left s) (op : CommOp) :
    Owned (trace ++ (machine.step s op).1.2)
        (commSet (List.range' s.created op.leaked) ∪ left) (machine.step s op).2 ∧
      s.created + op.leaked ≤ (machine.step s op).2.created := by
  have hnone : commSet (List.range' s.created 0) ∪ left = left := Finset.empty_union left
  cases op with
  | initializeManager outcome numGpus => exact h.initializeManager outcome numGpus
  | allreduce ncclAllReduce gpuId =>
    exact ⟨hnone.symm ▸ h.allreduce ncclAllReduce gpuId, le_rfl⟩
  | cleanup => exact ⟨hnone.symm ▸ h.cleanup.1, s.created_cleanup.ge⟩

theorem leftBehind_concat (s : CommManager) (ops : List CommOp) (op : CommOp) :
    s.leftBehind (ops ++ [op]) =
      s.leftBehind ops ∪ commSet (List.range' (machine.final s ops).created op.leaked) := by
  induction ops generalizing s with
  | nil => rw [List.nil_append, leftBehind, leftBehind, leftBehind, Finset.union_comm]; rfl
  | cons first ops ih =>
    rw [List.cons_append, leftBehind, leftBehind, ih, Finset.union_assoc]
    rfl

/-- What is left behind is as much as every `initialize` leaks, since no two are the same. -/
structure Accounted (ops : List CommOp) (s : CommManager) : Prop where
  owned : Owned (calls ops) (new.leftBehind ops) s
  before : ∀ comm ∈ new.leftBehind ops, ∃ n < s.created, comm = some n
  card : (new.leftBehind ops).card = (ops.map CommOp.leaked).sum

theorem accounted_final (ops : List CommOp) : Accounted ops (machine.final new ops) := by
  refine Machine.invariant_history (M := machine) (C := fun _ _ => True) (I := Accounted) ?_
    (fun ops op h _ => ?_) (Machine.meets_true _ _ ops)
  · exact ⟨⟨trivial, nofun, fun _ => ⟨rfl, rfl⟩, nofun⟩, nofun, rfl⟩
  obtain ⟨howned, hcreated⟩ := h.owned.step op
  have hold : Disjoint (new.leftBehind ops)
      (commSet (List.range' (machine.final new ops).created op.leaked)) := by
    refine Finset.disjoint_left.mpr fun comm hcomm hnew => ?_
    obtain ⟨n, hn, rfl⟩ := h.before comm hcomm
    obtain ⟨m, hm, he⟩ := mem_commSet.mp hnew
    obtain rfl := Option.some.inj he
    exact absurd (List.mem_range'_1.mp hm).1 (Nat.not_le.mpr hn)
  rw [Machine.final_append]
  refine ⟨?_, fun comm hcomm => ?_, ?_⟩
  · rw [calls_concat, leftBehind_concat, Finset.union_comm]
    exact howned
  · rw [leftBehind_concat, Finset.mem_union] at hcomm
    rcases hcomm with hcomm | hcomm
    · obtain ⟨n, hn, rfl⟩ := h.before comm hcomm
      exact ⟨n, hn.trans_le ((Nat.le_add_right ..).trans hcreated), rfl⟩
    · obtain ⟨n, hn, rfl⟩ := mem_commSet.mp hcomm
      exact ⟨n, (List.mem_range'_1.mp hn).2.trans_le hcreated, rfl⟩
  · rw [leftBehind_concat, Finset.card_union_of_disjoint hold, h.card,
      card_commSet (List.nodup_range' 1), List.length_range', List.map_append, List.sum_append,
      List.map_singleton, List.sum_singleton]

/-- However an `NCCLManager` is used and whichever calls into NCCL fail, it destroys and uses only
communicators that there are, and after `cleanup` exactly those are left that an `initialize` has
left behind whose `ncclCommInitRank` failed half-way, each of them once. -/
theorem communicators_accounted (ops : List CommOp) :
    Sound ∅ (calls ops) ∧
      liveAfter ∅ (calls (ops ++ [.cleanup])) = new.leftBehind ops ∧
      (liveAfter ∅ (calls (ops ++ [.cleanup]))).card = (ops.map CommOp.leaked).sum := by
  have h := accounted_final ops
  have hend := h.owned.cleanup
  have hleft : liveAfter ∅ (calls (ops ++ [.cleanup])) = new.leftBehind ops := by
    rw [calls_concat]
    exact (hend.1.idle hend.2).2
  exact ⟨h.owned.sound, hleft, hleft ▸ h.card⟩

/-- The second of three ranks cannot be set up. The communicator of the first one is never
destroyed. -/
example :
    let outcome : InitOutcome := ⟨true, true, fun rank => rank = 0, true⟩
    calls [.initializeManager outcome 3, .cleanup] = [.create (some 0)] ∧
      liveAfter ∅ (calls [.initializeManager outcome 3, .cleanup]) = {some 0} := by
  decide +kernel

end CommManager

end ParamServer
