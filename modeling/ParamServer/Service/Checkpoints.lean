import Mathlib.Data.List.DropRight
import ParamServer.Library.Machine
import ParamServer.Server.Checkpoint
import ParamServer.Server.Receive
import ParamServer.Text

/-! The checkpoints of `parameter_server_service_impl`: its `SaveCheckpoint` and `LoadCheckpoint`
handlers, and the thread that saves periodically. The thread keeps the last epoch that it has saved,
and a load does not touch that mark. -/

namespace ParamServer

open Library

variable {V : Type}

structure SaveCheckpointResponse where
  success : Bool
  message : String
  checkpointPath : List UInt8
deriving DecidableEq

structure LoadCheckpointResponse (V : Type) where
  success : Bool
  message : String
  epoch : Int32
  parameters : List (Tensor V)
deriving DecidableEq

/-- The server with the mark of its checkpoint thread, and the files that it can open. -/
structure CheckpointService (V : Type) where
  ps : ParameterServerCore V
  checkpointInterval : Int32
  lastCheckpointedEpoch : Int32
  files : List UInt8 → Option (List UInt8)

/-- `checkpoint_epoch_<epoch>.ckpt` -/
def checkpointPath (epoch : Int32) : List UInt8 :=
  [99, 104, 101, 99, 107, 112, 111, 105, 110, 116, 95, 101, 112, 111, 99, 104, 95] ++
    decimal epoch ++ [46, 99, 107, 112, 116]

theorem checkpointPath_injective : Function.Injective checkpointPath := by
  intro a b h
  unfold checkpointPath at h
  exact decimal_injective (List.append_cancel_left (List.append_cancel_right h))

inductive CheckpointEvent (V : Type)
  | push (p : Push V)
  | save (epoch : Int32) (path : List UInt8)
  | load (path : List UInt8) (alloc : Allocator) (uninit : ℕ → Int32)
  /-- One round of the checkpoint thread. -/
  | tick

/-- What comes of an event. A load has no response when it throws, and `restored` is the iteration
it leaves if it has opened its file; a tick gives the path that it has written. -/
inductive CheckpointReply (V : Type)
  | received (complete : Bool)
  | saved (response : SaveCheckpointResponse)
  | loaded (response : Option (LoadCheckpointResponse V)) (restored : Option Int32)
  | ticked (path : Option (List UInt8))
deriving DecidableEq

def CheckpointReply.restored : CheckpointReply V → Option Int32
  | loaded _ restored => restored
  | _ => none

namespace CheckpointService

def start (ps : ParameterServerCore V) (checkpointInterval : Int32)
    (files : List UInt8 → Option (List UInt8)) : CheckpointService V :=
  ⟨ps, checkpointInterval, -1, files⟩

section History

/-! What the replies of a run tell, with the last load that has opened its file as the dividing
line. -/

def IsLoad (r : CheckpointReply V) : Bool := r.restored.isSome

/-- Some tick has written the file of the epoch. -/
def Written (rs : List (CheckpointReply V)) (epoch : Int32) : Prop :=
  .ticked (some (checkpointPath epoch)) ∈ rs

def sinceLoad (rs : List (CheckpointReply V)) : List (CheckpointReply V) :=
  rs.rtakeWhile fun r => !IsLoad r

def beforeLoad (rs : List (CheckpointReply V)) : List (CheckpointReply V) :=
  rs.rdropWhile fun r => !IsLoad r

/-- The iteration that the last load has restored. -/
def restored (rs : List (CheckpointReply V)) : Option Int32 :=
  rs.reverse.findSome? CheckpointReply.restored

variable {rs : List (CheckpointReply V)} {r : CheckpointReply V} {epoch : Int32}

theorem written_concat :
    Written (rs ++ [r]) epoch ↔ Written rs epoch ∨ r = .ticked (some (checkpointPath epoch)) := by
  rw [Written, List.mem_append, List.mem_singleton, eq_comm (a := r)]
  rfl

theorem written_iff : Written rs epoch ↔
    Written (beforeLoad rs) epoch ∨ Written (sinceLoad rs) epoch := by
  have hsplit : beforeLoad rs ++ sinceLoad rs = rs := List.rdropWhile_append_rtakeWhile
  conv_lhs => rw [Written, ← hsplit, List.mem_append]
  exact Iff.rfl

theorem concat_of_load (rs : List (CheckpointReply V)) (h : IsLoad r = true) :
    sinceLoad (rs ++ [r]) = [] ∧ beforeLoad (rs ++ [r]) = rs ++ [r] := by
  have hnot : ¬(!IsLoad r) = true := by simp [h]
  exact ⟨List.rtakeWhile_concat_neg _ _ _ hnot, List.rdropWhile_concat_neg _ _ _ hnot⟩

theorem concat_of_not_load (rs : List (CheckpointReply V)) (h : IsLoad r = false) :
    sinceLoad (rs ++ [r]) = sinceLoad rs ++ [r] ∧ beforeLoad (rs ++ [r]) = beforeLoad rs := by
  have hnot : (!IsLoad r) = true := by simp [h]
  exact ⟨List.rtakeWhile_concat_pos _ _ _ hnot, List.rdropWhile_concat_pos _ _ _ hnot⟩

end History

section Epochs

theorem toInt_epoch {interval : Int32} (h : 0 < interval) (iteration : Int32) :
    (iteration / interval).toInt = iteration.toInt.tdiv interval.toInt := by
  refine Int32.toInt_div_of_ne_right _ _ ?_
  rintro rfl
  exact absurd h (by decide)

theorem epoch_mono {interval i j : Int32} (h : 0 < interval) (hij : i ≤ j) :
    i / interval ≤ j / interval := by
  rw [Int32.le_iff_toInt_le, toInt_epoch h, toInt_epoch h]
  exact Int.tdiv_le_tdiv (Int32.lt_iff_toInt_lt.mp h) (Int32.le_iff_toInt_le.mp hij)

theorem epoch_nonneg {interval i : Int32} (h : 0 < interval) (hi : 0 < i) : 0 ≤ i / interval := by
  rw [Int32.le_iff_toInt_le, toInt_epoch h]
  exact Int.tdiv_nonneg (Int.le_of_lt (Int32.lt_iff_toInt_lt.mp hi))
    (Int.le_of_lt (Int32.lt_iff_toInt_lt.mp h))

end Epochs

/-- The mark against what was written: either it stems from before the last load, or it is the
epoch of a file written since, in a timeline that only goes up. -/
structure Tracked (interval : Int32) (rs : List (CheckpointReply V)) (s : CheckpointService V) :
    Prop where
  unchanged : s.checkpointInterval = interval
  bounded : ∀ epoch, Written rs epoch → epoch ≤ s.lastCheckpointedEpoch
  mark : ((∀ epoch, ¬Written (sinceLoad rs) epoch) ∧
      (s.lastCheckpointedEpoch = -1 ∨ Written (beforeLoad rs) s.lastCheckpointedEpoch)) ∨
    (Written (sinceLoad rs) s.lastCheckpointedEpoch ∧
      s.lastCheckpointedEpoch ≤ s.ps.currentIteration / interval ∧
      ∀ epoch, Written (beforeLoad rs) epoch → epoch < s.lastCheckpointedEpoch)

section Tracked

variable {interval : Int32} {rs : List (CheckpointReply V)} {s t : CheckpointService V}
  {r : CheckpointReply V} (h : Tracked interval rs s)
include h

/-- After a load everything written so far is from before it. -/
theorem Tracked.load (hload : IsLoad r = true) (hint : t.checkpointInterval = interval)
    (hlast : t.lastCheckpointedEpoch = s.lastCheckpointedEpoch) :
    Tracked interval (rs ++ [r]) t := by
  obtain ⟨hsince, hbefore⟩ := concat_of_load rs hload
  have hsame : ∀ epoch, Written (rs ++ [r]) epoch ↔ Written rs epoch := by
    intro epoch
    refine written_concat.trans (or_iff_left ?_)
    rintro rfl
    cases hload
  refine ⟨hint, fun epoch hw => ?_, .inl ⟨?_, ?_⟩⟩
  · rw [hlast]
    exact h.bounded epoch ((hsame epoch).mp hw)
  · rw [hsince]
    exact fun _ => List.not_mem_nil
  · rw [hbefore, hlast, hsame]
    rcases h.mark with ⟨-, hmark | hmark⟩ | ⟨hmark, -⟩
    · exact .inl hmark
    · exact .inr (written_iff.mpr (.inl hmark))
    · exact .inr (written_iff.mpr (.inr hmark))

/-- Whatever neither loads nor writes leaves the mark, and the iteration may go up. -/
theorem Tracked.keep (hinterval : 0 < interval) (hload : IsLoad r = false)
    (hnot : ∀ path, r ≠ .ticked (some path)) (hint : t.checkpointInterval = interval)
    (hlast : t.lastCheckpointedEpoch = s.lastCheckpointedEpoch)
    (hle : s.ps.currentIteration ≤ t.ps.currentIteration) : Tracked interval (rs ++ [r]) t := by
  obtain ⟨hsince, hbefore⟩ := concat_of_not_load rs hload
  have hsame : ∀ rs' epoch, Written (rs' ++ [r]) epoch ↔ Written rs' epoch := by
    intro rs' epoch
    exact written_concat.trans (or_iff_left (hnot _))
  refine ⟨hint, fun epoch hw => ?_, ?_⟩
  · rw [hlast]
    exact h.bounded epoch ((hsame rs epoch).mp hw)
  · simp only [hsince, hbefore, hsame, hlast]
    refine h.mark.imp_right fun hmark => ⟨hmark.1, ?_, hmark.2.2⟩
    exact Int32.le_trans hmark.2.1 (epoch_mono hinterval hle)

/-- A tick writes an epoch above the mark, and so above all that were written. -/
theorem Tracked.write (hlt : s.lastCheckpointedEpoch < s.ps.currentIteration / interval)
    (hint : t.checkpointInterval = interval)
    (hlast : t.lastCheckpointedEpoch = s.ps.currentIteration / interval)
    (hsame : t.ps.currentIteration = s.ps.currentIteration) :
    Tracked interval
      (rs ++ [.ticked (some (checkpointPath (s.ps.currentIteration / interval)))]) t := by
  obtain ⟨hsince, hbefore⟩ := concat_of_not_load (r := .ticked (some (checkpointPath
    (s.ps.currentIteration / interval)))) rs rfl
  have hbelow : ∀ epoch, Written rs epoch → epoch < t.lastCheckpointedEpoch := by
    intro epoch hw
    rw [hlast]
    exact Int32.lt_of_le_of_lt (h.bounded epoch hw) hlt
  refine ⟨hint, fun epoch hw => ?_, .inr ⟨?_, ?_, fun epoch hw => ?_⟩⟩
  · rcases written_concat.mp hw with hw | hr
    · exact Int32.le_of_lt (hbelow epoch hw)
    · injection hr with hpath
      rw [hlast, checkpointPath_injective (Option.some.inj hpath)]
      exact Int32.le_refl _
  · rw [hsince, hlast]
    exact written_concat.mpr (.inr rfl)
  · rw [hlast, hsame]
    exact Int32.le_refl _
  · rw [hbefore] at hw
    exact hbelow epoch (written_iff.mpr (.inl hw))

/-- Where the mark is at the epoch at hand or above it, the file of the epoch has been written
since the last load exactly if no file of this or a later epoch was written before. -/
theorem Tracked.written_iff_lt (hnonneg : 0 ≤ s.ps.currentIteration / interval)
    (hle : s.ps.currentIteration / interval ≤ s.lastCheckpointedEpoch) :
    Written (sinceLoad rs) (s.ps.currentIteration / interval) ↔
      ∀ old, Written (beforeLoad rs) old → old < s.ps.currentIteration / interval := by
  rcases h.mark with ⟨hnone, hmark⟩ | ⟨hwritten, hlast, hbefore⟩
  · refine iff_of_false (hnone _) fun hold => ?_
    rcases hmark with hmark | hmark
    · rw [hmark] at hle
      exact absurd (Int32.le_trans hnonneg hle) (by decide)
    · exact Int32.lt_irrefl (Int32.lt_of_le_of_lt hle (hold _ hmark))
  · rw [Int32.le_antisymm hle hlast]
    exact iff_of_true hwritten hbefore

end Tracked

variable [Word V]

/-- `save_checkpoint` to a path; `opens` and `fault` are about its file. -/
def writeCheckpoint (opens : Bool) (fault : ℕ → Option ℕ) (s : CheckpointService V)
    (epoch : Int32) (path : List UInt8) : Bool × CheckpointService V :=
  let (success, file) := s.ps.saveCheckpoint opens fault epoch (s.files path)
  (success, { s with files := fun other => if other = path then file else s.files other })

def saveCheckpoint (opens : Bool) (fault : ℕ → Option ℕ) (s : CheckpointService V)
    (epoch : Int32) (path : List UInt8) : SaveCheckpointResponse × CheckpointService V :=
  let path := if path = [] then checkpointPath epoch else path
  match s.writeCheckpoint opens fault epoch path with
  | (true, s) => (⟨true, "checkpoint saved", path⟩, s)
  | (false, s) => (⟨false, "failed to save checkpoint", []⟩, s)

def loadCheckpoint (alloc : Allocator) (uninit : ℕ → Int32) (s : CheckpointService V)
    (path : List UInt8) : Option (LoadCheckpointResponse V) × CheckpointService V :=
  match s.ps.loadCheckpoint alloc uninit 0 (s.files path) with
  | (.returned true, ps, epoch) =>
    (some ⟨true, "checkpoint loaded", epoch, ps.serveParameters 0⟩, { s with ps := ps })
  | (.returned false, ps, _) =>
    (some ⟨false, "failed to load checkpoint", 0, []⟩, { s with ps := ps })
  | (.threw, ps, _) => (none, { s with ps := ps })

/-- One round of the loop in `periodic_checkpoint`, with the path that it has written. -/
def periodicCheckpoint (opens : Bool) (fault : ℕ → Option ℕ) (s : CheckpointService V) :
    Option (List UInt8) × CheckpointService V :=
  let currentIter := s.ps.getCurrentIteration
  let currentEpoch := currentIter / s.checkpointInterval
  if s.lastCheckpointedEpoch < currentEpoch ∧ 0 < currentIter then
    let path := checkpointPath currentEpoch
    match s.writeCheckpoint opens fault currentEpoch path with
    | (true, s) => (some path, { s with lastCheckpointedEpoch := currentEpoch })
    | (false, s) => (none, s)
  else (none, s)

/-- A tick that writes moves the mark to the epoch at hand. -/
theorem periodicCheckpoint_cases (s : CheckpointService V) :
    (s.lastCheckpointedEpoch < s.ps.currentIteration / s.checkpointInterval ∧
      0 < s.ps.currentIteration ∧
      (s.periodicCheckpoint true fun _ => none).1 =
        some (checkpointPath (s.ps.currentIteration / s.checkpointInterval)) ∧
      (s.periodicCheckpoint true fun _ => none).2.ps = s.ps ∧
      (s.periodicCheckpoint true fun _ => none).2.checkpointInterval = s.checkpointInterval ∧
      (s.periodicCheckpoint true fun _ => none).2.lastCheckpointedEpoch =
        s.ps.currentIteration / s.checkpointInterval) ∨
    (¬(s.lastCheckpointedEpoch < s.ps.currentIteration / s.checkpointInterval ∧
      0 < s.ps.currentIteration) ∧ s.periodicCheckpoint true (fun _ => none) = (none, s)) := by
  unfold periodicCheckpoint
  dsimp only [ParameterServerCore.getCurrentIteration]
  split
  · rename_i h
    refine .inl ⟨h.1, h.2, ?_⟩
    simp [writeCheckpoint, ParameterServerCore.saveCheckpoint_reliable]
  · rename_i h
    exact .inr ⟨h, rfl⟩

variable [Scalar V] (ord : VisitOrder)

/-- The server on a disk where every write succeeds. -/
def machine : Machine (CheckpointService V) (CheckpointEvent V) (CheckpointReply V) where
  step s
    | .push p =>
      let (complete, ps) := s.ps.receive ord p
      (.received complete, { s with ps := ps })
    | .save epoch path =>
      let (response, s) := s.saveCheckpoint true (fun _ => none) epoch path
      (.saved response, s)
    | .load path alloc uninit =>
      let (response, t) := s.loadCheckpoint alloc uninit path
      (.loaded response ((s.files path).map fun _ => t.ps.currentIteration), t)
    | .tick =>
      let (path, s) := s.periodicCheckpoint true (fun _ => none)
      (.ticked path, s)

/-- What an event can do to the mark and to the iteration. -/
theorem step_cases (s : CheckpointService V) (e : CheckpointEvent V) :
    (IsLoad ((machine ord).step s e).1 = true ∧
      ((machine ord).step s e).2.checkpointInterval = s.checkpointInterval ∧
      ((machine ord).step s e).2.lastCheckpointedEpoch = s.lastCheckpointedEpoch) ∨
    (IsLoad ((machine ord).step s e).1 = false ∧
      (∀ path, ((machine ord).step s e).1 ≠ .ticked (some path)) ∧
      ((machine ord).step s e).2.checkpointInterval = s.checkpointInterval ∧
      ((machine ord).step s e).2.lastCheckpointedEpoch = s.lastCheckpointedEpoch ∧
      s.ps.currentIteration ≤ ((machine ord).step s e).2.ps.currentIteration) ∨
    (((machine ord).step s e).1 =
        .ticked (some (checkpointPath (s.ps.currentIteration / s.checkpointInterval))) ∧
      s.lastCheckpointedEpoch < s.ps.currentIteration / s.checkpointInterval ∧
      ((machine ord).step s e).2.ps = s.ps ∧
      ((machine ord).step s e).2.checkpointInterval = s.checkpointInterval ∧
      ((machine ord).step s e).2.lastCheckpointedEpoch =
        s.ps.currentIteration / s.checkpointInterval) := by
  cases e with
  | push p =>
    refine .inr (.inl ⟨rfl, nofun, rfl, rfl, ?_⟩)
    change s.ps.currentIteration ≤ (s.ps.receive ord p).2.currentIteration
    rw [ParameterServerCore.receive_currentIteration, laterIteration]
    split
    · rename_i hlt
      exact Int32.le_of_lt hlt
    · exact Int32.le_refl _
  | save epoch path =>
    refine .inr (.inl ⟨rfl, nofun, ?_⟩)
    simp [machine, saveCheckpoint, writeCheckpoint, ParameterServerCore.saveCheckpoint_reliable]
  | load path alloc uninit =>
    rcases hfile : s.files path with _ | file
    · refine .inr (.inl ?_)
      simp [machine, loadCheckpoint, ParameterServerCore.loadCheckpoint, hfile, IsLoad,
        CheckpointReply.restored]
    · refine .inl ⟨?_, ?_, ?_⟩
      · simp [machine, hfile, IsLoad, CheckpointReply.restored]
      · simp only [machine, loadCheckpoint]
        split <;> rfl
      · simp only [machine, loadCheckpoint]
        split <;> rfl
  | tick =>
    rcases s.periodicCheckpoint_cases with ⟨hlt, -, hpath, hrest⟩ | ⟨-, hnone⟩
    · exact .inr (.inr ⟨congrArg CheckpointReply.ticked hpath, hlt, hrest⟩)
    · refine .inr (.inl ?_)
      simp [machine, hnone, IsLoad, CheckpointReply.restored]

theorem Tracked.step {interval : Int32} (hinterval : 0 < interval)
    {rs : List (CheckpointReply V)} {s : CheckpointService V} (h : Tracked interval rs s)
    (e : CheckpointEvent V) :
    Tracked interval (rs ++ [((machine ord).step s e).1]) ((machine ord).step s e).2 := by
  rcases step_cases ord s e with ⟨hload, hint, hlast⟩ | ⟨hload, hnot, hint, hlast, hle⟩ |
    ⟨hreply, hlt, hps, hint, hlast⟩
  · exact h.load hload (hint.trans h.unchanged) hlast
  · exact h.keep hinterval hload hnot (hint.trans h.unchanged) hlast hle
  · rw [h.unchanged] at hreply hlt hlast
    rw [hreply]
    exact h.write hlt (hint.trans h.unchanged) hlast (by rw [hps])

theorem tracked_final {interval : Int32} (hinterval : 0 < interval) (ps : ParameterServerCore V)
    (files : List UInt8 → Option (List UInt8)) (events : List (CheckpointEvent V)) :
    Tracked interval ((machine ord).outputs (start ps interval files) events)
      ((machine ord).final (start ps interval files) events) := by
  refine Machine.invariant_history (M := machine ord) (C := fun _ _ => True)
    (I := fun events s =>
      Tracked interval ((machine ord).outputs (start ps interval files) events) s) ?_
    (fun events e h _ => ?_) (Machine.meets_true _ _ events)
  · have hnone : ∀ epoch, ¬Written ([] : List (CheckpointReply V)) epoch := by simp [Written]
    exact ⟨rfl, fun epoch hw => absurd hw (hnone epoch), .inl ⟨hnone, .inl rfl⟩⟩
  · rw [Machine.outputs_concat, Machine.final_append]
    exact h.step ord hinterval e

/-- A tick leaves the mark at the epoch at hand or above it. -/
theorem epoch_le_mark {interval : Int32} {s : CheckpointService V}
    (hinterval : s.checkpointInterval = interval) (hpos : 0 < s.ps.currentIteration) :
    ((machine ord).step s .tick).2.ps = s.ps ∧
      s.ps.currentIteration / interval ≤ ((machine ord).step s .tick).2.lastCheckpointedEpoch := by
  subst hinterval
  rcases s.periodicCheckpoint_cases with ⟨-, -, -, hps, -, hlast⟩ | ⟨hnot, hnone⟩
  · refine ⟨hps, ?_⟩
    change _ ≤ (s.periodicCheckpoint true fun _ => none).2.lastCheckpointedEpoch
    rw [hlast]
    exact Int32.le_refl _
  · have hstep : ((machine ord).step s .tick).2 = s := congrArg Prod.snd hnone
    rw [hstep]
    exact ⟨rfl, Int32.not_lt.mp fun hlt => hnot ⟨hlt, hpos⟩⟩

/-- After a tick the checkpoints cover the current timeline exactly if its epoch is above all that
were written before the last load, or if that load restored an iteration of this epoch or a later
one. -/
theorem tick_tracks_iff {interval : Int32} (hinterval : 0 < interval)
    (ps : ParameterServerCore V) (files : List UInt8 → Option (List UInt8))
    (events : List (CheckpointEvent V)) :
    let s := (machine ord).final (start ps interval files) events
    let rs := (machine ord).outputs (start ps interval files) (events ++ [.tick])
    let epoch := s.ps.currentIteration / interval
    0 < s.ps.currentIteration →
      ((Written (sinceLoad rs) epoch ∨ ∃ i, restored rs = some i ∧ epoch ≤ i / interval) ↔
        ((∃ i, restored rs = some i ∧ epoch ≤ i / interval) ∨
          ∀ old, Written (beforeLoad rs) old → old < epoch)) := by
  intro s rs epoch hpos
  have hs : Tracked interval _ s := tracked_final ord hinterval ps files events
  obtain ⟨hps, hle⟩ := epoch_le_mark ord hs.unchanged hpos
  have ht : Tracked interval rs ((machine ord).step s .tick).2 := by
    have hfinal := tracked_final ord hinterval ps files (events ++ [.tick])
    rwa [Machine.final_append] at hfinal
  have hwritten := ht.written_iff_lt
  rw [hps] at hwritten
  rw [hwritten (epoch_nonneg hinterval hpos) hle, or_comm]

/-- Training up to an iteration, on a server of one worker. -/
def trainTo (iteration : Int32) : CheckpointEvent UInt32 := .push ⟨0, iteration, [word 1]⟩

def loadEpoch (epoch : Int32) : CheckpointEvent UInt32 :=
  .load (checkpointPath epoch) .unbounded fun _ => 0

/-- A server of one worker that saves every 10 iterations. -/
def startTraining : CheckpointService UInt32 :=
  start ((ParameterServerCore.new 1).initializeParameters [word 10]) 10 fun _ => none

/-- After the rollback to iteration 20 training goes beyond all that was reached before. -/
theorem tick_tracks_retrained :
    let events := [trainTo 20, .tick, trainTo 50, .tick, loadEpoch 2, trainTo 70]
    let s := (machine .insertion).final startTraining events
    let rs := (machine .insertion).outputs startTraining (events ++ [.tick])
    let epoch := s.ps.currentIteration / 10
    Written (sinceLoad rs) epoch ∨ ∃ i, restored rs = some i ∧ epoch ≤ i / 10 := by
  intro events s rs epoch
  refine (tick_tracks_iff .insertion (by decide) _ (fun _ => none) events
    (show 0 < s.ps.currentIteration by decide +kernel)).mpr (.inr fun old hold => ?_)
  have hepoch : epoch = 7 := by decide +kernel
  have hbefore : beforeLoad rs = [.received true, .ticked (some (checkpointPath 2)),
      .received true, .ticked (some (checkpointPath 5)),
      .loaded (some ⟨true, "checkpoint loaded", 2, [word 9]⟩) (some 20)] := by decide +kernel
  change old < epoch
  change Written (beforeLoad rs) old at hold
  rw [Written, hbefore] at hold
  simp only [List.mem_cons, reduceCtorEq, CheckpointReply.ticked.injEq, Option.some_inj,
    checkpointPath_injective.eq_iff, List.not_mem_nil, or_false, false_or] at hold
  rw [hepoch]
  rcases hold with rfl | rfl <;> decide

/-- Retraining from iteration 20 stops at 45. The file of epoch 4 is not written, since the mark is
at the epoch 5 of the timeline that the rollback has left. -/
theorem tick_misses_epoch :
    let events := [trainTo 20, .tick, trainTo 50, .tick, loadEpoch 2, trainTo 45, .tick]
    let s := (machine .insertion).final startTraining events
    let rs := (machine .insertion).outputs startTraining events
    let epoch := s.ps.currentIteration / 10
    0 < s.ps.currentIteration ∧ epoch = 4 ∧ s.files (checkpointPath epoch) = none ∧
      ¬(Written (sinceLoad rs) epoch ∨ ∃ i, restored rs = some i ∧ epoch ≤ i / 10) := by
  intro events s rs epoch
  have hepoch : epoch = 4 := by decide +kernel
  have hwritten : ¬Written (sinceLoad rs) 4 := by
    unfold Written
    decide +kernel
  have hrestored : restored rs = some 20 := by decide +kernel
  refine ⟨by decide +kernel, hepoch, by decide +kernel, ?_⟩
  rw [hepoch]
  rintro (hw | ⟨i, hi, hle⟩)
  · exact hwritten hw
  · cases hrestored.symm.trans hi
    exact absurd hle (by decide)

end CheckpointService

end ParamServer
