import ParamServer.Server.Frame
import ParamServer.Service.CrashRecovery

/-! What the checkpoint files are for. A server whose disk keeps snapshots of its state, instead of
bytes, answers every request as the server does, through any number of restarts; and what it loads
is what was last saved there. -/

namespace ParamServer

open Library

variable {V : Type}

structure Snapshot (V : Type) where
  epoch : Int32
  iteration : Int32
  parameters : List (Tensor V)

def Snapshot.image [Word V] (snapshot : Snapshot V) : List UInt8 :=
  checkpointImage snapshot.epoch snapshot.iteration snapshot.parameters

def ParameterServerCore.snapshot (s : ParameterServerCore V) (epoch : Int32) : Snapshot V :=
  ⟨epoch, s.currentIteration, s.parameters⟩

def ParameterServerCore.resume (s : ParameterServerCore V) (snapshot : Snapshot V) :
    ParameterServerCore V :=
  { s with parameters := snapshot.parameters, currentIteration := snapshot.iteration }

/-- The server process on a disk of snapshots. -/
structure SnapshotProcess (V : Type) where
  ps : ParameterServerCore V
  checkpointInterval : Int32
  lastCheckpointedEpoch : Int32
  pending : Option Int32
  files : List UInt8 → Option (Snapshot V)

namespace SnapshotProcess

def start (ps : ParameterServerCore V) (checkpointInterval : Int32)
    (files : List UInt8 → Option (Snapshot V)) : SnapshotProcess V :=
  ⟨ps, checkpointInterval, -1, none, files⟩

def store (s : SnapshotProcess V) (epoch : Int32) (path : List UInt8) : SnapshotProcess V :=
  { s with files := Function.update s.files path (some (s.ps.snapshot epoch)) }

theorem files_store (s : SnapshotProcess V) (epoch : Int32) (path other : List UInt8) :
    (s.store epoch path).files other =
      if other = path then some (s.ps.snapshot epoch) else s.files other :=
  Function.update_apply ..

def wake (s : SnapshotProcess V) : SnapshotProcess V :=
  if 0 < s.checkpointInterval ∧ s.pending = none ∧
      s.lastCheckpointedEpoch < s.ps.currentIteration / s.checkpointInterval ∧
      0 < s.ps.currentIteration then
    { s with pending := some (s.ps.currentIteration / s.checkpointInterval) }
  else s

def write (opens : Bool) (s : SnapshotProcess V) : SnapshotProcess V :=
  match s.pending, opens with
  | none, _ => s
  | some _, false => { s with pending := none }
  | some epoch, true =>
    { s.store epoch (checkpointPath epoch) with lastCheckpointedEpoch := epoch, pending := none }

variable [Scalar V] (ord : VisitOrder)

/-- Crashes here never come during a write. -/
def machine : Machine (SnapshotProcess V) (ProcessEvent V) (Option (CheckpointReply V)) where
  step s
    | .push p =>
      let (complete, ps) := s.ps.receive ord p
      (some (.received complete), { s with ps := ps })
    | .save opens epoch path =>
      let path := if path = [] then checkpointPath epoch else path
      if opens then (some (.saved ⟨true, "checkpoint saved", path⟩), s.store epoch path)
      else (some (.saved ⟨false, "failed to save checkpoint", []⟩), s)
    | .load path _ _ =>
      match s.files path with
      | none => (some (.loaded (some ⟨false, "failed to load checkpoint", 0, []⟩) none), s)
      | some snapshot =>
        (some (.loaded (some ⟨true, "checkpoint loaded", snapshot.epoch, snapshot.parameters⟩)
          (some snapshot.iteration)), { s with ps := s.ps.resume snapshot })
    | .wake => (none, s.wake)
    | .write opens => (none, s.write opens)
    | .crash _ totalWorkers checkpointInterval =>
      (none, start (.new totalWorkers) checkpointInterval s.files)

end SnapshotProcess

section Sizes

theorem Sized.of_map_spec_eq {ts us : List (Tensor V)}
    (h : ts.map Tensor.spec = us.map Tensor.spec) (hu : Sized us) : Sized ts := by
  have hlen : ts.length = us.length := by simpa using congrArg List.length h
  refine ⟨hlen ▸ hu.1, fun t ht => ?_⟩
  have hmem : t.spec ∈ us.map Tensor.spec := h ▸ List.mem_map_of_mem ht
  obtain ⟨u, hmem, hspec⟩ := List.mem_map.mp hmem
  obtain ⟨hname, hshape, hdata, -⟩ := TensorSpec.mk.injEq .. ▸ hspec
  obtain ⟨hn, hs, hd⟩ := hu.2 u hmem
  exact ⟨hname ▸ hn, hshape ▸ hs, hdata ▸ hd⟩

theorem Sized.receive [Scalar V] (ord : VisitOrder) {s : ParameterServerCore V} {p : Push V}
    (h : Sized s.parameters) (hp : Sized p.gradients) :
    Sized (s.receive ord p).2.parameters := by
  by_cases hnil : s.parameters = []
  · rw [ParameterServerCore.receive_parameters]
    split
    · -- the first mean becomes the parameters
      rw [ParameterServerCore.updated, aggregate, if_pos (by simp [hnil])]
      exact .of_map_spec_eq (map_spec_averageGradients ..) hp
    · exact h
  · exact .of_map_spec_eq (ParameterServerCore.map_spec_receive ord hnil p) h

end Sizes

/-- Requests of sizes that a machine can hold, and no crash during a write. -/
def ProcessEvent.Admitted : ProcessEvent V → Prop
  | push p => Sized p.gradients
  | load _ alloc _ => ∀ ts : List (Tensor V), Sized ts → alloc.Fits ts
  | crash cut _ _ => cut = none
  | _ => True

namespace SnapshotProcess

/-- Everything is of a size that can be loaded. -/
structure Holdable (a : SnapshotProcess V) : Prop where
  ps : Sized a.ps.parameters
  files : ∀ path snapshot, a.files path = some snapshot → Sized snapshot.parameters

variable {a : SnapshotProcess V}

theorem Holdable.store (h : a.Holdable) (epoch : Int32) (path : List UInt8) :
    (a.store epoch path).Holdable := by
  refine ⟨h.ps, fun other snapshot hother => ?_⟩
  rw [files_store] at hother
  split at hother
  · rw [← Option.some.inj hother]
    exact h.ps
  · exact h.files other snapshot hother

theorem sized_nil : Sized ([] : List (Tensor V)) := ⟨Nat.two_pow_pos 63, fun t ht => by cases ht⟩

variable (ord : VisitOrder) {e : ProcessEvent V}

theorem Holdable.step [Scalar V] (h : a.Holdable) (he : e.Admitted) :
    ((machine ord).step a e).2.Holdable := by
  match e, he with
  | .push p, he => exact ⟨h.ps.receive ord he, h.files⟩
  | .save true epoch path, _ => exact h.store epoch _
  | .save false _ _, _ => exact h
  | .load path alloc uninit, _ =>
    dsimp only [machine]
    rcases hfile : a.files path with _ | snapshot
    · exact h
    · exact ⟨h.files path snapshot hfile, h.files⟩
  | .wake, _ =>
    dsimp only [machine]
    unfold wake
    split
    · exact ⟨h.ps, h.files⟩
    · exact h
  | .write opens, _ =>
    dsimp only [machine]
    unfold write
    rcases a.pending with _ | epoch
    · exact h
    rcases opens with _ | _
    · exact ⟨h.ps, h.files⟩
    · have hstored := h.store epoch (checkpointPath epoch)
      exact ⟨hstored.ps, hstored.files⟩
  | .crash cut N checkpointInterval, _ => exact ⟨sized_nil, h.files⟩

variable [Word V]

/-- The server process with the images of the snapshots on its disk. -/
def realize (a : SnapshotProcess V) : CheckpointProcess V where
  service := ⟨a.ps, a.checkpointInterval, a.lastCheckpointedEpoch,
    fun path => (a.files path).map Snapshot.image⟩
  pending := a.pending

theorem stored_realize (a : SnapshotProcess V) (epoch : Int32) (path : List UInt8) :
    a.realize.service.stored epoch path = (a.store epoch path).realize.service := by
  have hfiles : (a.realize.service.stored epoch path).files =
      (a.store epoch path).realize.service.files := by
    funext other
    dsimp only [realize, CheckpointService.stored]
    rw [files_store]
    split <;> rfl
  exact congrArg (CheckpointService.mk _ _ _) hfiles

theorem wake_realize (a : SnapshotProcess V) : a.realize.wake = a.wake.realize := by
  by_cases h : 0 < a.checkpointInterval ∧ a.pending = none ∧
      a.lastCheckpointedEpoch < a.ps.currentIteration / a.checkpointInterval ∧
      0 < a.ps.currentIteration
  · have hwake : a.realize.wake =
        { a.realize with pending := some (a.ps.currentIteration / a.checkpointInterval) } :=
      if_pos h
    rw [hwake, wake, if_pos h]
    rfl
  · have hwake : a.realize.wake = a.realize := if_neg h
    rw [hwake, wake, if_neg h]

theorem write_realize (a : SnapshotProcess V) (opens : Bool) :
    a.realize.write opens = (a.write opens).realize := by
  obtain ⟨ps, checkpointInterval, lastCheckpointedEpoch, pending, files⟩ := a
  rcases pending with _ | epoch
  · rfl
  unfold CheckpointProcess.write
  dsimp only [realize]
  rcases opens with _ | _
  · rw [CheckpointService.writeCheckpoint_false]
    rfl
  · have hstored := stored_realize ⟨ps, checkpointInterval, lastCheckpointedEpoch, some epoch,
      files⟩ epoch (checkpointPath epoch)
    dsimp only [realize] at hstored
    rw [CheckpointService.writeCheckpoint_true, hstored]
    rfl

/-- A snapshot is read back from its image. -/
theorem loadCheckpoint_realize (h : a.Holdable) {alloc : Allocator}
    (halloc : ∀ ts : List (Tensor V), Sized ts → alloc.Fits ts) (uninit : ℕ → Int32)
    {path : List UInt8} {snapshot : Snapshot V} (hfile : a.files path = some snapshot) :
    a.realize.service.loadCheckpoint alloc uninit path =
      (some ⟨true, "checkpoint loaded", snapshot.epoch, snapshot.parameters⟩,
        { a.realize.service with ps := a.ps.resume snapshot }) := by
  have himage : a.realize.service.files path = some (snapshot.image ++ []) := by
    rw [List.append_nil]
    exact congrArg (Option.map Snapshot.image) hfile
  unfold CheckpointService.loadCheckpoint
  rw [himage, Snapshot.image, ParameterServerCore.loadCheckpoint_image uninit
    (halloc _ (h.files path snapshot hfile))]
  rfl

theorem step_realize [Scalar V] (h : a.Holdable) (he : e.Admitted) :
    (CheckpointProcess.machine ord).step a.realize e =
      (((machine ord).step a e).1, ((machine ord).step a e).2.realize) := by
  match e, he with
  | .push p, _ => rfl
  | .save true epoch path, _ =>
    dsimp only [CheckpointProcess.machine, machine]
    unfold CheckpointService.saveCheckpoint
    dsimp only
    rw [CheckpointService.writeCheckpoint_true, stored_realize]
    rfl
  | .save false epoch path, _ =>
    dsimp only [CheckpointProcess.machine, machine]
    unfold CheckpointService.saveCheckpoint
    dsimp only
    rw [CheckpointService.writeCheckpoint_false]
    rfl
  | .load path alloc uninit, he =>
    dsimp only [CheckpointProcess.machine, machine]
    rcases hfile : a.files path with _ | snapshot
    · have hnone : a.realize.service.files path = none := congrArg (Option.map Snapshot.image) hfile
      unfold CheckpointService.loadCheckpoint
      rw [hnone]
      rfl
    · have himage : a.realize.service.files path = some snapshot.image :=
        congrArg (Option.map Snapshot.image) hfile
      rw [loadCheckpoint_realize h he uninit hfile, himage]
      rfl
  | .wake, _ => exact congrArg (Prod.mk none) a.wake_realize
  | .write opens, _ => exact congrArg (Prod.mk none) (a.write_realize opens)
  | .crash cut N checkpointInterval, he =>
    obtain rfl : cut = none := he
    have hkept : a.realize.torn none = a.realize.service.files := by
      funext path
      unfold CheckpointProcess.torn
      split
      · rename_i hcut
        cases hcut
      · rfl
    dsimp only [CheckpointProcess.machine, machine]
    rw [hkept]
    rfl

/-- The server refines the server on snapshots: it gives the same answers, and its disk holds the
images, in every run without a crash during a write. -/
theorem refines_snapshots [Scalar V] (h : a.Holdable) (es : List (ProcessEvent V))
    (hes : ∀ e ∈ es, e.Admitted) :
    (CheckpointProcess.machine ord).outputs a.realize es = (machine ord).outputs a es ∧
      (CheckpointProcess.machine ord).final a.realize es = ((machine ord).final a es).realize := by
  have hsim : Machine.Bisimulation (CheckpointProcess.machine ord) (machine ord)
      (fun e => e.Admitted) fun (s : CheckpointProcess V) b => s = b.realize ∧ b.Holdable := by
    constructor
    · rintro _ b e ⟨rfl, hb⟩ he
      rw [step_realize ord hb he]
    · rintro _ b e ⟨rfl, hb⟩ he
      rw [step_realize ord hb he]
      exact ⟨rfl, hb.step ord he⟩
  exact ⟨hsim.outputs_eq ⟨rfl, h⟩ hes, (hsim.final_related ⟨rfl, h⟩ hes).1⟩

theorem holdable_start : (start ((ParameterServerCore.new 1).initializeParameters [word 10]) 10
    fun _ => none).Holdable :=
  ⟨⟨by decide, by decide⟩, nofun⟩

/-- A restart between the checkpoint of epoch 2 and its load. -/
theorem refines_snapshots_restart :
    let a := start ((ParameterServerCore.new 1).initializeParameters [word 10]) 10 fun _ => none
    let es : List (ProcessEvent UInt32) := [.push ⟨0, 25, [word 1]⟩, .wake, .write true,
      .push ⟨0, 26, [word 1]⟩, .crash none 1 10, .load (checkpointPath 2) .unbounded fun _ => 0]
    (CheckpointProcess.machine .insertion).outputs a.realize es = [some (.received true), none,
      none, some (.received true), none,
      some (.loaded (some ⟨true, "checkpoint loaded", 2, [word 9]⟩) (some 25))] := by
  intro a es
  have hes : ∀ e ∈ es, e.Admitted := by
    have hsized : Sized [word 1] := ⟨by decide, by decide⟩
    have hfits : ∀ ts : List (Tensor UInt32), Sized ts → Allocator.unbounded.Fits ts :=
      fun ts => Sized.fits_unbounded
    simpa [es, ProcessEvent.Admitted, hsized] using hfits
  rw [(refines_snapshots .insertion holdable_start es hes).1]
  decide +kernel

end SnapshotProcess

namespace CheckpointProcess

variable [Word V]

/-- The event writes the file. -/
def Overwrites (path : List UInt8) (s : CheckpointProcess V) : ProcessEvent V → Prop
  | .save true epoch other => (if other = [] then checkpointPath epoch else other) = path
  | .write true => s.pending.map checkpointPath = some path
  | _ => False

variable [Scalar V] (ord : VisitOrder)

/-- Nothing else touches a snapshot. -/
theorem files_step {a : SnapshotProcess V} {path : List UInt8} {e : ProcessEvent V}
    (h : ¬Overwrites path a.realize e) :
    ((SnapshotProcess.machine ord).step a e).2.files path = a.files path := by
  match e, h with
  | .push p, _ => rfl
  | .save true epoch other, h =>
    dsimp only [SnapshotProcess.machine]
    rw [if_pos rfl]
    rw [SnapshotProcess.files_store, if_neg fun hpath => h hpath.symm]
  | .save false epoch other, _ => rfl
  | .load other alloc uninit, _ =>
    dsimp only [SnapshotProcess.machine]
    rcases a.files other with _ | snapshot <;> rfl
  | .wake, _ =>
    dsimp only [SnapshotProcess.machine]
    unfold SnapshotProcess.wake
    split <;> rfl
  | .write opens, h =>
    dsimp only [SnapshotProcess.machine]
    unfold SnapshotProcess.write
    rcases hpending : a.pending with _ | epoch
    · rfl
    rcases opens with _ | _
    · rfl
    · have hother : path ≠ checkpointPath epoch := by
        rintro rfl
        exact h (congrArg (Option.map checkpointPath) hpending)
      exact (a.files_store epoch _ path).trans (if_neg hother)
  | .crash cut N checkpointInterval, _ => rfl

/-- What a save has stored is what a load brings back. Between the two the server may train on, save
and load elsewhere and be restarted any number of times, as long as the file is not written. -/
theorem load_returns_last_save {a : SnapshotProcess V} (h : a.Holdable)
    (before after : List (ProcessEvent V)) (hbefore : ∀ e ∈ before, e.Admitted)
    (hafter : ∀ e ∈ after, e.Admitted) (epoch : Int32) {path : List UInt8} (hpath : path ≠ [])
    {alloc : Allocator} (halloc : ∀ ts : List (Tensor V), Sized ts → alloc.Fits ts)
    (uninit : ℕ → Int32) :
    let M := machine ord
    let s := M.final a.realize before
    let t := M.final s (.save true epoch path :: after)
    M.Meets (fun u e => ¬Overwrites path u e) (M.step s (.save true epoch path)).2 after →
      M.step t (.load path alloc uninit) =
        (some (.loaded
          (some ⟨true, "checkpoint loaded", epoch, s.service.ps.serveParameters 0⟩)
          (some s.service.ps.getCurrentIteration)),
        { t with service := { t.service with ps := t.service.ps.restored s.service.ps } }) := by
  intro M s t hkept
  let saved := (SnapshotProcess.machine ord).final a before
  have hs : s = saved.realize := (SnapshotProcess.refines_snapshots ord h before hbefore).2
  have hsaved : saved.Holdable :=
    Machine.invariant_final (I := SnapshotProcess.Holdable)
      (fun b e hb he => SnapshotProcess.Holdable.step ord hb he) h
      ((SnapshotProcess.machine ord).meets_of_forall (fun e he _ => hbefore e he) _)
  have hstored : (M.step s (.save true epoch path)).2 = (saved.store epoch path).realize := by
    have hsave := SnapshotProcess.step_realize ord hsaved (e := .save true epoch path) trivial
    rw [hs, hsave]
    dsimp only [SnapshotProcess.machine]
    rw [if_neg hpath, if_pos rfl]
  have hrun : ∃ b : SnapshotProcess V, t = b.realize ∧ b.Holdable ∧
      b.files path = some (saved.ps.snapshot epoch) := by
    refine Machine.invariant_final (M := M) (s := (M.step s (.save true epoch path)).2)
      (I := fun u => ∃ b : SnapshotProcess V, u = b.realize ∧ b.Holdable ∧
        b.files path = some (saved.ps.snapshot epoch)) ?_ ?_
      (M.meets_and hkept (M.meets_of_forall (fun e he _ => hafter e he) _))
    · rintro _ e ⟨b, rfl, hb, hfile⟩ ⟨hnot, he⟩
      have hstep := SnapshotProcess.step_realize ord hb he
      exact ⟨_, congrArg Prod.snd hstep, hb.step ord he, (files_step ord hnot).trans hfile⟩
    · refine ⟨_, hstored, hsaved.store epoch path, ?_⟩
      rw [SnapshotProcess.files_store, if_pos rfl]
  obtain ⟨b, ht, hb, hfile⟩ := hrun
  have hload : M.step b.realize (.load path alloc uninit) = _ :=
    SnapshotProcess.step_realize ord hb (e := .load path alloc uninit) halloc
  rw [ht, hload, hs]
  dsimp only [SnapshotProcess.machine]
  rw [hfile]
  rfl

/-- A push and a restart between the save and the load. -/
theorem load_returns_last_save_restart :
    let M := machine (V := UInt32) .insertion
    let a := SnapshotProcess.start ((ParameterServerCore.new 1).initializeParameters [word 10]) 10
      fun _ => none
    let t := M.final (M.final a.realize [.push ⟨0, 3, [word 1]⟩])
      (.save true 7 [97] :: [.push ⟨0, 8, [word 1]⟩, .crash none 1 10])
    (M.step t (.load [97] .unbounded fun _ => 0)).1 =
      some (.loaded (some ⟨true, "checkpoint loaded", 7, [word 9]⟩) (some 3)) := by
  intro M a t
  have hsized : Sized [word 1] := ⟨by decide, by decide⟩
  have hload := load_returns_last_save .insertion SnapshotProcess.holdable_start
    [.push ⟨0, 3, [word 1]⟩] [.push ⟨0, 8, [word 1]⟩, .crash none 1 10]
    (by simp [ProcessEvent.Admitted, hsized]) (by simp [ProcessEvent.Admitted, hsized]) 7
    (show ([97] : List UInt8) ≠ [] by decide) (fun ts => Sized.fits_unbounded) (fun _ => 0)
    ⟨id, id, trivial⟩
  rw [hload]
  decide +kernel

end CheckpointProcess

end ParamServer
