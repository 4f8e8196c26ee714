import ParamServer.Service.Checkpoints

/-! The server process over its whole life and the next one. The checkpoint thread reads the
iteration and saves in two steps, between which other threads go on, and a crash may come while it
writes. What a new process can load is then at most one checkpoint interval old. -/

namespace ParamServer

open Library

variable {V : Type}

/-- A running server. `pending` is the epoch that its checkpoint thread has decided to save. -/
structure CheckpointProcess (V : Type) where
  service : CheckpointService V
  pending : Option Int32

inductive ProcessEvent (V : Type)
  | push (p : Push V)
  | save (opens : Bool) (epoch : Int32) (path : List UInt8)
  | load (path : List UInt8) (alloc : Allocator) (uninit : ℕ → Int32)
  /-- The checkpoint thread reads the iteration. -/
  | wake
  /-- The checkpoint thread saves. -/
  | write (opens : Bool)
  /-- The process dies, and a new one is started. A checkpoint that the thread is about to write is
  cut off after `cut` bytes. -/
  | crash (cut : Option ℕ) (totalWorkers checkpointInterval : Int32)

/-- Nothing that the checkpoint thread does. -/
def ProcessEvent.Quiet : ProcessEvent V → Prop
  | push _ | save _ _ _ | load _ _ _ => True
  | wake | write _ | crash _ _ _ => False

/-- Nothing that takes the iteration back, on a disk where the checkpoint thread can write. -/
def ProcessEvent.Forward : ProcessEvent V → Prop
  | push _ | save _ _ _ | wake => True
  | write opens => opens = true
  | load _ _ _ | crash _ _ _ => False

def ProcessEvent.push? : ProcessEvent V → Option (Push V)
  | push p => some p
  | _ => none

/-- Nothing that changes the server itself. -/
def ProcessEvent.Passive : ProcessEvent V → Prop
  | save _ _ _ | wake | write _ => True
  | push _ | load _ _ _ | crash _ _ _ => False

namespace CheckpointService

variable [Word V] (s : CheckpointService V) (epoch : Int32) (path : List UInt8)

omit [Word V] in
/-- Two iterations of one epoch are less than an interval apart. -/
theorem lt_of_epoch_le {interval i j : Int32} (h : 0 < interval) (hi : 0 < i) (hj : 0 < j)
    (hij : i / interval ≤ j / interval) : i.toInt - interval.toInt < j.toInt := by
  rw [Int32.lt_iff_toInt_lt] at h hi hj
  rw [Int32.le_iff_toInt_le, toInt_epoch (Int32.lt_iff_toInt_lt.mpr h),
    toInt_epoch (Int32.lt_iff_toInt_lt.mpr h), Int.tdiv_eq_ediv_of_nonneg hi.le,
    Int.tdiv_eq_ediv_of_nonneg hj.le] at hij
  have hbelow : j.toInt / interval.toInt * interval.toInt ≤ j.toInt := Int.ediv_mul_le _ h.ne'
  have habove : i.toInt < (i.toInt / interval.toInt + 1) * interval.toInt :=
    Int.lt_ediv_add_one_mul_self _ h
  have hscaled := Int.mul_le_mul_of_nonneg_right hij h.le
  rw [add_mul, one_mul] at habove
  omega

/-- The service after its state has been saved under `path`. -/
def stored : CheckpointService V :=
  { s with files := fun other =>
      if other = path then
        some (checkpointImage epoch s.ps.currentIteration s.ps.parameters)
      else s.files other }

theorem writeCheckpoint_true :
    s.writeCheckpoint true (fun _ => none) epoch path = (true, s.stored epoch path) := by
  unfold writeCheckpoint
  rw [ParameterServerCore.saveCheckpoint_reliable]
  rfl

theorem writeCheckpoint_false :
    s.writeCheckpoint false (fun _ => none) epoch path = (false, s) := by
  have hfiles : (fun other => if other = path then s.files path else s.files other) = s.files := by
    funext other
    split
    · rename_i h
      rw [h]
    · rfl
  unfold writeCheckpoint ParameterServerCore.saveCheckpoint
  exact congrArg (fun files => (false, { s with files := files })) hfiles

/-- A save through the handler, with the path that it chooses. -/
theorem saveCheckpoint_snd (opens : Bool) :
    (s.saveCheckpoint opens (fun _ => none) epoch path).2 =
      if opens then s.stored epoch (if path = [] then checkpointPath epoch else path) else s := by
  unfold saveCheckpoint
  dsimp only
  rcases opens with _ | _
  · rw [writeCheckpoint_false]
    rfl
  · rw [writeCheckpoint_true]
    rfl

theorem loadCheckpoint_snd (alloc : Allocator) (uninit : ℕ → Int32) :
    (s.loadCheckpoint alloc uninit path).2 =
      { s with ps := (s.ps.loadCheckpoint alloc uninit 0 (s.files path)).2.1 } := by
  unfold loadCheckpoint
  split
  · rename_i h
    rw [h]
  · rename_i h
    rw [h]
  · rename_i h
    rw [h]

end CheckpointService

namespace CheckpointProcess

/-- A process that has just been started, on the files that it finds. -/
def start (ps : ParameterServerCore V) (checkpointInterval : Int32)
    (files : List UInt8 → Option (List UInt8)) : CheckpointProcess V :=
  ⟨.start ps checkpointInterval files, none⟩

def wake (s : CheckpointProcess V) : CheckpointProcess V :=
  let currentIter := s.service.ps.getCurrentIteration
  let currentEpoch := currentIter / s.service.checkpointInterval
  -- without an interval there is no thread
  if 0 < s.service.checkpointInterval ∧ s.pending = none ∧
      s.service.lastCheckpointedEpoch < currentEpoch ∧ 0 < currentIter then
    { s with pending := some currentEpoch }
  else s

variable [Word V]

def write (opens : Bool) (s : CheckpointProcess V) : CheckpointProcess V :=
  match s.pending with
  | none => s
  | some epoch =>
    match s.service.writeCheckpoint opens (fun _ => none) epoch (checkpointPath epoch) with
    | (true, service) => ⟨{ service with lastCheckpointedEpoch := epoch }, none⟩
    | (false, service) => ⟨service, none⟩

/-- With nothing in between the two steps are one round of the thread. -/
theorem write_wake (opens : Bool) (s : CheckpointService V) (h : 0 < s.checkpointInterval) :
    (wake ⟨s, none⟩).write opens = ⟨(s.periodicCheckpoint opens fun _ => none).2, none⟩ := by
  unfold wake CheckpointService.periodicCheckpoint
  dsimp only
  by_cases hdue : s.lastCheckpointedEpoch < s.ps.getCurrentIteration / s.checkpointInterval ∧
      0 < s.ps.getCurrentIteration
  · rw [if_pos ⟨h, rfl, hdue⟩, if_pos hdue]
    unfold write
    dsimp only
    generalize s.writeCheckpoint opens (fun _ => none) _ _ = r
    obtain ⟨_ | _, s'⟩ := r <;> rfl
  · rw [if_neg fun hall => hdue hall.2.2, if_neg hdue]
    rfl

/-- What the crash leaves on the disk. -/
def torn (cut : Option ℕ) (s : CheckpointProcess V) (path : List UInt8) : Option (List UInt8) :=
  match s.pending, cut with
  | some epoch, some n =>
    if path = checkpointPath epoch then some ((s.service.ps.checkpointWrites epoch).flatten.take n)
    else s.service.files path
  | _, _ => s.service.files path

theorem torn_of_ne (cut : Option ℕ) (s : CheckpointProcess V) {epoch : Int32}
    (h : s.pending ≠ some epoch) :
    s.torn cut (checkpointPath epoch) = s.service.files (checkpointPath epoch) := by
  unfold torn
  split
  · rename_i epoch' n hpending
    refine if_neg fun hpath => h ?_
    rw [hpending, checkpointPath_injective hpath]
  · rfl

section Recorded

/-- The state of the server has been saved under the path. -/
def Written (s t : CheckpointProcess V) (path : List UInt8) : Prop :=
  ∃ marked, t.service.files path =
    some (checkpointImage marked s.service.ps.currentIteration s.service.ps.parameters)

theorem written_stored (service : CheckpointService V) (pending pending' : Option Int32)
    (epoch : Int32) (path : List UInt8) :
    Written ⟨service, pending⟩ ⟨service.stored epoch path, pending'⟩ path :=
  ⟨epoch, if_pos rfl⟩

theorem files_stored (service : CheckpointService V) (pending pending' : Option Int32)
    (epoch : Int32) (path other : List UInt8) :
    (service.stored epoch path).files other = service.files other ∨
      Written ⟨service, pending⟩ ⟨service.stored epoch path, pending'⟩ other := by
  by_cases h : other = path
  · subst h
    exact .inr (written_stored ..)
  · exact .inl (if_neg h)

/-- The file of the epoch holds a state of the server out of `P`, which was then in that epoch or
beyond it. -/
def Recorded (P : ParameterServerCore V → Prop) (s : CheckpointProcess V) (epoch : Int32) : Prop :=
  ∃ saved marked, P saved ∧ 0 < saved.currentIteration ∧
    s.service.files (checkpointPath epoch) =
      some (checkpointImage marked saved.currentIteration saved.parameters) ∧
    epoch ≤ saved.currentIteration / s.service.checkpointInterval ∧
    saved.currentIteration ≤ s.service.ps.currentIteration

/-- What holds since the start of a process while its iteration goes up: the mark has a file, and
neither the mark nor what the thread is about to save is ahead of the iteration. -/
structure Timeline (P : ParameterServerCore V → Prop) (interval : Int32)
    (s : CheckpointProcess V) : Prop where
  interval_eq : s.service.checkpointInterval = interval
  mark : s.service.lastCheckpointedEpoch = -1 ∨
    (Recorded P s s.service.lastCheckpointedEpoch ∧
      s.service.lastCheckpointedEpoch ≤ s.service.ps.currentIteration / interval)
  pending : ∀ epoch, s.pending = some epoch →
    0 < s.service.ps.currentIteration ∧ epoch ≤ s.service.ps.currentIteration / interval

/-- The epoch has its file, or is about to get it. -/
def Covered (P : ParameterServerCore V → Prop) (s : CheckpointProcess V) (epoch : Int32) : Prop :=
  s.pending = some epoch ∨ Recorded P s epoch

variable {P : ParameterServerCore V → Prop} {interval : Int32} {s t : CheckpointProcess V}
  {epoch : Int32}

/-- The file stays, or the server itself is written there. -/
theorem Recorded.step (h : Recorded P s epoch) (hpos : 0 < s.service.checkpointInterval)
    (hs : P s.service.ps)
    (hint : t.service.checkpointInterval = s.service.checkpointInterval)
    (hle : s.service.ps.currentIteration ≤ t.service.ps.currentIteration)
    (hfile : t.service.files (checkpointPath epoch) = s.service.files (checkpointPath epoch) ∨
      Written s t (checkpointPath epoch)) : Recorded P t epoch := by
  obtain ⟨saved, marked, hsaved, hsaved0, himage, hepoch, hsle⟩ := h
  rcases hfile with hsame | ⟨marked', hnew⟩
  · exact ⟨saved, marked, hsaved, hsaved0, hsame.trans himage, hint ▸ hepoch,
      Int32.le_trans hsle hle⟩
  · refine ⟨s.service.ps, marked', hs, Int32.lt_of_lt_of_le hsaved0 hsle, hnew, ?_, hle⟩
    rw [hint]
    exact Int32.le_trans hepoch (CheckpointService.epoch_mono hpos hsle)

theorem recorded_of_written (hs : P s.service.ps)
    (hint : t.service.checkpointInterval = s.service.checkpointInterval)
    (hle : s.service.ps.currentIteration ≤ t.service.ps.currentIteration)
    (hepoch : 0 < s.service.ps.currentIteration ∧
      epoch ≤ s.service.ps.currentIteration / s.service.checkpointInterval)
    (hfile : Written s t (checkpointPath epoch)) : Recorded P t epoch := by
  obtain ⟨marked, hnew⟩ := hfile
  exact ⟨s.service.ps, marked, hs, hepoch.1, hnew, hint ▸ hepoch.2, hle⟩

/-- Once the thread has looked, the epoch at hand is covered: below the mark it cannot be. -/
theorem Timeline.covered_wake (hpos : 0 < interval) (h : Timeline P interval s)
    (hpending : s.pending = none) (hiteration : 0 < s.service.ps.currentIteration) :
    Covered P s.wake (s.service.ps.currentIteration / interval) := by
  obtain rfl := h.interval_eq
  unfold wake
  dsimp only [ParameterServerCore.getCurrentIteration]
  by_cases hlt : s.service.lastCheckpointedEpoch <
      s.service.ps.currentIteration / s.service.checkpointInterval
  · rw [if_pos ⟨hpos, hpending, hlt, hiteration⟩]
    exact .inl rfl
  · rw [if_neg fun hall => hlt hall.2.2.1]
    have hge := Int32.not_lt.mp hlt
    rcases h.mark with hnone | ⟨hrecorded, hle⟩
    · rw [hnone] at hge
      exact absurd (Int32.le_trans (CheckpointService.epoch_nonneg hpos hiteration) hge)
        (by decide)
    · exact .inr (Int32.le_antisymm hge hle ▸ hrecorded)

end Recorded

variable [Scalar V] (ord : VisitOrder)

def machine : Machine (CheckpointProcess V) (ProcessEvent V) (Option (CheckpointReply V)) where
  step s
    | .push p =>
      let (complete, ps) := s.service.ps.receive ord p
      (some (.received complete), { s with service := { s.service with ps := ps } })
    | .save opens epoch path =>
      let (response, service) := s.service.saveCheckpoint opens (fun _ => none) epoch path
      (some (.saved response), { s with service := service })
    | .load path alloc uninit =>
      let (response, service) := s.service.loadCheckpoint alloc uninit path
      (some (.loaded response ((s.service.files path).map fun _ => service.ps.currentIteration)),
        { s with service := service })
    | .wake => (none, s.wake)
    | .write opens => (none, s.write opens)
    | .crash cut totalWorkers checkpointInterval =>
      (none, start (.new totalWorkers) checkpointInterval (s.torn cut))

section Steps

variable (s : CheckpointProcess V) {e : ProcessEvent V}

theorem step_quiet (he : e.Quiet) :
    let t := ((machine ord).step s e).2
    t.service.checkpointInterval = s.service.checkpointInterval ∧
      t.service.lastCheckpointedEpoch = s.service.lastCheckpointedEpoch ∧
      t.pending = s.pending := by
  match e, he with
  | .push p, _ => exact ⟨rfl, rfl, rfl⟩
  | .save opens epoch path, _ =>
    dsimp only [machine]
    rw [CheckpointService.saveCheckpoint_snd]
    split <;> exact ⟨rfl, rfl, rfl⟩
  | .load path alloc uninit, _ =>
    dsimp only [machine]
    rw [CheckpointService.loadCheckpoint_snd]
    exact ⟨rfl, rfl, rfl⟩

theorem step_passive (he : e.Passive) :
    ((machine ord).step s e).2.service.ps = s.service.ps := by
  match e, he with
  | .save opens epoch path, _ =>
    dsimp only [machine]
    rw [CheckpointService.saveCheckpoint_snd]
    split <;> rfl
  | .wake, _ =>
    dsimp only [machine]
    unfold wake
    dsimp only
    split <;> rfl
  | .write opens, _ =>
    dsimp only [machine]
    unfold write
    rcases s.pending with _ | epoch
    · rfl
    dsimp only
    rcases opens with _ | _
    · rw [CheckpointService.writeCheckpoint_false]
    · rw [CheckpointService.writeCheckpoint_true]
      rfl

theorem step_load_ps (path : List UInt8) (alloc : Allocator) (uninit : ℕ → Int32) :
    ((machine ord).step s (.load path alloc uninit)).2.service.ps =
      (s.service.ps.loadCheckpoint alloc uninit 0 (s.service.files path)).2.1 := by
  dsimp only [machine]
  rw [CheckpointService.loadCheckpoint_snd]

/-- What an event can do while the iteration goes up. Either the mark stays, and the thread may
decide on the epoch at hand, or the thread has saved what it decided on. -/
theorem step_forward (he : e.Forward) :
    let t := ((machine ord).step s e).2
    t.service.checkpointInterval = s.service.checkpointInterval ∧
      s.service.ps.currentIteration ≤ t.service.ps.currentIteration ∧
      (∀ path, t.service.files path = s.service.files path ∨ Written s t path) ∧
      ((t.service.lastCheckpointedEpoch = s.service.lastCheckpointedEpoch ∧
          (t.pending = s.pending ∨ (s.pending = none ∧
            0 < t.service.ps.currentIteration ∧
            t.pending = some (t.service.ps.currentIteration / s.service.checkpointInterval)))) ∨
        ∃ epoch, s.pending = some epoch ∧ t.pending = none ∧
          t.service.lastCheckpointedEpoch = epoch ∧ Written s t (checkpointPath epoch)) := by
  obtain ⟨service, pending⟩ := s
  have hle := Int32.le_refl service.ps.currentIteration
  match e, he with
  | .push p, _ =>
    refine ⟨rfl, ?_, fun path => .inl rfl, .inl ⟨rfl, .inl rfl⟩⟩
    change service.ps.currentIteration ≤ (service.ps.receive ord p).2.currentIteration
    rw [ParameterServerCore.receive_currentIteration, laterIteration]
    split
    · rename_i hlt
      exact Int32.le_of_lt hlt
    · exact hle
  | .save opens epoch path, _ =>
    dsimp only [machine]
    rw [CheckpointService.saveCheckpoint_snd]
    rcases opens with _ | _
    · exact ⟨rfl, hle, fun path => .inl rfl, .inl ⟨rfl, .inl rfl⟩⟩
    · exact ⟨rfl, hle, files_stored service pending pending epoch _, .inl ⟨rfl, .inl rfl⟩⟩
  | .wake, _ =>
    dsimp only [machine]
    unfold wake
    dsimp only
    split
    · rename_i h
      exact ⟨rfl, hle, fun path => .inl rfl, .inl ⟨rfl, .inr ⟨h.2.1, h.2.2.2, rfl⟩⟩⟩
    · exact ⟨rfl, hle, fun path => .inl rfl, .inl ⟨rfl, .inl rfl⟩⟩
  | .write true, _ =>
    dsimp only [machine]
    unfold write
    rcases pending with _ | epoch
    · exact ⟨rfl, hle, fun path => .inl rfl, .inl ⟨rfl, .inl rfl⟩⟩
    · dsimp only
      rw [CheckpointService.writeCheckpoint_true]
      exact ⟨rfl, hle, files_stored service (some epoch) none epoch _,
        .inr ⟨epoch, rfl, rfl, rfl, written_stored service (some epoch) none epoch _⟩⟩

end Steps

section Runs

variable {P : ParameterServerCore V → Prop} {interval : Int32} {s : CheckpointProcess V}
  {epoch : Int32} {e : ProcessEvent V}

theorem Timeline.step (hpos : 0 < interval) (h : Timeline P interval s) (hs : P s.service.ps)
    (he : e.Forward) : Timeline P interval ((machine ord).step s e).2 := by
  obtain ⟨hint, hle, hfiles, hcases⟩ := step_forward ord s he
  generalize ((machine ord).step s e).2 = t at hint hle hfiles hcases ⊢
  have hmono := CheckpointService.epoch_mono hpos hle
  obtain rfl := h.interval_eq
  rcases hcases with ⟨hmark, hpending⟩ | ⟨epoch, hpending, hnone, hmark, hwritten⟩
  · refine ⟨hint, ?_, fun epoch' hepoch' => ?_⟩
    · rw [hmark]
      refine h.mark.imp_right fun hold => ⟨?_, Int32.le_trans hold.2 hmono⟩
      exact hold.1.step hpos hs hint hle (hfiles _)
    · rcases hpending with hsame | ⟨-, hcurrent, hnew⟩
      · obtain ⟨hcurrent, hepoch⟩ := h.pending epoch' (hsame ▸ hepoch')
        exact ⟨Int32.lt_of_lt_of_le hcurrent hle, Int32.le_trans hepoch hmono⟩
      · rw [Option.some.inj (hepoch'.symm.trans hnew)]
        exact ⟨hcurrent, Int32.le_refl _⟩
  · refine ⟨hint, .inr ⟨?_, ?_⟩, fun epoch' hepoch' => ?_⟩
    · rw [hmark]
      exact recorded_of_written hs hint hle (h.pending epoch hpending) hwritten
    · rw [hmark]
      exact Int32.le_trans (h.pending epoch hpending).2 hmono
    · rw [hnone] at hepoch'
      cases hepoch'

theorem Covered.step (hpos : 0 < interval) (h : Timeline P interval s) (hs : P s.service.ps)
    (he : e.Forward) (hc : Covered P s epoch) : Covered P ((machine ord).step s e).2 epoch := by
  obtain ⟨hint, hle, hfiles, hcases⟩ := step_forward ord s he
  generalize ((machine ord).step s e).2 = t at hint hle hfiles hcases ⊢
  obtain rfl := h.interval_eq
  rcases hc with hpending | hrecorded
  · rcases hcases with ⟨-, hsame | ⟨hnone, -⟩⟩ | ⟨epoch', hpending', -, -, hwritten⟩
    · exact .inl (hsame.trans hpending)
    · rw [hpending] at hnone
      cases hnone
    · obtain rfl := Option.some.inj (hpending.symm.trans hpending')
      exact .inr (recorded_of_written hs hint hle (h.pending epoch hpending) hwritten)
  · exact .inr (hrecorded.step hpos hs hint hle (hfiles _))

/-- The thread has neither a mark nor a decision when it begins to work. -/
theorem timeline_quiet (ps : ParameterServerCore V) (files : List UInt8 → Option (List UInt8))
    {es : List (ProcessEvent V)} (hes : ∀ e ∈ es, e.Quiet) :
    Timeline P interval ((machine ord).final (start ps interval files) es) := by
  have hquiet : (machine ord).Meets (fun _ e => e.Quiet) (start ps interval files) es :=
    (machine ord).meets_of_forall (fun e he _ => hes e he) _
  obtain ⟨hint, hmark, hnone⟩ := Machine.invariant_final
    (I := fun s : CheckpointProcess V => s.service.checkpointInterval = interval ∧
      s.service.lastCheckpointedEpoch = -1 ∧ s.pending = none)
    (fun s e hs he => by
      obtain ⟨hint, hmark, hnone⟩ := step_quiet ord s he
      exact ⟨hint.trans hs.1, hmark.trans hs.2.1, hnone.trans hs.2.2⟩)
    ⟨rfl, rfl, rfl⟩ hquiet
  exact ⟨hint, .inl hmark, fun epoch h => by simp [hnone] at h⟩

/-- A new process takes up the state that it finds, unless the old one was writing that file. -/
theorem final_crash_load {s : CheckpointProcess V} {epoch marked : Int32}
    {saved : ParameterServerCore V} (hdone : s.pending ≠ some epoch)
    (himage : s.service.files (checkpointPath epoch) =
      some (checkpointImage marked saved.currentIteration saved.parameters))
    (cut : Option ℕ) (N checkpointInterval : Int32) {alloc : Allocator} (uninit : ℕ → Int32)
    (hfits : alloc.Fits saved.parameters) :
    ((machine ord).final s [.crash cut N checkpointInterval,
      .load (checkpointPath epoch) alloc uninit]).service.ps =
        (ParameterServerCore.new N).restored saved := by
  have hfile : s.torn cut (checkpointPath epoch) =
      some (checkpointImage marked saved.currentIteration saved.parameters ++ []) := by
    rw [torn_of_ne cut s hdone, himage, List.append_nil]
  change ((CheckpointService.start _ _ _).loadCheckpoint alloc uninit _).2.ps = _
  rw [CheckpointService.loadCheckpoint_snd]
  dsimp only [CheckpointService.start]
  rw [hfile, ParameterServerCore.loadCheckpoint_image uninit hfits]
  rfl

/-- A crash costs at most one interval of iterations. In a process that loads nothing after its
checkpoint thread has begun to work, let the thread look at the iteration and finish this round.
Then the file of the epoch at hand holds a state of this very run, less than an interval behind
that iteration. It stays so for the rest of the run, and also when the process dies while the thread
writes a later checkpoint; a new process that loads the file continues from there. -/
theorem recovery_point (hpos : 0 < interval) (ps : ParameterServerCore V)
    (files : List UInt8 → Option (List UInt8)) (before during after : List (ProcessEvent V))
    (hbefore : ∀ e ∈ before, e.Quiet) (hduring : ∀ e ∈ during, e.Forward)
    (hafter : ∀ e ∈ after, e.Forward) :
    let M := machine ord
    let s := M.final (start ps interval files) (before ++ during)
    let t := M.final s (.wake :: after)
    let epoch := s.service.ps.currentIteration / interval
    s.pending = none → 0 < s.service.ps.currentIteration → t.pending ≠ some epoch →
      ∃ saved : ParameterServerCore V,
        (∃ pre, pre <+: before ++ (during ++ .wake :: after) ∧
          (M.final (start ps interval files) pre).service.ps = saved) ∧
        s.service.ps.currentIteration.toInt - interval.toInt < saved.currentIteration.toInt ∧
        saved.currentIteration ≤ t.service.ps.currentIteration ∧
        ∀ cut N checkpointInterval alloc uninit, alloc.Fits saved.parameters →
          (M.final t [.crash cut N checkpointInterval,
            .load (checkpointPath epoch) alloc uninit]).service.ps =
              (ParameterServerCore.new N).restored saved := by
  intro M s t epoch hpending hiteration hdone
  let P : ParameterServerCore V → Prop := fun saved =>
    ∃ pre, pre <+: before ++ (during ++ .wake :: after) ∧
      (M.final (start ps interval files) pre).service.ps = saved
  have hbegin : Timeline P interval (M.final (start ps interval files) before) :=
    timeline_quiet ord ps files hbefore
  have hreached : M.Meets (fun s e => P s.service.ps ∧ e.Forward)
      (M.final (start ps interval files) before) (during ++ .wake :: after) := by
    refine (M.meets_and (M.meets_reached _ before _) (M.meets_of_forall (fun e he _ => ?_) _)).mono
      fun s e h => ⟨h.1.imp fun pre hpre => ⟨hpre.1, congrArg (·.service.ps) hpre.2⟩, h.2⟩
    rcases List.mem_append.mp he with he | he
    · exact hduring e he
    · rcases List.mem_cons.mp he with rfl | he
      · trivial
      · exact hafter e he
  obtain ⟨hmid, hwake, hrest⟩ := M.meets_append.mp hreached
  rw [← M.final_append] at hwake hrest
  have hs : Timeline P interval s := by
    have hrun := Machine.invariant_final (I := Timeline P interval)
      (fun s e hs he => hs.step ord hpos he.1 he.2) hbegin hmid
    rwa [← M.final_append] at hrun
  have hlooked : Timeline P interval s.wake ∧ Covered P s.wake epoch :=
    ⟨hs.step ord hpos hwake.1 hwake.2, hs.covered_wake hpos hpending hiteration⟩
  have hcovered : Timeline P interval t ∧ Covered P t epoch :=
    Machine.invariant_final (s := s.wake)
      (I := fun s : CheckpointProcess V => Timeline P interval s ∧ Covered P s epoch)
      (fun s e hs he => ⟨hs.1.step ord hpos he.1 he.2, hs.2.step ord hpos hs.1 he.1 he.2⟩)
      hlooked hrest
  obtain ⟨ht, hpend | ⟨saved, marked, hsaved, hsaved0, himage, hepoch, hle⟩⟩ := hcovered
  · exact absurd hpend hdone
  rw [ht.interval_eq] at hepoch
  refine ⟨saved, hsaved, CheckpointService.lt_of_epoch_le hpos hiteration hsaved0 hepoch, hle,
    fun cut N checkpointInterval alloc uninit hfits => ?_⟩
  exact final_crash_load ord hdone himage cut N checkpointInterval uninit hfits

end Runs

/-- A server of one worker that saves every 10 iterations, and its training up to an iteration. -/
def tornStart : CheckpointProcess UInt32 :=
  start ((ParameterServerCore.new 1).initializeParameters [word 10]) 10 fun _ => none

def trainTo (iteration : Int32) : ProcessEvent UInt32 := .push ⟨0, iteration, [word 1]⟩

/-- The thread looks at iteration 25, and iteration 37 is there when it saves. The crash comes while
it writes the checkpoint of epoch 3. -/
theorem recovery_point_torn :
    ∃ s t, s = (machine .insertion).final tornStart ([] ++ [trainTo 25]) ∧
      t = (machine .insertion).final s (.wake :: [trainTo 37, .write true, trainTo 38, .wake]) ∧
      t.pending = some 3 ∧ ∃ saved : ParameterServerCore UInt32,
        s.service.ps.currentIteration.toInt - 10 < saved.currentIteration.toInt ∧
        ((machine .insertion).final t [.crash (some 5) 1 10,
          .load (checkpointPath (s.service.ps.currentIteration / 10)) .unbounded
            fun _ => 0]).service.ps = (ParameterServerCore.new 1).restored saved := by
  have hpoint := recovery_point .insertion (show (0 : Int32) < 10 by decide)
    ((ParameterServerCore.new 1).initializeParameters [word 10]) (fun _ => none) []
    [trainTo 25] [trainTo 37, .write true, trainTo 38, .wake] (by simp)
    (by simp [trainTo, ProcessEvent.Forward]) (by simp [trainTo, ProcessEvent.Forward])
  rw [← tornStart] at hpoint
  dsimp only at hpoint
  generalize hs : (machine .insertion).final tornStart ([] ++ [trainTo 25]) = s at hpoint
  generalize ht : (machine .insertion).final s
    (.wake :: [trainTo 37, .write true, trainTo 38, .wake]) = t at hpoint
  have hepoch : s.service.ps.currentIteration / 10 = 2 := by
    rw [← hs]
    decide +kernel
  have hdone : t.pending = some 3 := by
    rw [← ht, ← hs]
    decide +kernel
  obtain ⟨saved, ⟨pre, hpre, rfl⟩, hlt, -, hload⟩ := hpoint (by rw [← hs]; decide +kernel)
    (by rw [← hs]; decide +kernel) (by rw [hdone, hepoch]; decide)
  refine ⟨s, t, rfl, ht.symm, hdone, _, hlt, hload (some 5) 1 10 .unbounded (fun _ => 0) ?_⟩
  have hfits : ∀ pre ∈ ([] ++ ([trainTo 25] ++
      ProcessEvent.wake :: [trainTo 37, .write true, trainTo 38, .wake])).inits,
      Allocator.unbounded.Fits
        ((machine .insertion).final tornStart pre).service.ps.parameters := by
    unfold Allocator.Fits Allocator.FitsTensor
    decide +kernel
  exact hfits pre ((List.mem_inits _ _).mpr hpre)

end CheckpointProcess

end ParamServer
