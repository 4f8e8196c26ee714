import ParamServer.Library.Framing
import ParamServer.Server.Core

/-! Saving and loading a checkpoint. `load_checkpoint` never looks at the state of its stream:
it overwrites the caller's epoch and the server's state field by field while it reads. -/

namespace ParamServer

open Library

variable {V : Type}

def int32Codec : WordCodec Int32 :=
  uint32Codec.ofEquiv ⟨Int32.toUInt32, UInt32.toInt32, Int32.toInt32_toUInt32,
    UInt32.toUInt32_toInt32⟩

def dataCodec [Word V] : WordCodec V := uint32Codec.ofEquiv Word.bits

/-- The containers that `load_checkpoint` resizes or reserves to a length from the file. -/
inductive Container
  | tensors
  | name
  | shape
  | data
deriving DecidableEq, Repr

/-- Which lengths the runtime can allocate; for the others `resize` and `reserve` throw. No
container holds `2 ^ 63` elements. -/
structure Allocator where
  grants : Container → ℕ → Bool
  grants_zero : ∀ c, grants c 0 = true
  bounded : ∀ c n, grants c n = true → n < 2 ^ 63

def Allocator.unbounded : Allocator where
  grants _ n := decide (n < 2 ^ 63)
  grants_zero _ := rfl
  bounded _ _ h := of_decide_eq_true h

def Allocator.FitsTensor (alloc : Allocator) (t : Tensor V) : Prop :=
  alloc.grants .name t.name.length = true ∧ alloc.grants .shape t.shape.length = true ∧
    alloc.grants .data t.data.length = true

def Allocator.Fits (alloc : Allocator) (ts : List (Tensor V)) : Prop :=
  alloc.grants .tensors ts.length = true ∧ ∀ t ∈ ts, alloc.FitsTensor t

def Sized (ts : List (Tensor V)) : Prop :=
  ts.length < 2 ^ 63 ∧
    ∀ t ∈ ts, t.name.length < 2 ^ 63 ∧ t.shape.length < 2 ^ 63 ∧ t.data.length < 2 ^ 63

theorem Sized.fits_unbounded {ts : List (Tensor V)} (h : Sized ts) :
    Allocator.unbounded.Fits ts :=
  ⟨decide_eq_true h.1, fun t ht => ⟨decide_eq_true (h.2 t ht).1, decide_eq_true (h.2 t ht).2.1,
    decide_eq_true (h.2 t ht).2.2⟩⟩

section Format

variable [Word V]

def tensorWrites (t : Tensor V) : List (List UInt8) :=
  framedWrites byteCodec t.name ++ framedWrites int32Codec t.shape ++
    int32Codec.enc t.dtype :: framedWrites dataCodec t.data

def encodeTensor (t : Tensor V) : List UInt8 :=
  framed byteCodec t.name ++ (framed int32Codec t.shape ++ (int32Codec.enc t.dtype ++
    framed dataCodec t.data))

def encodeTensors (ts : List (Tensor V)) : List UInt8 := ts.flatMap encodeTensor

def checkpointImage (epoch iteration : Int32) (ts : List (Tensor V)) : List UInt8 :=
  int32Codec.enc epoch ++ (int32Codec.enc iteration ++ (leBytes 8 ts.length ++ encodeTensors ts))

theorem flatten_tensorWrites (t : Tensor V) : (tensorWrites t).flatten = encodeTensor t := by
  simp [tensorWrites, encodeTensor, framedWrites, framed]

theorem flatten_flatMap_tensorWrites (ts : List (Tensor V)) :
    (ts.flatMap tensorWrites).flatten = encodeTensors ts := by
  induction ts with
  | nil => rfl
  | cons t ts ih =>
    rw [List.flatMap_cons, List.flatten_append, ih, flatten_tensorWrites]
    rfl

/-- One round of the loop in `load_checkpoint`, `none` when it throws; `dtype` holds `uninit`
before it is read. -/
def readTensor (alloc : Allocator) (uninit : Int32) (f : InStream) :
    Option (Tensor V × InStream) := do
  let (name, f) ← f.readFramed byteCodec (alloc.grants .name)
  let (shape, f) ← f.readFramed int32Codec (alloc.grants .shape)
  let (dtype, f) := f.readWord int32Codec uninit
  let (data, f) ← f.readFramed dataCodec (alloc.grants .data)
  return (⟨name, shape, data, dtype⟩, f)

/-- The loop in `load_checkpoint` over `n` tensors from index `i` on: whether it ran to its
end, and the tensors it pushed. -/
def readTensors (alloc : Allocator) (uninit : ℕ → Int32) :
    ℕ → ℕ → InStream → Bool × List (Tensor V)
  | 0, _, _ => (true, [])
  | n + 1, i, f =>
    match readTensor alloc (uninit i) f with
    | none => (false, [])
    | some (t, f) =>
      let (done, ts) := readTensors alloc uninit n (i + 1) f
      (done, t :: ts)

end Format

inductive LoadResult
  | returned (success : Bool)
  | threw
deriving DecidableEq, Repr

namespace ParameterServerCore

variable [Word V]

def checkpointWrites (s : ParameterServerCore V) (epoch : Int32) : List (List UInt8) :=
  [int32Codec.enc epoch, int32Codec.enc s.currentIteration, leBytes 8 s.parameters.length] ++
    s.parameters.flatMap tensorWrites

/-- `save_checkpoint` to a path that holds `file`: the result, and what the path holds after.
`opens` tells whether the file can be opened, `fault i` cuts the `i`-th write short. -/
def saveCheckpoint (opens : Bool) (fault : ℕ → Option ℕ) (s : ParameterServerCore V)
    (epoch : Int32) (file : Option (List UInt8)) : Bool × Option (List UInt8) :=
  if opens then
    (true, some (OutStream.writeAll fault 0 ⟨[], true⟩ (s.checkpointWrites epoch)).stored)
  else (false, file)

/-- `load_checkpoint` of `file`, `none` when it cannot be opened, with the caller's `epoch`. -/
def loadCheckpoint (alloc : Allocator) (uninit : ℕ → Int32) (s : ParameterServerCore V)
    (epoch : Int32) (file : Option (List UInt8)) : LoadResult × ParameterServerCore V × Int32 :=
  match file with
  | none => (.returned false, s, epoch)
  | some bytes =>
    let f : InStream := ⟨bytes, true⟩
    let (epoch, f) := f.readWord int32Codec epoch
    let (currentIteration, f) := f.readWord int32Codec s.currentIteration
    let (numTensors, f) := f.readSize
    -- cleared before `reserve`, which may throw
    let s := { s with currentIteration := currentIteration, parameters := [] }
    if alloc.grants .tensors numTensors then
      let (done, ts) := readTensors alloc uninit numTensors 0 f
      (if done then .returned true else .threw, { s with parameters := ts }, epoch)
    else (.threw, s, epoch)

theorem flatten_checkpointWrites (s : ParameterServerCore V) (epoch : Int32) :
    (s.checkpointWrites epoch).flatten =
      checkpointImage epoch s.currentIteration s.parameters := by
  simp [checkpointWrites, checkpointImage, flatten_flatMap_tensorWrites]

theorem saveCheckpoint_reliable (s : ParameterServerCore V) (epoch : Int32)
    (file : Option (List UInt8)) :
    s.saveCheckpoint true (fun _ => none) epoch file =
      (true, some (checkpointImage epoch s.currentIteration s.parameters)) := by
  rw [saveCheckpoint, if_pos rfl, OutStream.writeAll_reliable, flatten_checkpointWrites]
  rfl

end ParameterServerCore

section RoundTrip

variable [Word V] {alloc : Allocator} (uninit : ℕ → Int32)

theorem readTensor_append {t : Tensor V} (h : alloc.FitsTensor t) (u : Int32)
    (rest : List UInt8) :
    readTensor alloc u ⟨encodeTensor t ++ rest, true⟩ = some (t, ⟨rest, true⟩) := by
  obtain ⟨hname, hshape, hdata⟩ := h
  have hn := alloc.bounded _ _ hname
  have hs := alloc.bounded _ _ hshape
  have hd := alloc.bounded _ _ hdata
  simp only [readTensor, encodeTensor, List.append_assoc, bind,
    InStream.readFramed_append _ (show t.name.length < 2 ^ 64 by omega) hname,
    InStream.readFramed_append _ (show t.shape.length < 2 ^ 64 by omega) hshape,
    InStream.readFramed_append _ (show t.data.length < 2 ^ 64 by omega) hdata,
    InStream.readWord_append, Option.bind_some]
  rfl

theorem readTensors_append {ts : List (Tensor V)} (h : ∀ t ∈ ts, alloc.FitsTensor t) (i : ℕ)
    (rest : List UInt8) :
    readTensors alloc uninit ts.length i ⟨encodeTensors ts ++ rest, true⟩ = (true, ts) := by
  induction ts generalizing i with
  | nil => rfl
  | cons t ts ih =>
    rw [List.length_cons, readTensors, encodeTensors, List.flatMap_cons, List.append_assoc,
      readTensor_append (h t (by simp)), ← encodeTensors]
    simp only [ih (fun r hr => h r (List.mem_cons_of_mem _ hr))]

namespace ParameterServerCore

/-- Loading a complete image restores it, whatever follows it in the file. -/
theorem loadCheckpoint_image {ts : List (Tensor V)} (h : alloc.Fits ts)
    (s : ParameterServerCore V) (epoch₀ epoch iteration : Int32) (rest : List UInt8) :
    s.loadCheckpoint alloc uninit epoch₀ (some (checkpointImage epoch iteration ts ++ rest)) =
      (.returned true, { s with parameters := ts, currentIteration := iteration }, epoch) := by
  have hlen := alloc.bounded _ _ h.1
  simp only [loadCheckpoint, checkpointImage, List.append_assoc, InStream.readWord_append,
    InStream.readSize_append (show ts.length < 2 ^ 64 by omega), h.1, if_true,
    readTensors_append uninit h.2]

/-- What `save_checkpoint` writes is read back in full, also with other bytes behind it, where
all lengths can be allocated; and no image is a prefix of a different one. -/
theorem loadCheckpoint_saveCheckpoint :
    (∀ (uninit : ℕ → Int32) (saved s : ParameterServerCore V) (epoch₀ epoch : Int32)
      (file : Option (List UInt8)) (rest : List UInt8),
      let loaded : LoadResult × ParameterServerCore V × Int32 :=
        (.returned true,
          { s with parameters := saved.parameters, currentIteration := saved.currentIteration },
          epoch)
      ∃ image, saved.saveCheckpoint true (fun _ => none) epoch file = (true, some image) ∧
        (Sized saved.parameters →
          s.loadCheckpoint .unbounded uninit epoch₀ (some (image ++ rest)) = loaded) ∧
        ∀ alloc : Allocator, alloc.Fits saved.parameters →
          s.loadCheckpoint alloc uninit epoch₀ (some (image ++ rest)) = loaded) ∧
    ∀ (epoch epoch' iteration iteration' : Int32) (ts ts' : List (Tensor V)), Sized ts →
      Sized ts' → checkpointImage epoch iteration ts <+: checkpointImage epoch' iteration' ts' →
      epoch = epoch' ∧ iteration = iteration' ∧ ts = ts' := by
  constructor
  · intro uninit saved s epoch₀ epoch file rest loaded
    refine ⟨_, saveCheckpoint_reliable saved epoch file, ?_, ?_⟩
    · intro h
      exact loadCheckpoint_image uninit h.fits_unbounded ..
    · intro alloc h
      exact loadCheckpoint_image uninit h ..
  · rintro epoch epoch' iteration iteration' ts ts' h h' ⟨rest, hrest⟩
    -- load the longer image once as an extension of the shorter one and once as itself
    have h1 := loadCheckpoint_image (fun _ => 0) h.fits_unbounded (new 0) 0 epoch iteration rest
    have h2 := loadCheckpoint_image (fun _ => 0) h'.fits_unbounded (new 0) 0 epoch' iteration' []
    rw [List.append_nil, ← hrest, h1] at h2
    simp only [Prod.mk.injEq, mk.injEq, true_and] at h2
    exact ⟨h2.2, h2.1.2, h2.1.1⟩

/-- A name with a NUL byte, no name at all, and data that do not fit the shape. -/
theorem loadCheckpoint_saveCheckpoint_two_tensors :
    let saved : ParameterServerCore UInt32 :=
      ⟨2, [⟨[0, 119], [], [1, 2], 7⟩, ⟨[], [3], [], -1⟩], .empty, 4⟩
    ∃ image, saved.saveCheckpoint true (fun _ => none) 5 none = (true, some image) ∧
      (new 1).loadCheckpoint .unbounded (fun _ => 0) 0 (some (image ++ [9])) =
        (.returned true,
          { new 1 with parameters := saved.parameters, currentIteration := saved.currentIteration },
          5) := by
  intro saved
  obtain ⟨image, hsave, hload, -⟩ :=
    loadCheckpoint_saveCheckpoint.1 (fun _ => 0) saved (new 1) 0 5 none [9]
  exact ⟨image, hsave, hload ⟨by decide, by decide⟩⟩

@[simp] theorem loadCheckpoint_iterationStates (s : ParameterServerCore V) (epoch : Int32)
    (file : Option (List UInt8)) :
    (s.loadCheckpoint alloc uninit epoch file).2.1.iterationStates = s.iterationStates := by
  unfold loadCheckpoint
  rcases file with _ | bytes
  · rfl
  · dsimp only
    split <;> rfl

@[simp] theorem loadCheckpoint_totalWorkers (s : ParameterServerCore V) (epoch : Int32)
    (file : Option (List UInt8)) :
    (s.loadCheckpoint alloc uninit epoch file).2.1.totalWorkers = s.totalWorkers := by
  unfold loadCheckpoint
  rcases file with _ | bytes
  · rfl
  · dsimp only
    split <;> rfl

end ParameterServerCore

end RoundTrip

end ParamServer
