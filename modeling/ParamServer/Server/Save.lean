import ParamServer.Server.Checkpoint

/-! What a save that fails leaves behind. The path is truncated before anything is written, and
the state of the stream is never looked at, so that the result only tells whether the file was
opened. -/

namespace ParamServer

open Library

variable {V : Type} [Word V]

namespace ParameterServerCore

/-- The result of a save is true only with the whole image at the path, and false only with what
was there before. -/
def AllOrNothing (s : ParameterServerCore V) (epoch : Int32) (file : Option (List UInt8))
    (r : Bool × Option (List UInt8)) : Prop :=
  (r.1 = true → r.2 = some (checkpointImage epoch s.currentIteration s.parameters)) ∧
    (r.1 = false → r.2 = file)

/-- A save is all or nothing exactly when the file cannot be opened or no write loses a byte. -/
theorem saveCheckpoint_allOrNothing_iff (opens : Bool) (fault : ℕ → Option ℕ)
    (s : ParameterServerCore V) (epoch : Int32) (file : Option (List UInt8)) :
    s.AllOrNothing epoch file (s.saveCheckpoint opens fault epoch file) ↔
      (opens = true → OutStream.Lossless fault 0 (s.checkpointWrites epoch)) := by
  rcases opens with _ | _
  · have hkept : s.AllOrNothing epoch file (false, file) := ⟨nofun, fun _ => rfl⟩
    exact iff_of_true hkept nofun
  · have himage := OutStream.stored_writeAll_iff fault 0 [] (s.checkpointWrites epoch)
    rw [List.nil_append, flatten_checkpointWrites] at himage
    rw [← himage]
    constructor
    · intro h _
      exact Option.some.inj (h.1 rfl)
    · intro h
      exact ⟨fun _ => congrArg some (h rfl), nofun⟩

/-- The disk is full after 11 bytes. The save still succeeds, and the checkpoint that the path held
before is gone. -/
theorem saveCheckpoint_loses_checkpoint :
    let s : ParameterServerCore UInt32 := ⟨1, [word 10], .empty, 4⟩
    let old := checkpointImage 0 3 [word 9]
    let r := s.saveCheckpoint true (fun i => if i = 2 then some 3 else none) 1 (some old)
    r.1 = true ∧ r.2 ≠ some (checkpointImage 1 4 [word 10]) ∧ r.2 ≠ some old ∧
      ¬s.AllOrNothing 1 (some old) r := by
  intro s old r
  have himage : r.2 ≠ some (checkpointImage 1 4 [word 10]) := by decide +kernel
  exact ⟨rfl, himage, by decide +kernel, fun h => himage (h.1 rfl)⟩

end ParameterServerCore

end ParamServer
