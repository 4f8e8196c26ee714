import ParamServer.Cluster.System

/-! What `run_iteration` reports, against all the answers that its RPCs were given. -/

namespace ParamServer

open Library Worker

variable {V : Type}

namespace RunIteration

/-- The server reports the iteration aggregated. -/
def Positive : Option (Response V) → Prop
  | some (.push r) => r.aggregationComplete = true
  | some (.syncStatus r) => r.ready = true
  | some (.parameters _ _) | none => False

/-- What may come of the RPC of a stage: a status that is not OK, or a response of its kind. -/
def Answers : RunIteration V → Option (Response V) → Prop
  | returned _, _ => False
  | _, none => True
  | pull _, some (.parameters _ _) => True
  | push _ _, some (.push _) => True
  | poll _ _, some (.syncStatus _) => True
  | recheck _ _, some (.syncStatus _) => True
  | _, some _ => False

instance (stage : RunIteration V) (outcome : Option (Response V)) :
    Decidable (stage.Answers outcome) := by
  unfold Answers
  split <;> infer_instance

def Rechecking : RunIteration V → Prop
  | recheck _ _ => True
  | _ => False

/-- The stages of one call. Only the last attempt polls. -/
def Reached : RunIteration V → Prop
  | pull retryCount => retryCount < maxRetries
  | push retryCount _ => retryCount < maxRetries
  | poll retryCount pollCount => retryCount = maxRetries - 1 ∧ pollCount < maxPolls
  | recheck retryCount pollCount =>
    retryCount = maxRetries - 1 ∧ pollCount % 20 = 0 ∧ pollCount ≤ maxPolls
  | returned _ => True

def pollsLeft (pollCount : ℕ) : ℕ := (maxPolls - pollCount) + (10 - pollCount / 20)

/-- How many RPCs the call may still make. -/
def callsLeft : RunIteration V → ℕ
  | pull retryCount => 2 * (maxRetries - 1 - retryCount) + 2 + pollsLeft 0
  | push retryCount _ => 2 * (maxRetries - 1 - retryCount) + 1 + pollsLeft 0
  | poll _ pollCount => pollsLeft pollCount
  | recheck _ pollCount => pollsLeft pollCount + 1
  | returned _ => 0

section Bound

/-- The stage is one of the call, with fewer than `n` RPCs to make. -/
def Before (n : ℕ) (stage : RunIteration V) : Prop := stage.Reached ∧ stage.callsLeft < n

theorem before_attempt {retryCount : ℕ} (h : retryCount < maxRetries - 1) {n : ℕ}
    (hn : 2 * (maxRetries - 1 - retryCount) + pollsLeft 0 < n) :
    (attempt (retryCount + 1) : RunIteration V).Before n := by
  have hlt : retryCount + 1 < maxRetries := by omega
  rw [attempt, if_pos hlt]
  refine ⟨hlt, ?_⟩
  simp only [callsLeft]
  omega

theorem before_polling {pollCount n : ℕ} (h : pollsLeft pollCount < n) :
    (polling (maxRetries - 1) pollCount : RunIteration V).Before n := by
  unfold polling
  split
  · rename_i hlt
    exact ⟨⟨rfl, hlt⟩, h⟩
  · rw [if_neg (lt_irrefl _)]
    exact ⟨trivial, Nat.zero_lt_of_lt h⟩

theorem before_afterPush {retryCount : ℕ} (h : retryCount < maxRetries) (complete : Bool) :
    (afterPush retryCount complete : RunIteration V).Before
      (2 * (maxRetries - 1 - retryCount) + 1 + pollsLeft 0) := by
  unfold afterPush
  split
  · rename_i hretry
    exact before_attempt hretry.2 (by omega)
  · rename_i hretry
    split
    · exact ⟨trivial, Nat.zero_lt_of_ne_zero (by omega)⟩
    · rename_i hc
      have hlast : retryCount = maxRetries - 1 := by
        have hge : ¬retryCount < maxRetries - 1 := fun hlt => hretry ⟨hc, hlt⟩
        omega
      rw [hlast]
      exact before_polling (by omega)

theorem before_afterPoll {pollCount : ℕ} (h : pollCount < maxPolls) (ready : Bool) :
    (afterPoll (maxRetries - 1) pollCount ready : RunIteration V).Before
      (pollsLeft pollCount) := by
  have hpos : 0 < pollsLeft pollCount := by
    unfold pollsLeft
    omega
  unfold afterPoll
  split
  · exact ⟨trivial, hpos⟩
  · have hstep : pollsLeft (pollCount + 1) + 1 ≤ pollsLeft pollCount := by
      unfold pollsLeft
      omega
    split
    · rename_i hround
      refine ⟨⟨rfl, hround, h⟩, ?_⟩
      -- the round that is a multiple of 20 pays for its extra check
      simp only [callsLeft, pollsLeft, maxPolls] at *
      omega
    · exact before_polling hstep

variable [Scalar V] {multiGpu : List (Tensor V) → List (Tensor V)}

theorem before_afterPull {retryCount : ℕ} (h : retryCount < maxRetries)
    (params : List (Tensor V)) :
    (afterPull multiGpu retryCount params).Before
      (2 * (maxRetries - 1 - retryCount) + 2 + pollsLeft 0) := by
  unfold afterPull
  split
  · rename_i hretry
    exact before_attempt hretry.2 (by omega)
  · exact ⟨h, by simp only [callsLeft]; omega⟩

end Bound

section Calls

variable [Scalar V] (multiGpu : List (Tensor V) → List (Tensor V))

/-- One call of `run_iteration`, whose inputs are what comes of its RPCs. The outputs are the
stages that made them. -/
def calls : Machine (RunIteration V) (Option (Response V)) (RunIteration V) where
  step stage outcome := (stage, match outcome with
    | none => stage.onFailure multiGpu
    | some response => (stage.onResponse multiGpu response).getD stage)

variable {multiGpu}

theorem before_step {stage : RunIteration V} {outcome : Option (Response V)}
    (hs : stage.Reached) (h : stage.Answers outcome) :
    ((calls multiGpu).step stage outcome).2.Before stage.callsLeft := by
  cases stage with
  | pull retryCount =>
    rcases outcome with _ | _ | ⟨r, held⟩ | _
    · exact before_afterPull hs []
    · cases h
    · exact before_afterPull hs r.parameters
    · cases h
  | push retryCount grads =>
    rcases outcome with _ | r | _ | _
    · exact before_afterPush hs false
    · exact before_afterPush hs r.aggregationComplete
    · cases h
    · cases h
  | poll retryCount pollCount =>
    obtain ⟨rfl, hlt⟩ := hs
    rcases outcome with _ | _ | _ | r
    · exact before_afterPoll hlt false
    · cases h
    · cases h
    · exact before_afterPoll hlt r.ready
  | recheck retryCount pollCount =>
    obtain ⟨rfl, -, -⟩ := hs
    rcases outcome with _ | _ | _ | r
    · exact before_polling (Nat.lt_succ_self _)
    · cases h
    · cases h
    · exact before_polling (Nat.lt_succ_self _)
  | returned done => cases outcome <;> cases h

/-- Three pulls, three pushes, 200 rounds and 10 extra checks. -/
theorem length_calls {outcomes : List (Option (Response V))}
    (h : (calls multiGpu).Meets Answers (attempt 0) outcomes) : outcomes.length ≤ 216 := by
  have hs : (attempt 0 : RunIteration V).Reached := Nat.zero_lt_succ _
  exact Machine.length_le_of_lt (M := calls multiGpu) (C := Answers) (b := callsLeft)
    (fun _ _ hs ha => (before_step hs ha).1) (fun _ _ hs ha => (before_step hs ha).2) hs h

/-- An outcome that the code may report success on: it drops what the extra checks find. -/
theorem step_returned_iff {stage : RunIteration V} {outcome : Option (Response V)}
    (h : stage.Answers outcome) :
    ((calls multiGpu).step stage outcome).2 = .returned true ↔
      Positive outcome ∧ ¬stage.Rechecking := by
  cases stage with
  | pull retryCount =>
    refine iff_of_false ?_ ?_
    · rcases outcome with _ | _ | ⟨r, held⟩ | _
      · exact afterPull_ne_returned multiGpu retryCount []
      · cases h
      · exact afterPull_ne_returned multiGpu retryCount r.parameters
      · cases h
    · rcases outcome with _ | _ | _ | _
      · exact fun hp => hp.1
      · cases h
      · exact fun hp => hp.1
      · cases h
  | push retryCount grads =>
    rw [and_iff_left (show ¬(push retryCount grads).Rechecking from id)]
    rcases outcome with _ | r | _ | _
    · exact (afterPush_returned_iff retryCount false).trans (by simp [Positive])
    · exact afterPush_returned_iff retryCount r.aggregationComplete
    · cases h
    · cases h
  | poll retryCount pollCount =>
    rw [and_iff_left (show ¬(poll retryCount pollCount : RunIteration V).Rechecking from id)]
    rcases outcome with _ | _ | _ | r
    · exact (afterPoll_returned_iff retryCount pollCount false).trans (by simp [Positive])
    · cases h
    · cases h
    · exact afterPoll_returned_iff retryCount pollCount r.ready
  | recheck retryCount pollCount =>
    refine iff_of_false ?_ fun hp => hp.2 trivial
    rcases outcome with _ | _ | _ | r
    · exact (neutral_polling retryCount pollCount).ne_returned
    · cases h
    · cases h
    · exact (neutral_polling retryCount pollCount).ne_returned
  | returned done => cases outcome <;> cases h

/-- What came of the RPCs of a run, with the stages that made them. -/
def answered (multiGpu : List (Tensor V) → List (Tensor V))
    (outcomes : List (Option (Response V))) : List (Option (Response V) × RunIteration V) :=
  outcomes.zip ((calls multiGpu).outputs (attempt 0) outcomes)

theorem answered_fst (outcomes : List (Option (Response V))) :
    (answered multiGpu outcomes).map Prod.fst = outcomes := List.map_fst_zip (by simp)

theorem final_returned_iff {stage : RunIteration V} {outcomes : List (Option (Response V))}
    (h : (calls multiGpu).Meets Answers stage outcomes) :
    (calls multiGpu).final stage outcomes = .returned true ↔ stage = .returned true ∨
      ∃ a ∈ outcomes.zip ((calls multiGpu).outputs stage outcomes),
        Positive a.1 ∧ ¬a.2.Rechecking := by
  induction outcomes generalizing stage with
  | nil => simp [Machine.final]
  | cons outcome outcomes ih =>
    have hne : stage ≠ .returned true := by
      rintro rfl
      cases outcome <;> cases h.1
    rw [Machine.final, ih h.2, step_returned_iff h.1, Machine.outputs, List.zip_cons_cons,
      List.exists_mem_cons_iff, or_iff_right hne]
    rfl

/-- `run_iteration` makes at most 216 RPCs. It tells a positive answer from none unless the only
positive answers were given to the extra checks. -/
theorem report_iff {outcomes : List (Option (Response V))}
    (h : (calls multiGpu).Meets Answers (attempt 0) outcomes) :
    outcomes.length ≤ 216 ∧ ∀ done, (calls multiGpu).final (attempt 0) outcomes = .returned done →
      ((done = true ↔ ∃ outcome ∈ outcomes, Positive outcome) ↔
        ((∃ a ∈ answered multiGpu outcomes, Positive a.1 ∧ a.2.Rechecking) →
          ∃ a ∈ answered multiGpu outcomes, Positive a.1 ∧ ¬a.2.Rechecking)) := by
  refine ⟨length_calls h, fun done hfinal => ?_⟩
  have hdone : done = true ↔
      ∃ a ∈ answered multiGpu outcomes, Positive a.1 ∧ ¬a.2.Rechecking := by
    have hiff := final_returned_iff h
    rw [hfinal, or_iff_right (neutral_attempt 0).ne_returned] at hiff
    rw [answered, ← hiff]
    simp
  have hall : (∃ outcome ∈ outcomes, Positive outcome) ↔
      ∃ a ∈ answered multiGpu outcomes, Positive a.1 := by
    conv_lhs => rw [← @answered_fst _ _ multiGpu outcomes]
    simp only [List.mem_map, exists_exists_and_eq_and]
  rw [hdone, hall]
  constructor
  · rintro hiff ⟨a, ha, hp, -⟩
    exact hiff.mpr ⟨a, ha, hp⟩
  · intro himp
    constructor
    · rintro ⟨a, ha, hp, -⟩
      exact ⟨a, ha, hp⟩
    · rintro ⟨a, ha, hp⟩
      by_cases hr : a.2.Rechecking
      · exact himp ⟨a, ha, hp, hr⟩
      · exact ⟨a, ha, hp, hr⟩

end Calls

/-- The first two attempts find no parameters, the push of the third waits for another worker, and
the polls with their extra checks are answered as given. -/
def lastAttempt (checks : List Bool) : List (Option (Response ℚ)) :=
  [none, none, some (.parameters ⟨5, [], false⟩ []),
    some (.push ⟨true, "gradients received", 5, false, 1, 2⟩)] ++
  checks.map fun ready => some (.syncStatus ⟨5, ready, if ready then 2 else 1, 2⟩)

/-- An extra check finds the iteration aggregated, and so does the poll after it. -/
def polledAfterRecheck : List (Option (Response ℚ)) :=
  lastAttempt (List.replicate 20 false ++ [true, true])

theorem report_iff_polled : polledAfterRecheck.length ≤ 216 ∧
    ∀ done, (calls id).final (attempt 0) polledAfterRecheck = .returned done →
      ((done = true ↔ ∃ outcome ∈ polledAfterRecheck, Positive outcome) ↔
        ((∃ a ∈ answered id polledAfterRecheck, Positive a.1 ∧ a.2.Rechecking) →
          ∃ a ∈ answered id polledAfterRecheck, Positive a.1 ∧ ¬a.2.Rechecking)) :=
  report_iff (by decide +kernel)

/-- The last worker pushes after the last poll, and only the extra check that follows it finds the
iteration aggregated. -/
def onlyRechecked : List (Option (Response ℚ)) :=
  lastAttempt (List.replicate 209 false ++ [true])

theorem report_drops_recheck : (calls id).Meets Answers (attempt 0) onlyRechecked ∧
    (calls id).final (attempt 0) onlyRechecked = .returned false ∧
      ∃ outcome ∈ onlyRechecked, Positive outcome := by
  refine ⟨by decide +kernel, by decide +kernel, some (.syncStatus ⟨5, true, 2, 2⟩), ?_, rfl⟩
  have hlast : true ∈ List.replicate 209 false ++ [true] :=
    List.mem_append_right _ (List.mem_singleton_self true)
  exact List.mem_append_right _ (List.mem_map_of_mem hlast)

end RunIteration

end ParamServer
