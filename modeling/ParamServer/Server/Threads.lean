import ParamServer.Server.Mutexes

/-! The histories of the server's threads against the object that does one operation after another.
A push takes effect when it applies its mean, and one that applies none when it moves
`current_iteration_` or is recorded; any other operation takes effect at its one action. -/

namespace ParamServer

open Library

variable {V : Type}

theorem not_lt_laterIteration_right (current iteration : Int32) :
    ¬laterIteration current iteration < iteration := by
  unfold laterIteration
  split
  · exact Int32.lt_irrefl
  · assumption

theorem not_lt_laterIteration {current iteration k : Int32} (h : ¬current < k) :
    ¬laterIteration current iteration < k := by
  unfold laterIteration
  split
  · rename_i hlt
    exact fun hk => h (Int32.lt_trans hlt hk)
  · exact h

namespace ParameterServerCore

/-- What `state_mutex_` guards. -/
def barrierPart (s : ParameterServerCore V) : ParameterServerCore V :=
  { s with parameters := [], currentIteration := 0 }

@[simp] theorem noted_parameters (s : ParameterServerCore V) (p : Push V) :
    (s.noted p).parameters = s.parameters := by
  unfold noted
  split <;> rfl

@[simp] theorem noted_totalWorkers (s : ParameterServerCore V) (p : Push V) :
    (s.noted p).totalWorkers = s.totalWorkers := by
  unfold noted
  split <;> rfl

@[simp] theorem noted_currentIteration (s : ParameterServerCore V) (p : Push V) :
    (s.noted p).currentIteration = s.currentIteration := by
  unfold noted
  split <;> rfl

theorem barrierPart_noted (s : ParameterServerCore V) (p : Push V) :
    (s.noted p).barrierPart = s.barrierPart.noted p := by
  unfold noted
  change ParameterServerCore.barrierPart (ite _ _ _) =
    ite ((s.stateOf p.iteration).aggregated = true) _ _
  split <;> rfl

theorem marked_noted {s : ParameterServerCore V} {p : Push V} (h : s.Completes p) :
    (s.noted p).marked p = s.setState p.iteration ⟨s.recorded p, true⟩ := by
  have hopen : ¬(s.stateOf p.iteration).aggregated = true := Bool.eq_false_iff.mp h.1
  unfold marked noted
  rw [if_neg hopen]
  simp only [setState, stateOf, InsertionMap.find?_assign_self, Option.getD_some,
    InsertionMap.assign_assign]

/-- A load looks at nothing that `state_mutex_` guards. -/
theorem loadCheckpoint_congr [Word V] (alloc : Allocator) {s s' : ParameterServerCore V}
    (hparameters : s.parameters = s'.parameters)
    (hiteration : s.currentIteration = s'.currentIteration) (uninit : ℕ → Int32) (epoch : Int32)
    (file : Option (List UInt8)) :
    (s.loadCheckpoint alloc uninit epoch file).1 = (s'.loadCheckpoint alloc uninit epoch file).1 ∧
      (s.loadCheckpoint alloc uninit epoch file).2.2 =
        (s'.loadCheckpoint alloc uninit epoch file).2.2 ∧
      (s.loadCheckpoint alloc uninit epoch file).2.1.parameters =
        (s'.loadCheckpoint alloc uninit epoch file).2.1.parameters ∧
      (s.loadCheckpoint alloc uninit epoch file).2.1.currentIteration =
        (s'.loadCheckpoint alloc uninit epoch file).2.1.currentIteration := by
  unfold loadCheckpoint
  rcases file with _ | bytes
  · exact ⟨rfl, rfl, hparameters, hiteration⟩
  · dsimp only
    rw [hiteration]
    split <;> exact ⟨rfl, rfl, rfl, rfl⟩

variable [Scalar V] (ord : VisitOrder)

theorem receive_of_not_completes {s : ParameterServerCore V} {p : Push V} (h : ¬s.Completes p) :
    s.receive ord p = ((s.stateOf p.iteration).aggregated,
      { s.noted p with currentIteration := laterIteration s.currentIteration p.iteration }) := by
  unfold noted
  obtain ⟨hlate, -⟩ | hc | ⟨hopen, hq, -⟩ := s.receive_cases p
  · rw [s.receive_late ord p hlate, if_pos hlate, hlate]
  · exact absurd hc h
  · rw [s.receive_partial ord p hopen hq, if_neg (by simp [hopen]), hopen]
    rfl

theorem barrierPart_receive_of_completes {s : ParameterServerCore V} {p : Push V}
    (h : s.Completes p) :
    (s.receive ord p).2.barrierPart = (s.barrierPart.noted p).marked p := by
  have hbarrier : s.barrierPart.Completes p := h
  rw [s.receive_completing ord p h, marked_noted hbarrier]
  rfl

theorem barrierPart_receive_of_not_completes {s : ParameterServerCore V} {p : Push V}
    (h : ¬s.Completes p) : (s.receive ord p).2.barrierPart = s.barrierPart.noted p := by
  rw [receive_of_not_completes ord h]
  exact barrierPart_noted s p

theorem afterRecording_of_completes {s : ParameterServerCore V} {p : Push V}
    (h : s.Completes p) : afterRecording ord s p =
      .acquire .params (applyMean p (averageGradients ord (s.recorded p) p.gradients)) := by
  have hopen : ¬(s.stateOf p.iteration).aggregated = true := Bool.eq_false_iff.mp h.1
  rw [afterRecording, if_neg hopen, if_pos ((s.toSizeT_le_recorded_iff p).mpr h.2)]

theorem afterRecording_of_not_completes {s : ParameterServerCore V} {p : Push V}
    (h : ¬s.Completes p) :
    afterRecording ord s p = leaveState (s.stateOf p.iteration).aggregated := by
  unfold afterRecording
  by_cases hlate : (s.stateOf p.iteration).aggregated = true
  · rw [if_pos hlate, hlate]
  · rw [Bool.not_eq_true] at hlate
    have hq : ¬toSizeT s.totalWorkers ≤ (s.recorded p).size :=
      fun hq => h ⟨hlate, (s.toSizeT_le_recorded_iff p).mp hq⟩
    rw [if_neg (Bool.eq_false_iff.mp hlate), if_neg hq, hlate]

end ParameterServerCore

namespace Memory

/-- Memories that agree, `exact` or but for `current_iteration_`. -/
structure Agree (exact : Prop) (a m : Memory V) : Prop where
  files : a.files = m.files
  parameters : a.core.parameters = m.core.parameters
  barrier : a.core.barrierPart = m.core.barrierPart
  iteration : exact → a.core.currentIteration = m.core.currentIteration

variable {exact : Prop} {a m : Memory V}

theorem Agree.refl (m : Memory V) : Agree exact m m := ⟨rfl, rfl, rfl, fun _ => rfl⟩

theorem Agree.eq (h : Agree exact a m) (hexact : exact) : a = m := by
  obtain ⟨⟨N, ts, es, i⟩, files⟩ := a
  obtain ⟨⟨N', ts', es', i'⟩, files'⟩ := m
  obtain ⟨hfiles, hts, hb, hi⟩ := h
  simp only [ParameterServerCore.barrierPart, ParameterServerCore.mk.injEq] at hfiles hts hb
  simp only [Memory.mk.injEq, ParameterServerCore.mk.injEq]
  exact ⟨⟨hb.1, hts, hb.2.2.1, hi hexact⟩, hfiles⟩

variable [Scalar V] [Word V] (ord : VisitOrder) (alloc : Allocator)

/-- An operation of the object; unless `exact`, with any value of `current_iteration_` before it
and after it. -/
def spec (exact : Prop) (a : Memory V) (r : Operation V) (o : Outcome V) (a' : Memory V) : Prop :=
  ∃ b, Agree exact a b ∧ (b.answer ord alloc r).1 = o ∧ Agree exact (b.answer ord alloc r).2 a'

theorem spec_of_exact {a a' : Memory V} {r : Operation V} {o : Outcome V}
    (h : spec ord alloc exact a r o a') (hexact : exact) :
    (serverObject ord alloc).spec a r o a' := by
  obtain ⟨b, hab, ho, hb⟩ := h
  rw [hab.eq hexact] 
  exact Prod.ext ho (hb.eq hexact)

end Memory

/-- Several workers make up a quorum, and no iteration has an entry before `current_iteration_` has
reached it. -/
structure Memory.Steady (m : Memory V) : Prop where
  several : quorum m.core.totalWorkers ≠ 1
  reached : ∀ k st, m.core.iterationStates.find? k = some st → ¬m.core.currentIteration < k

theorem Memory.Steady.fresh {totalWorkers : Int32} (hmany : quorum totalWorkers ≠ 1)
    (files : List UInt8 → Option (List UInt8)) :
    (Memory.fresh totalWorkers files : Memory V).Steady := by
  refine ⟨hmany, fun k st hst => ?_⟩
  have hnone : (InsertionMap.empty : InsertionMap Int32 (IterationState V)).find? k = some st := hst
  rw [InsertionMap.find?_empty] at hnone
  cases hnone

/-- The memory against that of the object, apart from what `state_mutex_` guards. -/
structure Aligned (exact : Prop) (m a : Memory V) : Prop where
  files : a.files = m.files
  parameters : a.core.parameters = m.core.parameters
  totalWorkers : a.core.totalWorkers = m.core.totalWorkers
  iteration : exact → a.core.currentIteration = m.core.currentIteration
  steady : exact → a.Steady

namespace Aligned

variable {exact : Prop} {m m' a : Memory V} (h : Aligned exact m a)
include h

/-- When `exact`, a push that moves `current_iteration_` does not complete its iteration. -/
theorem not_completes {p : Push V} (he : exact) (hlt : a.core.currentIteration < p.iteration) :
    ¬a.core.Completes p := by
  rintro ⟨-, hq⟩
  have hone := one_le_quorum a.core.totalWorkers
  have hsize : (a.core.recorded p).size = 1 := by
    unfold ParameterServerCore.recorded ParameterServerCore.stateOf
    rcases hf : a.core.iterationStates.find? p.iteration with _ | st
    · rfl
    · exact absurd hlt ((h.steady he).reached _ _ hf)
  exact (h.steady he).several (by omega)

theorem receive [Scalar V] (ord : VisitOrder) (p : Push V) (hfiles : m'.files = m.files)
    (hparameters : (a.core.receive ord p).2.parameters = m'.core.parameters)
    (htotal : m'.core.totalWorkers = m.core.totalWorkers)
    (hiteration : exact → m'.core.currentIteration =
      laterIteration m.core.currentIteration p.iteration) :
    Aligned exact m' { a with core := (a.core.receive ord p).2 } := by
  refine ⟨h.files.trans hfiles.symm, hparameters, ?_, fun he => ?_, fun he => ⟨?_, ?_⟩⟩
  · simp only [ParameterServerCore.receive_totalWorkers, htotal, h.totalWorkers]
  · simp only [ParameterServerCore.receive_currentIteration, hiteration he, h.iteration he]
  · simp only [ParameterServerCore.receive_totalWorkers]
    exact (h.steady he).several
  · intro k st hst
    simp only [ParameterServerCore.receive_currentIteration]
    by_cases hk : k = p.iteration
    · subst hk
      exact not_lt_laterIteration_right _ _
    · rw [a.core.find?_receive_ne ord p hk] at hst
      exact not_lt_laterIteration ((h.steady he).reached k st hst)

end Aligned

/-- The mutex of an operation that is a single action under one. -/
def Operation.mutex : Operation V → Option Mutex
  | receiveGradients _ => none
  | getCurrentIteration => none
  | checkSyncStatus _ => some .state
  | _ => some .params

variable {T : Type} [Scalar V] [Word V] (ord : VisitOrder) (alloc : Allocator)

/-- Where a thread stands: `s` is what `state_mutex_` guards, `a` the same in the object, and
`own` the owners of the mutexes. -/
inductive Thread (exact : Prop) (s a : ParameterServerCore V) (i : Int32) (own : Mutex → Option T)
    (t : T) : Option (ServerProg V) → Status (Operation V) (Outcome V) → Prop
  | idle : Thread exact s a i own t none .idle
  | called (r) (hload : exact → ¬r.IsLoad) :
      Thread exact s a i own t (some (r.prog ord alloc)) (.called r)
  | returning (r o) : Thread exact s a i own t (some (.ret o)) (.done r o)
  | guarded (r x) (hown : own x = some t) (hr : r.mutex = some x) (hload : exact → ¬r.IsLoad)
      (hx : x = .state → a = s) :
      Thread exact s a i own t (some (.act (fun m => (m.answer ord alloc r).2) fun m =>
        .release x (.ret (m.answer ord alloc r).1))) (.called r)
  | leaving (r o x) (hown : own x = some t) (hx : x = .state → a = s) :
      Thread exact s a i own t (some (.release x (.ret o))) (.done r o)
  | comparing (p) (hown : own .state = some t) (ha : a = s) :
      Thread exact s a i own t (some (compareIteration ord p)) (.called (.receiveGradients p))
  | raising (p) (hown : own .state = some t) (ha : a = s) (hlt : exact → i < p.iteration) :
      Thread exact s a i own t (some (raiseIteration ord p)) (.called (.receiveGradients p))
  | recording (p) (hown : own .state = some t) (ha : a = s) (hle : exact → ¬i < p.iteration) :
      Thread exact s a i own t (some (recordGradients ord p)) (.called (.receiveGradients p))
  | recorded (p) (hown : own .state = some t) (hnot : ¬s.Completes p) (ha : a = s.noted p) :
      Thread exact s a i own t (some (recordGradients ord p))
        (.done (.receiveGradients p) (.received (s.stateOf p.iteration).aggregated))
  | waiting (p) (hown : own .state = some t) (hc : a.Completes p) (hs : s = a.noted p)
      (hle : exact → ¬i < p.iteration) :
      Thread exact s a i own t
        (some (.acquire .params
          (applyMean p (averageGradients ord (a.recorded p) p.gradients))))
        (.called (.receiveGradients p))
  | applying (p) (hown : own .state = some t) (hown' : own .params = some t)
      (hc : a.Completes p) (hs : s = a.noted p) (hle : exact → ¬i < p.iteration) :
      Thread exact s a i own t
        (some (applyMean p (averageGradients ord (a.recorded p) p.gradients)))
        (.called (.receiveGradients p))
  | applied (p) (hown : own .state = some t) (hown' : own .params = some t) (ha : a = s.marked p) :
      Thread exact s a i own t (some (.release .params (markAggregated p)))
        (.done (.receiveGradients p) (.received true))
  | marking (p) (hown : own .state = some t) (ha : a = s.marked p) :
      Thread exact s a i own t (some (markAggregated p))
        (.done (.receiveGradients p) (.received true))

/-- What other threads do does not move a thread: whoever owns `state_mutex_` finds what it
guards unchanged. -/
theorem Thread.other {exact : Prop} {s a s' a' : ParameterServerCore V} {i i' : Int32}
    {own own' : Mutex → Option T} {t : T} {P : Option (ServerProg V)}
    {st : Status (Operation V) (Outcome V)} (h : Thread ord alloc exact s a i own t P st)
    (hown' : ∀ x, own x = some t → own' x = some t)
    (hsame : own .state = some t → s' = s ∧ a' = a ∧ (exact → i' = i)) :
    Thread ord alloc exact s' a' i' own' t P st := by
  cases h with
  | idle => exact .idle
  | called r hload => exact .called r hload
  | returning r o => exact .returning r o
  | guarded r x hown hr hload hx =>
    refine .guarded r x (hown' x hown) hr hload ?_
    rintro rfl
    obtain ⟨rfl, rfl, -⟩ := hsame hown
    exact hx rfl
  | leaving r o x hown hx =>
    refine .leaving r o x (hown' x hown) ?_
    rintro rfl
    obtain ⟨rfl, rfl, -⟩ := hsame hown
    exact hx rfl
  | comparing p hown ha =>
    obtain ⟨rfl, rfl, -⟩ := hsame hown
    exact .comparing p (hown' _ hown) ha
  | raising p hown ha hlt =>
    obtain ⟨rfl, rfl, hi⟩ := hsame hown
    exact .raising p (hown' _ hown) ha fun h => hi h ▸ hlt h
  | recording p hown ha hle =>
    obtain ⟨rfl, rfl, hi⟩ := hsame hown
    exact .recording p (hown' _ hown) ha fun h => hi h ▸ hle h
  | recorded p hown hnot ha =>
    obtain ⟨rfl, rfl, -⟩ := hsame hown
    exact .recorded p (hown' _ hown) hnot ha
  | waiting p hown hc hs hle =>
    obtain ⟨rfl, rfl, hi⟩ := hsame hown
    exact .waiting p (hown' _ hown) hc hs fun h => hi h ▸ hle h
  | applying p hown hown₂ hc hs hle =>
    obtain ⟨rfl, rfl, hi⟩ := hsame hown
    exact .applying p (hown' _ hown) (hown' _ hown₂) hc hs fun h => hi h ▸ hle h
  | applied p hown hown₂ ha =>
    obtain ⟨rfl, rfl, -⟩ := hsame hown
    exact .applied p (hown' _ hown) (hown' _ hown₂) ha
  | marking p hown ha =>
    obtain ⟨rfl, rfl, -⟩ := hsame hown
    exact .marking p (hown' _ hown) ha

section

variable {exact : Prop} {m a : Memory V}

theorem answer_barrierPart {r : Operation V} {x : Mutex} (hr : r.mutex = some x) (m : Memory V) :
    (m.answer ord alloc r).2.core.barrierPart = m.core.barrierPart := by
  cases r with
  | receiveGradients p => cases hr
  | loadCheckpoint uninit epoch path =>
    simp only [Memory.answer, ParameterServerCore.barrierPart,
      ParameterServerCore.loadCheckpoint_totalWorkers,
      ParameterServerCore.loadCheckpoint_iterationStates]
  | _ => rfl

theorem answer_currentIteration {r : Operation V} {x : Mutex} (hr : r.mutex = some x)
    (hload : ¬r.IsLoad) (m : Memory V) :
    (m.answer ord alloc r).2.core.currentIteration = m.core.currentIteration := by
  cases r with
  | receiveGradients p => cases hr
  | loadCheckpoint uninit epoch path => exact absurd trivial hload
  | _ => rfl

/-- An operation under a mutex reads what the mutex guards, and `current_iteration_`. -/
theorem answer_congr {r : Operation V} {x : Mutex} (hr : r.mutex = some x) {b m : Memory V}
    (hx : x = .state → b.core.barrierPart = m.core.barrierPart) (hfiles : b.files = m.files)
    (hparameters : b.core.parameters = m.core.parameters)
    (hiteration : b.core.currentIteration = m.core.currentIteration) :
    (b.answer ord alloc r).1 = (m.answer ord alloc r).1 ∧
      (b.answer ord alloc r).2.files = (m.answer ord alloc r).2.files ∧
      (b.answer ord alloc r).2.core.parameters = (m.answer ord alloc r).2.core.parameters ∧
      (b.answer ord alloc r).2.core.currentIteration =
        (m.answer ord alloc r).2.core.currentIteration := by
  obtain ⟨⟨N, ts, es, i⟩, files⟩ := b
  obtain ⟨⟨N', ts', es', i'⟩, files'⟩ := m
  dsimp only at hfiles hparameters hiteration
  subst hfiles hparameters hiteration
  cases r with
  | receiveGradients p => cases hr
  | checkSyncStatus k =>
    obtain rfl : Mutex.state = x := Option.some.inj hr
    have hbarrier := hx rfl
    simp only [ParameterServerCore.barrierPart, ParameterServerCore.mk.injEq] at hbarrier
    obtain ⟨rfl, -, rfl, -⟩ := hbarrier
    exact ⟨rfl, rfl, rfl, rfl⟩
  | loadCheckpoint uninit epoch path =>
    have hsame : (⟨N, ts, es, i⟩ : ParameterServerCore V).parameters =
        (⟨N', ts, es', i⟩ : ParameterServerCore V).parameters := rfl
    obtain ⟨hresult, hepoch, hts, hi⟩ :=
      ParameterServerCore.loadCheckpoint_congr alloc hsame rfl uninit epoch (files path)
    exact ⟨congrArg₂ Outcome.loaded hresult hepoch, rfl, hts, hi⟩
  | _ => exact ⟨rfl, rfl, rfl, rfl⟩

theorem Aligned.answer (h : Aligned exact m a) {r : Operation V} {x : Mutex} (hr : r.mutex = some x)
    (hload : exact → ¬r.IsLoad)
    (hx : x = .state → a.core.barrierPart = m.core.barrierPart) :
    ∃ a', Memory.spec ord alloc exact a r (m.answer ord alloc r).1 a' ∧
      Aligned exact (m.answer ord alloc r).2 a' ∧ a'.core.barrierPart = a.core.barrierPart := by
  -- the object does the operation with the value of `current_iteration_` that the thread finds
  let b : Memory V := { a with core := { a.core with currentIteration := m.core.currentIteration } }
  have hab : Memory.Agree exact a b := ⟨rfl, rfl, rfl, h.iteration⟩
  obtain ⟨ho, hfiles, hparameters, hiteration⟩ :=
    answer_congr ord alloc hr (b := b) hx h.files h.parameters rfl
  have hpart : (b.answer ord alloc r).2.core.barrierPart = a.core.barrierPart :=
    answer_barrierPart ord alloc hr b
  have hpart' := answer_barrierPart ord alloc hr m
  have hkept : exact → (b.answer ord alloc r).2.core.currentIteration = a.core.currentIteration :=
    fun he => (answer_currentIteration ord alloc hr (hload he) b).trans (h.iteration he).symm
  have htotal : (b.answer ord alloc r).2.core.totalWorkers = a.core.totalWorkers :=
    congrArg (·.totalWorkers) hpart
  have hentries : (b.answer ord alloc r).2.core.iterationStates = a.core.iterationStates :=
    congrArg (·.iterationStates) hpart
  refine ⟨_, ⟨b, hab, ho, .refl _⟩,
    ⟨hfiles, hparameters, ?_, fun _ => hiteration, fun he => ⟨?_, ?_⟩⟩, hpart⟩
  · rw [htotal, h.totalWorkers]
    exact (congrArg (·.totalWorkers) hpart').symm
  · rw [htotal]
    exact (h.steady he).several
  · rw [hentries, hkept he]
    exact (h.steady he).reached

end

end ParamServer
