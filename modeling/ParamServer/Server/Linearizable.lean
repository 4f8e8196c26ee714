import ParamServer.Server.Threads

/-! The server's threads are simulated by the object that does one operation after another, so all
their histories are linearizable. -/

namespace ParamServer

open Library Library.Config

variable {V T : Type} [DecidableEq T] [Scalar V] [Word V] (ord : VisitOrder) (alloc : Allocator)

/-- A configuration of the threads against a state of the object and its pending operations. -/
structure Related (exact : Prop) (c : Config T Mutex (Memory V) (Outcome V))
    (x : Memory V × (T → Status (Operation V) (Outcome V))) : Prop where
  aligned : Aligned exact c.memory x.1
  free : c.owner .state = none → x.1.core.barrierPart = c.memory.core.barrierPart
  threads : ∀ t, Thread ord alloc exact c.memory.core.barrierPart x.1.core.barrierPart
    c.memory.core.currentIteration c.owner t (c.prog t) (x.2 t)

/-- The object without loads when `exact`, else with any operation. -/
def Admitted (exact : Prop) : Event T (Operation V) (Outcome V) → Prop
  | .call _ r => exact → ¬r.IsLoad
  | .ret _ _ => True

namespace Related

variable {exact : Prop} {c : Config T Mutex (Memory V) (Outcome V)} {a : Memory V}
  {st : T → Status (Operation V) (Outcome V)}

/-- A step of thread `t`, once it is known where the step leaves the memories and `t` itself. -/
theorem next (h : Related ord alloc exact c (a, st)) {t : T} {m' a' : Memory V}
    {own' : Mutex → Option T} {P : Option (ServerProg V)}
    {s : Status (Operation V) (Outcome V)} (haligned : Aligned exact m' a')
    (hself : Thread ord alloc exact m'.core.barrierPart a'.core.barrierPart
      m'.core.currentIteration own' t P s)
    (hfree : own' .state = none → a'.core.barrierPart = m'.core.barrierPart)
    (hown : ∀ u x, u ≠ t → c.owner x = some u → own' x = some u)
    (hsame : ∀ u, u ≠ t → c.owner .state = some u →
      m'.core.barrierPart = c.memory.core.barrierPart ∧ a'.core.barrierPart = a.core.barrierPart ∧
        (exact → m'.core.currentIteration = c.memory.core.currentIteration)) :
    Related ord alloc exact ⟨m', own', Function.update c.prog t P⟩
      (a', Function.update st t s) := by
  refine ⟨haligned, hfree, fun u => ?_⟩
  by_cases hu : u = t
  · subst hu
    simp only [Function.update_self]
    exact hself
  · simp only [Function.update_of_ne hu]
    exact (h.threads u).other ord alloc (fun x => hown u x hu) (hsame u hu)

/-- What the object does for a silent step of a thread: nothing, or the thread's operation. -/
def Answered (exact : Prop) (a : Memory V) (st : T → Status (Operation V) (Outcome V)) (t : T)
    (a' : Memory V) (s : Status (Operation V) (Outcome V)) : Prop :=
  (a' = a ∧ s = st t) ∨
    ∃ r o, st t = .called r ∧ s = .done r o ∧ Memory.spec ord alloc exact a r o a'

theorem Answered.trace {t : T} {a' : Memory V} {s : Status (Operation V) (Outcome V)}
    (h : Answered ord alloc exact a st t a' s) :
    (atomic (Memory.spec ord alloc exact)).Trace (a, st) [] (a', Function.update st t s) := by
  rcases h with ⟨rfl, rfl⟩ | ⟨r, o, hcalled, rfl, hspec⟩
  · rw [Function.update_eq_self]
    exact .refl
  · exact Transitions.Trace.single (S := atomic (Memory.spec ord alloc exact)) (l := none)
      (.commit hcalled hspec)

theorem silent (h : Related ord alloc exact c (a, st)) {t : T} {m' a' : Memory V}
    {own' : Mutex → Option T} {P : Option (ServerProg V)}
    {s : Status (Operation V) (Outcome V)} (hans : Answered ord alloc exact a st t a' s)
    (haligned : Aligned exact m' a')
    (hself : Thread ord alloc exact m'.core.barrierPart a'.core.barrierPart
      m'.core.currentIteration own' t P s)
    (hfree : own' .state = none → a'.core.barrierPart = m'.core.barrierPart)
    (hown : ∀ u x, u ≠ t → c.owner x = some u → own' x = some u)
    (hsame : ∀ u, u ≠ t → c.owner .state = some u →
      m'.core.barrierPart = c.memory.core.barrierPart ∧ a'.core.barrierPart = a.core.barrierPart ∧
        (exact → m'.core.currentIteration = c.memory.core.currentIteration)) :
    ∃ x, (atomic (Memory.spec ord alloc exact)).Trace (a, st) [] x ∧
      Related ord alloc exact ⟨m', own', Function.update c.prog t P⟩ x :=
  ⟨_, hans.trace ord alloc, h.next ord alloc haligned hself hfree hown hsame⟩

section Steps

variable (h : Related ord alloc exact c (a, st)) {t : T}
  {l : Option (Event T (Operation V) (Outcome V))} {c' : Config T Mutex (Memory V) (Outcome V)}
include h

/-- Some steps of the object answer the step of thread `t` to `c'`. -/
def Matched (exact : Prop) (a : Memory V) (st : T → Status (Operation V) (Outcome V))
    (l : Option (Event T (Operation V) (Outcome V)))
    (c' : Config T Mutex (Memory V) (Outcome V)) : Prop :=
  ∃ x, (atomic (Memory.spec ord alloc exact)).Trace (a, st) l.toList x ∧
    Related ord alloc exact c' x

theorem step_idle (hst : st t = .idle) (hadmitted : ∀ e, l = some e → Admitted exact e)
    (hstep : Config.StepOf (Operation.prog ord alloc) c t none l c') :
    Matched ord alloc exact a st l c' := by
  obtain ⟨r, rfl, rfl⟩ := hstep
  have hcall : (atomic (Memory.spec ord alloc exact)).Trace (a, st) [.call t r]
      (a, Function.update st t (.called r)) :=
    Transitions.Trace.single (S := atomic (Memory.spec ord alloc exact))
      (l := some (.call t r)) (.call r hst)
  exact ⟨_, hcall, h.next ord alloc h.aligned (.called r (hadmitted _ rfl)) h.free
    (fun _ _ _ hx => hx) fun _ _ _ => ⟨rfl, rfl, fun _ => rfl⟩⟩

theorem step_returning {r : Operation V} {o : Outcome V} (hst : st t = .done r o)
    (hstep : Config.StepOf (Operation.prog ord alloc) c t (some (.ret o)) l c') :
    Matched ord alloc exact a st l c' := by
  obtain ⟨rfl, rfl⟩ := hstep
  have hret : (atomic (Memory.spec ord alloc exact)).Trace (a, st) [.ret t o]
      (a, Function.update st t .idle) :=
    Transitions.Trace.single (S := atomic (Memory.spec ord alloc exact))
      (l := some (.ret t o)) (.ret hst)
  exact ⟨_, hret, h.next ord alloc h.aligned .idle h.free
    (fun _ _ _ hx => hx) fun _ _ _ => ⟨rfl, rfl, fun _ => rfl⟩⟩

/-- An operation under one mutex takes it. -/
theorem step_acquire_guarded {r : Operation V} {x : Mutex} (hst : st t = .called r)
    (hr : r.mutex = some x) (hload : exact → ¬r.IsLoad)
    (hstep : Config.StepOf (Operation.prog ord alloc) c t
      (some (.guarded x fun m => m.answer ord alloc r)) l c') :
    Matched ord alloc exact a st l c' := by
  obtain ⟨rfl, hfree, rfl⟩ := hstep
  refine h.silent ord alloc (.inl ⟨rfl, rfl⟩) h.aligned ?_ ?_ (owner_acquire hfree t)
    fun _ _ _ => ⟨rfl, rfl, fun _ => rfl⟩
  · rw [hst]
    refine .guarded r x (Function.update_self ..) hr hload ?_
    rintro rfl
    exact h.free hfree
  · intro hnone
    by_cases hx : Mutex.state = x
    · subst hx
      rw [Function.update_self] at hnone
      cases hnone
    · rw [Function.update_of_ne hx] at hnone
      exact h.free hnone

theorem step_guarded {r : Operation V} {x : Mutex} (hst : st t = .called r)
    (hown : c.owner x = some t) (hr : r.mutex = some x) (hload : exact → ¬r.IsLoad)
    (hx : x = .state → a.core.barrierPart = c.memory.core.barrierPart)
    (hstep : Config.StepOf (Operation.prog ord alloc) c t
      (some (.act (fun m => (m.answer ord alloc r).2) fun m =>
        .release x (.ret (m.answer ord alloc r).1))) l c') :
    Matched ord alloc exact a st l c' := by
  obtain ⟨rfl, rfl⟩ := hstep
  obtain ⟨a', hspec, haligned, hpart⟩ := h.aligned.answer ord alloc hr hload hx
  have hpart' := answer_barrierPart ord alloc hr c.memory
  refine h.silent ord alloc (.inr ⟨r, _, hst, rfl, hspec⟩) haligned ?_ ?_ (fun _ _ _ hx => hx) ?_
  · refine .leaving r _ x hown fun hstate => ?_
    rw [hpart, hpart']
    exact hx hstate
  · intro hnone
    rw [hpart, hpart']
    exact h.free hnone
  · exact fun _ _ _ => ⟨hpart', hpart,
      fun he => answer_currentIteration ord alloc hr (hload he) c.memory⟩

theorem step_leaving {r : Operation V} {o : Outcome V} {x : Mutex} (hst : st t = .done r o)
    (hown : c.owner x = some t)
    (hx : x = .state → a.core.barrierPart = c.memory.core.barrierPart)
    (hstep : Config.StepOf (Operation.prog ord alloc) c t (some (.release x (.ret o))) l c') :
    Matched ord alloc exact a st l c' := by
  obtain ⟨rfl, rfl⟩ := hstep
  refine h.silent ord alloc (.inl ⟨rfl, rfl⟩) h.aligned ?_ ?_ (owner_release hown)
    fun _ _ _ => ⟨rfl, rfl, fun _ => rfl⟩
  · rw [hst]
    exact .returning r o
  · intro hnone
    by_cases hstate : x = .state
    · exact hx hstate
    · rw [Function.update_of_ne (Ne.symm hstate)] at hnone
      exact h.free hnone

theorem step_getCurrentIteration (hst : st t = .called .getCurrentIteration)
    (hstep : Config.StepOf (Operation.prog ord alloc) c t
      (some (Operation.prog ord alloc .getCurrentIteration)) l c') :
    Matched ord alloc exact a st l c' := by
  obtain ⟨rfl, rfl⟩ := hstep
  let b : Memory V :=
    { a with core := { a.core with currentIteration := c.memory.core.currentIteration } }
  have hba : Memory.Agree exact b a := ⟨rfl, rfl, rfl, fun he => (h.aligned.iteration he).symm⟩
  have hspec : Memory.spec ord alloc exact a .getCurrentIteration
      (.iteration c.memory.core.currentIteration) a :=
    ⟨b, ⟨rfl, rfl, rfl, h.aligned.iteration⟩, rfl, hba⟩
  exact h.silent ord alloc (.inr ⟨_, _, hst, rfl, hspec⟩) h.aligned (.returning _ _) h.free
    (fun _ _ _ hx => hx) fun _ _ _ => ⟨rfl, rfl, fun _ => rfl⟩

variable {p : Push V}

theorem step_receiveGradients (hst : st t = .called (.receiveGradients p))
    (hstep : Config.StepOf (Operation.prog ord alloc) c t
      (some (.acquire .state (compareIteration ord p))) l c') :
    Matched ord alloc exact a st l c' := by
  obtain ⟨rfl, hfree, rfl⟩ := hstep
  refine h.silent ord alloc (.inl ⟨rfl, rfl⟩) h.aligned ?_ (fun hnone => ?_)
    (owner_acquire hfree t) fun _ _ _ => ⟨rfl, rfl, fun _ => rfl⟩
  · rw [hst]
    exact .comparing p (Function.update_self ..) (h.free hfree)
  · rw [Function.update_self] at hnone
    cases hnone

/-- A step of the thread that owns `state_mutex_` and keeps it. -/
theorem silent_owner {m' a' : Memory V} {own' : Mutex → Option T} {P : Option (ServerProg V)}
    {s : Status (Operation V) (Outcome V)} (hown : c.owner .state = some t)
    (hans : Answered ord alloc exact a st t a' s) (haligned : Aligned exact m' a')
    (hself : Thread ord alloc exact m'.core.barrierPart a'.core.barrierPart
      m'.core.currentIteration own' t P s) (hown' : own' .state = some t)
    (hothers : ∀ u x, u ≠ t → c.owner x = some u → own' x = some u) :
    Matched ord alloc exact a st none ⟨m', own', Function.update c.prog t P⟩ := by
  refine h.silent ord alloc hans haligned hself (fun hnone => ?_) hothers fun u hu hother => ?_
  · rw [hown'] at hnone
    cases hnone
  · rw [hown] at hother
    exact absurd (Option.some.inj hother).symm hu

theorem step_comparing (hst : st t = .called (.receiveGradients p))
    (hown : c.owner .state = some t) (ha : a.core.barrierPart = c.memory.core.barrierPart)
    (hstep : Config.StepOf (Operation.prog ord alloc) c t (some (compareIteration ord p)) l c') :
    Matched ord alloc exact a st l c' := by
  obtain ⟨rfl, rfl⟩ := hstep
  refine h.silent_owner ord alloc hown (.inl ⟨rfl, rfl⟩) h.aligned ?_ hown fun _ _ _ hx => hx
  rw [hst]
  dsimp only [id]
  by_cases hlt : c.memory.core.currentIteration < p.iteration
  · rw [if_pos hlt]
    exact .raising p hown ha fun _ => hlt
  · rw [if_neg hlt]
    exact .recording p hown ha fun _ => hlt

/-- The push takes effect here if it completes no iteration. -/
theorem step_raising (hst : st t = .called (.receiveGradients p))
    (hown : c.owner .state = some t) (ha : a.core.barrierPart = c.memory.core.barrierPart)
    (hlt : exact → c.memory.core.currentIteration < p.iteration)
    (hstep : Config.StepOf (Operation.prog ord alloc) c t (some (raiseIteration ord p)) l c') :
    Matched ord alloc exact a st l c' := by
  obtain ⟨rfl, rfl⟩ := hstep
  by_cases hc : a.core.Completes p
  · have hinexact : ¬exact := by
      intro he
      refine h.aligned.not_completes he ?_ hc
      rw [h.aligned.iteration he]
      exact hlt he
    refine h.silent_owner ord alloc hown (.inl ⟨rfl, rfl⟩) ?_ ?_ hown fun _ _ _ hx => hx
    · exact ⟨h.aligned.files, h.aligned.parameters, h.aligned.totalWorkers,
        fun he => absurd he hinexact, h.aligned.steady⟩
    · rw [hst]
      exact .recording p hown ha fun he => absurd he hinexact
  · have hreceive := ParameterServerCore.receive_of_not_completes ord hc
    have hnoted := ParameterServerCore.barrierPart_receive_of_not_completes ord hc
    have hspec : Memory.spec ord alloc exact a (.receiveGradients p)
        (.received (a.core.stateOf p.iteration).aggregated)
        { a with core := (a.core.receive ord p).2 } := by
      refine ⟨a, .refl a, ?_, .refl _⟩
      simp only [Memory.answer, hreceive]
    refine h.silent_owner ord alloc hown (.inr ⟨_, _, hst, rfl, hspec⟩) ?_ ?_ hown
      fun _ _ _ hx => hx
    · refine h.aligned.receive ord p rfl ?_ rfl fun he => ?_
      · rw [hreceive]
        exact (ParameterServerCore.noted_parameters a.core p).trans h.aligned.parameters
      · rw [laterIteration, if_pos (hlt he)]
    · change Thread ord alloc exact c.memory.core.barrierPart _ _ _ _ _ _
      rw [← ha]
      exact .recorded p hown hc hnoted

/-- A push that completes its iteration takes effect only when it applies the mean. -/
theorem step_recording (hst : st t = .called (.receiveGradients p))
    (hown : c.owner .state = some t) (ha : a.core.barrierPart = c.memory.core.barrierPart)
    (hle : exact → ¬c.memory.core.currentIteration < p.iteration)
    (hstep : Config.StepOf (Operation.prog ord alloc) c t (some (recordGradients ord p)) l c') :
    Matched ord alloc exact a st l c' := by
  obtain ⟨rfl, rfl⟩ := hstep
  have hafter : afterRecording ord c.memory.core p = afterRecording ord a.core p := by
    show afterRecording ord c.memory.core.barrierPart p = afterRecording ord a.core.barrierPart p
    rw [ha]
  have hnoted : (c.memory.core.noted p).barrierPart = a.core.barrierPart.noted p := by
    rw [ParameterServerCore.barrierPart_noted, ← ha]
  by_cases hc : a.core.Completes p
  · refine h.silent_owner ord alloc hown (.inl ⟨rfl, rfl⟩) ?_ ?_ hown fun _ _ _ hx => hx
    · refine ⟨h.aligned.files, ?_, ?_, fun he => ?_, h.aligned.steady⟩
      · exact h.aligned.parameters.trans (ParameterServerCore.noted_parameters _ p).symm
      · exact h.aligned.totalWorkers.trans (ParameterServerCore.noted_totalWorkers _ p).symm
      · exact (h.aligned.iteration he).trans
          (ParameterServerCore.noted_currentIteration _ p).symm
    · dsimp only
      rw [hst, hafter, ParameterServerCore.afterRecording_of_completes ord hc, hnoted,
        ParameterServerCore.noted_currentIteration]
      exact .waiting p hown hc rfl hle
  · have hreceive := ParameterServerCore.receive_of_not_completes ord hc
    have hspec : Memory.spec ord alloc exact a (.receiveGradients p)
        (.received (a.core.stateOf p.iteration).aggregated)
        { a with core := (a.core.receive ord p).2 } := by
      refine ⟨a, .refl a, ?_, .refl _⟩
      simp only [Memory.answer, hreceive]
    refine h.silent_owner ord alloc hown (.inr ⟨_, _, hst, rfl, hspec⟩) ?_ ?_ hown
      fun _ _ _ hx => hx
    · refine h.aligned.receive ord p rfl ?_ (ParameterServerCore.noted_totalWorkers _ p)
        fun he => ?_
      · rw [hreceive]
        simp only [ParameterServerCore.noted_parameters]
        exact h.aligned.parameters
      · rw [ParameterServerCore.noted_currentIteration, laterIteration, if_neg (hle he)]
    · have hpart := ParameterServerCore.barrierPart_receive_of_not_completes ord hc
      dsimp only
      rw [hafter, ParameterServerCore.afterRecording_of_not_completes ord hc, hnoted, hpart]
      exact .leaving _ _ .state hown fun _ => rfl

/-- The push has taken effect before it is recorded. -/
theorem step_recorded (hst : st t = .done (.receiveGradients p)
      (.received (c.memory.core.stateOf p.iteration).aggregated))
    (hown : c.owner .state = some t) (hnot : ¬c.memory.core.Completes p)
    (ha : a.core.barrierPart = c.memory.core.barrierPart.noted p)
    (hstep : Config.StepOf (Operation.prog ord alloc) c t (some (recordGradients ord p)) l c') :
    Matched ord alloc exact a st l c' := by
  obtain ⟨rfl, rfl⟩ := hstep
  refine h.silent_owner ord alloc hown (.inl ⟨rfl, rfl⟩) ?_ ?_ hown fun _ _ _ hx => hx
  · refine ⟨h.aligned.files, ?_, ?_, fun he => ?_, h.aligned.steady⟩
    · exact h.aligned.parameters.trans (ParameterServerCore.noted_parameters _ p).symm
    · exact h.aligned.totalWorkers.trans (ParameterServerCore.noted_totalWorkers _ p).symm
    · exact (h.aligned.iteration he).trans (ParameterServerCore.noted_currentIteration _ p).symm
  · dsimp only
    rw [hst, ParameterServerCore.afterRecording_of_not_completes ord hnot, ha,
      ParameterServerCore.barrierPart_noted]
    exact .leaving _ _ .state hown fun _ => rfl

theorem step_waiting (hst : st t = .called (.receiveGradients p))
    (hown : c.owner .state = some t) (hc : a.core.Completes p)
    (hs : c.memory.core.barrierPart = a.core.barrierPart.noted p)
    (hle : exact → ¬c.memory.core.currentIteration < p.iteration)
    (hstep : Config.StepOf (Operation.prog ord alloc) c t (some (.acquire .params
      (applyMean p (averageGradients ord (a.core.recorded p) p.gradients)))) l c') :
    Matched ord alloc exact a st l c' := by
  obtain ⟨rfl, hfree, rfl⟩ := hstep
  refine h.silent_owner ord alloc hown (.inl ⟨rfl, rfl⟩) h.aligned ?_
    ((Function.update_of_ne (by decide) ..).trans hown) (owner_acquire hfree t)
  rw [hst]
  exact .applying p ((Function.update_of_ne (by decide) ..).trans hown)
    (Function.update_self ..) hc hs hle

theorem step_applying (hst : st t = .called (.receiveGradients p))
    (hown : c.owner .state = some t) (hown' : c.owner .params = some t) (hc : a.core.Completes p)
    (hs : c.memory.core.barrierPart = a.core.barrierPart.noted p)
    (hle : exact → ¬c.memory.core.currentIteration < p.iteration)
    (hstep : Config.StepOf (Operation.prog ord alloc) c t
      (some (applyMean p (averageGradients ord (a.core.recorded p) p.gradients))) l c') :
    Matched ord alloc exact a st l c' := by
  obtain ⟨rfl, rfl⟩ := hstep
  have hreceive := a.core.receive_completing ord p hc
  have hspec : Memory.spec ord alloc exact a (.receiveGradients p) (.received true)
      { a with core := (a.core.receive ord p).2 } := by
    refine ⟨a, .refl a, ?_, .refl _⟩
    simp only [Memory.answer, hreceive]
  have hpart : (a.core.receive ord p).2.barrierPart = c.memory.core.barrierPart.marked p := by
    rw [ParameterServerCore.barrierPart_receive_of_completes ord hc, hs]
  refine h.silent_owner ord alloc hown (.inr ⟨_, _, hst, rfl, hspec⟩) ?_
    (.applied p hown hown' hpart) hown fun _ _ _ hx => hx
  refine h.aligned.receive ord p rfl ?_ rfl fun he => ?_
  · rw [hreceive]
    exact congrArg (aggregate · _) h.aligned.parameters
  · exact (if_neg (hle he)).symm

theorem step_applied (hst : st t = .done (.receiveGradients p) (.received true))
    (hown : c.owner .state = some t) (hown' : c.owner .params = some t)
    (ha : a.core.barrierPart = c.memory.core.barrierPart.marked p)
    (hstep : Config.StepOf (Operation.prog ord alloc) c t
      (some (.release .params (markAggregated p))) l c') :
    Matched ord alloc exact a st l c' := by
  obtain ⟨rfl, rfl⟩ := hstep
  have hkept : Function.update c.owner .params none .state = some t :=
    (Function.update_of_ne (by decide) ..).trans hown
  refine h.silent_owner ord alloc hown (.inl ⟨rfl, rfl⟩) h.aligned ?_ hkept (owner_release hown')
  rw [hst]
  exact .marking p hkept ha

theorem step_marking (hst : st t = .done (.receiveGradients p) (.received true))
    (hown : c.owner .state = some t)
    (ha : a.core.barrierPart = c.memory.core.barrierPart.marked p)
    (hstep : Config.StepOf (Operation.prog ord alloc) c t (some (markAggregated p)) l c') :
    Matched ord alloc exact a st l c' := by
  obtain ⟨rfl, rfl⟩ := hstep
  refine h.silent_owner ord alloc hown (.inl ⟨rfl, rfl⟩) ?_ ?_ hown fun _ _ _ hx => hx
  · exact ⟨h.aligned.files, h.aligned.parameters, h.aligned.totalWorkers, h.aligned.iteration,
      h.aligned.steady⟩
  · rw [hst]
    exact .leaving _ _ .state hown fun _ => ha

end Steps

/-- Whatever a thread does, the object answers it. -/
theorem matched (h : Related ord alloc exact c (a, st))
    {l : Option (Event T (Operation V) (Outcome V))} {c' : Config T Mutex (Memory V) (Outcome V)}
    (hstep : Config.Step (Operation.prog ord alloc) c l c')
    (hadmitted : ∀ e, l = some e → Admitted exact e) : Matched ord alloc exact a st l c' := by
  obtain ⟨t, hof⟩ := hstep.exists_stepOf
  have ht := h.threads t
  generalize hst : (a, st).2 t = s at ht
  generalize c.prog t = P at ht hof
  cases ht with
  | idle => exact h.step_idle ord alloc hst hadmitted hof
  | returning r o => exact h.step_returning ord alloc hst hof
  | guarded r x hown hr hload hx => exact h.step_guarded ord alloc hst hown hr hload hx hof
  | leaving r o x hown hx => exact h.step_leaving ord alloc hst hown hx hof
  | comparing p hown ha => exact h.step_comparing ord alloc hst hown ha hof
  | raising p hown ha hlt => exact h.step_raising ord alloc hst hown ha hlt hof
  | recording p hown ha hle => exact h.step_recording ord alloc hst hown ha hle hof
  | recorded p hown hnot ha => exact h.step_recorded ord alloc hst hown hnot ha hof
  | waiting p hown hc hs hle => exact h.step_waiting ord alloc hst hown hc hs hle hof
  | applying p hown hown' hc hs hle =>
    exact h.step_applying ord alloc hst hown hown' hc hs hle hof
  | applied p hown hown' ha => exact h.step_applied ord alloc hst hown hown' ha hof
  | marking p hown ha => exact h.step_marking ord alloc hst hown ha hof
  | called r hload =>
    cases r with
    | receiveGradients p => exact h.step_receiveGradients ord alloc hst hof
    | getCurrentIteration => exact h.step_getCurrentIteration ord alloc hst hof
    | initializeParameters ts => exact h.step_acquire_guarded ord alloc hst rfl hload hof
    | serveParameters k => exact h.step_acquire_guarded ord alloc hst rfl hload hof
    | checkSyncStatus k => exact h.step_acquire_guarded ord alloc hst rfl hload hof
    | saveCheckpoint opens fault epoch path =>
      exact h.step_acquire_guarded ord alloc hst rfl hload hof
    | loadCheckpoint uninit epoch path =>
      exact h.step_acquire_guarded ord alloc hst rfl hload hof

theorem simulation (exact : Prop) :
    Transitions.Simulation (serverThreads (V := V) ord alloc T)
      (atomic (Memory.spec ord alloc exact)) (Admitted exact) (Related ord alloc exact) := by
  constructor
  rintro c ⟨a, st⟩ l c' h hstep hadmitted
  exact h.matched ord alloc hstep hadmitted

end Related

/-- The memory at every moment is that of the operations that have taken effect. -/
theorem exists_linearization {exact : Prop} {m : Memory V} (hm : exact → m.Steady)
    {h : List (Event T (Operation V) (Outcome V))} {c : Config T Mutex (Memory V) (Outcome V)}
    (trace : (serverThreads ord alloc T).Trace (.start m) h c)
    (hadmitted : ∀ e ∈ h, Admitted exact e) :
    ∃ ops a, Linearization (Memory.spec ord alloc exact) m h ops a ∧ Aligned exact c.memory a := by
  have hstart : Related ord alloc exact (.start m : Config T Mutex (Memory V) (Outcome V))
      (m, fun _ => .idle) :=
    ⟨⟨rfl, rfl, rfl, fun _ => rfl, hm⟩, fun _ => rfl, fun _ => .idle⟩
  obtain ⟨ops, x, hops, hx⟩ :=
    linearizable_of_simulation (Related.simulation ord alloc exact) hstart trace hadmitted
  exact ⟨ops, x.1, hops, hx.aligned⟩

/-- With any operations at all, loads among them, the threads leave the parameters and the files
that the same operations leave one after another; `current_iteration_` alone may be torn. -/
theorem threads_linearizable (m : Memory V) (h : List (Event T (Operation V) (Outcome V)))
    (c : Config T Mutex (Memory V) (Outcome V))
    (trace : (serverThreads ord alloc T).Trace (.start m) h c) :
    ∃ ops a, Linearization (Memory.spec ord alloc False) m h ops a ∧
      c.memory.core.parameters = a.core.parameters ∧ c.memory.files = a.files := by
  have hadmitted : ∀ e ∈ h, Admitted False e := by
    intro e _
    cases e with
    | call t r => exact fun hf => hf.elim
    | ret t o => trivial
  obtain ⟨ops, a, hops, ha⟩ :=
    exists_linearization ord alloc (fun hf : False => hf.elim) trace hadmitted
  exact ⟨ops, a, hops, ha.parameters.symm, ha.files.symm⟩

/-- A load is under way while a push moves `current_iteration_`. -/
theorem threads_linearizable_load :
    ∃ ops a, Linearization (Memory.spec .insertion .unbounded False) (.fresh 2 fun _ => none)
      [.call true (.receiveGradients ⟨0, 1, [word 6]⟩),
        .call false (.loadCheckpoint (fun _ => 0) 0 [])]
      ops a ∧ ([] : List (Tensor UInt32)) = a.core.parameters := by
  have s1 : (serverThreads (V := UInt32) .insertion .unbounded Bool).Trace
      (.start (.fresh 2 fun _ => none)) _ _ :=
    .tail .refl (.call (t := true) (.receiveGradients ⟨0, 1, [word 6]⟩) rfl)
  have s2 := s1.silent (.acquire (t := true) rfl rfl)
  have s3 := s2.silent (.act (t := true) rfl)
  have s4 := s3.tail (.call (t := false) (.loadCheckpoint (fun _ => 0) 0 []) rfl)
  have s5 := s4.silent (.acquire (t := false) rfl rfl)
  have s6 := s5.silent (.act (t := true) rfl)
  obtain ⟨ops, a, hops, hparameters, -⟩ :=
    threads_linearizable .insertion .unbounded (.fresh 2 fun _ => none) _ _ s6
  exact ⟨ops, a, hops, hparameters⟩

end ParamServer
