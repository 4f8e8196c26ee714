import ParamServer.Server.Linearizable

/-! When `current_iteration_` is torn from the parameters. Two workers or more never see it: only a
push that completes no iteration moves `current_iteration_`. A single worker's push moves it and
then applies the mean, and another thread can look in between. -/

namespace ParamServer

open Library

variable {V : Type}

theorem quorum_eq_one_iff (totalWorkers : Int32) :
    quorum totalWorkers = 1 ↔ totalWorkers = 0 ∨ totalWorkers = 1 := by
  have hlow := totalWorkers.le_toInt
  have hhigh := totalWorkers.toInt_lt
  rw [← Int32.toInt_inj, ← Int32.toInt_inj, quorum, toSizeT]
  change _ ↔ totalWorkers.toInt = 0 ∨ totalWorkers.toInt = 1
  omega

section Torn

variable (m : Memory V) (p : Push V)

/-- What thread 1 sees while the push of thread 0 has only moved `current_iteration_`. -/
def tornHistory : List (Event ℕ (Operation V) (Outcome V)) :=
  [.call 0 (.receiveGradients p), .call 1 .getCurrentIteration, .ret 1 (.iteration p.iteration),
    .call 1 (.serveParameters 0), .ret 1 (.parameters m.core.parameters)]

variable {m p}

theorem admitted_tornHistory : ∀ e ∈ tornHistory m p, Admitted True e := by
  simp [tornHistory, Admitted, Operation.IsLoad]

variable [Scalar V] [Word V] (ord : VisitOrder) (alloc : Allocator)

theorem exists_trace_tornHistory (hlt : m.core.currentIteration < p.iteration) :
    ∃ c, (serverThreads ord alloc ℕ).Trace (.start m) (tornHistory m p) c := by
  have hcompare : (if m.core.currentIteration < p.iteration then raiseIteration ord p
      else recordGradients ord p) = raiseIteration ord p := if_pos hlt
  have s1 : (serverThreads ord alloc ℕ).Trace (.start m) _ _ :=
    .tail .refl (.call (t := 0) (.receiveGradients p) rfl)
  have s2 := s1.silent (.acquire (t := 0) rfl rfl)
  have s3 := s2.silent (.act (t := 0) rfl)
  have s4 := s3.silent (.act (t := 0) (congrArg some hcompare))
  have s5 := s4.tail (.call (t := 1) .getCurrentIteration rfl)
  have s6 := s5.silent (.act (t := 1) rfl)
  have s7 := s6.tail (.ret (t := 1) rfl)
  have s8 := s7.tail (.call (t := 1) (.serveParameters 0) rfl)
  have s9 := s8.silent (.acquire (t := 1) rfl rfl)
  have s10 := s9.silent (.act (t := 1) rfl)
  have s11 := s10.silent (.release (t := 1) rfl)
  have s12 := s11.tail (.ret (t := 1) rfl)
  exact ⟨_, s12⟩

/-- After the push, done in one piece, the same push changes nothing more. -/
theorem answer_answer_of_completes (hc : m.core.Completes p)
    (hlt : m.core.currentIteration < p.iteration) :
    ((m.answer ord alloc (.receiveGradients p)).2.answer ord alloc (.receiveGradients p)).2 =
      (m.answer ord alloc (.receiveGradients p)).2 := by
  have hlate : ((m.core.receive ord p).2.stateOf p.iteration).aggregated = true := by
    rw [← ParameterServerCore.receive_fst, m.core.receive_completing ord p hc]
  have hsame := (m.core.receive ord p).2.receive_late ord p hlate
  have hiteration : (m.core.receive ord p).2.currentIteration = p.iteration := by
    rw [ParameterServerCore.receive_currentIteration, laterIteration, if_pos hlt]
  simp only [Memory.answer, hsame, hiteration, laterIteration, Int32.lt_irrefl, if_false]
  rw [← hiteration]

theorem answer_ne_of_lt (hlt : m.core.currentIteration < p.iteration) :
    (m.answer ord alloc (.receiveGradients p)).2 ≠ m := by
  intro heq
  have hiteration : (m.core.receive ord p).2.currentIteration = m.core.currentIteration :=
    congrArg (·.core.currentIteration) heq
  rw [ParameterServerCore.receive_currentIteration, laterIteration, if_pos hlt] at hiteration
  rw [hiteration] at hlt
  exact Int32.lt_irrefl hlt

/-- Once the push is in, it stays. -/
theorem answer_torn (hc : m.core.Completes p) (hlt : m.core.currentIteration < p.iteration)
    {s : Memory V} (hs : s = m ∨ s = (m.answer ord alloc (.receiveGradients p)).2)
    {r : Operation V}
    (hr : r = .receiveGradients p ∨ r = .getCurrentIteration ∨ r = .serveParameters 0) :
    ((s.answer ord alloc r).2 = m ∨
        (s.answer ord alloc r).2 = (m.answer ord alloc (.receiveGradients p)).2) ∧
      (s ≠ m → (s.answer ord alloc r).2 ≠ m) := by
  rcases hr with rfl | rfl | rfl
  · rcases hs with rfl | rfl
    · exact ⟨.inr rfl, fun hne => absurd rfl hne⟩
    · rw [answer_answer_of_completes ord alloc hc hlt]
      exact ⟨.inr rfl, fun _ => answer_ne_of_lt ord alloc hlt⟩
  · exact ⟨hs, id⟩
  · exact ⟨hs, id⟩

/-- One operation after another, thread 1 does not see half of the push. -/
theorem not_torn_of_legal (hc : m.core.Completes p) (hlt : m.core.currentIteration < p.iteration)
    (hnew : m.core.updated ord p ≠ m.core.parameters) {ops : List (ℕ × Operation V × Outcome V)}
    {s : Memory V} (h : Legal (serverObject ord alloc).spec m ops s)
    (hops : ∀ op ∈ ops, op.2.1 = .receiveGradients p ∨ op.2.1 = .getCurrentIteration ∨
      op.2.1 = .serveParameters 0) :
    (s = m ∨ s = (m.answer ord alloc (.receiveGradients p)).2) ∧
      (opsOf 1 ops = [(.getCurrentIteration, .iteration p.iteration)] → s ≠ m) ∧
      opsOf 1 ops ≠ [(.getCurrentIteration, .iteration p.iteration),
        (.serveParameters 0, .parameters m.core.parameters)] := by
  induction h with
  | nil =>
    refine ⟨.inl rfl, fun hone => ?_, fun htwo => ?_⟩
    · cases hone
    · cases htwo
  | @concat ops s' t i o s'' _ last ih =>
    obtain ⟨hs', hseen, hnot⟩ := ih fun op hop => hops op (List.mem_append_left _ hop)
    have hstep : s'.answer ord alloc i = (o, s'') := last
    have hstate := answer_torn ord alloc hc hlt hs' (hops (t, i, o) (by simp))
    rw [hstep] at hstate
    rw [opsOf_concat]
    by_cases ht : t = 1
    · rw [if_pos ht]
      refine ⟨hstate.1, fun hone => ?_, fun htwo => ?_⟩
      · have hsplit : opsOf 1 ops ++ [(i, o)] = [] ++ [(.getCurrentIteration,
            .iteration p.iteration)] := hone
        obtain ⟨-, hlast⟩ := List.append_inj' hsplit rfl
        simp only [List.cons.injEq, Prod.mk.injEq, and_true] at hlast
        obtain ⟨rfl, rfl⟩ := hlast
        refine hstate.2 ?_
        rintro rfl
        have hread := congrArg Prod.fst hstep
        simp only [Memory.answer, Outcome.iteration.injEq] at hread
        rw [ParameterServerCore.getCurrentIteration] at hread
        rw [hread] at hlt
        exact Int32.lt_irrefl hlt
      · have hsplit : opsOf 1 ops ++ [(i, o)] =
            [(.getCurrentIteration, .iteration p.iteration)] ++
              [(.serveParameters 0, .parameters m.core.parameters)] := htwo
        obtain ⟨hfirst, hlast⟩ := List.append_inj' hsplit rfl
        simp only [List.cons.injEq, Prod.mk.injEq, and_true] at hlast
        obtain ⟨rfl, rfl⟩ := hlast
        obtain rfl := hs'.resolve_left (hseen hfirst)
        have hread := congrArg Prod.fst hstep
        simp only [Memory.answer, Outcome.parameters.injEq] at hread
        rw [ParameterServerCore.serveParameters, m.core.receive_completing ord p hc] at hread
        exact hnew hread
    · rw [if_neg ht, List.append_nil]
      exact ⟨hstate.1, fun hone => hstate.2 (hseen hone), hnot⟩

theorem not_linearizable_tornHistory (hc : m.core.Completes p)
    (hlt : m.core.currentIteration < p.iteration)
    (hnew : m.core.updated ord p ≠ m.core.parameters) :
    ¬Linearizable (serverObject ord alloc).spec m (tornHistory m p) := by
  rintro ⟨ops, s, hlegal, hexplains, -⟩
  have hone : opsOf 1 ops = [(.getCurrentIteration, .iteration p.iteration),
      (.serveParameters 0, .parameters m.core.parameters)] := by
    rcases hexplains 1 with h | ⟨i, o, hpending, -⟩
    · exact h
    · cases hpending
  have hzero : ∀ op ∈ opsOf 0 ops, op.1 = .receiveGradients p := by
    intro op hop
    rcases hexplains 0 with h | ⟨i, o, hpending, h⟩
    · rw [h] at hop
      cases hop
    · obtain rfl : Operation.receiveGradients p = i := Option.some.inj hpending
      rw [h] at hop
      rw [List.mem_singleton.mp hop]
  have hrest : ∀ t, t ≠ 0 → t ≠ 1 → opsOf t ops = [] := by
    intro t h0 h1
    have hlog : log t (tornHistory m p) = ⟨[], none⟩ := by
      simp [log, tornHistory, Log.next, Ne.symm h0, Ne.symm h1]
    rcases hexplains t with h | ⟨i, o, hpending, -⟩
    · rw [h, hlog]
    · rw [hlog] at hpending
      cases hpending
  refine (not_torn_of_legal ord alloc hc hlt hnew hlegal ?_).2.2 hone
  rintro ⟨t, i, o⟩ hop
  have hmem : (i, o) ∈ opsOf t ops :=
    List.mem_map.mpr ⟨(t, i, o), List.mem_filter.mpr ⟨hop, by simp⟩, rfl⟩
  by_cases h0 : t = 0
  · rw [h0] at hmem
    exact .inl (hzero _ hmem)
  · by_cases h1 : t = 1
    · rw [h1, hone] at hmem
      simp only [List.mem_cons, Prod.mk.injEq, List.not_mem_nil, or_false] at hmem
      exact .inr (hmem.imp And.left And.left)
    · rw [hrest t h0 h1] at hmem
      cases hmem

end Torn

variable [Scalar V] [Word V] (ord : VisitOrder) (alloc : Allocator)

/-- Without loads, the threads of a new server do what one operation after another does, unless the
server waits for a single worker. -/
theorem threads_linearizable_iff (totalWorkers : Int32)
    (files : List UInt8 → Option (List UInt8)) :
    (∀ (h : List (Event ℕ (Operation V) (Outcome V))) c,
      (serverThreads ord alloc ℕ).Trace (.start (.fresh totalWorkers files)) h c →
      (∀ e ∈ h, Admitted True e) →
      Linearizable (serverObject ord alloc).spec (.fresh totalWorkers files) h) ↔
      totalWorkers ≠ 0 ∧ totalWorkers ≠ 1 := by
  rw [← not_or, ← quorum_eq_one_iff]
  constructor
  · intro hall hone
    -- one push of one tensor completes its iteration and changes the parameters
    let p : Push V := ⟨0, 1, [⟨[], [], [], 0⟩]⟩
    have hlt :
        (Memory.fresh totalWorkers files : Memory V).core.currentIteration < p.iteration := by
      show (0 : Int32) < 1
      decide
    have hc : (Memory.fresh totalWorkers files : Memory V).core.Completes p :=
      ⟨rfl, show quorum totalWorkers ≤ 1 from hone.le⟩
    obtain ⟨c, trace⟩ := exists_trace_tornHistory ord alloc hlt
    refine not_linearizable_tornHistory ord alloc hc hlt ?_ (hall _ c trace admitted_tornHistory)
    exact List.cons_ne_nil _ _
  · intro hmany h c trace hadmitted
    have hsteady : True → (Memory.fresh totalWorkers files : Memory V).Steady :=
      fun _ => .fresh hmany files
    obtain ⟨ops, a, hops, -⟩ := exists_linearization ord alloc hsteady trace hadmitted
    exact ⟨ops, a, hops.mono fun _ _ _ _ hspec => Memory.spec_of_exact ord alloc hspec trivial⟩

end ParamServer
