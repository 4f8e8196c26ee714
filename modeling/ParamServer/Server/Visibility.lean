import ParamServer.Server.History
import ParamServer.Server.Linearizable

/-! What a thread may rely on once the server has told any thread that an iteration is aggregated:
whatever parameters are served from then on hold its mean. -/

namespace ParamServer

open Library

variable {V T : Type}

/-- Whether the operation sets the parameters anew. -/
def Operation.Replaces : Operation V → Prop
  | initializeParameters _ => True
  | loadCheckpoint .. => True
  | _ => False

def Operation.push? : Operation V → Option (Push V)
  | receiveGradients p => some p
  | _ => none

/-- Whether the answer tells that iteration `k` is aggregated. -/
def Tells (k : Int32) : Operation V × Outcome V → Prop
  | (.receiveGradients p, .received aggregated) => aggregated = true ∧ p.iteration = k
  | (.checkSyncStatus iteration, .status aggregated _) => aggregated = true ∧ iteration = k
  | _ => False

def pushesAmong (ops : List (T × Operation V × Outcome V)) : List (Push V) :=
  ops.flatMap fun op => op.2.1.push?.toList

theorem mem_pushesAmong {ops : List (T × Operation V × Outcome V)} {p : Push V}
    (h : p ∈ pushesAmong ops) : ∃ t o, (t, .receiveGradients p, o) ∈ ops := by
  obtain ⟨⟨t, r, o⟩, hop, hp⟩ := List.mem_flatMap.mp h
  cases r with
  | receiveGradients q =>
    rw [Option.mem_toList] at hp
    cases hp
    exact ⟨t, o, hop⟩
  | _ => cases hp

variable [Scalar V] (ord : VisitOrder)

namespace ParameterServerCore

/-- A push looks at everything but `current_iteration_`. -/
theorem receive_congr {s s' : ParameterServerCore V} (hparameters : s.parameters = s'.parameters)
    (hbarrier : s.barrierPart = s'.barrierPart) (p : Push V) :
    (s.receive ord p).1 = (s'.receive ord p).1 ∧
      (s.receive ord p).2.parameters = (s'.receive ord p).2.parameters ∧
      (s.receive ord p).2.barrierPart = (s'.receive ord p).2.barrierPart := by
  have hcompletes : s.Completes p ↔ s'.Completes p := by
    show s.barrierPart.Completes p ↔ s'.barrierPart.Completes p
    rw [hbarrier]
  have hrecorded : s.recorded p = s'.recorded p := by
    show s.barrierPart.recorded p = s'.barrierPart.recorded p
    rw [hbarrier]
  have hpart : (s.receive ord p).2.barrierPart = (s'.receive ord p).2.barrierPart := by
    by_cases h : s.Completes p
    · rw [barrierPart_receive_of_completes ord h,
        barrierPart_receive_of_completes ord (hcompletes.mp h), hbarrier]
    · rw [barrierPart_receive_of_not_completes ord h,
        barrierPart_receive_of_not_completes ord (mt hcompletes.mpr h), hbarrier]
  refine ⟨?_, ?_, hpart⟩
  · rw [receive_fst, receive_fst]
    exact congrArg (fun b => (b.stateOf p.iteration).aggregated) hpart
  · rw [receive_parameters, receive_parameters, updated, updated, hrecorded, hparameters,
      if_congr hcompletes rfl rfl]

theorem mem_updates_iff_aggregated (N : Int32) (ps : List (Push V)) (k : Int32) :
    k ∈ (new N : ParameterServerCore V).updates ord ps ↔
      (((new N : ParameterServerCore V).runPushes ord ps).stateOf k).aggregated = true := by
  have hk : (new N : ParameterServerCore V).iterationStates.find? k = none :=
    InsertionMap.find?_empty k
  rw [mem_updates_iff ord hk, aggregated_runPushes_iff ord hk]

theorem updates_subset_append (N : Int32) (ps qs : List (Push V)) {k : Int32}
    (h : k ∈ (new N : ParameterServerCore V).updates ord ps) :
    k ∈ (new N : ParameterServerCore V).updates ord (ps ++ qs) := by
  have hk : (new N : ParameterServerCore V).iterationStates.find? k = none :=
    InsertionMap.find?_empty k
  rw [mem_updates_iff ord hk] at h ⊢
  exact h.trans (Finset.card_le_card (pushers_subset_append k ps qs))

end ParameterServerCore

open ParameterServerCore

/-- The memory, up to `current_iteration_`, is that of a new server after the pushes. -/
structure FromPushes (N : Int32) (ps : List (Push V)) (a : Memory V) : Prop where
  parameters : a.core.parameters = ((new N).runPushes ord ps).parameters
  barrier : a.core.barrierPart = ((new N).runPushes ord ps).barrierPart

variable [Word V] (alloc : Allocator) {N : Int32} {ps : List (Push V)} {a a' : Memory V}

theorem FromPushes.spec (h : FromPushes ord N ps a) {r : Operation V} {o : Outcome V}
    (hr : ¬r.Replaces) (hspec : Memory.spec ord alloc False a r o a') :
    FromPushes ord N (ps ++ r.push?.toList) a' ∧
      (∀ k, Tells k (r, o) → k ∈ (new N : ParameterServerCore V).updates ord
        (ps ++ r.push?.toList)) ∧
      ∀ ts, o = .parameters ts → ts = ((new N).runPushes ord ps).parameters := by
  obtain ⟨b, hab, ho, hba⟩ := hspec
  have hbp : b.core.parameters = ((new N).runPushes ord ps).parameters :=
    hab.parameters.symm.trans h.parameters
  have hbb : b.core.barrierPart = ((new N).runPushes ord ps).barrierPart :=
    hab.barrier.symm.trans h.barrier
  have hstay : ∀ b' : Memory V, b'.core.parameters = b.core.parameters →
      b'.core.barrierPart = b.core.barrierPart → Memory.Agree False b' a' →
      FromPushes ord N (ps ++ (none : Option (Push V)).toList) a' := by
    intro b' hp hb hagree
    rw [Option.toList_none, List.append_nil]
    exact ⟨(hagree.parameters.symm.trans hp).trans hbp, (hagree.barrier.symm.trans hb).trans hbb⟩
  cases r with
  | initializeParameters ts => exact absurd trivial hr
  | loadCheckpoint uninit epoch path => exact absurd trivial hr
  | receiveGradients p =>
    obtain ⟨hfst, hparameters, hbarrier⟩ := receive_congr ord hbp hbb p
    have hrun : (new N).runPushes ord (ps ++ (Operation.receiveGradients p).push?.toList) =
        (((new N).runPushes ord ps).receive ord p).2 := runPushes_concat ord _ ps p
    subst ho
    refine ⟨⟨?_, ?_⟩, ?_, nofun⟩
    · rw [hrun, ← hparameters]
      exact hba.parameters.symm
    · rw [hrun, ← hbarrier]
      exact hba.barrier.symm
    · rintro k ⟨htrue, rfl⟩
      rw [mem_updates_iff_aggregated, hrun, ← receive_fst, ← hfst]
      exact htrue
  | serveParameters j =>
    subst ho
    refine ⟨hstay _ rfl rfl hba, nofun, ?_⟩
    rintro ts hts
    rw [← hbp]
    exact (Outcome.parameters.inj hts).symm
  | checkSyncStatus j =>
    subst ho
    refine ⟨hstay _ rfl rfl hba, ?_, nofun⟩
    rintro k ⟨htrue, rfl⟩
    have hstate : b.core.stateOf j = ((new N).runPushes ord ps).stateOf j := by
      show b.core.barrierPart.stateOf j = ((new N).runPushes ord ps).barrierPart.stateOf j
      rw [hbb]
    rw [checkSyncStatus_eq, hstate] at htrue
    exact updates_subset_append ord N ps _ ((mem_updates_iff_aggregated ord N ps j).mpr htrue)
  | saveCheckpoint opens fault epoch path =>
    subst ho
    let saved := (b.answer ord alloc (.saveCheckpoint opens fault epoch path)).2
    exact ⟨hstay saved rfl rfl hba, nofun, nofun⟩
  | getCurrentIteration =>
    subst ho
    exact ⟨hstay _ rfl rfl hba, nofun, nofun⟩

theorem FromPushes.legal (h : FromPushes ord N ps a) {ops : List (T × Operation V × Outcome V)}
    (hlegal : Legal (Memory.spec ord alloc False) a ops a')
    (hops : ∀ op ∈ ops, ¬op.2.1.Replaces) :
    FromPushes ord N (ps ++ pushesAmong ops) a' ∧
      (∀ op ∈ ops, ∀ k, Tells k op.2 → k ∈ (new N : ParameterServerCore V).updates ord
        (ps ++ pushesAmong ops)) ∧
      ∀ op ∈ ops, ∀ ts, op.2.2 = .parameters ts → ∃ qs, qs <+: pushesAmong ops ∧
        ts = ((new N).runPushes ord (ps ++ qs)).parameters := by
  induction hlegal with
  | nil =>
    refine ⟨?_, nofun, nofun⟩
    rw [pushesAmong, List.flatMap_nil, List.append_nil]
    exact h
  | @concat ops s' t r o s'' _ last ih =>
    obtain ⟨hfrom, htold, hserved⟩ := ih fun op hop => hops op (List.mem_append_left _ hop)
    obtain ⟨hfrom', htold', hserved'⟩ := hfrom.spec ord alloc (hops (t, r, o) (by simp)) last
    have hpushes : pushesAmong (ops ++ [(t, r, o)]) = pushesAmong ops ++ r.push?.toList := by
      simp [pushesAmong]
    rw [hpushes, ← List.append_assoc]
    refine ⟨hfrom', fun op hop k hk => ?_, fun op hop ts hts => ?_⟩
    · rcases List.mem_append.mp hop with hop | hop
      · exact updates_subset_append ord N _ _ (htold op hop k hk)
      · rw [List.mem_singleton.mp hop] at hk
        exact htold' k hk
    · rcases List.mem_append.mp hop with hop | hop
      · obtain ⟨qs, hqs, heq⟩ := hserved op hop ts hts
        exact ⟨qs, hqs.trans (List.prefix_append _ _), heq⟩
      · rw [List.mem_singleton.mp hop] at hts
        exact ⟨pushesAmong ops, List.prefix_append _ _, hserved' ts hts⟩

/-- Once a push or a status request of any thread has returned that iteration `k` is aggregated,
every pull that is called from then on gets parameters that hold the mean of `k`, in whatever way
the threads interleave at the mutexes. -/
theorem pull_after_aggregated [DecidableEq T] (N : Int32)
    (files : List UInt8 → Option (List UInt8)) (pre post : List (Event T (Operation V) (Outcome V)))
    (c : Config T Mutex (Memory V) (Outcome V))
    (trace : (serverThreads ord alloc T).Trace (.start (.fresh N files)) (pre ++ post) c)
    (hkeep : ∀ t r, .call t r ∈ pre ++ post → ¬r.Replaces) (k : Int32)
    (htold : ∃ t, ∃ x ∈ (log t pre).returned, Tells k x) (u : T)
    (hidle : (log u pre).pending = none) (iteration : Int32) (ts : List (Tensor V))
    (hpull : (.serveParameters iteration, .parameters ts) ∈
      (log u (pre ++ post)).returned.drop (log u pre).returned.length) :
    ∃ ps : List (Push V), (∀ p ∈ ps, ∃ t, .call t (.receiveGradients p) ∈ pre ++ post) ∧
      ts = ((new N).runPushes ord ps).parameters ∧
      k ∈ (new N : ParameterServerCore V).updates ord ps := by
  obtain ⟨ops, a, hlin, -⟩ := threads_linearizable ord alloc _ _ c trace
  obtain ⟨before, after, rfl, hbefore, hafter⟩ := hlin.real_time
  have hcalled : ∀ op ∈ before ++ after, ¬op.2.1.Replaces :=
    fun op hop => hkeep op.1 op.2.1 (hlin.2.1.called hop)
  obtain ⟨mid, hlegal, hlegal'⟩ := hlin.1.split
  have hfresh : FromPushes ord N [] (Memory.fresh N files : Memory V) := ⟨rfl, rfl⟩
  obtain ⟨hmid, htells, -⟩ := hfresh.legal ord alloc hlegal
    fun op hop => hcalled op (List.mem_append_left _ hop)
  obtain ⟨-, -, hserved⟩ := hmid.legal ord alloc hlegal'
    fun op hop => hcalled op (List.mem_append_right _ hop)
  obtain ⟨t, x, hx, hk⟩ := htold
  obtain ⟨qs, hqs, heq⟩ := hserved _ (hafter u hidle _ hpull) ts rfl
  refine ⟨_, fun p hp => ?_, heq, updates_subset_append ord N _ _ (htells _ (hbefore t x hx) k hk)⟩
  rw [List.nil_append] at hp
  rcases List.mem_append.mp hp with hp | hp
  · obtain ⟨t, o, hop⟩ := mem_pushesAmong hp
    exact ⟨t, hlin.2.1.called (List.mem_append_left _ hop)⟩
  · obtain ⟨t, o, hop⟩ := mem_pushesAmong (hqs.subset hp)
    exact ⟨t, hlin.2.1.called (List.mem_append_right _ hop)⟩

/-- One worker's push returns, and then another thread pulls. -/
theorem pull_after_aggregated_single :
    ∃ ps : List (Push UInt32),
      [⟨[119], [0], [], 0⟩] = ((new 1).runPushes .insertion ps).parameters ∧
      1 ∈ (new 1 : ParameterServerCore UInt32).updates .insertion ps := by
  let p : Push UInt32 := ⟨0, 1, [⟨[119], [0], [], 0⟩]⟩
  have s1 : (serverThreads (V := UInt32) .insertion .unbounded Bool).Trace
      (.start (.fresh 1 fun _ => none)) _ _ :=
    .tail .refl (.call (t := true) (.receiveGradients p) rfl)
  have s2 := s1.silent (.acquire (t := true) rfl rfl)
  have s3 := s2.silent (.act (t := true) rfl)
  have s4 := s3.silent (.act (t := true) rfl)
  have s5 := s4.silent (.act (t := true) rfl)
  have s6 := s5.silent (.acquire (t := true) rfl rfl)
  have s7 := s6.silent (.act (t := true) rfl)
  have s8 := s7.silent (.release (t := true) rfl)
  have s9 := s8.silent (.act (t := true) rfl)
  have s10 := s9.silent (.release (t := true) rfl)
  have s11 := s10.tail (.ret (t := true) rfl)
  have s12 := s11.tail (.call (t := false) (.serveParameters 2) rfl)
  have s13 := s12.silent (.acquire (t := false) rfl rfl)
  have s14 := s13.silent (.act (t := false) rfl)
  have s15 := s14.silent (.release (t := false) rfl)
  have s16 := s15.tail (.ret (t := false) rfl)
  obtain ⟨ps, -, hps⟩ := pull_after_aggregated .insertion .unbounded 1 (fun _ => none)
    [.call true (.receiveGradients p), .ret true (.received true)]
    [.call false (.serveParameters 2), .ret false (.parameters p.gradients)] _ s16
    (by simp [Operation.Replaces]) 1
    ⟨true, (.receiveGradients p, .received true), by simp [log, Log.next], rfl, rfl⟩ false
    (by simp [log, Log.next]) 2 p.gradients (by simp [log, Log.next])
  exact ⟨ps, hps⟩

end ParamServer
