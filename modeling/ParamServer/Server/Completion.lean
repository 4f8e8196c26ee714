import ParamServer.Server.Calls

/-! When an iteration is complete, and whose gradients its mean holds. Completion depends on the
number of distinct workers that have pushed, is reported alike by all calls and never undone; the
mean holds the workers that pushed before it. -/

namespace ParamServer

open Library

variable {V : Type}

def Call.push? : Call V → Option (Push V)
  | receiveGradients p => some p
  | _ => none

def pushesOf (calls : List (Call V)) : List (Push V) := calls.filterMap Call.push?

namespace ParameterServerCore

variable [Scalar V] (ord : VisitOrder)

theorem final_eq_runPushes [Word V] (s : ParameterServerCore V) (calls : List (Call V)) :
    (machine ord).final s calls = s.runPushes ord (pushesOf calls) := by
  induction calls generalizing s with
  | nil => rfl
  | cons c calls ih =>
    rw [Machine.final, ih]
    cases c with
    | receiveGradients p => rfl
    | checkSyncStatus k => rfl
    | serveParameters k => rfl
    | saveCheckpoint epoch => rfl

theorem receive_runPushes {s : ParameterServerCore V} (hs : s.iterationStates = .empty)
    (ps : List (Push V)) (p : Push V) :
    ((s.runPushes ord ps).receive ord p).1 =
      decide (quorum s.totalWorkers ≤ (pushers p.iteration (ps ++ [p])).card) := by
  rw [receive_fst, ← runPushes_concat, Bool.eq_iff_iff, decide_eq_true_iff]
  exact aggregated_runPushes_iff ord (hs ▸ rfl) _

theorem checkSyncStatus_runPushes {s : ParameterServerCore V} (hs : s.iterationStates = .empty)
    (ps : List (Push V)) (k : Int32) :
    (s.runPushes ord ps).checkSyncStatus k =
      (decide (quorum s.totalWorkers ≤ (pushers k ps).card),
        Int32.ofNat (min (quorum s.totalWorkers) (pushers k ps).card)) := by
  rw [checkSyncStatus_eq, stateOf_runPushes ord (hs ▸ rfl), size_entryOf]
  rfl

/-- The entry of a complete iteration is final. -/
theorem find?_runPushes_of_aggregated {s : ParameterServerCore V} {k : Int32}
    (h : (s.stateOf k).aggregated = true) (ps : List (Push V)) :
    (s.runPushes ord ps).iterationStates.find? k = s.iterationStates.find? k := by
  induction ps generalizing s with
  | nil => rfl
  | cons p ps ih =>
    rw [runPushes_cons]
    have hkeep : (s.receive ord p).2.iterationStates.find? k = s.iterationStates.find? k := by
      by_cases hk : k = p.iteration
      · subst hk
        rw [s.receive_late ord p h]
      · exact s.find?_receive_ne ord p hk
    have hnext : ((s.receive ord p).2.stateOf k).aggregated = true := by
      rw [stateOf, hkeep]
      exact h
    rw [ih hnext, hkeep]

theorem size_recorded_of_completes {s : ParameterServerCore V} (hs : s.iterationStates = .empty)
    {ps : List (Push V)} {p : Push V} (hc : (s.runPushes ord ps).Completes p) :
    ((s.runPushes ord ps).recorded p).size = quorum s.totalWorkers := by
  obtain ⟨hlt, hq⟩ := (completes_runPushes_iff ord (hs ▸ rfl) ps rfl).mp hc
  rw [recorded_runPushes ord (hs ▸ rfl) rfl hlt, size_entryOf, min_eq_left hq]

theorem stateOf_receive_of_aggregated {s : ParameterServerCore V} {k : Int32}
    (h : (s.stateOf k).aggregated = true) (p : Push V) :
    (s.receive ord p).2.stateOf k = s.stateOf k := by
  rw [stateOf, ← runPushes_nil ord (s.receive ord p).2, ← runPushes_cons,
    find?_runPushes_of_aggregated ord h, stateOf]

/-- The mean that was applied for a complete iteration is the one over its recorded gradients. -/
theorem mem_lineage_iff {s : ParameterServerCore V} (hs : s.iterationStates = .empty) {k : Int32}
    {ps : List (Push V)} (h : ((s.runPushes ord ps).stateOf k).aggregated = true) :
    ∃ q ∈ ps, q.iteration = k ∧ ∀ mean, (k, mean) ∈ s.lineage ord ps ↔
      mean = averageGradients ord ((s.runPushes ord ps).stateOf k).workerGradients q.gradients := by
  have hk : s.iterationStates.find? k = none := hs ▸ rfl
  induction ps using List.reverseRecOn with
  | nil =>
    rw [runPushes_nil, stateOf, hk] at h
    exact absurd h (by simp)
  | append_singleton ps p ih =>
    rw [runPushes_concat] at h ⊢
    rw [lineage_concat]
    by_cases hold : ((s.runPushes ord ps).stateOf k).aggregated = true
    · -- the push is late for `k`, or for another iteration
      obtain ⟨q, hq, hqk, hmean⟩ := ih hold
      rw [stateOf_receive_of_aggregated ord hold]
      refine ⟨q, List.mem_append_left _ hq, hqk, fun mean => ?_⟩
      rw [List.mem_append, hmean, or_iff_left]
      intro hm
      split at hm
      · rename_i hc
        obtain ⟨rfl, -⟩ := Prod.mk.injEq .. ▸ List.mem_singleton.mp hm
        rw [hc.1] at hold
        exact Bool.false_ne_true hold
      · cases hm
    · obtain ⟨hc, rfl⟩ := ((aggregated_receive_iff ord _ p k).mp h).resolve_left hold
      have hnew : ∀ mean, (p.iteration, mean) ∉ s.lineage ord ps := by
        intro mean hm
        refine hold ((aggregated_runPushes_iff ord hk ps).mpr ?_)
        exact (mem_updates_iff ord hk ps).mp (List.mem_map.mpr ⟨_, hm, rfl⟩)
      refine ⟨p, by simp, rfl, fun mean => ?_⟩
      rw [if_pos hc, List.mem_append, or_iff_right (hnew mean), List.mem_singleton,
        stateOf_receive_self, stateOf_push, if_neg hold, Prod.mk.injEq]
      simp

/-- After any run of calls, all of them agree that an iteration is complete once `N` distinct
workers have pushed for it, and its entry is final from then on. The averaging loop runs when the
`N`-th of them pushes, over `N` lists of gradients, and divides their sums by `N`. -/
theorem calls_agree_on_completion [Word V] {N : Int32} (hN : 1 ≤ N.toInt)
    (P₀ : List (Tensor V)) (calls : List (Call V)) :
    let n := N.toInt.toNat
    let s := (machine ord).final ((new N).initializeParameters P₀) calls
    let ps := pushesOf calls
    (∀ p : Push V, ((machine ord).step s (.receiveGradients p)).1 =
      .received (decide (n ≤ (pushers p.iteration (ps ++ [p])).card))) ∧
    (∀ k, ∃ workersReceived : Int32, ((machine ord).step s (.checkSyncStatus k)).1 =
        .status (decide (n ≤ (pushers k ps).card)) workersReceived ∧
      workersReceived.toInt = min n (pushers k ps).card) ∧
    (∀ k, n ≤ (pushers k ps).card → ∀ later : List (Call V),
      ((machine ord).final s later).iterationStates.find? k = s.iterationStates.find? k) ∧
    ∀ p, (s.Completes p ↔ (pushers p.iteration ps).card < n ∧
        n ≤ (pushers p.iteration (ps ++ [p])).card) ∧
      (s.Completes p → (s.recorded p).size = n ∧ Int32.ofNat (s.recorded p).size = N ∧
        (ord.visited (s.recorded p)).length = n ∧
        averageGradients ord (s.recorded p) p.gradients = p.gradients.mapIdx fun i t =>
          { t with
            data := (sumTensor (ord.visited (s.recorded p)) i t.data.length).map
              (Scalar.divCount · N) }) ∧
      ((machine ord).step s (.receiveGradients p)).2.parameters =
        if s.Completes p then
          aggregate s.parameters (averageGradients ord (s.recorded p) p.gradients)
        else s.parameters := by
  intro n s ps
  have hs₀ : ((new N).initializeParameters P₀).iterationStates = .empty := rfl
  have hq : quorum N = n := quorum_of_pos hN
  have hs : s = ((new N).initializeParameters P₀).runPushes ord ps := final_eq_runPushes ord _ calls
  refine ⟨fun p => ?_, fun k => ?_, fun k hk later => ?_, fun p => ⟨?_, fun hc => ?_, ?_⟩⟩
  · rw [hs, ← hq]
    exact congrArg Reply.received (receive_runPushes ord hs₀ ps p)
  · have hstatus := checkSyncStatus_runPushes ord hs₀ ps k
    refine ⟨Int32.ofNat (min n (pushers k ps).card), ?_, ?_⟩
    · rw [hs, ← hq]
      exact congrArg₂ Reply.status (congrArg Prod.fst hstatus) (congrArg Prod.snd hstatus)
    · -- the count is bounded by `N`, so that the cast keeps it
      have hlt := N.toInt_lt
      rw [Int32.toInt_ofNat_of_lt (by omega)]
  · rw [final_eq_runPushes]
    refine find?_runPushes_of_aggregated ord ?_ _
    rw [hs, aggregated_runPushes_iff ord (hs₀ ▸ rfl)]
    exact hq ▸ hk
  · rw [hs, ← hq]
    exact completes_runPushes_iff ord rfl ps rfl
  · have hsize : (s.recorded p).size = n := by
      rw [hs] at hc ⊢
      exact (size_recorded_of_completes ord hs₀ hc).trans hq
    have hcast : Int32.ofNat (s.recorded p).size = N := by
      rw [hsize]
      exact int32_ofNat_toNat (by omega)
    refine ⟨hsize, hcast, (ord.length_visited _).trans hsize, ?_⟩
    rw [averageGradients, hcast]
  · exact s.receive_parameters ord p

/-- The push of the second of two workers. -/
theorem calls_agree_on_completion_two_workers :
    let s₀ : ParameterServerCore UInt32 := (new 2).initializeParameters [word 10]
    let calls : List (Call UInt32) := [.receiveGradients ⟨0, 0, [word 2]⟩,
      .receiveGradients ⟨0, 0, [word 4]⟩, .checkSyncStatus 0]
    let p : Push UInt32 := ⟨1, 0, [word 2]⟩
    let s := (machine .insertion).final s₀ calls
    let t := (machine .insertion).final s₀ (calls ++ [.receiveGradients p])
    (averageGradients .insertion (s.recorded p) p.gradients = p.gradients.mapIdx fun i t =>
      { t with
        data := (sumTensor (VisitOrder.insertion.visited (s.recorded p)) i t.data.length).map
          (Scalar.divCount · 2) }) ∧
      ∀ later : List (Call UInt32), ((machine .insertion).final t later).iterationStates.find? 0 =
        t.iterationStates.find? 0 := by
  intro s₀ calls p s t
  have hcompletes : s.Completes p := by decide +kernel
  have hbefore := calls_agree_on_completion .insertion (N := 2) (by decide) [word 10] calls
  have hafter := calls_agree_on_completion .insertion (N := 2) (by decide) [word 10]
    (calls ++ [.receiveGradients p])
  exact ⟨((hbefore.2.2.2 p).2.1 hcompletes).2.2.2, hafter.2.2.1 0 (by decide)⟩

/-- A push that is answered with `true` belongs to a complete iteration, whose mean is over
exactly `N` workers. Its own worker is one of them exactly when some push of it for the iteration
came while fewer than `N` workers had pushed, so always if no more than `N` workers push. -/
theorem acknowledged_worker_counted {N : Int32} (hN : 1 ≤ N.toInt) (P₀ : List (Tensor V))
    (ps : List (Push V)) (p : Push V)
    (hack : ((((new N).initializeParameters P₀).runPushes ord ps).receive ord p).1 = true) :
    let n := N.toInt.toNat
    let s₀ : ParameterServerCore V := (new N).initializeParameters P₀
    let m := ((s₀.runPushes ord (ps ++ [p])).stateOf p.iteration).workerGradients
    let included := ∃ r ∈ ps ++ [p], r.iteration = p.iteration ∧ r.workerId = p.workerId ∧
      m.find? p.workerId = some r.gradients
    (∃ q ∈ ps ++ [p], q.iteration = p.iteration ∧
      ∀ mean, (p.iteration, mean) ∈ s₀.lineage ord (ps ++ [p]) ↔
        mean = averageGradients ord m q.gradients) ∧
    m.size = n ∧
    (included ↔ ∃ pre r post, pushesFor p.iteration (ps ++ [p]) = pre ++ r :: post ∧
      r.workerId = p.workerId ∧ (senders Push.workerId pre).card < n) ∧
    ((pushers p.iteration (ps ++ [p])).card ≤ n → included) := by
  intro n s₀ m included
  have hs₀ : s₀.iterationStates = .empty := rfl
  have hk : s₀.iterationStates.find? p.iteration = none := rfl
  have hq : quorum s₀.totalWorkers = n := quorum_of_pos hN
  have hagg : ((s₀.runPushes ord (ps ++ [p])).stateOf p.iteration).aggregated = true := by
    rw [runPushes_concat, ← receive_fst]
    exact hack
  have hcard : n ≤ (pushers p.iteration (ps ++ [p])).card := by
    rw [← hq]
    exact (aggregated_runPushes_iff ord hk _).mp hagg
  have hm : m = recordAll Push.workerId Push.gradients (counted n p.iteration (ps ++ [p])) := by
    change ((s₀.runPushes ord (ps ++ [p])).stateOf p.iteration).workerGradients = _
    rw [stateOf_runPushes ord hk, hq, entryOf]
  have hincluded : included ↔
      p.workerId ∈ senders Push.workerId (counted n p.iteration (ps ++ [p])) := by
    rw [← keySet_recordAll Push.workerId Push.gradients, ← hm]
    constructor
    · rintro ⟨r, -, -, -, hr⟩
      exact (m.mem_keySet_iff _).mpr ⟨_, hr⟩
    · intro hw
      obtain ⟨G, hG⟩ := (m.mem_keySet_iff _).mp hw
      have hlast := hG
      rw [hm, find?_recordAll, Option.map_eq_some_iff] at hlast
      obtain ⟨r, hr, rfl⟩ := hlast
      obtain ⟨hmem, hrw⟩ := mem_of_lastFrom hr
      have hfor := List.mem_filter.mp (mem_of_mem_accepted hmem)
      exact ⟨r, hfor.1, of_decide_eq_true hfor.2, hrw, hG⟩
  refine ⟨mem_lineage_iff ord hs₀ hagg, ?_, ?_, fun hle => ?_⟩
  · rw [hm, size_recordAll, counted, card_senders_accepted]
    exact min_eq_left hcard
  · rw [hincluded, counted, mem_senders_accepted_iff]
  · rw [hincluded, counted, senders_accepted_of_card_le hle]
    exact List.mem_toFinset.mpr (List.mem_map.mpr ⟨p, by simp [pushesFor], rfl⟩)

/-- A second worker on a server for one worker is told that the iteration is complete, and its
gradients are in no mean. -/
theorem acknowledged_worker_not_counted :
    let p : Push UInt32 := ⟨1, 0, [word 2]⟩
    let s₀ : ParameterServerCore UInt32 := (new 1).initializeParameters [word 10]
    let s := s₀.runPushes .insertion [⟨0, 0, [word 1]⟩]
    (s.receive .insertion p).1 = true ∧
      ((s.receive .insertion p).2.stateOf 0).workerGradients.find? 1 = none ∧
      s₀.lineage .insertion [⟨0, 0, [word 1]⟩, p] = [(0, [word 1])] ∧
      (s.receive .insertion p).2.parameters = [word 9] := by
  decide +kernel

theorem acknowledged_worker_counted_two_workers :
    let ps : List (Push UInt32) := [⟨0, 0, [word 2]⟩]
    let m := ((((new 2).initializeParameters [word 10]).runPushes .insertion
      (ps ++ [⟨1, 0, [word 4]⟩])).stateOf 0).workerGradients
    ∃ r ∈ ps ++ [⟨1, 0, [word 4]⟩], r.iteration = 0 ∧ r.workerId = 1 ∧
      m.find? 1 = some r.gradients :=
  (acknowledged_worker_counted .insertion (by decide) [word 10] [⟨0, 0, [word 2]⟩]
    ⟨1, 0, [word 4]⟩ (by decide +kernel)).2.2.2 (by decide)

end ParameterServerCore

end ParamServer
