import ParamServer.Library.Quorum
import ParamServer.Server.Receive

/-! The barrier state after a run of pushes, as a function of the run alone: an iteration is
aggregated once `quorum` distinct workers have pushed for it, and the recorded gradients are
the last ones each worker pushed up to that point. -/

namespace ParamServer

open Library

variable {V : Type}

def pushesFor (k : Int32) (ps : List (Push V)) : List (Push V) :=
  ps.filter (fun p => p.iteration = k)

def pushers (k : Int32) (ps : List (Push V)) : Finset Int32 :=
  senders Push.workerId (pushesFor k ps)

/-- The pushes for `k` up to and including the one that completed it. -/
def counted (q : ℕ) (k : Int32) (ps : List (Push V)) : List (Push V) :=
  accepted q Push.workerId (pushesFor k ps)

def entryOf (q : ℕ) (k : Int32) (ps : List (Push V)) : IterationState V :=
  ⟨recordAll Push.workerId Push.gradients (counted q k ps), decide (q ≤ (pushers k ps).card)⟩

@[simp] theorem pushesFor_nil (k : Int32) : pushesFor k ([] : List (Push V)) = [] := rfl

@[simp] theorem pushers_nil (k : Int32) : pushers k ([] : List (Push V)) = ∅ := rfl

theorem pushesFor_concat_self (ps : List (Push V)) (p : Push V) :
    pushesFor p.iteration (ps ++ [p]) = pushesFor p.iteration ps ++ [p] := by
  simp [pushesFor]

theorem pushesFor_concat_ne {k : Int32} (ps : List (Push V)) (p : Push V) (h : k ≠ p.iteration) :
    pushesFor k (ps ++ [p]) = pushesFor k ps := by
  simp [pushesFor, Ne.symm h]

theorem pushers_concat_ne {k : Int32} (ps : List (Push V)) (p : Push V) (h : k ≠ p.iteration) :
    pushers k (ps ++ [p]) = pushers k ps := by rw [pushers, pushesFor_concat_ne ps p h, pushers]

theorem pushers_concat_self (ps : List (Push V)) (p : Push V) :
    pushers p.iteration (ps ++ [p]) = insert p.workerId (pushers p.iteration ps) := by
  rw [pushers, pushesFor_concat_self, senders_concat, pushers]

theorem card_pushers_le_concat (k : Int32) (ps : List (Push V)) (p : Push V) :
    (pushers k ps).card ≤ (pushers k (ps ++ [p])).card := by
  by_cases hk : k = p.iteration
  · subst hk
    rw [pushers_concat_self]
    exact Finset.card_le_card (Finset.subset_insert ..)
  · rw [pushers_concat_ne ps p hk]

theorem pushers_subset_append (k : Int32) (ps qs : List (Push V)) :
    pushers k ps ⊆ pushers k (ps ++ qs) := by
  rw [pushers, pushers, pushesFor, pushesFor, List.filter_append]
  exact senders_subset_append ..

theorem counted_concat_ne (q : ℕ) {k : Int32} (ps : List (Push V)) (p : Push V)
    (h : k ≠ p.iteration) : counted q k (ps ++ [p]) = counted q k ps := by
  rw [counted, pushesFor_concat_ne ps p h, counted]

theorem entryOf_concat_ne (q : ℕ) {k : Int32} (ps : List (Push V)) (p : Push V)
    (h : k ≠ p.iteration) : entryOf q k (ps ++ [p]) = entryOf q k ps := by
  rw [entryOf, counted_concat_ne q ps p h, pushers_concat_ne ps p h, entryOf]

theorem counted_concat_of_quorum {q : ℕ} {ps : List (Push V)} (p : Push V)
    (h : q ≤ (pushers p.iteration ps).card) :
    counted q p.iteration (ps ++ [p]) = counted q p.iteration ps := by
  rw [counted, pushesFor_concat_self, accepted_concat_of_quorum h, counted]

theorem counted_of_card_lt {q : ℕ} {k : Int32} {ps : List (Push V)}
    (h : (pushers k ps).card < q) : counted q k ps = pushesFor k ps := accepted_of_card_lt h

theorem counted_concat_of_card_lt {q : ℕ} {ps : List (Push V)} (p : Push V)
    (h : (pushers p.iteration ps).card < q) :
    counted q p.iteration (ps ++ [p]) = pushesFor p.iteration (ps ++ [p]) := by
  rw [counted, pushesFor_concat_self, accepted_concat_of_card_lt h]

theorem push_entryOf (q : ℕ) (ps : List (Push V)) (p : Push V) :
    (entryOf q p.iteration ps).push q p = entryOf q p.iteration (ps ++ [p]) := by
  by_cases h : q ≤ (pushers p.iteration ps).card
  · -- the quorum was there before, so the push is neither recorded nor counted
    have h' := h.trans (card_pushers_le_concat p.iteration ps p)
    simp [IterationState.push, entryOf, h, h', counted_concat_of_quorum p h]
  · -- still open: everything pushed for the iteration so far is recorded
    have hlt := Nat.not_le.mp h
    have hm : (recordAll Push.workerId Push.gradients (counted q p.iteration ps)).assign
        p.workerId p.gradients =
        recordAll Push.workerId Push.gradients (pushesFor p.iteration (ps ++ [p])) := by
      rw [counted_of_card_lt hlt, pushesFor_concat_self, recordAll_concat]
    simp only [IterationState.push, entryOf, h, decide_false, Bool.false_eq_true, if_false, hm,
      counted_concat_of_card_lt p hlt, size_recordAll]
    rfl

theorem size_entryOf (q : ℕ) (k : Int32) (ps : List (Push V)) :
    (entryOf q k ps).workerGradients.size = min q (pushers k ps).card := by
  rw [entryOf, size_recordAll, counted, card_senders_accepted, pushers]

def applyMeans [Scalar V] (P : List (Tensor V)) (means : List (Int32 × List (Tensor V))) :
    List (Tensor V) := means.foldl (fun P m => aggregate P m.2) P

theorem applyMeans_append [Scalar V] (P : List (Tensor V))
    (ms ms' : List (Int32 × List (Tensor V))) :
    applyMeans P (ms ++ ms') = applyMeans (applyMeans P ms) ms' := List.foldl_append

namespace ParameterServerCore

variable [Scalar V] (ord : VisitOrder)

def runPushes (s : ParameterServerCore V) (ps : List (Push V)) : ParameterServerCore V :=
  ps.foldl (fun s p => (s.receive ord p).2) s

/-- The means that a run of pushes applies, each with its iteration, in order. -/
def lineage (s : ParameterServerCore V) : List (Push V) → List (Int32 × List (Tensor V))
  | [] => []
  | p :: ps =>
    if s.Completes p then
      (p.iteration, averageGradients ord (s.recorded p) p.gradients) ::
        lineage (s.receive ord p).2 ps
    else lineage (s.receive ord p).2 ps

/-- The iterations whose mean a run of pushes applies, in order. -/
def updates (s : ParameterServerCore V) (ps : List (Push V)) : List Int32 :=
  (s.lineage ord ps).map Prod.fst

@[simp] theorem runPushes_nil (s : ParameterServerCore V) : s.runPushes ord [] = s := rfl

theorem runPushes_cons (s : ParameterServerCore V) (p : Push V) (ps : List (Push V)) :
    s.runPushes ord (p :: ps) = (s.receive ord p).2.runPushes ord ps := rfl

theorem runPushes_concat (s : ParameterServerCore V) (ps : List (Push V)) (p : Push V) :
    s.runPushes ord (ps ++ [p]) = ((s.runPushes ord ps).receive ord p).2 := by
  rw [runPushes, List.foldl_append]
  rfl

/-- What every push keeps, a run of them keeps. -/
theorem runPushes_of_receive {P : ParameterServerCore V → Prop}
    (hP : ∀ s p, P s → P (s.receive ord p).2) {s : ParameterServerCore V} (h : P s)
    (ps : List (Push V)) : P (s.runPushes ord ps) := by
  induction ps generalizing s with
  | nil => exact h
  | cons p ps ih => exact ih (hP s p h)

theorem updates_singleton (s : ParameterServerCore V) (p : Push V) :
    (s.lineage ord [p]).map Prod.fst = if s.Completes p then [p.iteration] else [] := by
  rw [lineage, lineage]
  split <;> rfl

theorem mem_lineage_singleton_iff (s : ParameterServerCore V) (p : Push V) (k : Int32) :
    k ∈ (s.lineage ord [p]).map Prod.fst ↔ s.Completes p ∧ k = p.iteration := by
  rw [updates_singleton]
  split <;> simp [*]

theorem lineage_concat (s : ParameterServerCore V) (ps : List (Push V)) (p : Push V) :
    s.lineage ord (ps ++ [p]) =
      s.lineage ord ps ++ if (s.runPushes ord ps).Completes p then
        [(p.iteration, averageGradients ord ((s.runPushes ord ps).recorded p) p.gradients)]
      else [] := by
  induction ps generalizing s with
  | nil => rfl
  | cons r ps ih =>
    rw [List.cons_append, lineage, lineage, ih, runPushes_cons]
    split <;> rfl

theorem lineage_append (s : ParameterServerCore V) (ps qs : List (Push V)) :
    s.lineage ord (ps ++ qs) = s.lineage ord ps ++ (s.runPushes ord ps).lineage ord qs := by
  induction ps generalizing s with
  | nil => rfl
  | cons p ps ih =>
    rw [List.cons_append, lineage, lineage, ih, runPushes_cons]
    split <;> rfl

theorem runPushes_append (s : ParameterServerCore V) (ps qs : List (Push V)) :
    s.runPushes ord (ps ++ qs) = (s.runPushes ord ps).runPushes ord qs := List.foldl_append

theorem updates_concat (s : ParameterServerCore V) (ps : List (Push V)) (p : Push V) :
    s.updates ord (ps ++ [p]) =
      s.updates ord ps ++ if (s.runPushes ord ps).Completes p then [p.iteration] else [] := by
  rw [updates, lineage_concat, List.map_append, updates]
  split <;> rfl

/-- The parameters are the first ones with the means of the lineage applied in turn, and
nothing else. -/
theorem runPushes_parameters (s : ParameterServerCore V) (ps : List (Push V)) :
    (s.runPushes ord ps).parameters = applyMeans s.parameters (s.lineage ord ps) := by
  induction ps using List.reverseRecOn with
  | nil => rfl
  | append_singleton ps p ih =>
    rw [runPushes_concat, receive_parameters, lineage_concat, applyMeans_append, ← ih]
    split <;> rfl

section Held

/-! The means that are in the parameters, and the iterations that are marked aggregated. -/

variable {s : ParameterServerCore V} {held : List (Int32 × List (Tensor V))}

theorem aggregated_receive_iff_mem (h : ∀ k, (s.stateOf k).aggregated = true ↔
    k ∈ held.map Prod.fst) (p : Push V) (k : Int32) :
    ((s.receive ord p).2.stateOf k).aggregated = true ↔
      k ∈ (held ++ s.lineage ord [p]).map Prod.fst := by
  rw [s.aggregated_receive_iff ord, h, List.map_append, List.mem_append,
    s.mem_lineage_singleton_iff ord]

theorem receive_parameters_eq {base : List (Tensor V)} (h : s.parameters = applyMeans base held)
    (p : Push V) :
    (s.receive ord p).2.parameters = applyMeans base (held ++ s.lineage ord [p]) := by
  rw [applyMeans_append, ← h, ← s.runPushes_parameters ord]
  rfl

end Held

@[simp] theorem runPushes_totalWorkers (s : ParameterServerCore V) (ps : List (Push V)) :
    (s.runPushes ord ps).totalWorkers = s.totalWorkers := by
  induction ps using List.reverseRecOn with
  | nil => rfl
  | append_singleton ps p ih => rw [runPushes_concat, receive_totalWorkers, ih]

/-- The iteration counter is the largest iteration pushed so far, if that exceeds its start. -/
theorem runPushes_currentIteration (s : ParameterServerCore V) (ps : List (Push V)) :
    s.currentIteration ≤ (s.runPushes ord ps).currentIteration ∧
      (∀ p ∈ ps, p.iteration ≤ (s.runPushes ord ps).currentIteration) ∧
      ((s.runPushes ord ps).currentIteration = s.currentIteration ∨
        ∃ p ∈ ps, p.iteration = (s.runPushes ord ps).currentIteration) := by
  induction ps using List.reverseRecOn with
  | nil => simp
  | append_singleton ps p ih =>
    obtain ⟨h1, h2, h3⟩ := ih
    rw [runPushes_concat, receive_currentIteration, laterIteration]
    split
    · rename_i hlt
      have hle := Int32.le_iff_lt_or_eq.mpr (.inl hlt)
      refine ⟨Int32.le_trans h1 hle, ?_, .inr ⟨p, by simp, rfl⟩⟩
      intro r hr
      rcases List.mem_append.mp hr with hr | hr
      · exact Int32.le_trans (h2 r hr) hle
      · rw [List.mem_singleton.mp hr]
        simp
    · rename_i hlt
      refine ⟨h1, ?_, ?_⟩
      · intro r hr
        rcases List.mem_append.mp hr with hr | hr
        · exact h2 r hr
        · rw [List.mem_singleton.mp hr]
          exact Int32.not_lt.mp hlt
      · rcases h3 with h3 | ⟨r, hr, h3⟩
        · exact .inl h3
        · exact .inr ⟨r, List.mem_append_left _ hr, h3⟩

/-- What is aggregated after a run was so before it, or the run has applied its mean. -/
theorem aggregated_runPushes_iff_mem (s : ParameterServerCore V) (ps : List (Push V)) (k : Int32) :
    ((s.runPushes ord ps).stateOf k).aggregated = true ↔
      (s.stateOf k).aggregated = true ∨ k ∈ s.updates ord ps := by
  induction ps using List.reverseRecOn with
  | nil => simp [updates, lineage]
  | append_singleton ps p ih =>
    rw [runPushes_concat, aggregated_receive_iff, ih, updates_concat, List.mem_append, or_assoc]
    split <;> simp [*]

/-- A run that applies the mean of an iteration has found it open. -/
theorem open_of_mem_updates {s : ParameterServerCore V} {ps : List (Push V)} {k : Int32}
    (h : k ∈ s.updates ord ps) : (s.stateOf k).aggregated = false := by
  by_contra hagg
  rw [Bool.not_eq_false] at hagg
  induction ps using List.reverseRecOn with
  | nil => cases h
  | append_singleton ps p ih =>
    rw [updates_concat, List.mem_append] at h
    refine ih (h.resolve_right fun hp => ?_)
    split at hp
    · rename_i hc
      obtain rfl := List.mem_singleton.mp hp
      have hstill := (aggregated_runPushes_iff_mem ord s ps p.iteration).mpr (.inl hagg)
      rw [hc.1] at hstill
      exact Bool.false_ne_true hstill
    · cases hp

theorem updates_nodup (s : ParameterServerCore V) (ps : List (Push V)) :
    (s.updates ord ps).Nodup := by
  induction ps using List.reverseRecOn with
  | nil => exact List.nodup_nil
  | append_singleton ps p ih =>
    rw [updates_concat]
    split
    · rename_i h
      -- a push that completes its iteration has found it open
      refine ih.append (List.nodup_singleton _) (List.disjoint_singleton.mpr fun hmem => ?_)
      have hdone := (aggregated_runPushes_iff_mem ord s ps p.iteration).mpr (.inr hmem)
      rw [h.1] at hdone
      exact Bool.false_ne_true hdone
    · simpa using ih

/-- Every mean is applied by a push of its iteration, over what is recorded at that moment. -/
theorem exists_of_mem_lineage {s : ParameterServerCore V} {ps : List (Push V)} {k : Int32}
    {mean : List (Tensor V)} (h : (k, mean) ∈ s.lineage ord ps) :
    ∃ pre p post, ps = pre ++ p :: post ∧ p.iteration = k ∧ (s.runPushes ord pre).Completes p ∧
      mean = averageGradients ord ((s.runPushes ord pre).recorded p) p.gradients := by
  induction ps using List.reverseRecOn with
  | nil => cases h
  | append_singleton ps p ih =>
    rw [lineage_concat, List.mem_append] at h
    rcases h with h | h
    · obtain ⟨pre, q, post, rfl, hq⟩ := ih h
      exact ⟨pre, q, post ++ [p], by simp, hq⟩
    · split at h
      · rename_i hc
        obtain ⟨rfl, rfl⟩ := Prod.mk.inj (List.mem_singleton.mp h)
        exact ⟨ps, p, [], rfl, rfl, hc, rfl⟩
      · cases h

section Fresh

variable {s : ParameterServerCore V} {k : Int32} (hk : s.iterationStates.find? k = none)
include hk

theorem stateOf_runPushes (ps : List (Push V)) :
    (s.runPushes ord ps).stateOf k = entryOf (quorum s.totalWorkers) k ps := by
  induction ps using List.reverseRecOn with
  | nil =>
    have hq : ¬quorum s.totalWorkers ≤ 0 := by
      have := one_le_quorum s.totalWorkers
      omega
    simp [stateOf, hk, entryOf, hq, counted, accepted, recordAll, IterationState.initial]
  | append_singleton ps p ih =>
    rw [runPushes_concat]
    by_cases hp : k = p.iteration
    · subst hp
      rw [stateOf_receive_self, ih, runPushes_totalWorkers, push_entryOf]
    · rw [stateOf_receive_ne _ _ _ hp, ih, entryOf_concat_ne _ ps p hp]

theorem find?_runPushes (ps : List (Push V)) :
    (s.runPushes ord ps).iterationStates.find? k =
      if pushesFor k ps = [] then none else some (entryOf (quorum s.totalWorkers) k ps) := by
  induction ps using List.reverseRecOn with
  | nil => simp [hk]
  | append_singleton ps p ih =>
    rw [runPushes_concat]
    by_cases hp : k = p.iteration
    · subst hp
      rw [find?_receive_self, stateOf_runPushes ord hk, runPushes_totalWorkers, push_entryOf,
        pushesFor_concat_self, if_neg (by simp)]
    · rw [find?_receive_ne _ _ _ hp, ih, pushesFor_concat_ne ps p hp, entryOf_concat_ne _ ps p hp]

theorem aggregated_runPushes_iff (ps : List (Push V)) :
    ((s.runPushes ord ps).stateOf k).aggregated = true ↔
      quorum s.totalWorkers ≤ (pushers k ps).card := by
  rw [stateOf_runPushes ord hk, entryOf, decide_eq_true_iff]

theorem recorded_runPushes {ps : List (Push V)} {p : Push V} (hp : p.iteration = k)
    (h : (pushers k ps).card < quorum s.totalWorkers) :
    (s.runPushes ord ps).recorded p =
      (entryOf (quorum s.totalWorkers) k (ps ++ [p])).workerGradients := by
  subst hp
  rw [recorded, stateOf_runPushes ord hk, entryOf, entryOf, counted_of_card_lt h,
    counted_concat_of_card_lt p h, pushesFor_concat_self, recordAll_concat]

theorem completes_runPushes_iff (ps : List (Push V)) {p : Push V} (hp : p.iteration = k) :
    (s.runPushes ord ps).Completes p ↔
      (pushers k ps).card < quorum s.totalWorkers ∧
        quorum s.totalWorkers ≤ (pushers k (ps ++ [p])).card := by
  unfold Completes
  rw [hp, stateOf_runPushes ord hk, runPushes_totalWorkers, entryOf, decide_eq_false_iff_not,
    Nat.not_le]
  refine and_congr_right fun hlt => ?_
  rw [recorded_runPushes ord hk hp hlt, size_entryOf]
  omega

theorem mem_updates_iff (ps : List (Push V)) :
    k ∈ s.updates ord ps ↔ quorum s.totalWorkers ≤ (pushers k ps).card := by
  induction ps using List.reverseRecOn with
  | nil =>
    have := one_le_quorum s.totalWorkers
    simp only [updates, lineage, List.map_nil, List.not_mem_nil, pushers_nil, Finset.card_empty,
      false_iff]
    omega
  | append_singleton ps p ih =>
    rw [updates_concat, List.mem_append, ih]
    by_cases hp : p.iteration = k
    · -- reaching the quorum with this push is what completing means
      have hle := card_pushers_le_concat k ps p
      have hc := completes_runPushes_iff ord hk ps hp
      split
      · rename_i h
        have := (hc.mp h).2
        simpa only [List.mem_singleton, hp, or_true, true_iff] using this
      · rename_i h
        have hn := mt hc.mpr h
        simp only [List.not_mem_nil, or_false]
        omega
    · rw [pushers_concat_ne ps p (Ne.symm hp)]
      split <;> simp [Ne.symm hp]

theorem count_updates_of_find? (ps : List (Push V)) :
    (s.updates ord ps).count k =
      if quorum s.totalWorkers ≤ (pushers k ps).card then 1 else 0 := by
  rw [(updates_nodup ord s ps).count]
  exact if_congr (mem_updates_iff ord hk ps) rfl rfl

/-- The mean of an iteration that had no entry is over what has been pushed for it since. -/
theorem exists_of_mem_lineage_of_find? {ps : List (Push V)} {mean : List (Tensor V)}
    (h : (k, mean) ∈ s.lineage ord ps) :
    ∃ pre p post, ps = pre ++ p :: post ∧ p.iteration = k ∧
      mean = averageGradients ord
        (recordAll Push.workerId Push.gradients (pushesFor k (pre ++ [p]))) p.gradients := by
  obtain ⟨pre, p, post, hps, rfl, hc, hmean⟩ := exists_of_mem_lineage ord h
  have hlt := ((completes_runPushes_iff ord hk pre rfl).mp hc).1
  rw [recorded_runPushes ord hk rfl hlt, entryOf, counted_concat_of_card_lt p hlt] at hmean
  exact ⟨pre, p, post, hps, rfl, hmean⟩

theorem parameters_runPushes_of_card_lt {ps : List (Push V)} (hps : ∀ p ∈ ps, p.iteration = k)
    (h : (pushers k ps).card < quorum s.totalWorkers) :
    (s.runPushes ord ps).parameters = s.parameters := by
  induction ps using List.reverseRecOn with
  | nil => rfl
  | append_singleton ps p ih =>
    have hlt := (card_pushers_le_concat k ps p).trans_lt h
    have hc : ¬(s.runPushes ord ps).Completes p := by
      rw [completes_runPushes_iff ord hk ps (hps p (by simp))]
      omega
    rw [runPushes_concat, receive_parameters, if_neg hc]
    exact ih (fun r hr => hps r (List.mem_append_left _ hr)) hlt

end Fresh

theorem count_updates {s : ParameterServerCore V} (hs : s.iterationStates = .empty)
    (ps : List (Push V)) (k : Int32) :
    (s.updates ord ps).count k =
      if quorum s.totalWorkers ≤ (pushers k ps).card then 1 else 0 :=
  count_updates_of_find? ord (hs ▸ rfl) ps

/-- Later pushes apply the means that the earlier ones leave to them. -/
theorem count_lineage_runPushes {s : ParameterServerCore V} (hs : s.iterationStates = .empty)
    (ps qs : List (Push V)) (k : Int32) :
    (((s.runPushes ord ps).lineage ord qs).map Prod.fst).count k =
      if quorum s.totalWorkers ≤ (pushers k ps).card then 0
      else if quorum s.totalWorkers ≤ (pushers k (ps ++ qs)).card then 1 else 0 := by
  have hfirst := count_updates ord hs ps k
  have hall := count_updates ord hs (ps ++ qs) k
  rw [updates, lineage_append, List.map_append, List.count_append, ← updates, hfirst] at hall
  by_cases h : quorum s.totalWorkers ≤ (pushers k ps).card
  · have hle := Finset.card_le_card (pushers_subset_append k ps qs)
    rw [if_pos h, if_pos (h.trans hle)] at hall
    rw [if_pos h]
    exact Nat.add_left_cancel hall
  · rw [if_neg h, Nat.zero_add] at hall
    rw [if_neg h, hall]

theorem lineage_eq_nil {s : ParameterServerCore V} (hs : s.iterationStates = .empty)
    {ps : List (Push V)} (h : ∀ k, (pushers k ps).card < quorum s.totalWorkers) :
    s.lineage ord ps = [] := by
  have hnone : s.updates ord ps = [] := by
    refine List.eq_nil_iff_forall_not_mem.mpr fun k hk => ?_
    exact absurd ((mem_updates_iff ord (hs ▸ rfl) ps).mp hk) (Nat.not_le.mpr (h k))
  exact List.map_eq_nil_iff.mp hnone

end ParameterServerCore

end ParamServer
