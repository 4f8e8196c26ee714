import ParamServer.Server.Calls
import ParamServer.Service.Handlers

/-! The two halves of a `PushResponse`. `aggregation_complete` is what the push itself found, the
counts next to it are read in a second core call. -/

namespace ParamServer

open Library

variable {V : Type}

def Response.Consistent : Response V → Prop
  | push r => r.aggregationComplete = true ↔ r.workersReceived = r.totalWorkers
  | _ => True

namespace ParameterServerCore

/-- The two ways in which the core tells that an iteration is complete agree at any one time. -/
theorem Barrier.aggregated_iff {s : ParameterServerCore V} (h : s.Barrier)
    (hN : 1 ≤ s.totalWorkers.toInt) (k : Int32) :
    (s.stateOf k).aggregated = true ↔ (s.checkSyncStatus k).2 = s.getTotalWorkers := by
  obtain ⟨hle, hiff⟩ := h.counted k
  rw [quorum_of_pos hN] at hle hiff
  rw [hiff, checkSyncStatus_eq, getTotalWorkers]
  constructor
  · intro hsize
    rw [hsize]
    exact int32_ofNat_toNat (by omega)
  · intro hcount
    have hlt := s.totalWorkers.toInt_lt
    rw [← Int32.toInt_inj, Int32.toInt_ofNat_of_lt (by omega)] at hcount
    omega

end ParameterServerCore

namespace ParameterServerService

/-- No thread is about to report an iteration as open when a push completes it. -/
def Undisturbed (s : ParameterServerService V) : Action V → Prop
  | .call _ _ => True
  | .advance thread => ∀ p, s.handlers thread = .receiveGradients p → s.ps.Completes p →
      ∀ j, s.handlers j ≠ .received p.iteration false

structure Counting (s : ParameterServerService V) : Prop where
  barrier : s.ps.Barrier
  positive : 1 ≤ s.ps.totalWorkers.toInt

/-- What a thread has found of its iteration is still so. -/
def Current (s : ParameterServerService V) : Prop :=
  ∀ j k complete, s.handlers j = .received k complete →
    (complete = true ↔ (s.ps.stateOf k).aggregated = true)

/-- The thread has found an iteration open that is complete by now. -/
def Outdated (s : ParameterServerService V) (thread : ℕ) : Prop :=
  ∃ k, s.handlers thread = .received k false ∧ (s.ps.stateOf k).aggregated = true

theorem Current.setHandler {s : ParameterServerService V} (hs : Current s) {i : ℕ}
    {h : Handler V} (hh : ∀ k complete, h ≠ .received k complete) :
    Current (s.setHandler i h) := by
  intro j k complete hj
  rw [handlers_setHandler] at hj
  split at hj
  · exact absurd hj (hh k complete)
  · exact hs j k complete hj

variable [Scalar V] (ord : VisitOrder)

theorem Counting.step {s : ParameterServerService V} (hs : Counting s) (a : Action V) :
    Counting ((machine ord).step s a).2 := by
  rcases ps_step_cases ord s a with hps | ⟨p, hps⟩
  · exact ⟨hps ▸ hs.barrier, hps ▸ hs.positive⟩
  · refine ⟨hps ▸ hs.barrier.receive ord p, ?_⟩
    rw [hps, ParameterServerCore.receive_totalWorkers]
    exact hs.positive

theorem Current.step {s : ParameterServerService V} (hs : Current s) {a : Action V}
    (ha : Undisturbed s a) : Current ((machine ord).step s a).2 := by
  have hcases := step_cases ord s a
  generalize (machine ord).step s a = out at hcases ⊢
  cases hcases with
  | unchanged => exact hs
  | call request => exact hs.setHandler request.handler_ne_received
  | @receive i p hi =>
    intro j k complete hj
    dsimp only at hj ⊢
    rw [Function.update_apply] at hj
    split at hj
    · -- the push has just looked at its iteration
      cases hj
      rw [ParameterServerCore.receive_fst]
    · rw [hs j k complete hj, ParameterServerCore.aggregated_receive_iff]
      refine ⟨.inl, fun h => h.resolve_right ?_⟩
      rintro ⟨hc, rfl⟩
      -- the iteration was open before the push, and so the other thread has found it
      have hopen : complete = false := by
        rw [← Bool.not_eq_true, hs j _ complete hj, hc.1]
        exact Bool.false_ne_true
      exact ha p hi hc j (hopen ▸ hj)
  | serve => exact hs.setHandler (by simp)
  | answer => exact hs.setHandler (by simp)

theorem Current.consistent {s : ParameterServerService V} (hs : Current s) (hc : Counting s)
    (a : Action V) : ∀ r, ((machine ord).step s a).1 = some r → r.Consistent := by
  have hcases := step_cases ord s a
  generalize (machine ord).step s a = out at hcases ⊢
  cases hcases with
  | @answer i r hresponse =>
    rintro _ ⟨⟩
    rcases s.response_cases hresponse with ⟨k, complete, hi, rfl⟩ | ⟨k, params, held, -, rfl⟩ |
      ⟨k, -, rfl⟩
    · exact (hs i k complete hi).trans (hc.barrier.aggregated_iff hc.positive k)
    · trivial
    · trivial
  | _ => exact nofun

section Outdated

variable {s : ParameterServerService V}

/-- An outdated thread answers that the iteration is open and that every worker is in. -/
theorem Outdated.reveal {i : ℕ} (hs : Outdated s i) (hc : Counting s) :
    ¬∀ r, ((machine ord).step s (.advance i)).1 = some r → r.Consistent := by
  obtain ⟨k, hi, hagg⟩ := hs
  intro hgood
  have hcons := hgood (.push ⟨true, "gradients received", k, false, (s.ps.checkSyncStatus k).2,
    s.ps.getTotalWorkers⟩) (by simp [machine, advance, hi])
  exact Bool.false_ne_true (hcons.mpr ((hc.barrier.aggregated_iff hc.positive k).mp hagg))

theorem Outdated.step {i : ℕ} (hs : Outdated s i) (hc : Counting s) (a : Action V)
    (hgood : ∀ r, ((machine ord).step s a).1 = some r → r.Consistent) :
    Outdated ((machine ord).step s a).2 i := by
  have hne : a ≠ .advance i := by
    rintro rfl
    exact hs.reveal ord hc hgood
  obtain ⟨k, hi, hagg⟩ := hs
  refine ⟨k, ?_, aggregated_step ord s a hagg⟩
  rw [handlers_step ord (by simp [hi]) hne, hi]

theorem exists_outdated_of_disturbed {a : Action V} (h : ¬Undisturbed s a) :
    ∃ i, Outdated ((machine ord).step s a).2 i := by
  cases a with
  | call => exact absurd trivial h
  | advance j =>
    simp only [Undisturbed, ne_eq, not_forall, not_not] at h
    obtain ⟨p, hj, hc, i, hi⟩ := h
    have hne : Action.advance (V := V) j ≠ .advance i := by
      rintro ⟨⟩
      simp [hi] at hj
    refine ⟨i, p.iteration, ?_, ?_⟩
    · rw [handlers_step ord (by simp [hi]) hne, hi]
    · simp only [machine, advance, hj]
      exact (ParameterServerCore.aggregated_receive_iff ord _ p _).mpr (.inr ⟨hc, rfl⟩)

theorem exposing_outdated : Machine.Exposing (machine (V := V) ord) Undisturbed
    (fun s => Counting s ∧ Current s) (fun o => ∀ r, o = some r → r.Consistent)
    (fun i s => Counting s ∧ Outdated s i) Action.advance where
  keeps hs ha := ⟨hs.1.step ord _, hs.2.step ord ha⟩
  good hs a := hs.2.consistent ord hs.1 a
  breaks hs ha := (exists_outdated_of_disturbed ord ha).imp fun _ ho => ⟨hs.1.step ord _, ho⟩
  lasts hs a hgood := ⟨hs.1.step ord a, hs.2.step ord hs.1 a hgood⟩
  reveals hs := hs.2.reveal ord hs.1

end Outdated

variable [Word V]

/-- The responses to pushes are consistent exactly in the undisturbed runs: if a run is disturbed,
it or one more step of it answers `aggregation_complete = false` with all workers received. -/
theorem consistent_iff_undisturbed {ps : ParameterServerCore V} {base : List (Tensor V)}
    {held : List (Int32 × List (Tensor V))}
    (h : ParameterServerCore.Reachable ord ps base held) (hN : 1 ≤ ps.totalWorkers.toInt)
    (acts : List (Action V)) :
    (machine ord).Meets Undisturbed (start ps held) acts ↔
      ∀ a r, some r ∈ (machine ord).outputs (start ps held) (acts ++ [a]) → r.Consistent := by
  have hcounting : Counting (start ps held) := ⟨h.barrier, hN⟩
  have hcurrent : Current (start ps held) := by
    intro j k complete hj
    cases hj
  exact (exposing_outdated ord).meets_iff_some ⟨hcounting, hcurrent⟩

theorem consistent_two_workers :
    let ps : ParameterServerCore UInt32 :=
      (ParameterServerCore.new 2).initializeParameters [word 10]
    let acts : List (Action UInt32) := [.call 0 (.gradientUpdate ⟨0, 0, [word 2]⟩),
      .call 1 (.gradientUpdate ⟨1, 0, [word 4]⟩), .advance 0, .advance 0, .advance 1]
    (machine .insertion).Meets Undisturbed (start ps []) acts ↔
      ∀ a r, some r ∈ (machine .insertion).outputs (start ps []) (acts ++ [a]) →
        r.Consistent :=
  consistent_iff_undisturbed .insertion (.initialized (.new 2) _) (by decide) _

/-- The push of the second worker comes between the two core calls of the first one's handler,
which then answers that two of two workers are in and that the iteration is not complete. -/
theorem push_response_inconsistent :
    let ps : ParameterServerCore UInt32 :=
      (ParameterServerCore.new 2).initializeParameters [word 10]
    ParameterServerCore.Reachable .insertion ps [word 10] [] ∧
      (machine .insertion).outputs (start ps []) [.call 0 (.gradientUpdate ⟨0, 0, [word 2]⟩),
          .call 1 (.gradientUpdate ⟨1, 0, [word 4]⟩), .advance 0, .advance 1, .advance 0] =
        [none, none, none, none, some (.push ⟨true, "gradients received", 0, false, 2, 2⟩)] ∧
      ¬(Response.push (V := UInt32) ⟨true, "gradients received", 0, false, 2, 2⟩).Consistent :=
  ⟨.initialized (.new 2) _, by decide +kernel, by simp [Response.Consistent]⟩

end ParameterServerService

end ParamServer
