import ParamServer.Server.Calls
import ParamServer.Service.Handlers

/-! What `ready` in a `ParameterUpdate` means. The handler takes the parameters first and asks
for the sync status afterwards, so the answer may be about an update that came in between. -/

namespace ParamServer

open Library

variable {V : Type}

/-- If it says `ready`, the update of its iteration is among the means that its parameters are known
to hold. -/
def Response.UpToDate : Response V → Prop
  | parameters r held => r.ready = true → r.iteration ∈ held.map Prod.fst
  | _ => True

namespace ParameterServerService

/-- Every iteration that is marked aggregated is among the means that the parameters are known to
hold. -/
def Covered (ps : ParameterServerCore V) (held : List (Int32 × List (Tensor V))) : Prop :=
  ∀ k, (ps.stateOf k).aggregated = true → k ∈ held.map Prod.fst

/-- No thread holds parameters for the iteration that a push is about to complete, unless the
update is in them already. -/
def Quiet (s : ParameterServerService V) : Action V → Prop
  | .call _ _ => True
  | .advance thread => ∀ p, s.handlers thread = .receiveGradients p → s.ps.Completes p →
      ∀ j params held, s.handlers j = .served p.iteration params held →
        p.iteration ∈ held.map Prod.fst

structure Fresh (s : ParameterServerService V) : Prop where
  covered : Covered s.ps s.held
  served : ∀ j k params held, s.handlers j = .served k params held →
    (s.ps.stateOf k).aggregated = true → k ∈ held.map Prod.fst

/-- The thread holds parameters without the update of an iteration that is marked aggregated. -/
def Stale (s : ParameterServerService V) (thread : ℕ) : Prop :=
  ∃ k params held, s.handlers thread = .served k params held ∧
    (s.ps.stateOf k).aggregated = true ∧ k ∉ held.map Prod.fst

theorem Fresh.setHandler {s : ParameterServerService V} (hs : Fresh s) {i : ℕ} {h : Handler V}
    (hh : ∀ k params held, h ≠ .served k params held) : Fresh (s.setHandler i h) := by
  refine ⟨hs.covered, fun j k params held hj => ?_⟩
  rw [handlers_setHandler] at hj
  split at hj
  · exact absurd hj (hh k params held)
  · exact hs.served j k params held hj

variable [Scalar V] (ord : VisitOrder)

theorem Fresh.step {s : ParameterServerService V} (hs : Fresh s) {a : Action V}
    (ha : Quiet s a) : Fresh ((machine ord).step s a).2 := by
  have hcases := step_cases ord s a
  generalize (machine ord).step s a = out at hcases ⊢
  cases hcases with
  | unchanged => exact hs
  | call request => exact hs.setHandler request.handler_ne_served
  | @receive i p hi =>
    -- the push may mark its iteration, and then its mean joins the parameters
    refine ⟨fun k hk => ?_, fun j k params held hj hk => ?_⟩
    · dsimp only at hk ⊢
      rw [ParameterServerCore.aggregated_receive_iff] at hk
      rw [List.map_append, List.mem_append, ParameterServerCore.mem_lineage_singleton_iff]
      exact hk.imp_left (hs.covered k)
    · dsimp only at hj hk
      rw [Function.update_apply] at hj
      split at hj
      · simp at hj
      · rcases (ParameterServerCore.aggregated_receive_iff ord _ p k).mp hk with hk | ⟨hc, rfl⟩
        · exact hs.served j k params held hj hk
        · exact ha p hi hc j params held hj
  | serve =>
    refine ⟨hs.covered, fun j k' params held hj hk => ?_⟩
    -- parameters that are taken now hold every update that is marked
    rw [handlers_setHandler] at hj
    split at hj
    · cases hj
      exact hs.covered _ hk
    · exact hs.served j k' params held hj hk
  | answer => exact hs.setHandler (by simp)

theorem Fresh.upToDate {s : ParameterServerService V} (hs : Fresh s) (a : Action V) :
    ∀ r, ((machine ord).step s a).1 = some r → r.UpToDate := by
  have hcases := step_cases ord s a
  generalize (machine ord).step s a = out at hcases ⊢
  cases hcases with
  | @answer i r hresponse =>
    rintro _ ⟨⟩
    rcases s.response_cases hresponse with ⟨k, complete, -, rfl⟩ | ⟨k, params, held, hi, rfl⟩ |
      ⟨k, -, rfl⟩
    · trivial
    · intro hready
      rw [ParameterServerCore.checkSyncStatus_eq] at hready
      exact hs.served i k params held hi hready
    · trivial
  | _ => exact nofun

/-- The parameters, and those that threads hold, are the base with the means next to them. -/
structure Faithful (base : List (Tensor V)) (s : ParameterServerService V) : Prop where
  parameters : s.ps.parameters = applyMeans base s.held
  served : ∀ j k params held, s.handlers j = .served k params held → params = applyMeans base held

theorem Faithful.setHandler {base : List (Tensor V)} {s : ParameterServerService V}
    (hs : Faithful base s) {i : ℕ} {h : Handler V}
    (hh : ∀ k params held, h = .served k params held → params = applyMeans base held) :
    Faithful base (s.setHandler i h) := by
  refine ⟨hs.parameters, fun j k params held hj => ?_⟩
  rw [handlers_setHandler] at hj
  split at hj
  · exact hh k params held hj
  · exact hs.served j k params held hj

theorem Faithful.step {base : List (Tensor V)} {s : ParameterServerService V}
    (hs : Faithful base s) (a : Action V) : Faithful base ((machine ord).step s a).2 := by
  have hcases := step_cases ord s a
  generalize (machine ord).step s a = out at hcases ⊢
  cases hcases with
  | unchanged => exact hs
  | call request =>
    exact hs.setHandler fun k params held h => absurd h (request.handler_ne_served k params held)
  | @receive i p hi =>
    refine ⟨?_, fun j k params held hj => ?_⟩
    · rw [applyMeans_append, ← hs.parameters, ← ParameterServerCore.runPushes_parameters]
      rfl
    · dsimp only at hj
      rw [Function.update_apply] at hj
      split at hj
      · simp at hj
      · exact hs.served j k params held hj
  | serve =>
    refine hs.setHandler fun k params held h => ?_
    cases h
    exact hs.parameters
  | answer => exact hs.setHandler (by simp)

theorem Faithful.response {base : List (Tensor V)} {s : ParameterServerService V}
    (hs : Faithful base s) (a : Action V) :
    ∀ r held, ((machine ord).step s a).1 = some (.parameters r held) →
      r.parameters = applyMeans base held := by
  have hcases := step_cases ord s a
  generalize (machine ord).step s a = out at hcases ⊢
  cases hcases with
  | @answer i r hresponse =>
    rintro _ held ⟨⟩
    rcases s.response_cases hresponse with ⟨k, complete, -, he⟩ | ⟨k, params, held, hi, he⟩ |
      ⟨k, -, he⟩
    · cases he
    · cases he
      exact hs.served i k params held hi
    · cases he
  | _ => exact nofun

section Stale

variable {s : ParameterServerService V}

/-- When it answers, it is with `ready` and without the update. -/
theorem Stale.reveal {i : ℕ} (hs : Stale s i) :
    ¬∀ r, ((machine ord).step s (.advance i)).1 = some r → r.UpToDate := by
  obtain ⟨k, params, held, hi, hagg, hk⟩ := hs
  intro hgood
  refine hk (hgood (.parameters ⟨k, params, (s.ps.checkSyncStatus k).1⟩ held) ?_ ?_)
  · simp [machine, advance, hi]
  · rwa [ParameterServerCore.checkSyncStatus_eq]

/-- A thread with stale parameters keeps them until it answers. -/
theorem Stale.step {i : ℕ} (hs : Stale s i) (a : Action V)
    (hgood : ∀ r, ((machine ord).step s a).1 = some r → r.UpToDate) :
    Stale ((machine ord).step s a).2 i := by
  have hne : a ≠ .advance i := by
    rintro rfl
    exact hs.reveal ord hgood
  obtain ⟨k, params, held, hi, hagg, hk⟩ := hs
  refine ⟨k, params, held, ?_, aggregated_step ord s a hagg, hk⟩
  rw [handlers_step ord (by simp [hi]) hne, hi]

/-- A push that completes its iteration under a held response makes it stale. -/
theorem exists_stale_of_not_quiet {a : Action V} (h : ¬Quiet s a) :
    ∃ i, Stale ((machine ord).step s a).2 i := by
  cases a with
  | call => exact absurd trivial h
  | advance j =>
    simp only [Quiet, not_forall] at h
    obtain ⟨p, hj, hc, i, params, held, hi, hk⟩ := h
    have hij : i ≠ j := fun hij => by simp [← hij, hi] at hj
    refine ⟨i, p.iteration, params, held, ?_, ?_, hk⟩
    · simp only [machine, advance, hj]
      rw [Function.update_of_ne hij, hi]
    · simp only [machine, advance, hj]
      exact (ParameterServerCore.aggregated_receive_iff ord _ p _).mpr (.inr ⟨hc, rfl⟩)

theorem exposing_stale : Machine.Exposing (machine (V := V) ord) Quiet Fresh
    (fun o => ∀ r, o = some r → r.UpToDate) (fun i s => Stale s i) Action.advance where
  keeps hs ha := hs.step ord ha
  good hs a := hs.upToDate ord a
  breaks _ ha := exists_stale_of_not_quiet ord ha
  lasts hs a hgood := hs.step ord a hgood
  reveals hs := hs.reveal ord

end Stale

/-- A server that is set up once and then only receives gradients is covered. -/
theorem covered_runPushes {s : ParameterServerCore V} (hs : s.iterationStates = .empty)
    (ps : List (Push V)) : Covered (s.runPushes ord ps) (s.lineage ord ps) := by
  intro k hk
  rw [ParameterServerCore.aggregated_runPushes_iff ord (hs ▸ rfl)] at hk
  exact (ParameterServerCore.mem_updates_iff ord (hs ▸ rfl) ps).mpr hk

variable [Word V]

/-- `ready` means that the parameters next to it hold the update exactly in the quiet runs: if
a run is not quiet, it or one more step of it answers with `ready` and without the update. If the
known means lack an iteration that is marked at the start, as they do after a load of parameters
from elsewhere, a pull for it is answered with `ready` although nothing says that they hold it. -/
theorem upToDate_iff_quiet {ps : ParameterServerCore V} {base : List (Tensor V)}
    {held : List (Int32 × List (Tensor V))}
    (h : ParameterServerCore.Reachable ord ps base held) (acts : List (Action V)) :
    (∀ r means, some (.parameters r means) ∈ (machine ord).outputs (start ps held) acts →
      r.parameters = applyMeans base means) ∧
    (Covered ps held → ((machine ord).Meets Quiet (start ps held) acts ↔
      ∀ a r, some r ∈ (machine ord).outputs (start ps held) (acts ++ [a]) → r.UpToDate)) ∧
    (¬Covered ps held → ∃ k r, some r ∈ (machine ord).outputs (start ps held)
      [.call 0 (.pull 0 k), .advance 0, .advance 0] ∧ ¬r.UpToDate) := by
  refine ⟨fun r means hr => ?_, fun hc => ?_, fun hc => ?_⟩
  · have hstart : Faithful base (start ps held) := ⟨h.parameters_eq, by simp [start]⟩
    have hall := Machine.invariant_outputs (P := fun o => ∀ r means,
        o = some (.parameters r means) → r.parameters = applyMeans base means)
      (fun s a hs _ => hs.step ord a) (fun s a hs => hs.response ord a) hstart
      ((machine ord).meets_true _ acts)
    exact hall _ hr r means rfl
  · have hstart : Fresh (start ps held) := ⟨hc, by simp [start]⟩
    exact (exposing_stale ord).meets_iff_some hstart
  · -- the flag is set from the start, so that the first pull for `k` is answered with `ready`
    simp only [Covered, not_forall] at hc
    obtain ⟨k, ha, hk⟩ := hc
    refine ⟨k, .parameters ⟨k, ps.parameters, true⟩ held, ?_, fun hu => hk (hu rfl)⟩
    have hready : (ps.checkSyncStatus k).1 = true := by
      rwa [ParameterServerCore.checkSyncStatus_eq]
    simp [Machine.outputs, machine, advance, start, setHandler, Request.handler, hready,
      ParameterServerCore.serveParameters]

/-- The push of the only worker comes between the two core calls of a pull, which then answers
that the parameters it took before the push are ready. -/
theorem pull_ready_without_update :
    let ps : ParameterServerCore UInt32 :=
      (ParameterServerCore.new 1).initializeParameters [word 10]
    ParameterServerCore.Reachable .insertion ps [word 10] [] ∧
      (machine .insertion).outputs (start ps []) [.call 0 (.pull 0 0), .advance 0,
          .call 1 (.gradientUpdate ⟨0, 0, [word 1]⟩), .advance 1, .advance 0] =
        [none, none, none, none, some (.parameters ⟨0, [word 10], true⟩ [])] ∧
      ((machine .insertion).final (start ps []) [.call 0 (.pull 0 0), .advance 0,
        .call 1 (.gradientUpdate ⟨0, 0, [word 1]⟩), .advance 1]).ps.parameters = [word 9] :=
  ⟨.initialized (.new 1) _, by decide +kernel, by decide +kernel⟩

theorem upToDate_two_workers :
    let s : ParameterServerCore UInt32 :=
      (ParameterServerCore.new 2).initializeParameters [word 10]
    let ps : List (Push UInt32) := [⟨0, 0, [word 2]⟩, ⟨1, 0, [word 4]⟩]
    ∀ a r, some r ∈ (machine .insertion).outputs
        (start (s.runPushes .insertion ps) ([] ++ s.lineage .insertion ps))
        ([.call 0 (.pull 0 0), .advance 0] ++ [a]) → r.UpToDate := by
  intro s ps
  have hreach : ParameterServerCore.Reachable .insertion s [word 10] [] := .initialized (.new 2) _
  have hcov := covered_runPushes .insertion (s := s) rfl ps
  rw [← List.nil_append (s.lineage .insertion ps)] at hcov
  refine ((upToDate_iff_quiet .insertion (hreach.runPushes .insertion ps) _).2.1 hcov).mp ?_
  simp [Machine.Meets, Quiet, machine, start, setHandler, Request.handler]

end ParameterServerService

end ParamServer
