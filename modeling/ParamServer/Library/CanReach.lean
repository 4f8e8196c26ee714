import Mathlib.Data.Finset.Insert
import ParamServer.Library.Machine

/-! What a machine can still be brought to, by inputs that keep to a condition. -/

namespace ParamServer.Library.Machine

universe u w x y

variable {σ : Type u} {ι : Type w} {ο : Type x}

/-- Some run from `s`, every step of which meets `C`, ends in `P`. -/
def CanReach (M : Machine σ ι ο) (C : σ → ι → Prop) (P : σ → Prop) (s : σ) : Prop :=
  ∃ is, M.Meets C s is ∧ P (M.final s is)

variable {M : Machine σ ι ο} {C : σ → ι → Prop} {P Q : σ → Prop} {s : σ}

theorem CanReach.here (h : P s) : M.CanReach C P s := ⟨[], trivial, h⟩

theorem CanReach.trans (h : M.CanReach C P s) (hQ : ∀ t, P t → M.CanReach C Q t) :
    M.CanReach C Q s := by
  obtain ⟨is, hmeets, hfinal⟩ := h
  obtain ⟨js, hmeets', hfinal'⟩ := hQ _ hfinal
  refine ⟨is ++ js, M.meets_append.mpr ⟨hmeets, hmeets'⟩, ?_⟩
  rwa [final_append]

theorem CanReach.mono (h : M.CanReach C P s) (hQ : ∀ t, P t → Q t) : M.CanReach C Q s :=
  h.trans fun t ht => .here (hQ t ht)

/-- Tasks that can be done one at a time can all be done, if doing one neither undoes another nor
stands in its way. -/
theorem canReach_all {κ : Type y} [DecidableEq κ] {I : σ → Prop} {Todo Done : κ → σ → Prop}
    {T : Finset κ} (htask : ∀ k ∈ T, ∀ s, I s → Todo k s → M.CanReach C (fun t => I t ∧ Done k t ∧
      ∀ j ∈ T, j ≠ k → (Todo j s → Todo j t) ∧ (Done j s → Done j t)) s)
    (hs : I s) (htodo : ∀ k ∈ T, Todo k s) :
    M.CanReach C (fun t => I t ∧ ∀ k ∈ T, Done k t) s := by
  have hpart : ∀ U ⊆ T, M.CanReach C (fun t => I t ∧ (∀ k ∈ U, Done k t) ∧
      ∀ k ∈ T, k ∉ U → Todo k t) s := by
    intro U
    induction U using Finset.induction_on with
    | empty => exact fun _ => .here ⟨hs, by simp, fun k hk _ => htodo k hk⟩
    | insert k U hk ih =>
      intro hU
      obtain ⟨hkT, hUT⟩ := Finset.insert_subset_iff.mp hU
      refine (ih hUT).trans fun t ⟨ht, hdone, hleft⟩ => ?_
      refine (htask k hkT t ht (hleft k hkT hk)).mono fun t' ⟨ht', hk', hothers⟩ => ?_
      refine ⟨ht', fun j hj => ?_, fun j hj hjU => ?_⟩
      · rcases eq_or_ne j k with rfl | hne
        · exact hk'
        · have hjU := Finset.mem_of_mem_insert_of_ne hj hne
          exact (hothers j (hUT hjU) hne).2 (hdone j hjU)
      · have hout := mt Finset.mem_insert.mpr hjU
        rw [not_or] at hout
        exact (hothers j hj hout.1).1 (hleft j hj hout.2)
  exact (hpart T subset_rfl).mono fun t ht => ⟨ht.1, ht.2.1⟩

end ParamServer.Library.Machine
