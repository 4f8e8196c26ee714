import Mathlib.Data.Finset.Card
import Mathlib.Data.Finset.SDiff

/-! Traces of resources that are created, used and destroyed. A trace is sound if it uses and
destroys only what is there. -/

namespace ParamServer.Library

universe u

inductive Action (ρ : Type u)
  | create (r : ρ)
  | use (r : ρ)
  | destroy (r : ρ)
deriving DecidableEq

variable {ρ : Type u} [DecidableEq ρ]

namespace Action

def apply : Action ρ → Finset ρ → Finset ρ
  | create r, live => insert r live
  | use _, live => live
  | destroy r, live => live.erase r

def Allowed : Action ρ → Finset ρ → Prop
  | create r, live => r ∉ live
  | use r, live => r ∈ live
  | destroy r, live => r ∈ live

end Action

/-- What there is after the trace. -/
def liveAfter (live : Finset ρ) (trace : List (Action ρ)) : Finset ρ :=
  trace.foldl (fun live a => a.apply live) live

def Sound : Finset ρ → List (Action ρ) → Prop
  | _, [] => True
  | live, a :: trace => a.Allowed live ∧ Sound (a.apply live) trace

theorem liveAfter_append (live : Finset ρ) (trace trace' : List (Action ρ)) :
    liveAfter live (trace ++ trace') = liveAfter (liveAfter live trace) trace' :=
  List.foldl_append

theorem sound_append {live : Finset ρ} {trace trace' : List (Action ρ)} :
    Sound live (trace ++ trace') ↔ Sound live trace ∧ Sound (liveAfter live trace) trace' := by
  induction trace generalizing live with
  | nil => exact ⟨fun h => ⟨trivial, h⟩, fun h => h.2⟩
  | cons a trace ih =>
    rw [List.cons_append, Sound, Sound, ih, and_assoc]
    rfl

section Lists

variable {rs : List ρ} {live : Finset ρ}

theorem liveAfter_create (live : Finset ρ) (rs : List ρ) :
    liveAfter live (rs.map .create) = live ∪ rs.toFinset := by
  induction rs generalizing live with
  | nil => simp [liveAfter]
  | cons r rs ih =>
    change liveAfter (insert r live) (rs.map .create) = _
    rw [ih, List.toFinset_cons, Finset.insert_union, Finset.union_insert]

theorem sound_create (hrs : rs.Nodup) (hnew : ∀ r ∈ rs, r ∉ live) :
    Sound live (rs.map .create) := by
  induction rs generalizing live with
  | nil => trivial
  | cons r rs ih =>
    obtain ⟨hr, hrs⟩ := List.nodup_cons.mp hrs
    refine ⟨hnew r List.mem_cons_self, ih hrs fun r' hr' hmem => ?_⟩
    rcases Finset.mem_insert.mp hmem with rfl | hmem
    · exact hr hr'
    · exact hnew r' (List.mem_cons_of_mem _ hr') hmem

theorem liveAfter_destroy (live : Finset ρ) (rs : List ρ) :
    liveAfter live (rs.map .destroy) = live \ rs.toFinset := by
  induction rs generalizing live with
  | nil => simp [liveAfter]
  | cons r rs ih =>
    change liveAfter (live.erase r) (rs.map .destroy) = _
    rw [ih, List.toFinset_cons, Finset.sdiff_insert, Finset.erase_sdiff_comm]

theorem sound_destroy (hrs : rs.Nodup) (hold : ∀ r ∈ rs, r ∈ live) :
    Sound live (rs.map .destroy) := by
  induction rs generalizing live with
  | nil => trivial
  | cons r rs ih =>
    obtain ⟨hr, hrs⟩ := List.nodup_cons.mp hrs
    refine ⟨hold r List.mem_cons_self, ih hrs fun r' hr' => ?_⟩
    refine Finset.mem_erase.mpr ⟨?_, hold r' (List.mem_cons_of_mem _ hr')⟩
    rintro rfl
    exact hr hr'

end Lists

end ParamServer.Library
