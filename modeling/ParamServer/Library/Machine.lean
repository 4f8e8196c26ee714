import ParamServer.Library.Events

/-! Deterministic machines that answer every input: invariants of their runs, bisimulations
between two of them, and machines whose inputs work on separate components of the state. -/

namespace ParamServer.Library

universe u v w x y z

variable {σ : Type u} {τ : Type v} {ι : Type w} {ο : Type x}

structure Machine (σ : Type u) (ι : Type w) (ο : Type x) where
  step : σ → ι → ο × σ

namespace Machine

def outputs (M : Machine σ ι ο) : σ → List ι → List ο
  | _, [] => []
  | s, i :: is => (M.step s i).1 :: M.outputs (M.step s i).2 is

def final (M : Machine σ ι ο) : σ → List ι → σ
  | s, [] => s
  | s, i :: is => M.final (M.step s i).2 is

/-- Every step of the run meets `C`, a condition on the state before it and the input. -/
def Meets (M : Machine σ ι ο) (C : σ → ι → Prop) : σ → List ι → Prop
  | _, [] => True
  | s, i :: is => C s i ∧ M.Meets C (M.step s i).2 is

instance decidableMeets (M : Machine σ ι ο) (C : σ → ι → Prop) [∀ s i, Decidable (C s i)] :
    (s : σ) → (is : List ι) → Decidable (M.Meets C s is)
  | _, [] => isTrue trivial
  | s, i :: is =>
    have := decidableMeets M C (M.step s i).2 is
    inferInstanceAs (Decidable (C s i ∧ M.Meets C (M.step s i).2 is))

theorem meets_true (M : Machine σ ι ο) (s : σ) (is : List ι) :
    M.Meets (fun _ _ => True) s is := by
  induction is generalizing s with
  | nil => trivial
  | cons i is ih => exact ⟨trivial, ih _⟩

theorem outputs_append (M : Machine σ ι ο) (s : σ) (is js : List ι) :
    M.outputs s (is ++ js) = M.outputs s is ++ M.outputs (M.final s is) js := by
  induction is generalizing s with
  | nil => rfl
  | cons i is ih => exact congrArg (List.cons _) (ih _)

theorem outputs_concat (M : Machine σ ι ο) (s : σ) (is : List ι) (i : ι) :
    M.outputs s (is ++ [i]) = M.outputs s is ++ [(M.step (M.final s is) i).1] :=
  M.outputs_append s is [i]

theorem final_append (M : Machine σ ι ο) (s : σ) (is js : List ι) :
    M.final s (is ++ js) = M.final (M.final s is) js := by
  induction is generalizing s with
  | nil => rfl
  | cons i is ih => exact ih _

@[simp] theorem length_outputs (M : Machine σ ι ο) (s : σ) (is : List ι) :
    (M.outputs s is).length = is.length := by
  induction is generalizing s with
  | nil => rfl
  | cons i is ih => exact congrArg (· + 1) (ih _)

theorem zip_outputs_concat (M : Machine σ ι ο) (s : σ) (is : List ι) (i : ι) :
    (is ++ [i]).zip (M.outputs s (is ++ [i])) =
      is.zip (M.outputs s is) ++ [(i, (M.step (M.final s is) i).1)] := by
  rw [outputs_append, List.zip_append (length_outputs M s is).symm]
  rfl

/-- An input that does nothing may be inserted into a run. -/
theorem run_insert (M : Machine σ ι ο) {s : σ} {is : List ι} {i : ι}
    (h : (M.step (M.final s is) i).2 = M.final s is) (js : List ι) :
    (M.outputs s (is ++ i :: js)).eraseIdx is.length = M.outputs s (is ++ js) ∧
      M.final s (is ++ i :: js) = M.final s (is ++ js) := by
  constructor
  · rw [outputs_append, outputs_append, outputs, h, List.eraseIdx_append_of_length_le (by simp)]
    simp
  · rw [final_append, final_append, final, h]

theorem meets_append (M : Machine σ ι ο) {C : σ → ι → Prop} {s : σ} {is js : List ι} :
    M.Meets C s (is ++ js) ↔ M.Meets C s is ∧ M.Meets C (M.final s is) js := by
  induction is generalizing s with
  | nil => exact ⟨fun h => ⟨trivial, h⟩, fun h => h.2⟩
  | cons i is ih =>
    rw [List.cons_append, Meets, Meets, ih, and_assoc]
    rfl

theorem meets_and (M : Machine σ ι ο) {C D : σ → ι → Prop} {s : σ} {is : List ι}
    (hC : M.Meets C s is) (hD : M.Meets D s is) : M.Meets (fun s i => C s i ∧ D s i) s is := by
  induction is generalizing s with
  | nil => trivial
  | cons i is ih => exact ⟨⟨hC.1, hD.1⟩, ih hC.2 hD.2⟩

theorem Meets.mono {M : Machine σ ι ο} {C D : σ → ι → Prop} {s : σ} {is : List ι}
    (h : M.Meets C s is) (hCD : ∀ s i, C s i → D s i) : M.Meets D s is := by
  induction is generalizing s with
  | nil => trivial
  | cons i is ih => exact ⟨hCD s i h.1, ih h.2⟩

/-- Every step of a run starts in a state that a part of the run leads to. -/
theorem meets_reached (M : Machine σ ι ο) (s : σ) (before is : List ι) :
    M.Meets (fun t _ => ∃ pre, pre <+: before ++ is ∧ M.final s pre = t) (M.final s before) is := by
  induction is generalizing before with
  | nil => trivial
  | cons i is ih =>
    refine ⟨⟨before, List.prefix_append .., rfl⟩, ?_⟩
    have hrest := ih (before ++ [i])
    rwa [List.append_assoc, final_append] at hrest

theorem exists_violation (M : Machine σ ι ο) {C : σ → ι → Prop} {s : σ} {is : List ι}
    (h : ¬M.Meets C s is) :
    ∃ pre i post, is = pre ++ i :: post ∧ M.Meets C s pre ∧ ¬C (M.final s pre) i := by
  induction is generalizing s with
  | nil => exact absurd trivial h
  | cons i is ih =>
    by_cases hi : C s i
    · obtain ⟨pre, j, post, he, hpre, hj⟩ := ih fun hm => h ⟨hi, hm⟩
      exact ⟨i :: pre, j, post, by rw [he, List.cons_append], ⟨hi, hpre⟩, hj⟩
    · exact ⟨[], i, is, rfl, trivial, hi⟩

theorem meets_of_forall (M : Machine σ ι ο) {C : σ → ι → Prop} {is : List ι}
    (h : ∀ i ∈ is, ∀ s, C s i) (s : σ) : M.Meets C s is := by
  induction is generalizing s with
  | nil => trivial
  | cons i is ih =>
    exact ⟨h i (by simp) s, ih (fun j hj => h j (List.mem_cons_of_mem _ hj)) _⟩

section Invariant

variable {M : Machine σ ι ο} {C : σ → ι → Prop} {I : σ → Prop}
  (hI : ∀ s i, I s → C s i → I (M.step s i).2)
include hI

theorem invariant_final {s : σ} {is : List ι} (hs : I s) (h : M.Meets C s is) :
    I (M.final s is) := by
  induction is generalizing s with
  | nil => exact hs
  | cons i is ih => exact ih (hI s i hs h.1) h.2

/-- A bound that every step lowers bounds the length of the run. -/
theorem length_le_of_lt {b : σ → ℕ}
    (hlt : ∀ s i, I s → C s i → b (M.step s i).2 < b s) {s : σ} {is : List ι} (hs : I s)
    (h : M.Meets C s is) : is.length ≤ b s := by
  induction is generalizing s with
  | nil => exact Nat.zero_le _
  | cons i is ih =>
    have hrest : is.length ≤ b (M.step s i).2 := ih (hI s i hs h.1) h.2
    have hfirst : b (M.step s i).2 < b s := hlt s i hs h.1
    rw [List.length_cons]
    exact Nat.lt_of_le_of_lt hrest hfirst

theorem invariant_outputs {P : ο → Prop} (hP : ∀ s i, I s → P (M.step s i).1) {s : σ}
    {is : List ι} (hs : I s) (h : M.Meets C s is) : ∀ o ∈ M.outputs s is, P o := by
  induction is generalizing s with
  | nil => simp [outputs]
  | cons i is ih =>
    intro o ho
    rcases List.mem_cons.mp ho with rfl | ho
    · exact hP s i hs
    · exact ih (hI s i hs h.1) h.2 o ho

end Invariant

/-- As long as the steps meet `C`, the invariant `I` holds and the outputs are good. A step that
does not meet `C` leaves a flaw, which lasts until a bad output; `reveal k` is an input with
such an output. -/
structure Exposing {κ : Type y} (M : Machine σ ι ο) (C : σ → ι → Prop) (I : σ → Prop)
    (Good : ο → Prop) (Flaw : κ → σ → Prop) (reveal : κ → ι) : Prop where
  keeps : ∀ {s i}, I s → C s i → I (M.step s i).2
  good : ∀ {s}, I s → ∀ i, Good (M.step s i).1
  breaks : ∀ {s i}, I s → ¬C s i → ∃ k, Flaw k (M.step s i).2
  lasts : ∀ {k s}, Flaw k s → ∀ i, Good (M.step s i).1 → Flaw k (M.step s i).2
  reveals : ∀ {k s}, Flaw k s → ¬Good (M.step s (reveal k)).1

namespace Exposing

variable {κ : Type y} {M : Machine σ ι ο} {C : σ → ι → Prop} {I : σ → Prop} {Good : ο → Prop}
  {Flaw : κ → σ → Prop} {reveal : κ → ι}

section

variable (h : Exposing M C I Good Flaw reveal)
include h

theorem exists_output_of_flaw {k : κ} {s : σ} (hk : Flaw k s) (is : List ι) :
    ∃ o ∈ M.outputs s (is ++ [reveal k]), ¬Good o := by
  induction is generalizing s with
  | nil => exact ⟨_, List.mem_singleton_self _, h.reveals hk⟩
  | cons i is ih =>
    by_cases hgood : Good (M.step s i).1
    · obtain ⟨o, ho, hbad⟩ := ih (h.lasts hk i hgood)
      exact ⟨o, List.mem_cons_of_mem _ ho, hbad⟩
    · exact ⟨_, List.mem_cons_self, hgood⟩

theorem exists_output_of_not_meets {s : σ} (hs : I s) {is : List ι} (hm : ¬M.Meets C s is) :
    ∃ i, ∃ o ∈ M.outputs s (is ++ [i]), ¬Good o := by
  induction is generalizing s with
  | nil => exact absurd trivial hm
  | cons i is ih =>
    by_cases hi : C s i
    · obtain ⟨j, o, ho, hbad⟩ := ih (h.keeps hs hi) fun hrest => hm ⟨hi, hrest⟩
      exact ⟨j, o, List.mem_cons_of_mem _ ho, hbad⟩
    · obtain ⟨k, hk⟩ := h.breaks hs hi
      obtain ⟨o, ho, hbad⟩ := h.exists_output_of_flaw hk is
      exact ⟨reveal k, o, List.mem_cons_of_mem _ ho, hbad⟩

theorem meets_iff {s : σ} (hs : I s) {is : List ι} :
    M.Meets C s is ↔ ∀ i, ∀ o ∈ M.outputs s (is ++ [i]), Good o := by
  constructor
  · intro hm i o ho
    rw [outputs_append, List.mem_append] at ho
    have hkeep : ∀ s i, I s → C s i → I (M.step s i).2 := fun _ _ => h.keeps
    rcases ho with ho | ho
    · exact invariant_outputs hkeep (fun _ i hs => h.good hs i) hs hm o ho
    · rw [List.mem_singleton.mp ho]
      exact h.good (invariant_final hkeep hs hm) i
  · intro hall
    by_contra hm
    obtain ⟨i, o, ho, hbad⟩ := h.exists_output_of_not_meets hs hm
    exact hbad (hall i o ho)

end

/-- The same for machines that do not answer every input. -/
theorem meets_iff_some {ρ : Type z} {M : Machine σ ι (Option ρ)} {P : ρ → Prop}
    (h : Exposing M C I (fun o => ∀ r, o = some r → P r) Flaw reveal) {s : σ} (hs : I s)
    {is : List ι} : M.Meets C s is ↔ ∀ i r, some r ∈ M.outputs s (is ++ [i]) → P r := by
  rw [h.meets_iff hs]
  constructor
  · intro hall i r hr
    exact hall i _ hr r rfl
  · rintro hall i o ho r rfl
    exact hall i r ho

end Exposing

/-- An invariant of the state together with the inputs that have led to it. -/
theorem invariant_history (M : Machine σ ι ο) {C : σ → ι → Prop} {I : List ι → σ → Prop} {s : σ}
    (h0 : I [] s) (hI : ∀ is i, I is (M.final s is) → C (M.final s is) i →
      I (is ++ [i]) (M.final s (is ++ [i]))) {is : List ι} (h : M.Meets C s is) :
    I is (M.final s is) := by
  induction is using List.reverseRecOn with
  | nil => exact h0
  | append_singleton is i ih =>
    obtain ⟨his, hi⟩ := M.meets_append.mp h
    exact hI is i (ih his) hi.1

/-- `R` relates states that answer the inputs in `A` alike and stay related. -/
structure Bisimulation (M : Machine σ ι ο) (M' : Machine τ ι ο) (A : ι → Prop)
    (R : σ → τ → Prop) : Prop where
  output : ∀ {s t i}, R s t → A i → (M.step s i).1 = (M'.step t i).1
  next : ∀ {s t i}, R s t → A i → R (M.step s i).2 (M'.step t i).2

variable {M : Machine σ ι ο} {M' : Machine τ ι ο} {A : ι → Prop} {R : σ → τ → Prop}

theorem Bisimulation.final_related (h : Bisimulation M M' A R) {s : σ} {t : τ} (hst : R s t)
    {is : List ι} (his : ∀ i ∈ is, A i) : R (M.final s is) (M'.final t is) := by
  induction is generalizing s t with
  | nil => exact hst
  | cons i is ih =>
    exact ih (h.next hst (his i (by simp))) fun j hj => his j (List.mem_cons_of_mem _ hj)

theorem Bisimulation.outputs_eq (h : Bisimulation M M' A R) {s : σ} {t : τ} (hst : R s t)
    {is : List ι} (his : ∀ i ∈ is, A i) : M.outputs s is = M'.outputs t is := by
  induction is generalizing s t with
  | nil => rfl
  | cons i is ih =>
    have hi := his i (by simp)
    rw [outputs, outputs, h.output hst hi,
      ih (h.next hst hi) fun j hj => his j (List.mem_cons_of_mem _ hj)]

theorem step_eq_of_outputs_eq {s : σ} {t : τ} {i : ι} {is : List ι}
    (h : M.outputs s (i :: is) = M'.outputs t (i :: is)) :
    (M.step s i).1 = (M'.step t i).1 ∧
      M.outputs (M.step s i).2 is = M'.outputs (M'.step t i).2 is :=
  ⟨List.head_eq_of_cons_eq h, List.tail_eq_of_cons_eq h⟩

section Components

variable {κ : Type y} {β : Type z}

/-- Every input works on one component of the state only, the one of its key, and does there
what the machine `C` does. -/
structure Components (M : Machine σ ι ο) (key : ι → κ) (view : κ → σ → β)
    (C : Machine β ι ο) : Prop where
  output : ∀ s i, (M.step s i).1 = (C.step (view (key i) s) i).1
  self : ∀ s i, view (key i) (M.step s i).2 = (C.step (view (key i) s) i).2
  other : ∀ s i k, k ≠ key i → view k (M.step s i).2 = view k s

variable [DecidableEq κ] {M M' : Machine σ ι ο} {key : ι → κ} {view : κ → σ → β}
  {C : Machine β ι ο}

theorem Components.run_filter (h : Components M key view C) (s : σ) (is : List ι) (k : κ) :
    (is.zip (M.outputs s is)).filter (fun a => key a.1 = k) =
        (is.filter fun i => key i = k).zip (C.outputs (view k s) (is.filter fun i => key i = k)) ∧
      view k (M.final s is) = C.final (view k s) (is.filter fun i => key i = k) := by
  induction is generalizing s with
  | nil => exact ⟨rfl, rfl⟩
  | cons i is ih =>
    obtain ⟨hout, hview⟩ := ih (M.step s i).2
    rw [outputs, final, List.zip_cons_cons]
    by_cases hk : key i = k
    · subst hk
      rw [List.filter_cons_of_pos (by simp), List.filter_cons_of_pos (by simp), outputs, final,
        List.zip_cons_cons, hout, hview, h.output, h.self]
      exact ⟨rfl, rfl⟩
    · rw [List.filter_cons_of_neg (by simpa using hk), List.filter_cons_of_neg (by simpa using hk),
        hout, hview, h.other s i k (Ne.symm hk)]
      exact ⟨rfl, rfl⟩

theorem Components.view_congr (h : Components M key view C) (h' : Components M' key view C)
    {is js : List ι} (hi : Interleaved key is js) (s : σ) (k : κ) :
    view k (M.final s is) = view k (M'.final s js) := by
  rw [(h.run_filter s is k).2, (h'.run_filter s js k).2, hi k]

/-- Interleavings of the same inputs are answered alike. -/
theorem Components.interleaved (h : Components M key view C) (h' : Components M' key view C)
    {is js : List ι} (hi : Interleaved key is js) (s : σ) :
    Interleaved (fun a => key a.1) (is.zip (M.outputs s is)) (js.zip (M'.outputs s js)) := by
  intro k
  rw [(h.run_filter s is k).1, (h'.run_filter s js k).1, hi k]

theorem Components.outputs_perm (h : Components M key view C) (h' : Components M' key view C)
    {is js : List ι} (hi : Interleaved key is js) (s : σ) :
    (M.outputs s is).Perm (M'.outputs s js) := by
  have hp := (h.interleaved h' hi s).perm.map Prod.snd
  rwa [List.map_snd_zip (by simp), List.map_snd_zip (by simp)] at hp

end Components

end Machine

end ParamServer.Library
