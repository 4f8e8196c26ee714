import Mathlib.Algebra.BigOperators.Group.Finset.Basic
import Mathlib.Algebra.Order.BigOperators.Group.Finset
import Mathlib.Data.Fintype.Basic
import Mathlib.Logic.Relation
import ParamServer.Library.Linearization

/-! Threads that run programs over a shared memory with mutexes. Where all programs take their
mutexes in one order, no thread waits forever and no mutex stays locked. -/

namespace ParamServer.Library

universe u v w x y

variable {T : Type u} {μ : Type v} {σ : Type w} {ι : Type x} {ο : Type y}

/-- What a thread still does before it returns. An action is one step of the shared memory. -/
inductive Prog (μ : Type v) (σ : Type w) (ο : Type y)
  | ret (o : ο)
  | acquire (m : μ) (next : Prog μ σ ο)
  | release (m : μ) (next : Prog μ σ ο)
  | act (update : σ → σ) (next : σ → Prog μ σ ο)

namespace Prog

/-- The whole of `run` under one `lock_guard`. -/
def guarded (m : μ) (run : σ → ο × σ) : Prog μ σ ο :=
  .acquire m (.act (fun s => (run s).2) fun s => .release m (.ret (run s).1))

/-- A thread that holds the mutexes `held` takes only higher ones, releases only its own, and
holds none when it returns. -/
def Ordered (rank : μ → ℕ) (held : μ → Prop) : Prog μ σ ο → Prop
  | ret _ => ∀ m, ¬held m
  | acquire m next => (∀ x, held x → rank x < rank m) ∧ next.Ordered rank fun x => x = m ∨ held x
  | release m next => held m ∧ next.Ordered rank fun x => x ≠ m ∧ held x
  | act _ next => ∀ s, (next s).Ordered rank held

/-- The program returns within `n` steps. -/
def Within : ℕ → Prog μ σ ο → Prop
  | 0, _ => False
  | _ + 1, ret _ => True
  | n + 1, acquire _ next => next.Within n
  | n + 1, release _ next => next.Within n
  | n + 1, act _ next => ∀ s, (next s).Within n

theorem Within.mono {n k : ℕ} {p : Prog μ σ ο} (h : p.Within n) (hle : n ≤ k) : p.Within k := by
  induction n generalizing k p with
  | zero => exact h.elim
  | succ n ih =>
    obtain ⟨k, rfl⟩ := Nat.exists_eq_add_of_le' (Nat.one_le_of_lt hle)
    have hnk : n ≤ k := Nat.le_of_succ_le_succ hle
    cases p with
    | ret o => trivial
    | acquire m next => exact ih (p := next) h hnk
    | release m next => exact ih (p := next) h hnk
    | act update next => exact fun s => ih (h s) hnk

theorem ordered_guarded (rank : μ → ℕ) (m : μ) (run : σ → ο × σ) :
    (guarded m run).Ordered rank fun _ => False := by
  refine ⟨fun _ h => h.elim, fun s => ⟨.inl rfl, ?_⟩⟩
  rintro x ⟨hne, rfl | h⟩
  · exact hne rfl
  · exact h

end Prog

/-- The shared memory, the owner of each mutex, and what the threads are doing. -/
structure Config (T : Type u) (μ : Type v) (σ : Type w) (ο : Type y) where
  memory : σ
  owner : μ → Option T
  prog : T → Option (Prog μ σ ο)

namespace Config

def start (memory : σ) : Config T μ σ ο := ⟨memory, fun _ => none, fun _ => none⟩

variable {rank : μ → ℕ} {c c' : Config T μ σ ο}

/-- Every thread is ordered in the mutexes that it owns, and an idle one owns none. -/
structure Disciplined (rank : μ → ℕ) (c : Config T μ σ ο) : Prop where
  busy : ∀ t p, c.prog t = some p → p.Ordered rank fun m => c.owner m = some t
  idle : ∀ t m, c.prog t = none → c.owner m ≠ some t

theorem disciplined_start (s : σ) : (start s : Config T μ σ ο).Disciplined rank :=
  ⟨fun _ _ h => (nomatch h), fun _ _ _ h => nomatch h⟩

/-- `b t` bounds the steps that thread `t` has left. -/
def Bounded (b : T → ℕ) (c : Config T μ σ ο) : Prop :=
  ∀ t, (c.prog t = none ∧ b t = 0) ∨ ∃ p, c.prog t = some p ∧ p.Within (b t)

theorem bounded_start (s : σ) : (start s : Config T μ σ ο).Bounded fun _ => 0 :=
  fun _ => .inl ⟨rfl, rfl⟩

theorem Bounded.sum_le [Fintype T] {b : T → ℕ} (hb : c.Bounded b) {n : ℕ} (hn : ∀ t, b t ≤ n) :
    ∑ t, b t ≤ n * (Finset.univ.filter fun t => (c.prog t).isSome).card := by
  have hidle : ∀ t, t ∉ Finset.univ.filter (fun t => (c.prog t).isSome) → b t = 0 := by
    intro t ht
    rcases hb t with ⟨-, hzero⟩ | ⟨p, hp, -⟩
    · exact hzero
    · exact absurd (Finset.mem_filter.mpr ⟨Finset.mem_univ t, by rw [hp]; rfl⟩) ht
  rw [← Finset.sum_subset (Finset.subset_univ _) fun t _ => hidle t, mul_comm]
  exact Finset.sum_le_card_nsmul _ _ n fun t _ => hn t

section

variable [DecidableEq T]

/-- A step of `t` that hands over no mutex of another thread. -/
theorem Disciplined.update (hc : c.Disciplined rank) {t : T} {s : σ} {own : μ → Option T}
    {p : Option (Prog μ σ ο)} (hother : ∀ u m, u ≠ t → (own m = some u ↔ c.owner m = some u))
    (hbusy : ∀ q, p = some q → q.Ordered rank fun m => own m = some t)
    (hidle : p = none → ∀ m, own m ≠ some t) :
    Disciplined rank ⟨s, own, Function.update c.prog t p⟩ := by
  constructor
  · intro u q hq
    change Function.update c.prog t p u = some q at hq
    by_cases hu : u = t
    · subst hu
      rw [Function.update_self] at hq
      exact hbusy q hq
    · rw [Function.update_of_ne hu] at hq
      have hsame : (fun m => own m = some u) = fun m => c.owner m = some u := by
        funext m
        exact propext (hother u m hu)
      show q.Ordered rank fun m => own m = some u
      rw [hsame]
      exact hc.busy u q hq
  · intro u m hnone
    change Function.update c.prog t p u = none at hnone
    by_cases hu : u = t
    · subst hu
      rw [Function.update_self] at hnone
      exact hidle hnone m
    · rw [Function.update_of_ne hu] at hnone
      exact mt (hother u m hu).mp (hc.idle u m hnone)

theorem Bounded.update {b : T → ℕ} (hb : c.Bounded b) {t : T} {s : σ} {own : μ → Option T}
    {p : Option (Prog μ σ ο)} {n : ℕ} (hp : (p = none ∧ n = 0) ∨ ∃ q, p = some q ∧ q.Within n) :
    Bounded (Function.update b t n) ⟨s, own, Function.update c.prog t p⟩ := by
  intro u
  by_cases hu : u = t
  · subst hu
    simp only [Function.update_self]
    exact hp
  · simp only [Function.update_of_ne hu]
    exact hb u

end

section

variable [DecidableEq μ] {own : μ → Option T} {x : μ} {t : T}

theorem owner_acquire (hfree : own x = none) (t u : T) (y : μ) (_ : u ≠ t)
    (hy : own y = some u) : Function.update own x (some t) y = some u := by
  have hyx : y ≠ x := by
    rintro rfl
    rw [hfree] at hy
    cases hy
  rwa [Function.update_of_ne hyx]

theorem owner_release (hmine : own x = some t) (u : T) (y : μ) (hu : u ≠ t)
    (hy : own y = some u) : Function.update own x none y = some u := by
  have hyx : y ≠ x := by
    rintro rfl
    rw [hmine] at hy
    exact hu (Option.some.inj hy).symm
  rwa [Function.update_of_ne hyx]

end

variable [DecidableEq T] [DecidableEq μ]

/-- One thread calls, returns, or takes one step of its program. -/
inductive Step (body : ι → Prog μ σ ο) :
    Config T μ σ ο → Option (Event T ι ο) → Config T μ σ ο → Prop
  | call {s own prog t} (i : ι) (h : prog t = none) :
      Step body ⟨s, own, prog⟩ (some (.call t i)) ⟨s, own, Function.update prog t (some (body i))⟩
  | ret {s own prog t o} (h : prog t = some (.ret o)) :
      Step body ⟨s, own, prog⟩ (some (.ret t o)) ⟨s, own, Function.update prog t none⟩
  | acquire {s own prog t m next} (h : prog t = some (.acquire m next)) (hfree : own m = none) :
      Step body ⟨s, own, prog⟩ none
        ⟨s, Function.update own m (some t), Function.update prog t (some next)⟩
  | release {s own prog t m next} (h : prog t = some (.release m next)) :
      Step body ⟨s, own, prog⟩ none
        ⟨s, Function.update own m none, Function.update prog t (some next)⟩
  | act {s own prog t update next} (h : prog t = some (.act update next)) :
      Step body ⟨s, own, prog⟩ none ⟨update s, own, Function.update prog t (some (next s))⟩

/-- What a thread whose program is `p` can do. -/
def StepOf (body : ι → Prog μ σ ο) (c : Config T μ σ ο) (t : T) (p : Option (Prog μ σ ο))
    (l : Option (Event T ι ο)) (c' : Config T μ σ ο) : Prop :=
  match p with
  | none => ∃ i, l = some (.call t i) ∧
      c' = ⟨c.memory, c.owner, Function.update c.prog t (some (body i))⟩
  | some (.ret o) => l = some (.ret t o) ∧
      c' = ⟨c.memory, c.owner, Function.update c.prog t none⟩
  | some (.acquire m next) => l = none ∧ c.owner m = none ∧
      c' = ⟨c.memory, Function.update c.owner m (some t), Function.update c.prog t (some next)⟩
  | some (.release m next) => l = none ∧
      c' = ⟨c.memory, Function.update c.owner m none, Function.update c.prog t (some next)⟩
  | some (.act update next) => l = none ∧
      c' = ⟨update c.memory, c.owner, Function.update c.prog t (some (next c.memory))⟩

theorem Step.exists_stepOf {body : ι → Prog μ σ ο} {l : Option (Event T ι ο)}
    (h : Step body c l c') : ∃ t, StepOf body c t (c.prog t) l c' := by
  cases h with
  | @call s own prog t i h =>
    exact ⟨t, by rw [show Config.prog _ t = _ from h]; exact ⟨i, rfl, rfl⟩⟩
  | @ret s own prog t o h => exact ⟨t, by rw [show Config.prog _ t = _ from h]; exact ⟨rfl, rfl⟩⟩
  | @acquire s own prog t m next h hfree =>
    exact ⟨t, by rw [show Config.prog _ t = _ from h]; exact ⟨rfl, hfree, rfl⟩⟩
  | @release s own prog t m next h =>
    exact ⟨t, by rw [show Config.prog _ t = _ from h]; exact ⟨rfl, rfl⟩⟩
  | @act s own prog t update next h =>
    exact ⟨t, by rw [show Config.prog _ t = _ from h]; exact ⟨rfl, rfl⟩⟩

variable (T) in
def transitions (body : ι → Prog μ σ ο) :
    Transitions (Config T μ σ ο) (Event T ι ο) := ⟨Step body⟩

/-- A step that is not a new call. -/
def Runs (body : ι → Prog μ σ ο) (c c' : Config T μ σ ο) : Prop :=
  ∃ l, Step body c l c' ∧ ∀ t i, l ≠ some (.call t i)

variable {body : ι → Prog μ σ ο}

theorem Disciplined.step (hbody : ∀ i, (body i).Ordered rank fun _ => False)
    (hc : c.Disciplined rank) {l : Option (Event T ι ο)} (h : Step body c l c') :
    c'.Disciplined rank := by
  cases h with
  | @call s own prog t i hidle =>
    refine hc.update (fun _ _ _ => Iff.rfl) ?_ (fun h => nomatch h)
    rintro q ⟨⟩
    have hnone : (fun m => own m = some t) = fun _ => False := by
      funext m
      exact eq_false (hc.idle t m hidle)
    rw [hnone]
    exact hbody i
  | @ret s own prog t o hret =>
    exact hc.update (fun _ _ _ => Iff.rfl) (fun q h => nomatch h) fun _ => hc.busy t _ hret
  | @acquire s own prog t m next hacq hfree =>
    refine hc.update (fun u x hu => ?_) ?_ (fun h => nomatch h)
    · by_cases hx : x = m
      · subst hx
        simp [Function.update_self, hfree, Ne.symm hu]
      · rw [Function.update_of_ne hx]
    · rintro q ⟨⟩
      have hnow : (fun x => Function.update own m (some t) x = some t) =
          fun x => x = m ∨ own x = some t := by
        funext x
        by_cases hx : x = m
        · simp [hx]
        · simp [hx]
      rw [hnow]
      exact (hc.busy t _ hacq).2
  | @release s own prog t m next hrel =>
    have hmine : own m = some t := (hc.busy t _ hrel).1
    refine hc.update (fun u x hu => ?_) ?_ (fun h => nomatch h)
    · by_cases hx : x = m
      · subst hx
        simp [Function.update_self, hmine, Ne.symm hu]
      · rw [Function.update_of_ne hx]
    · rintro q ⟨⟩
      have hnow : (fun x => Function.update own m none x = some t) =
          fun x => x ≠ m ∧ own x = some t := by
        funext x
        by_cases hx : x = m
        · simp [hx]
        · simp [hx]
      rw [hnow]
      exact (hc.busy t _ hrel).2
  | @act s own prog t update next hact =>
    refine hc.update (fun _ _ _ => Iff.rfl) ?_ (fun h => nomatch h)
    rintro q ⟨⟩
    exact hc.busy t _ hact s

section Progress

/-- A busy thread takes a step, or waits for a mutex that another one owns. -/
theorem runs_or_waits (body : ι → Prog μ σ ο) {t : T} {p : Prog μ σ ο} (ht : c.prog t = some p) :
    (∃ c', Runs body c c') ∨ ∃ m next u, p = .acquire m next ∧ c.owner m = some u := by
  have hsilent : ∀ (u : T) (i : ι), (none : Option (Event T ι ο)) ≠ some (.call u i) := by
    intro u i h
    cases h
  cases p with
  | ret o =>
    refine .inl ⟨_, some (.ret t o), .ret ht, fun u i h => ?_⟩
    cases h
  | acquire m next =>
    rcases hown : c.owner m with _ | u
    · exact .inl ⟨_, none, .acquire ht hown, hsilent⟩
    · exact .inr ⟨m, next, u, rfl, hown⟩
  | release m next => exact .inl ⟨_, none, .release ht, hsilent⟩
  | act update next => exact .inl ⟨_, none, .act ht, hsilent⟩

/-- Whoever waits does so for a higher mutex than it owns, so the owner of the highest one runs. -/
theorem Disciplined.owner_runs (hc : c.Disciplined rank) {top : ℕ} (htop : ∀ m, rank m ≤ top)
    {m : μ} {u : T} (hown : c.owner m = some u) : ∃ c', Runs body c c' := by
  induction hn : top - rank m using Nat.strong_induction_on generalizing m u with
  | _ n ih =>
    rcases hp : c.prog u with _ | p
    · exact absurd hown (hc.idle u m hp)
    · rcases runs_or_waits body hp with hruns | ⟨m', next, v, rfl, hv⟩
      · exact hruns
      · have hlt : rank m < rank m' := (hc.busy u _ hp).1 m hown
        have hle : rank m' ≤ top := htop m'
        exact ih (top - rank m') (by omega) hv rfl

theorem Disciplined.runs (hc : c.Disciplined rank) {top : ℕ} (htop : ∀ m, rank m ≤ top) {t : T}
    (ht : c.prog t ≠ none) : ∃ c', Runs body c c' := by
  obtain ⟨p, hp⟩ := Option.ne_none_iff_exists'.mp ht
  rcases runs_or_waits body hp with hruns | ⟨m, next, u, -, hown⟩
  · exact hruns
  · exact hc.owner_runs htop hown

theorem Bounded.step {b : T → ℕ} (hb : c.Bounded b) {l : Option (Event T ι ο)}
    (h : Step body c l c') {n : ℕ} (hbody : ∀ i, (body i).Within n) :
    ∃ t k, c'.Bounded (Function.update b t k) ∧
      ((∃ i, l = some (.call t i)) ∧ k = n ∨ k < b t) := by
  -- a busy thread has a step left, and the rest of its program is within one step less
  have hleft : ∀ {t : T} {p : Prog μ σ ο}, c.prog t = some p → ∃ k, b t = k + 1 ∧
      p.Within (k + 1) := by
    intro t p hp
    rcases hb t with ⟨hnone, -⟩ | ⟨q, hq, hw⟩
    · rw [hp] at hnone
      cases hnone
    · rw [hp] at hq
      cases hq
      rcases hk : b t with _ | k
      · rw [hk] at hw
        exact hw.elim
      · rw [hk] at hw
        exact ⟨k, rfl, hw⟩
  cases h with
  | @call s own prog t i hidle =>
    exact ⟨t, n, hb.update (.inr ⟨_, rfl, hbody i⟩), .inl ⟨⟨i, rfl⟩, rfl⟩⟩
  | @ret s own prog t o hret =>
    obtain ⟨k, hk, -⟩ := hleft hret
    exact ⟨t, 0, hb.update (.inl ⟨rfl, rfl⟩), .inr (by omega)⟩
  | @acquire s own prog t m next hacq hfree =>
    obtain ⟨k, hk, hw⟩ := hleft hacq
    exact ⟨t, k, hb.update (.inr ⟨_, rfl, hw⟩), .inr (by omega)⟩
  | @release s own prog t m next hrel =>
    obtain ⟨k, hk, hw⟩ := hleft hrel
    exact ⟨t, k, hb.update (.inr ⟨_, rfl, hw⟩), .inr (by omega)⟩
  | @act s own prog t update next hact =>
    obtain ⟨k, hk, hw⟩ := hleft hact
    exact ⟨t, k, hb.update (.inr ⟨_, rfl, hw s⟩), .inr (by omega)⟩

theorem Bounded.runs [Fintype T] {b : T → ℕ} (hb : c.Bounded b) {n : ℕ}
    (hbody : ∀ i, (body i).Within n) (h : Runs body c c') :
    ∃ b', c'.Bounded b' ∧ ∑ t, b' t < ∑ t, b t := by
  obtain ⟨l, hstep, hnot⟩ := h
  obtain ⟨t, k, hb', ⟨⟨i, hcall⟩, -⟩ | hlt⟩ := hb.step hstep hbody
  · exact absurd hcall (hnot t i)
  · refine ⟨_, hb', Finset.sum_lt_sum (fun u _ => ?_) ⟨t, Finset.mem_univ t, ?_⟩⟩
    · by_cases hu : u = t
      · rw [hu, Function.update_self]
        exact hlt.le
      · rw [Function.update_of_ne hu]
    · rwa [Function.update_self]

/-- Without new calls the threads have only so many steps left. -/
theorem Bounded.length_le [Fintype T] {b : T → ℕ} (hb : c.Bounded b) {n : ℕ}
    (hbody : ∀ i, (body i).Within n) {cs : List (Config T μ σ ο)}
    (h : List.IsChain (Runs body) (c :: cs)) : cs.length ≤ ∑ t, b t := by
  induction cs generalizing c b with
  | nil => exact Nat.zero_le _
  | cons c' cs ih =>
    obtain ⟨hfirst, hrest⟩ := List.isChain_cons_cons.mp h
    obtain ⟨b', hb', hlt⟩ := hb.runs hbody hfirst
    have hle : cs.length ≤ ∑ t, b' t := ih hb' hrest
    rw [List.length_cons]
    omega

end Progress

section Reachable

variable {s : σ} {h : List (Event T ι ο)}

theorem disciplined_of_trace (hbody : ∀ i, (body i).Ordered rank fun _ => False)
    (trace : (transitions T body).Trace (start s) h c) : c.Disciplined rank :=
  trace.invariant (I := fun _ c => c.Disciplined rank) (disciplined_start s)
    fun _ _ _ _ hc hstep => hc.step hbody hstep

theorem bounded_of_trace {n : ℕ} (hbody : ∀ i, (body i).Within n)
    (trace : (transitions T body).Trace (start s) h c) :
    ∃ b : T → ℕ, c.Bounded b ∧ ∀ t, b t ≤ n := by
  refine trace.invariant (I := fun _ c => ∃ b : T → ℕ, c.Bounded b ∧ ∀ t, b t ≤ n)
    ⟨_, bounded_start s, fun _ => Nat.zero_le n⟩ ?_
  rintro h c l c' ⟨b, hb, hn⟩ hstep
  obtain ⟨t, k, hb', hk⟩ := hb.step hstep hbody
  refine ⟨_, hb', fun u => ?_⟩
  by_cases hu : u = t
  · rw [hu, Function.update_self]
    rcases hk with ⟨-, rfl⟩ | hlt
    · exact le_rfl
    · exact hlt.le.trans (hn t)
  · rw [Function.update_of_ne hu]
    exact hn u

end Reachable

end Config

end ParamServer.Library
