import Mathlib.Data.List.Infix
import Mathlib.Logic.Function.Basic
import ParamServer.Library.Machine

/-! Concurrent objects: transitions with silent steps and their simulations, the histories of calls
and returns that the clients of an object see, and when a history is linearizable. -/

namespace ParamServer.Library

universe u v w x y z

variable {σ : Type u} {τ : Type v} {ε : Type w}

/-- A labelled transition system. The steps labelled `none` are silent. -/
structure Transitions (σ : Type u) (ε : Type w) where
  step : σ → Option ε → σ → Prop

namespace Transitions

inductive Trace (S : Transitions σ ε) (s : σ) : List ε → σ → Prop
  | refl : Trace S s [] s
  | tail {h s' l s''} (pre : Trace S s h s') (last : S.step s' l s'') :
      Trace S s (h ++ l.toList) s''

variable {S : Transitions σ ε} {S' : Transitions τ ε}

theorem Trace.single {s s' : σ} {l : Option ε} (h : S.step s l s') : S.Trace s l.toList s' :=
  Trace.tail .refl h

theorem Trace.silent {s s' s'' : σ} {h : List ε} (pre : S.Trace s h s')
    (last : S.step s' none s'') : S.Trace s h s'' := by
  have trace := pre.tail last
  rwa [Option.toList_none, List.append_nil] at trace

theorem Trace.append {s s' s'' : σ} {h h' : List ε} (pre : S.Trace s h s')
    (post : S.Trace s' h' s'') : S.Trace s (h ++ h') s'' := by
  induction post with
  | refl => rwa [List.append_nil]
  | tail _ last ih =>
    rw [← List.append_assoc]
    exact ih.tail last

theorem Trace.invariant {I : List ε → σ → Prop} {s s' : σ} {h : List ε} (trace : S.Trace s h s')
    (hs : I [] s) (hI : ∀ h s l s', I h s → S.step s l s' → I (h ++ l.toList) s') : I h s' := by
  induction trace with
  | refl => exact hs
  | tail _ last ih => exact hI _ _ _ _ ih last

/-- Every step of `S` whose event is in `A` is matched by steps of `S'` that show the same. -/
structure Simulation (S : Transitions σ ε) (S' : Transitions τ ε) (A : ε → Prop)
    (R : σ → τ → Prop) : Prop where
  step : ∀ {s a l s'}, R s a → S.step s l s' → (∀ e, l = some e → A e) →
    ∃ a', S'.Trace a l.toList a' ∧ R s' a'

theorem Simulation.trace {A : ε → Prop} {R : σ → τ → Prop} (sim : Simulation S S' A R) {s s' : σ}
    {a : τ} {h : List ε} (hR : R s a) (trace : S.Trace s h s') (hA : ∀ e ∈ h, A e) :
    ∃ a', S'.Trace a h a' ∧ R s' a' := by
  induction trace with
  | refl => exact ⟨a, .refl, hR⟩
  | @tail h _ l _ _ last ih =>
    obtain ⟨b, hb, hRb⟩ := ih fun e he => hA e (List.mem_append_left _ he)
    have hl : ∀ e, l = some e → A e := by
      rintro e rfl
      exact hA e (by simp)
    obtain ⟨a', ha', hR'⟩ := sim.step hRb last hl
    exact ⟨a', hb.append ha', hR'⟩

end Transitions

variable {T : Type x} {ι : Type y} {ο : Type z}

inductive Event (T : Type x) (ι : Type y) (ο : Type z)
  | call (t : T) (i : ι)
  | ret (t : T) (o : ο)

/-- What a thread has seen: the calls that have returned, and the one in flight. -/
structure Log (ι : Type y) (ο : Type z) where
  returned : List (ι × ο)
  pending : Option ι

/-- The operations done one after another. -/
inductive Legal (spec : σ → ι → ο → σ → Prop) (s : σ) : List (T × ι × ο) → σ → Prop
  | nil : Legal spec s [] s
  | concat {ops s' t i o s''} (pre : Legal spec s ops s') (last : spec s' i o s'') :
      Legal spec s (ops ++ [(t, i, o)]) s''

theorem Legal.mono {spec spec' : σ → ι → ο → σ → Prop}
    (hspec : ∀ s i o s', spec s i o s' → spec' s i o s') {s s' : σ} {ops : List (T × ι × ο)}
    (h : Legal spec s ops s') : Legal spec' s ops s' := by
  induction h with
  | nil => exact .nil
  | concat _ last ih => exact ih.concat (hspec _ _ _ _ last)

theorem Legal.split {spec : σ → ι → ο → σ → Prop} {s s' : σ} {before after : List (T × ι × ο)}
    (h : Legal spec s (before ++ after) s') :
    ∃ mid, Legal spec s before mid ∧ Legal spec mid after s' := by
  induction after using List.reverseRecOn generalizing s' with
  | nil =>
    rw [List.append_nil] at h
    exact ⟨s', h, .nil⟩
  | append_singleton after op ih =>
    rw [← List.append_assoc] at h
    generalize hops : before ++ after ++ [op] = ops at h
    cases h with
    | nil => simp at hops
    | concat pre last =>
      obtain ⟨hpre, hop⟩ := List.append_inj' hops rfl
      obtain ⟨mid, hbefore, hafter⟩ := ih (hpre ▸ pre)
      refine ⟨mid, hbefore, ?_⟩
      rw [hop]
      exact hafter.concat last

section Histories

variable [DecidableEq T]

def Log.next (t : T) (l : Log ι ο) : Event T ι ο → Log ι ο
  | .call u i => if u = t then ⟨l.returned, some i⟩ else l
  | .ret u o => if u = t then ⟨l.returned ++ (l.pending.map (·, o)).toList, none⟩ else l

def log (t : T) (h : List (Event T ι ο)) : Log ι ο := h.foldl (Log.next t) ⟨[], none⟩

theorem log_concat (t : T) (h : List (Event T ι ο)) (e : Event T ι ο) :
    log t (h ++ [e]) = (log t h).next t e := by
  rw [log, List.foldl_append]
  rfl

/-- Whatever a log tells of was called. -/
theorem called_of_log (t : T) (h : List (Event T ι ο)) :
    (∀ x ∈ (log t h).returned, .call t x.1 ∈ h) ∧
      ∀ i, (log t h).pending = some i → .call t i ∈ h := by
  induction h using List.reverseRecOn with
  | nil => exact ⟨nofun, nofun⟩
  | append_singleton h e ih =>
    obtain ⟨hret, hpend⟩ := ih
    rw [log_concat]
    cases e with
    | call u i =>
      rw [Log.next]
      split
      · rename_i hu
        subst hu
        refine ⟨fun x hx => List.mem_append_left _ (hret x hx), fun j hj => ?_⟩
        rw [← Option.some.inj hj]
        simp
      · exact ⟨fun x hx => List.mem_append_left _ (hret x hx),
          fun j hj => List.mem_append_left _ (hpend j hj)⟩
    | ret u o =>
      rw [Log.next]
      split
      · refine ⟨fun x hx => List.mem_append_left _ ?_, nofun⟩
        rcases List.mem_append.mp hx with hx | hx
        · exact hret x hx
        · rw [Option.mem_toList, Option.map_eq_some_iff] at hx
          obtain ⟨i, hi, rfl⟩ := hx
          exact hpend i hi
      · exact ⟨fun x hx => List.mem_append_left _ (hret x hx),
          fun j hj => List.mem_append_left _ (hpend j hj)⟩

/-- A log only grows. -/
theorem log_append (t : T) (pre post : List (Event T ι ο)) :
    (log t pre).returned <+: (log t (pre ++ post)).returned := by
  induction post using List.reverseRecOn with
  | nil => rw [List.append_nil]
  | append_singleton post e ih =>
    rw [← List.append_assoc, log_concat]
    refine ih.trans ?_
    cases e with
    | call u i =>
      rw [Log.next]
      split <;> exact List.prefix_rfl
    | ret u o =>
      rw [Log.next]
      split
      · exact List.prefix_append _ _
      · exact List.prefix_rfl

/-- The operations of one thread, in their order. -/
def opsOf (t : T) (ops : List (T × ι × ο)) : List (ι × ο) :=
  (ops.filter fun op => op.1 = t).map Prod.snd

theorem opsOf_concat (t u : T) (ops : List (T × ι × ο)) (i : ι) (o : ο) :
    opsOf u (ops ++ [(t, i, o)]) = opsOf u ops ++ if t = u then [(i, o)] else [] := by
  unfold opsOf
  rw [List.filter_append, List.map_append]
  by_cases h : t = u <;> simp [h]

/-- The operations are those that have returned, and of each thread possibly the one in flight. -/
def Explains (h : List (Event T ι ο)) (ops : List (T × ι × ο)) : Prop :=
  ∀ t, opsOf t ops = (log t h).returned ∨
    ∃ i o, (log t h).pending = some i ∧ opsOf t ops = (log t h).returned ++ [(i, o)]

/-- Operations one after another account for what every thread has seen, at every moment of the
history: an operation has taken effect when it returns, and not before it is called. -/
def Linearization (spec : σ → ι → ο → σ → Prop) (s : σ) (h : List (Event T ι ο))
    (ops : List (T × ι × ο)) (s' : σ) : Prop :=
  Legal spec s ops s' ∧ Explains h ops ∧ ∀ pre, pre <+: h → ∃ l, l <+: ops ∧ Explains pre l

theorem opsOf_append (t : T) (before after : List (T × ι × ο)) :
    opsOf t (before ++ after) = opsOf t before ++ opsOf t after := by
  rw [opsOf, List.filter_append, List.map_append, opsOf, opsOf]

theorem mem_opsOf {t : T} {x : ι × ο} {ops : List (T × ι × ο)} :
    x ∈ opsOf t ops ↔ (t, x) ∈ ops := by
  simp [opsOf]

theorem Explains.called {h : List (Event T ι ο)} {ops : List (T × ι × ο)} (hex : Explains h ops)
    {t : T} {i : ι} {o : ο} (hop : (t, i, o) ∈ ops) : .call t i ∈ h := by
  obtain ⟨hret, hpend⟩ := called_of_log t h
  rcases hex t with ht | ⟨j, o', hj, ht⟩
  · exact hret (i, o) (ht ▸ mem_opsOf.mpr hop)
  · rcases List.mem_append.mp (ht ▸ mem_opsOf.mpr hop) with hx | hx
    · exact hret (i, o) hx
    · cases List.mem_singleton.mp hx
      exact hpend i hj

/-- The operations split at any moment of the history: what has returned by then comes before, and
of a thread that is idle then, all that returns later comes after. -/
theorem Linearization.real_time {spec : σ → ι → ο → σ → Prop} {s s' : σ}
    {pre post : List (Event T ι ο)} {ops : List (T × ι × ο)}
    (lin : Linearization spec s (pre ++ post) ops s') :
    ∃ before after, ops = before ++ after ∧
      (∀ t, ∀ x ∈ (log t pre).returned, (t, x) ∈ before) ∧
      ∀ t, (log t pre).pending = none →
        ∀ x ∈ (log t (pre ++ post)).returned.drop (log t pre).returned.length, (t, x) ∈ after := by
  obtain ⟨before, ⟨after, rfl⟩, hbefore⟩ := lin.2.2 pre (List.prefix_append _ _)
  refine ⟨before, after, rfl, fun t x hx => ?_, fun t hidle x hx => ?_⟩
  · rw [← mem_opsOf]
    rcases hbefore t with h | ⟨i, o, -, h⟩
    · rwa [h]
    · rw [h]
      exact List.mem_append_left _ hx
  · rw [← mem_opsOf]
    have hthen : opsOf t before = (log t pre).returned := by
      rcases hbefore t with h | ⟨i, o, hpending, -⟩
      · exact h
      · rw [hidle] at hpending
        cases hpending
    have hnow : (log t (pre ++ post)).returned <+: opsOf t (before ++ after) := by
      rcases lin.2.1 t with h | ⟨i, o, -, h⟩
      · rw [h]
      · rw [h]
        exact List.prefix_append _ _
    obtain ⟨rest, hrest⟩ := hnow
    rw [opsOf_append, hthen] at hrest
    have hdrop := congrArg (List.drop (log t pre).returned.length) hrest
    rw [List.drop_left, List.drop_append_of_le_length (log_append t pre post).length_le] at hdrop
    rw [← hdrop]
    exact List.mem_append_left _ hx

def Linearizable (spec : σ → ι → ο → σ → Prop) (s : σ) (h : List (Event T ι ο)) : Prop :=
  ∃ ops s', Linearization spec s h ops s'

theorem Linearization.mono {spec spec' : σ → ι → ο → σ → Prop}
    (hspec : ∀ s i o s', spec s i o s' → spec' s i o s') {s s' : σ} {h : List (Event T ι ο)}
    {ops : List (T × ι × ο)} (hlin : Linearization spec s h ops s') :
    Linearization spec' s h ops s' := ⟨hlin.1.mono hspec, hlin.2⟩

end Histories

section Machine

variable (M : Machine σ ι ο)

def Machine.spec (s : σ) (i : ι) (o : ο) (s' : σ) : Prop := M.step s i = (o, s')

end Machine

/-! The atomic object of a specification: between its call and its return an operation takes effect
in one step. -/

inductive Status (ι : Type y) (ο : Type z)
  | idle
  | called (i : ι)
  | done (i : ι) (o : ο)

variable [DecidableEq T] {spec : σ → ι → ο → σ → Prop}

inductive AtomicStep (spec : σ → ι → ο → σ → Prop) :
    σ × (T → Status ι ο) → Option (Event T ι ο) → σ × (T → Status ι ο) → Prop
  | call {s st t} (i : ι) (h : st t = .idle) :
      AtomicStep spec (s, st) (some (.call t i)) (s, Function.update st t (.called i))
  | commit {s st t i o s'} (h : st t = .called i) (hspec : spec s i o s') :
      AtomicStep spec (s, st) none (s', Function.update st t (.done i o))
  | ret {s st t i o} (h : st t = .done i o) :
      AtomicStep spec (s, st) (some (.ret t o)) (s, Function.update st t .idle)

def atomic (spec : σ → ι → ο → σ → Prop) :
    Transitions (σ × (T → Status ι ο)) (Event T ι ο) := ⟨AtomicStep spec⟩

/-- What the status of a thread tells about its log and its operations so far. -/
def Status.Accounts (l : Log ι ο) (ops : List (ι × ο)) : Status ι ο → Prop
  | idle => l.pending = none ∧ ops = l.returned
  | called i => l.pending = some i ∧ ops = l.returned
  | done i o => l.pending = some i ∧ ops = l.returned ++ [(i, o)]

theorem Status.Accounts.cases {l : Log ι ο} {ops : List (ι × ο)} {st : Status ι ο}
    (h : st.Accounts l ops) :
    ops = l.returned ∨ ∃ i o, l.pending = some i ∧ ops = l.returned ++ [(i, o)] := by
  cases st with
  | idle => exact .inl h.2
  | called i => exact .inl h.2
  | done i o => exact .inr ⟨i, o, h⟩

theorem explains_of_accounts {h : List (Event T ι ο)} {ops : List (T × ι × ο)}
    {st : T → Status ι ο} (hst : ∀ t, (st t).Accounts (log t h) (opsOf t ops)) :
    Explains h ops := fun t => (hst t).cases

/-- How the operations of a run of the atomic object explain its history so far. -/
structure Accounted (spec : σ → ι → ο → σ → Prop) (s : σ) (h : List (Event T ι ο))
    (ops : List (T × ι × ο)) (x : σ × (T → Status ι ο)) : Prop where
  legal : Legal spec s ops x.1
  status : ∀ t, (x.2 t).Accounts (log t h) (opsOf t ops)
  prefixes : ∀ pre, pre <+: h → ∃ l, l <+: ops ∧ Explains pre l

theorem Accounted.linearization {s : σ} {h : List (Event T ι ο)} {ops : List (T × ι × ο)}
    {x : σ × (T → Status ι ο)} (acc : Accounted spec s h ops x) :
    Linearization spec s h ops x.1 :=
  ⟨acc.legal, explains_of_accounts acc.status, acc.prefixes⟩

/-- A visible event that the statuses follow. -/
theorem Accounted.event {s s' : σ} {h : List (Event T ι ο)} {ops : List (T × ι × ο)}
    {st st' : T → Status ι ο} (acc : Accounted spec s h ops (s', st)) (e : Event T ι ο)
    (hst : ∀ t, (st' t).Accounts ((log t h).next t e) (opsOf t ops)) :
    Accounted spec s (h ++ [e]) ops (s', st') := by
  have hnow : ∀ t, (st' t).Accounts (log t (h ++ [e])) (opsOf t ops) := by
    intro t
    rw [log_concat]
    exact hst t
  refine ⟨acc.legal, hnow, fun pre hpre => ?_⟩
  rcases List.prefix_concat_iff.mp hpre with rfl | hold
  · exact ⟨ops, List.prefix_rfl, explains_of_accounts hnow⟩
  · exact acc.prefixes pre hold

theorem Accounted.step {s : σ} {h : List (Event T ι ο)} {ops : List (T × ι × ο)}
    {a a' : σ × (T → Status ι ο)} {l : Option (Event T ι ο)} (acc : Accounted spec s h ops a)
    (hstep : AtomicStep spec a l a') : ∃ ops', Accounted spec s (h ++ l.toList) ops' a' := by
  cases hstep with
  | @call s' st t i hidle =>
    refine ⟨ops, acc.event _ fun u => ?_⟩
    have hu := acc.status u
    by_cases htu : t = u
    · subst htu
      rw [show (s', st).2 t = _ from hidle] at hu
      rw [Function.update_self, Log.next, if_pos rfl]
      exact ⟨rfl, hu.2⟩
    · rw [Function.update_of_ne (Ne.symm htu), Log.next, if_neg htu]
      exact hu
  | @commit s' st t i o s'' hcalled hspec =>
    refine ⟨ops ++ [(t, i, o)], acc.legal.concat hspec, fun u => ?_, fun pre hpre => ?_⟩
    · have hu := acc.status u
      rw [Option.toList_none, List.append_nil, opsOf_concat]
      by_cases htu : t = u
      · subst htu
        rw [show (s', st).2 t = _ from hcalled] at hu
        rw [if_pos rfl, hu.2]
        simp only [Function.update_self]
        exact ⟨hu.1, rfl⟩
      · rw [if_neg htu, List.append_nil]
        simp only [Function.update_of_ne (Ne.symm htu)]
        exact hu
    · rw [Option.toList_none, List.append_nil] at hpre
      obtain ⟨l, hl, hexpl⟩ := acc.prefixes pre hpre
      exact ⟨l, hl.trans (List.prefix_append _ _), hexpl⟩
  | @ret s' st t i o hdone =>
    refine ⟨ops, acc.event _ fun u => ?_⟩
    have hu := acc.status u
    by_cases htu : t = u
    · subst htu
      rw [show (s', st).2 t = _ from hdone] at hu
      rw [Function.update_self, Log.next, if_pos rfl, hu.1]
      exact ⟨rfl, hu.2⟩
    · rw [Function.update_of_ne (Ne.symm htu), Log.next, if_neg htu]
      exact hu

/-- The histories of the atomic object are linearizable. -/
theorem linearization_of_atomic {s : σ} {h : List (Event T ι ο)} {x : σ × (T → Status ι ο)}
    (trace : (atomic spec).Trace (s, fun _ => .idle) h x) :
    ∃ ops, Linearization spec s h ops x.1 := by
  have hacc : ∃ ops, Accounted spec s h ops x := by
    refine trace.invariant (I := fun h x => ∃ ops, Accounted spec s h ops x) ?_ ?_
    · refine ⟨[], .nil, fun t => ⟨rfl, rfl⟩, fun pre hpre => ⟨[], List.prefix_rfl, ?_⟩⟩
      rw [List.prefix_nil.mp hpre]
      exact fun t => .inl rfl
    · rintro h a l a' ⟨ops, acc⟩ hstep
      exact acc.step hstep
  obtain ⟨ops, acc⟩ := hacc
  exact ⟨ops, acc.linearization⟩

/-- An object that the atomic object simulates has linearizable histories only. -/
theorem linearizable_of_simulation {S : Transitions τ (Event T ι ο)} {A : Event T ι ο → Prop}
    {R : τ → σ × (T → Status ι ο) → Prop} (sim : Transitions.Simulation S (atomic spec) A R)
    {c c' : τ} {s : σ} {h : List (Event T ι ο)} (hR : R c (s, fun _ => .idle))
    (trace : S.Trace c h c') (hA : ∀ e ∈ h, A e) :
    ∃ ops x, Linearization spec s h ops x.1 ∧ R c' x := by
  obtain ⟨x, hx, hR'⟩ := sim.trace hR trace hA
  obtain ⟨ops, hops⟩ := linearization_of_atomic hx
  exact ⟨ops, x, hops, hR'⟩

end ParamServer.Library
