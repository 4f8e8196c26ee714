import ParamServer.Library.Locks

/-! Objects whose operations are each done in one piece: as one access to the memory, with a
`lock_guard` around it or without. Their histories are linearizable. -/

namespace ParamServer.Library

universe u v w x y

variable {T : Type u} {μ : Type v} {σ : Type w} {ι : Type x} {ο : Type y}

/-- One access without a mutex. -/
def Prog.access (run : σ → ο × σ) : Prog μ σ ο := .act (fun s => (run s).2) fun s => .ret (run s).1

/-- The programs do what the machine does, each in one access. -/
def InOnePiece (M : Machine σ ι ο) (body : ι → Prog μ σ ο) : Prop :=
  ∀ i, (∃ m, body i = .guarded m (M.step · i)) ∨ body i = .access (M.step · i)

namespace InOnePiece

variable {M : Machine σ ι ο} {body : ι → Prog μ σ ο}

/-- Where a thread is, by what has become of its operation. -/
def Located (M : Machine σ ι ο) (body : ι → Prog μ σ ο) (p : Option (Prog μ σ ο)) :
    Status ι ο → Prop
  | .idle => p = none
  | .called i => p = some (body i) ∨ ∃ m, p = some (.act (fun s => (M.step s i).2) fun s =>
      .release m (.ret (M.step s i).1))
  | .done _ o => p = some (.ret o) ∨ ∃ m, p = some (.release m (.ret o))

/-- What the next step of a thread says about its operation. -/
def StepOf (M : Machine σ ι ο) (body : ι → Prog μ σ ο) (status : Status ι ο) :
    Option (Prog μ σ ο) → Prop
  | none => status = .idle
  | some (.ret o) => ∃ i, status = .done i o
  | some (.acquire _ next) => ∃ i, status = .called i ∧ Located M body (some next) (.called i)
  | some (.release _ next) => ∃ i o, status = .done i o ∧ next = .ret o
  | some (.act update next) => ∃ i, status = .called i ∧ ∀ s, update s = (M.step s i).2 ∧
      Located M body (some (next s)) (.done i (M.step s i).1)

theorem Located.stepOf (hbody : InOnePiece M body) {p : Option (Prog μ σ ο)}
    {status : Status ι ο} (h : Located M body p status) : StepOf M body status p := by
  cases status with
  | idle =>
    obtain rfl : p = none := h
    rfl
  | called i =>
    rcases h with rfl | ⟨m, rfl⟩
    · rcases hbody i with ⟨m, hi⟩ | hi
      · rw [hi]
        exact ⟨i, rfl, .inr ⟨m, rfl⟩⟩
      · rw [hi]
        exact ⟨i, rfl, fun s => ⟨rfl, .inl rfl⟩⟩
    · exact ⟨i, rfl, fun s => ⟨rfl, .inr ⟨m, rfl⟩⟩⟩
  | done i o =>
    rcases h with rfl | ⟨m, rfl⟩
    · exact ⟨i, rfl⟩
    · exact ⟨i, o, rfl, rfl⟩

/-- The memory is that of the operations that have taken effect. -/
structure Related (M : Machine σ ι ο) (body : ι → Prog μ σ ο) (c : Config T μ σ ο)
    (x : σ × (T → Status ι ο)) : Prop where
  memory : c.memory = x.1
  threads : ∀ t, Located M body (c.prog t) (x.2 t)

variable [DecidableEq T] {s s' : σ} {own own' : μ → Option T} {prog : T → Option (Prog μ σ ο)}
  {st : T → Status ι ο} {t : T} {p : Option (Prog μ σ ο)}

theorem Related.update (h : Related M body ⟨s, own, prog⟩ (s, st)) {status : Status ι ο}
    (hself : Located M body p status) :
    Related M body ⟨s', own', Function.update prog t p⟩ (s', Function.update st t status) := by
  refine ⟨rfl, fun u => ?_⟩
  by_cases hu : u = t
  · subst hu
    simp only [Function.update_self]
    exact hself
  · simp only [Function.update_of_ne hu]
    exact h.threads u

/-- A step of a thread that leaves the memory and its operation as they are. -/
theorem Related.stay (h : Related M body ⟨s, own, prog⟩ (s, st)) (hself : Located M body p (st t)) :
    Related M body ⟨s, own', Function.update prog t p⟩ (s, st) := by
  have hupdate : Related M body ⟨s, own', Function.update prog t p⟩
      (s, Function.update st t (st t)) := h.update hself
  rwa [Function.update_eq_self] at hupdate

variable [DecidableEq μ]

/-- The atomic object takes the step of a thread that is at its access, and no other silent one. -/
theorem simulation (hbody : InOnePiece M body) :
    Transitions.Simulation (Config.transitions T body) (atomic M.spec) (fun _ => True)
      (Related M body) := by
  constructor
  rintro c ⟨a, st⟩ l c' h hstep -
  obtain rfl : c.memory = a := h.memory
  cases hstep with
  | @call s own prog t i hidle =>
    have ht : Located M body (prog t) (st t) := h.threads t
    rw [hidle] at ht
    have hst : st t = .idle := ht.stepOf hbody
    exact ⟨_, .single (.call i hst), h.update (.inl rfl)⟩
  | @ret s own prog t o hret =>
    have ht : Located M body (prog t) (st t) := h.threads t
    rw [hret] at ht
    obtain ⟨i, hst⟩ := ht.stepOf hbody
    exact ⟨_, .single (.ret hst), h.update rfl⟩
  | @acquire s own prog t m next hacquire hfree =>
    have ht : Located M body (prog t) (st t) := h.threads t
    rw [hacquire] at ht
    obtain ⟨i, hst, hnext⟩ := ht.stepOf hbody
    exact ⟨_, .refl, h.stay (hst ▸ hnext)⟩
  | @release s own prog t m next hrelease =>
    have ht : Located M body (prog t) (st t) := h.threads t
    rw [hrelease] at ht
    obtain ⟨i, o, hst, rfl⟩ := ht.stepOf hbody
    exact ⟨_, .refl, h.stay (hst ▸ .inl rfl)⟩
  | @act s own prog t update next hact =>
    have ht : Located M body (prog t) (st t) := h.threads t
    rw [hact] at ht
    obtain ⟨i, hst, hnext⟩ := ht.stepOf hbody
    obtain ⟨hupdate, hnext⟩ := hnext s
    have hspec : M.spec s i (M.step s i).1 (update s) := by
      rw [hupdate]
      rfl
    exact ⟨_, .single (.commit hst hspec), h.update hnext⟩

theorem linearization (hbody : InOnePiece M body) {s : σ} {h : List (Event T ι ο)}
    {c : Config T μ σ ο} (trace : (Config.transitions T body).Trace (.start s) h c) :
    ∃ ops, Linearization M.spec s h ops c.memory := by
  have hstart : Related M body (.start s : Config T μ σ ο) (s, fun _ => .idle) :=
    ⟨rfl, fun _ => rfl⟩
  have hsim : Transitions.Simulation (Config.transitions T body) (atomic M.spec) (fun _ => True)
      (Related M body) := hbody.simulation
  obtain ⟨ops, x, hops, hx⟩ := linearizable_of_simulation hsim hstart trace fun _ _ => trivial
  exact ⟨ops, hx.memory ▸ hops⟩

end InOnePiece

end ParamServer.Library
