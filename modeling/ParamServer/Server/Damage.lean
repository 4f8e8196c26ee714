import ParamServer.Server.Checkpoint

/-! What `load_checkpoint` does to a file that is no checkpoint. A short read is never noticed,
so the only way to be rejected is a length that cannot be allocated, and by then the header and
the tensors in front of it are already in the server. -/

namespace ParamServer

open Library

variable {V : Type} [Word V]

/-- A tensor starts here with a length, possibly cut short, that cannot be allocated. -/
inductive Unreadable (alloc : Allocator) : List UInt8 → Prop
  | name {b : List UInt8} (h : alloc.grants .name (leValue (b.take 8)) = false) :
      Unreadable alloc b
  | shape {name b : List UInt8} (hname : alloc.grants .name name.length = true)
      (h : alloc.grants .shape (leValue (b.take 8)) = false) :
      Unreadable alloc (framed byteCodec name ++ b)
  | data {name : List UInt8} {shape : List Int32} {dtype : Int32} {b : List UInt8}
      (hname : alloc.grants .name name.length = true)
      (hshape : alloc.grants .shape shape.length = true)
      (h : alloc.grants .data (leValue (b.take 8)) = false) :
      Unreadable alloc
        (framed byteCodec name ++ (framed int32Codec shape ++ (int32Codec.enc dtype ++ b)))

/-- The file repeats the caller's epoch and the server's iteration and tensors, and breaks off
at a length that cannot be allocated. -/
def RefusedInPlace (alloc : Allocator) (s : ParameterServerCore V) (epoch : Int32)
    (bytes : List UInt8) : Prop :=
  ∃ rest, bytes = int32Codec.enc epoch ++ (int32Codec.enc s.currentIteration ++ rest) ∧
    ((s.parameters = [] ∧ alloc.grants .tensors (leValue (rest.take 8)) = false) ∨
      ∃ n tail, rest = leBytes 8 n ++ (encodeTensors s.parameters ++ tail) ∧
        s.parameters.length < n ∧ alloc.grants .tensors n = true ∧
        (∀ t ∈ s.parameters, alloc.FitsTensor t) ∧ Unreadable alloc tail)

variable {alloc : Allocator}

section ReadTensor

variable (u : Int32)

theorem readTensor_failed {f : InStream} (h : f.good = false) :
    readTensor alloc u f = some ((⟨[], [], [], u⟩ : Tensor V), f) := by
  have h0 := alloc.grants_zero
  simp only [readTensor, InStream.readFramed_failed _ (h0 _) h, InStream.readWord_failed _ h,
    bind, Option.bind_some]
  rfl

theorem readTensor_good {f f' : InStream} {t : Tensor V} (h : readTensor alloc u f = some (t, f'))
    (hgood : f'.good = true) :
    f.good = true ∧ f.rest = encodeTensor t ++ f'.rest ∧ alloc.FitsTensor t := by
  simp only [readTensor, bind, Option.bind_eq_some_iff, Prod.exists] at h
  obtain ⟨name, f1, h1, shape, f2, h2, data, f3, h3, h4⟩ := h
  obtain ⟨rfl, rfl⟩ := Prod.mk.injEq .. ▸ Option.some_inj.mp h4
  obtain ⟨hg3, hr3, hd⟩ := InStream.readFramed_good _ h3 hgood
  obtain ⟨hg2, hr2⟩ := InStream.readWord_good _ hg3
  obtain ⟨hg1, hr1, hs⟩ := InStream.readFramed_good _ h2 hg2
  obtain ⟨hg0, hr0, hn⟩ := InStream.readFramed_good _ h1 hg1
  refine ⟨hg0, ?_, hn, hs, hd⟩
  rw [hr0, hr1, hr2, hr3]
  simp only [encodeTensor, List.append_assoc]

theorem readTensor_unreadable {b : List UInt8} (h : Unreadable alloc b) :
    (readTensor alloc u ⟨b, true⟩ : Option (Tensor V × InStream)) = none := by
  cases h with
  | name h =>
    rw [readTensor, (InStream.readFramed_eq_none_iff _ rfl).mpr h]
    rfl
  | @shape name b hname h =>
    have hlen := alloc.bounded _ _ hname
    simp only [readTensor, bind, InStream.readFramed_append _
      (show name.length < 2 ^ 64 by omega) hname, Option.bind_some]
    rw [(InStream.readFramed_eq_none_iff _ rfl).mpr h]
    rfl
  | @data name shape dtype b hname hshape h =>
    have hlen := alloc.bounded _ _ hname
    have hlen' := alloc.bounded _ _ hshape
    simp only [readTensor, bind, InStream.readFramed_append _
      (show name.length < 2 ^ 64 by omega) hname, InStream.readFramed_append _
      (show shape.length < 2 ^ 64 by omega) hshape, InStream.readWord_append, Option.bind_some]
    rw [(InStream.readFramed_eq_none_iff _ rfl).mpr h]
    rfl

/-- Once the stream has failed, all lengths are read as zero and nothing throws any more. -/
theorem unreadable_of_readTensor {b : List UInt8}
    (h : (readTensor alloc u ⟨b, true⟩ : Option (Tensor V × InStream)) = none) :
    Unreadable alloc b := by
  have h0 := alloc.grants_zero
  rcases hn : InStream.readFramed byteCodec (alloc.grants .name) ⟨b, true⟩ with _ | ⟨name, f1⟩
  · exact .name ((InStream.readFramed_eq_none_iff _ rfl).mp hn)
  rcases hg1 : f1.good with _ | _
  · simp [readTensor, hn, InStream.readFramed_failed _ (h0 _) hg1, InStream.readWord_failed _ hg1]
      at h
  obtain ⟨-, hr1, hname⟩ := InStream.readFramed_good _ hn hg1
  rcases hs : InStream.readFramed int32Codec (alloc.grants .shape) f1 with _ | ⟨shape, f2⟩
  · rw [show b = _ from hr1]
    exact .shape hname ((InStream.readFramed_eq_none_iff _ hg1).mp hs)
  rcases hg2 : f2.good with _ | _
  · simp [readTensor, hn, hs, InStream.readFramed_failed _ (h0 _) hg2,
      InStream.readWord_failed _ hg2] at h
  obtain ⟨-, hr2, hshape⟩ := InStream.readFramed_good _ hs hg2
  rcases hd : InStream.readWord int32Codec u f2 with ⟨dtype, f3⟩
  rcases hg3 : f3.good with _ | _
  · simp [readTensor, hn, hs, hd, InStream.readFramed_failed _ (h0 _) hg3] at h
  obtain ⟨-, hr3⟩ := InStream.readWord_good _ (show (InStream.readWord int32Codec u f2).2.good =
    true by rw [hd]; exact hg3)
  rcases hv : InStream.readFramed (dataCodec (V := V)) (alloc.grants .data) f3 with _ | ⟨data, f4⟩
  · rw [show b = _ from hr1, hr2, hr3, hd]
    exact .data hname hshape ((InStream.readFramed_eq_none_iff _ hg3).mp hv)
  · simp [readTensor, hn, hs, hd, hv] at h

end ReadTensor

section ReadTensors

variable (uninit : ℕ → Int32)

theorem readTensors_failed (n i : ℕ) {f : InStream} (h : f.good = false) :
    (readTensors alloc uninit n i f : Bool × List (Tensor V)).1 = true := by
  induction n generalizing i with
  | zero => rfl
  | succ n ih =>
    rw [readTensors, readTensor_failed _ h]
    exact ih (i + 1)

theorem readTensors_unreadable {ts : List (Tensor V)} {n : ℕ} (hn : ts.length < n)
    (hts : ∀ t ∈ ts, alloc.FitsTensor t) {tail : List UInt8} (h : Unreadable alloc tail) (i : ℕ) :
    readTensors alloc uninit n i ⟨encodeTensors ts ++ tail, true⟩ = (false, ts) := by
  induction ts generalizing n i with
  | nil =>
    obtain ⟨m, rfl⟩ : ∃ m, n = m + 1 := ⟨n - 1, by simp at hn; omega⟩
    rw [readTensors, encodeTensors, List.flatMap_nil, List.nil_append, readTensor_unreadable _ h]
  | cons t ts ih =>
    obtain ⟨m, rfl⟩ : ∃ m, n = m + 1 := ⟨n - 1, by omega⟩
    rw [List.length_cons, Nat.add_lt_add_iff_right] at hn
    rw [readTensors, encodeTensors, List.flatMap_cons, List.append_assoc,
      readTensor_append (hts t (by simp)), ← encodeTensors]
    simp only [ih hn (fun r hr => hts r (List.mem_cons_of_mem _ hr))]

/-- Where the loop throws, the tensors it has pushed are those in front of the bad length. -/
theorem unreadable_of_readTensors {n i : ℕ} {f : InStream} {ts : List (Tensor V)}
    (h : readTensors alloc uninit n i f = (false, ts)) :
    f.good = true ∧ ts.length < n ∧ (∀ t ∈ ts, alloc.FitsTensor t) ∧
      ∃ tail, f.rest = encodeTensors ts ++ tail ∧ Unreadable alloc tail := by
  induction n generalizing i f ts with
  | zero => simp [readTensors] at h
  | succ n ih =>
    have hgood : f.good = true := by
      by_contra hb
      rw [Bool.not_eq_true] at hb
      -- a failed stream reads empty tensors up to the end of the loop
      have hdone : (readTensors alloc uninit (n + 1) i f : Bool × List (Tensor V)).1 = true :=
        readTensors_failed uninit (n + 1) i hb
      rw [h] at hdone
      exact Bool.false_ne_true hdone
    obtain ⟨b, g⟩ := f
    subst hgood
    rw [readTensors] at h
    rcases ht : (readTensor alloc (uninit i) ⟨b, true⟩ : Option (Tensor V × InStream)) with
      _ | ⟨t, f'⟩
    · rw [ht] at h
      obtain ⟨-, rfl⟩ := Prod.mk.injEq .. ▸ h
      exact ⟨rfl, by simp, by simp, b, rfl, unreadable_of_readTensor _ ht⟩
    · rw [ht] at h
      rcases hrec : (readTensors alloc uninit n (i + 1) f' : Bool × List (Tensor V)) with
        ⟨done, ts'⟩
      simp only [hrec, Prod.mk.injEq] at h
      obtain ⟨rfl, rfl⟩ := h
      obtain ⟨hg', hlen, hfits, tail, hr', hu⟩ := ih hrec
      obtain ⟨-, hr, hfit⟩ := readTensor_good _ ht hg'
      refine ⟨rfl, by simpa using hlen, ?_, tail, ?_, hu⟩
      · intro r hr
        rcases List.mem_cons.mp hr with rfl | hr
        · exact hfit
        · exact hfits r hr
      · rw [show b = _ from hr, hr', encodeTensors, encodeTensors, List.flatMap_cons,
          List.append_assoc]

end ReadTensors

theorem unreadable_encodeTensor {t : Tensor V} (h : ¬alloc.FitsTensor t)
    (hs : t.name.length < 2 ^ 63 ∧ t.shape.length < 2 ^ 63 ∧ t.data.length < 2 ^ 63)
    (rest : List UInt8) : Unreadable alloc (encodeTensor t ++ rest) := by
  have hlen : ∀ {α : Type} (c : WordCodec α) (xs : List α) (r : List UInt8),
      xs.length < 2 ^ 63 → leValue ((framed c xs ++ r).take 8) = xs.length := by
    intro α c xs r hxs
    have h256 : xs.length < 256 ^ 8 := by omega
    rw [framed, List.append_assoc, List.take_left' (length_leBytes ..), leValue_leBytes 8 h256]
  rw [Allocator.FitsTensor] at h
  simp only [encodeTensor, List.append_assoc]
  by_cases hn : alloc.grants .name t.name.length = true
  · by_cases hsh : alloc.grants .shape t.shape.length = true
    · refine .data hn hsh ?_
      rw [hlen _ _ _ hs.2.2]
      simpa [hn, hsh] using h
    · refine .shape hn ?_
      rw [hlen _ _ _ hs.2.1]
      simpa using hsh
  · refine .name ?_
    rw [hlen _ _ _ hs.1]
    simpa using hn

theorem readTensors_of_not_fits (uninit : ℕ → Int32) {ts : List (Tensor V)}
    (hs : ∀ t ∈ ts, t.name.length < 2 ^ 63 ∧ t.shape.length < 2 ^ 63 ∧ t.data.length < 2 ^ 63)
    (h : ¬∀ t ∈ ts, alloc.FitsTensor t) (i : ℕ) (rest : List UInt8) :
    (readTensors alloc uninit ts.length i ⟨encodeTensors ts ++ rest, true⟩ :
      Bool × List (Tensor V)).1 = false := by
  induction ts generalizing i with
  | nil => exact absurd (by simp) h
  | cons t ts ih =>
    rw [List.length_cons, readTensors, encodeTensors, List.flatMap_cons, List.append_assoc]
    by_cases ht : alloc.FitsTensor t
    · rw [readTensor_append ht]
      refine ih (fun r hr => hs r (List.mem_cons_of_mem _ hr)) (fun hf => h fun r hr => ?_) (i + 1)
      rcases List.mem_cons.mp hr with rfl | hr
      · exact ht
      · exact hf r hr
    · rw [readTensor_unreadable _ (unreadable_encodeTensor ht (hs t (by simp)) _)]

namespace ParameterServerCore

theorem loadCheckpoint_image_returned_iff {ts : List (Tensor V)} (hs : Sized ts)
    (uninit : ℕ → Int32) (s : ParameterServerCore V) (epoch₀ epoch iteration : Int32) :
    (s.loadCheckpoint alloc uninit epoch₀ (some (checkpointImage epoch iteration ts))).1 =
      .returned true ↔ alloc.Fits ts := by
  constructor
  · intro h
    by_contra hf
    have hn : ts.length < 2 ^ 64 := hs.1.trans (by decide)
    have hdone := fun hts : ¬∀ t ∈ ts, alloc.FitsTensor t =>
      readTensors_of_not_fits uninit hs.2 hts 0 []
    rw [List.append_nil] at hdone
    simp only [loadCheckpoint, checkpointImage, InStream.readWord_append,
      InStream.readSize_append hn] at h
    rcases hg : alloc.grants .tensors ts.length with _ | _
    · simp [hg] at h
    · simp [hg, hdone fun hts => hf ⟨hg, hts⟩] at h
  · intro h
    rw [← List.append_nil (checkpointImage ..), loadCheckpoint_image uninit h]

theorem loadCheckpoint_image_of_returned {ts : List (Tensor V)} (hs : Sized ts)
    {uninit : ℕ → Int32} {s : ParameterServerCore V} {epoch₀ epoch iteration : Int32}
    (h : (s.loadCheckpoint alloc uninit epoch₀
      (some (checkpointImage epoch iteration ts))).1 = .returned true) :
    s.loadCheckpoint alloc uninit epoch₀ (some (checkpointImage epoch iteration ts)) =
      (.returned true, { s with parameters := ts, currentIteration := iteration }, epoch) := by
  rw [loadCheckpoint_image_returned_iff hs] at h
  rw [← List.append_nil (checkpointImage ..), loadCheckpoint_image uninit h]

theorem loadCheckpoint_of_saveCheckpoint {saved s t : ParameterServerCore V}
    (hs : Sized saved.parameters) {uninit : ℕ → Int32} {epoch epoch₀ epoch₁ : Int32}
    {file : Option (List UInt8)} {image : List UInt8}
    (hsave : saved.saveCheckpoint true (fun _ => none) epoch file = (true, some image))
    (hload : s.loadCheckpoint alloc uninit epoch₀ (some image) = (.returned true, t, epoch₁)) :
    t = s.restored saved := by
  rw [saveCheckpoint_reliable] at hsave
  obtain ⟨-, rfl⟩ : True ∧ checkpointImage epoch saved.currentIteration saved.parameters = image :=
    by simpa using hsave
  have hr := loadCheckpoint_image_of_returned hs (congrArg Prod.fst hload)
  rw [hload] at hr
  simpa [restored] using congrArg (fun r => r.2.1) hr

theorem refusedInPlace_of_rejected {uninit : ℕ → Int32} {s : ParameterServerCore V}
    {epoch : Int32} {bytes : List UInt8}
    (hres : (s.loadCheckpoint alloc uninit epoch (some bytes)).1 ≠ .returned true)
    (hparams : (s.loadCheckpoint alloc uninit epoch (some bytes)).2.1.parameters = s.parameters)
    (hiter : (s.loadCheckpoint alloc uninit epoch (some bytes)).2.1.currentIteration =
      s.currentIteration)
    (hepoch : (s.loadCheckpoint alloc uninit epoch (some bytes)).2.2 = epoch) :
    RefusedInPlace alloc s epoch bytes := by
  simp only [loadCheckpoint] at hres hparams hiter hepoch
  rcases h1 : InStream.readWord int32Codec epoch ⟨bytes, true⟩ with ⟨epoch', f1⟩
  rcases h2 : InStream.readWord int32Codec s.currentIteration f1 with ⟨iteration', f2⟩
  rcases h3 : f2.readSize with ⟨n, f3⟩
  simp only [h1, h2, h3] at hres hparams hiter hepoch
  -- a failed header reads a tensor count of zero, so that nothing throws
  have hg2 : f2.good = true := by
    by_contra hb
    rw [Bool.not_eq_true] at hb
    rw [InStream.readSize_failed hb] at h3
    obtain ⟨rfl, rfl⟩ := Prod.mk.injEq .. ▸ h3
    exact hres (by simp [alloc.grants_zero, readTensors])
  obtain ⟨hg1, hr1⟩ := InStream.readWord_good (f := f1) int32Codec
    (show (InStream.readWord int32Codec s.currentIteration f1).2.good = true by rw [h2]; exact hg2)
  obtain ⟨-, hr0⟩ := InStream.readWord_good (f := ⟨bytes, true⟩) int32Codec
    (show (InStream.readWord int32Codec epoch ⟨bytes, true⟩).2.good = true by rw [h1]; exact hg1)
  rw [h2] at hr1
  rw [h1] at hr0
  have hn : n = leValue (f2.rest.take 8) := by
    rw [← InStream.readSize_fst hg2, h3]
  have hbytes : bytes = int32Codec.enc epoch' ++ (int32Codec.enc iteration' ++ f2.rest) := by
    rw [← hr1, ← hr0]
  rcases hgr : alloc.grants .tensors n with _ | _
  · simp only [hgr, Bool.false_eq_true, if_false] at hparams hiter hepoch
    subst hepoch hiter hn
    exact ⟨f2.rest, hbytes, .inl ⟨hparams.symm, hgr⟩⟩
  · simp only [hgr, if_true] at hres hparams hiter hepoch
    rcases hts : (readTensors alloc uninit n 0 f3 : Bool × List (Tensor V)) with ⟨done, ts⟩
    simp only [hts] at hres hparams hiter hepoch
    subst hepoch hiter hparams
    rcases done with _ | _
    · obtain ⟨hg3, hlen, hfits, tail, hr3, hu⟩ := unreadable_of_readTensors uninit hts
      obtain ⟨-, hr2⟩ := InStream.readSize_good (f := f2) (by rw [h3]; exact hg3)
      rw [h3] at hr2
      exact ⟨f2.rest, hbytes, .inr ⟨n, tail, by rw [hr2, hr3], hlen, hgr, hfits, hu⟩⟩
    · exact absurd rfl hres

theorem rejected_of_refusedInPlace (uninit : ℕ → Int32) {s : ParameterServerCore V}
    {epoch : Int32} {bytes : List UInt8} (h : RefusedInPlace alloc s epoch bytes) :
    let r := s.loadCheckpoint alloc uninit epoch (some bytes)
    r.1 ≠ .returned true ∧ r.2.1.parameters = s.parameters ∧
      r.2.1.currentIteration = s.currentIteration ∧ r.2.2 = epoch := by
  intro r
  obtain ⟨rest, rfl, ⟨hparams, hgr⟩ | ⟨n, tail, rfl, hlen, hgr, hfits, hu⟩⟩ := h
  · -- the tensor count is refused, after an empty store was cleared
    obtain ⟨f3, hn⟩ : ∃ f3, InStream.readSize ⟨rest, true⟩ = (leValue (rest.take 8), f3) :=
      ⟨_, Prod.ext (InStream.readSize_fst rfl) rfl⟩
    simp only [r, loadCheckpoint, InStream.readWord_append, hn, hgr, Bool.false_eq_true, if_false,
      hparams]
    simp
  · -- the tensors of the server are read back before the loop throws
    have hn : n < 2 ^ 64 := (alloc.bounded _ _ hgr).trans (by decide)
    have hread := readTensors_unreadable uninit hlen hfits hu 0
    simp only [r, loadCheckpoint, InStream.readWord_append, InStream.readSize_append hn, hgr,
      if_true, hread]
    simp

/-- A readable file is rejected with nothing changed exactly when it breaks off in place. -/
theorem loadCheckpoint_rejects_iff (alloc : Allocator) (uninit : ℕ → Int32)
    (s : ParameterServerCore V) (epoch : Int32) (bytes : List UInt8) :
    let r := s.loadCheckpoint alloc uninit epoch (some bytes)
    (r.1 ≠ .returned true ∧ r.2.1.parameters = s.parameters ∧
        r.2.1.currentIteration = s.currentIteration ∧ r.2.2 = epoch) ↔
      RefusedInPlace alloc s epoch bytes := by
  intro r
  constructor
  · rintro ⟨hres, hparams, hiter, hepoch⟩
    exact refusedInPlace_of_rejected hres hparams hiter hepoch
  · intro h
    exact rejected_of_refusedInPlace uninit h

/-- An empty file, which is no checkpoint, is accepted and erases the parameters. -/
theorem loadCheckpoint_accepts_empty_file :
    let s : ParameterServerCore UInt32 :=
      { new 1 with parameters := [⟨[119], [1], [7], 0⟩], currentIteration := 3 }
    let r := s.loadCheckpoint .unbounded (fun _ => 0) 0 (some [])
    (∀ (epoch iteration : Int32) (ts : List (Tensor UInt32)),
        ¬checkpointImage epoch iteration ts <+: []) ∧
      r.1 = .returned true ∧ r.2.1.parameters = [] ∧ r.2.1.parameters ≠ s.parameters := by
  refine ⟨fun epoch iteration ts h => ?_, rfl, rfl, by decide⟩
  have hnil := congrArg List.length (List.prefix_nil.mp h)
  simp [checkpointImage] at hnil

end ParameterServerCore

end ParamServer
