import Mathlib.Algebra.Ring.Nat
import Mathlib.Logic.Equiv.Defs
import Mathlib.Tactic.Common

/-! Binary files of fixed-width words and length-prefixed arrays, with the streams that write
and read them. A read past the end fills what it can of its buffer, keeps the rest of it, and
leaves the stream failed, after which reads change nothing. -/

namespace ParamServer.Library

universe u v

/-! ### Little-endian numbers -/

/-- The low `w` bytes of `n`, least significant first. -/
def leBytes : ℕ → ℕ → List UInt8
  | 0, _ => []
  | w + 1, n => UInt8.ofNat n :: leBytes w (n / 256)

def leValue : List UInt8 → ℕ
  | [] => 0
  | b :: bs => b.toNat + 256 * leValue bs

@[simp] theorem length_leBytes (w n : ℕ) : (leBytes w n).length = w := by
  induction w generalizing n with
  | zero => rfl
  | succ w ih => rw [leBytes, List.length_cons, ih]

theorem leValue_lt (bs : List UInt8) : leValue bs < 256 ^ bs.length := by
  induction bs with
  | nil => exact Nat.one_pos
  | cons b bs ih =>
    have hb := b.toNat_lt
    rw [leValue, List.length_cons, Nat.pow_succ]
    omega

theorem leValue_leBytes (w : ℕ) {n : ℕ} (h : n < 256 ^ w) : leValue (leBytes w n) = n := by
  induction w generalizing n with
  | zero =>
    rw [Nat.pow_zero] at h
    rw [leBytes, leValue]
    omega
  | succ w ih =>
    rw [Nat.pow_succ] at h
    rw [leBytes, leValue, ih (by omega), UInt8.toNat_ofNat']
    omega

theorem leBytes_leValue (bs : List UInt8) : leBytes bs.length (leValue bs) = bs := by
  induction bs with
  | nil => rfl
  | cons b bs ih =>
    have hb := b.toNat_lt
    have hdiv : (b.toNat + 256 * leValue bs) / 256 = leValue bs := by omega
    have hbyte : UInt8.ofNat (b.toNat + 256 * leValue bs) = b := by
      apply UInt8.toNat_inj.mp
      rw [UInt8.toNat_ofNat']
      omega
    rw [List.length_cons, leValue, leBytes, hdiv, ih, hbyte]

theorem leValue_append_zeros (bs : List UInt8) (n : ℕ) :
    leValue (bs ++ List.replicate n 0) = leValue bs := by
  induction bs with
  | nil =>
    induction n with
    | zero => rfl
    | succ n ih =>
      rw [List.nil_append] at ih
      simp only [List.nil_append, List.replicate_succ, leValue, ih, UInt8.toNat_zero]
  | cons b bs ih => rw [List.cons_append, leValue, ih, leValue]

/-! ### Words and arrays of words -/

/-- A type whose values are exactly the byte strings of one width. -/
structure WordCodec (α : Type u) where
  width : ℕ
  enc : α → List UInt8
  dec : List UInt8 → α
  length_enc : ∀ x, (enc x).length = width
  dec_enc : ∀ x, dec (enc x) = x
  enc_dec : ∀ bs, bs.length = width → enc (dec bs) = bs

attribute [simp] WordCodec.length_enc WordCodec.dec_enc

def byteCodec : WordCodec UInt8 where
  width := 1
  enc b := [b]
  dec bs := bs.headD 0
  length_enc _ := rfl
  dec_enc _ := rfl
  enc_dec bs h := by
    obtain ⟨b, rfl⟩ := List.length_eq_one_iff.mp h
    rfl

def uint32Codec : WordCodec UInt32 where
  width := 4
  enc x := leBytes 4 x.toNat
  dec bs := UInt32.ofNat (leValue bs)
  length_enc x := length_leBytes 4 x.toNat
  dec_enc x := by rw [leValue_leBytes 4 x.toNat_lt, UInt32.ofNat_toNat]
  enc_dec bs h := by
    have hlt := leValue_lt bs
    rw [h] at hlt
    rw [UInt32.toNat_ofNat_of_lt' hlt, ← h, leBytes_leValue]

namespace WordCodec

variable {α : Type u} {β : Type v}

def ofEquiv (c : WordCodec β) (e : α ≃ β) : WordCodec α where
  width := c.width
  enc x := c.enc (e x)
  dec bs := e.symm (c.dec bs)
  length_enc x := c.length_enc (e x)
  dec_enc x := by rw [c.dec_enc, e.symm_apply_apply]
  enc_dec bs h := by rw [e.apply_symm_apply, c.enc_dec bs h]

variable (c : WordCodec α)

def encAll (xs : List α) : List UInt8 := xs.flatMap c.enc

def decAll : ℕ → List UInt8 → List α
  | 0, _ => []
  | n + 1, bs => c.dec (bs.take c.width) :: decAll n (bs.drop c.width)

@[simp] theorem length_encAll (xs : List α) : (c.encAll xs).length = xs.length * c.width := by
  induction xs with
  | nil => simp [encAll]
  | cons x xs ih =>
    rw [encAll, List.flatMap_cons, List.length_append, length_enc, ← encAll, ih, List.length_cons,
      Nat.succ_mul, Nat.add_comm]

@[simp] theorem length_decAll (n : ℕ) (bs : List UInt8) : (c.decAll n bs).length = n := by
  induction n generalizing bs with
  | zero => rfl
  | succ n ih => rw [decAll, List.length_cons, ih]

theorem decAll_encAll (xs : List α) : c.decAll xs.length (c.encAll xs) = xs := by
  induction xs with
  | nil => rfl
  | cons x xs ih =>
    have hx : (c.enc x).length = c.width := c.length_enc x
    rw [encAll, List.flatMap_cons, ← encAll, List.length_cons, decAll, List.take_left' hx,
      List.drop_left' hx, c.dec_enc, ih]

theorem encAll_decAll (n : ℕ) {bs : List UInt8} (h : bs.length = n * c.width) :
    c.encAll (c.decAll n bs) = bs := by
  induction n generalizing bs with
  | zero =>
    rw [Nat.zero_mul] at h
    rw [List.eq_nil_of_length_eq_zero h]
    rfl
  | succ n ih =>
    rw [Nat.succ_mul] at h
    have hd : (bs.drop c.width).length = n * c.width := by
      rw [List.length_drop]
      omega
    have ht : (bs.take c.width).length = c.width := by
      rw [List.length_take]
      omega
    rw [decAll, encAll, List.flatMap_cons, ← encAll, ih hd, c.enc_dec _ ht,
      List.take_append_drop]

end WordCodec

/-! ### Streams -/

/-- An `std::ofstream`: what has been stored, and whether no write has failed. -/
structure OutStream where
  stored : List UInt8
  good : Bool

/-- `write`, where the device stores all bytes or, given `some n`, only the first `n`. -/
def OutStream.write (f : OutStream) (limit : Option ℕ) (bytes : List UInt8) : OutStream :=
  if f.good then
    match limit with
    | none => ⟨f.stored ++ bytes, true⟩
    | some n => ⟨f.stored ++ bytes.take n, false⟩
  else f

/-- A sequence of writes, the `i`-th one under the limit `fault i`. -/
def OutStream.writeAll (fault : ℕ → Option ℕ) : ℕ → OutStream → List (List UInt8) → OutStream
  | _, f, [] => f
  | i, f, bytes :: chunks => writeAll fault (i + 1) (f.write (fault i) bytes) chunks

theorem OutStream.writeAll_reliable (i : ℕ) (stored : List UInt8) (chunks : List (List UInt8)) :
    writeAll (fun _ => none) i ⟨stored, true⟩ chunks = ⟨stored ++ chunks.flatten, true⟩ := by
  induction chunks generalizing i stored with
  | nil => rw [writeAll, List.flatten_nil, List.append_nil]
  | cons bytes chunks ih =>
    rw [writeAll, List.flatten_cons, ← List.append_assoc]
    exact ih (i + 1) (stored ++ bytes)

theorem OutStream.writeAll_failed (fault : ℕ → Option ℕ) (i : ℕ) (stored : List UInt8)
    (chunks : List (List UInt8)) : writeAll fault i ⟨stored, false⟩ chunks = ⟨stored, false⟩ := by
  induction chunks generalizing i with
  | nil => rfl
  | cons bytes chunks ih => exact ih (i + 1)

/-- No byte is lost: the first write that fails, if there is one, has stored all of its bytes, and
only empty writes come after it. -/
def OutStream.Lossless (fault : ℕ → Option ℕ) : ℕ → List (List UInt8) → Prop
  | _, [] => True
  | i, bytes :: chunks =>
    match fault i with
    | none => Lossless fault (i + 1) chunks
    | some n => bytes.length ≤ n ∧ chunks.flatten = []

theorem OutStream.stored_writeAll_iff (fault : ℕ → Option ℕ) (i : ℕ) (stored : List UInt8)
    (chunks : List (List UInt8)) :
    (writeAll fault i ⟨stored, true⟩ chunks).stored = stored ++ chunks.flatten ↔
      Lossless fault i chunks := by
  induction chunks generalizing i stored with
  | nil => simp [writeAll, Lossless]
  | cons bytes chunks ih =>
    rw [writeAll, Lossless, List.flatten_cons]
    rcases hfault : fault i with _ | n
    · rw [← List.append_assoc]
      exact ih (i + 1) (stored ++ bytes)
    · -- the stream stays failed, so that nothing of the later writes is stored
      have hwrite : write ⟨stored, true⟩ (some n) bytes = ⟨stored ++ bytes.take n, false⟩ := rfl
      rw [hwrite, writeAll_failed, List.append_cancel_left_eq]
      constructor
      · intro h
        have hlen := congrArg List.length h
        rw [List.length_take, List.length_append] at hlen
        have hempty : chunks.flatten.length = 0 := by omega
        exact ⟨by omega, List.length_eq_zero_iff.mp hempty⟩
      · rintro ⟨hle, hempty⟩
        rw [List.take_of_length_le hle, hempty, List.append_nil]

/-- An `std::ifstream`: the bytes ahead, and whether no read has failed. -/
structure InStream where
  rest : List UInt8
  good : Bool

namespace InStream

/-- `read` into a buffer with the given contents. -/
def read (f : InStream) (buf : List UInt8) : List UInt8 × InStream :=
  if f.good then
    (f.rest.take buf.length ++ buf.drop f.rest.length,
      ⟨f.rest.drop buf.length, decide (buf.length ≤ f.rest.length)⟩)
  else (buf, f)

theorem read_append {bs buf : List UInt8} (h : bs.length = buf.length) (rest : List UInt8) :
    read ⟨bs ++ rest, true⟩ buf = (bs, ⟨rest, true⟩) := by
  have hle : buf.length ≤ (bs ++ rest).length := by
    rw [List.length_append]
    omega
  simp only [read, if_true, List.take_left' h, List.drop_left' h, List.drop_of_length_le hle,
    List.append_nil, hle, decide_true]

theorem read_failed {f : InStream} (h : f.good = false) (buf : List UInt8) :
    f.read buf = (buf, f) := if_neg (by simp [h])

theorem read_good (f : InStream) (buf : List UInt8) (h : (f.read buf).2.good = true) :
    f.good = true ∧ f.rest = (f.read buf).1 ++ (f.read buf).2.rest ∧
      (f.read buf).1.length = buf.length := by
  rcases hf : f.good with _ | _
  · rw [read_failed hf, hf] at h
    exact absurd h Bool.false_ne_true
  · simp only [read, hf, if_true] at h ⊢
    have hle := of_decide_eq_true h
    rw [List.drop_of_length_le hle, List.append_nil]
    exact ⟨trivial, (List.take_append_drop ..).symm, List.length_take_of_le hle⟩

def readSize (f : InStream) : ℕ × InStream :=
  let r := f.read (List.replicate 8 0)
  (leValue r.1, r.2)

theorem readSize_fst {f : InStream} (h : f.good = true) :
    f.readSize.1 = leValue (f.rest.take 8) := by
  simp only [readSize, read, h, if_true, List.length_replicate, List.drop_replicate]
  exact leValue_append_zeros ..

theorem readSize_failed {f : InStream} (h : f.good = false) : f.readSize = (0, f) := by
  rw [readSize, read_failed h]
  rfl

theorem readSize_append {n : ℕ} (h : n < 2 ^ 64) (rest : List UInt8) :
    readSize ⟨leBytes 8 n ++ rest, true⟩ = (n, ⟨rest, true⟩) := by
  have h' : n < 256 ^ 8 := h
  rw [readSize, read_append (by simp), leValue_leBytes 8 h']

theorem readSize_good {f : InStream} (h : f.readSize.2.good = true) :
    f.good = true ∧ f.rest = leBytes 8 f.readSize.1 ++ f.readSize.2.rest := by
  obtain ⟨hg, hr, hl⟩ := read_good f (List.replicate 8 0) h
  rw [List.length_replicate] at hl
  refine ⟨hg, hr.trans ?_⟩
  have he := leBytes_leValue (f.read (List.replicate 8 0)).1
  rw [hl] at he
  rw [readSize, he]

variable {α : Type u} (c : WordCodec α)

def readWord (old : α) (f : InStream) : α × InStream :=
  let r := f.read (c.enc old)
  (c.dec r.1, r.2)

theorem readWord_append (old x : α) (rest : List UInt8) :
    readWord c old ⟨c.enc x ++ rest, true⟩ = (x, ⟨rest, true⟩) := by
  rw [readWord, read_append (by simp), c.dec_enc]

theorem readWord_failed {f : InStream} (h : f.good = false) (old : α) :
    readWord c old f = (old, f) := by rw [readWord, read_failed h, c.dec_enc]

theorem readWord_good {f : InStream} {old : α} (h : (readWord c old f).2.good = true) :
    f.good = true ∧ f.rest = c.enc (readWord c old f).1 ++ (readWord c old f).2.rest := by
  obtain ⟨hg, hr, hl⟩ := read_good f (c.enc old) h
  refine ⟨hg, hr.trans ?_⟩
  rw [readWord, c.enc_dec _ (hl.trans (c.length_enc old))]

def readArray (n : ℕ) (f : InStream) : List α × InStream :=
  let r := f.read (List.replicate (n * c.width) 0)
  (c.decAll n r.1, r.2)

theorem readArray_append (xs : List α) (rest : List UInt8) :
    readArray c xs.length ⟨c.encAll xs ++ rest, true⟩ = (xs, ⟨rest, true⟩) := by
  rw [readArray, read_append (by simp), c.decAll_encAll]

theorem readArray_good {n : ℕ} {f : InStream} (h : (readArray c n f).2.good = true) :
    f.good = true ∧ f.rest = c.encAll (readArray c n f).1 ++ (readArray c n f).2.rest := by
  obtain ⟨hg, hr, hl⟩ := read_good f (List.replicate (n * c.width) 0) h
  rw [List.length_replicate] at hl
  refine ⟨hg, hr.trans ?_⟩
  rw [readArray, c.encAll_decAll n hl]

end InStream

/-! ### Length-prefixed arrays -/

section Framed

variable {α : Type u} (c : WordCodec α)

def framedWrites (xs : List α) : List (List UInt8) := [leBytes 8 xs.length, c.encAll xs]

def framed (xs : List α) : List UInt8 := leBytes 8 xs.length ++ c.encAll xs

/-- Reads a length, resizes an array to it if `grants` allows, and fills the array. -/
def InStream.readFramed (grants : ℕ → Bool) (f : InStream) : Option (List α × InStream) :=
  let (n, f) := f.readSize
  if grants n then some (f.readArray c n) else none

namespace InStream

variable {grants : ℕ → Bool}

theorem readFramed_append {xs : List α} (hlen : xs.length < 2 ^ 64)
    (hg : grants xs.length = true) (rest : List UInt8) :
    readFramed c grants ⟨framed c xs ++ rest, true⟩ = some (xs, ⟨rest, true⟩) := by
  rw [readFramed, framed, List.append_assoc, readSize_append hlen]
  simp only [hg, if_true, readArray_append]

theorem readFramed_eq_none_iff {f : InStream} (h : f.good = true) :
    readFramed c grants f = none ↔ grants (leValue (f.rest.take 8)) = false := by
  rw [readFramed, ← readSize_fst h]
  rcases hg : grants f.readSize.1 <;> simp [hg]

theorem readFramed_failed (h0 : grants 0 = true) {f : InStream} (h : f.good = false) :
    readFramed c grants f = some ([], f) := by
  rw [readFramed, readSize_failed h]
  simp only [h0, if_true, readArray, read_failed h]
  rfl

theorem readFramed_good {f f' : InStream} {xs : List α}
    (h : readFramed c grants f = some (xs, f')) (hgood : f'.good = true) :
    f.good = true ∧ f.rest = framed c xs ++ f'.rest ∧ grants xs.length = true := by
  rcases hg : grants f.readSize.1 with _ | _
  · simp [readFramed, hg] at h
  · simp only [readFramed, hg, if_true, Option.some_inj] at h
    have h1 : f.readSize.2.readArray c f.readSize.1 = (xs, f') := h
    have hx : xs.length = f.readSize.1 := by
      have hfst : xs = (f.readSize.2.readArray c f.readSize.1).1 := by rw [h1]
      rw [hfst]
      exact c.length_decAll ..
    have h2 := readArray_good c (n := f.readSize.1) (f := f.readSize.2) (by rw [h1]; exact hgood)
    rw [h1] at h2
    have h3 := readSize_good h2.1
    refine ⟨h3.1, ?_, hx ▸ hg⟩
    rw [h3.2, h2.2, framed, hx, List.append_assoc]

end InStream

end Framed

end ParamServer.Library
