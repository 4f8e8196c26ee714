import Mathlib.Algebra.Ring.Int.Defs
import Mathlib.Data.Rat.Defs
import Mathlib.Logic.Equiv.Defs

/-! Tensors as the parameter server and the worker exchange them, over any type of data
values, and the arithmetic that the code performs on `float` data. -/

namespace ParamServer

/-- The arithmetic on data values: `0.0f`, `+=`, `-=`, `/=` by an `int32_t`, and the
`0.01f` that stands for a gradient. -/
class Scalar (V : Type) where
  zero : V
  add : V → V → V
  sub : V → V → V
  divCount : V → Int32 → V
  hundredth : V

instance : Scalar ℚ where
  zero := 0
  add := (· + ·)
  sub := (· - ·)
  divCount x n := x / (n.toInt : ℚ)
  hundredth := 1 / 100

/-- Unsigned integers as data values, for runs on fixed inputs. -/
instance : Scalar UInt32 where
  zero := 0
  add := (· + ·)
  sub := (· - ·)
  divCount x n := x / n.toUInt32
  hundredth := 1

/-- Data values that are 4-byte words in memory. -/
class Word (V : Type) where
  bits : V ≃ UInt32

instance : Word UInt32 := ⟨Equiv.refl _⟩

/-- `tensor` of the server and `TensorLite` of the worker; names are arbitrary bytes. -/
structure Tensor (V : Type) where
  name : List UInt8
  shape : List Int32
  data : List V
  dtype : Int32
deriving DecidableEq, Repr

/-- A tensor `w` of one word, for runs on fixed inputs. -/
def word (x : UInt32) : Tensor UInt32 := ⟨[119], [1], [x], 0⟩

variable {V : Type}

/-- What the update of a parameter looks at besides the data values. -/
def Tensor.layout (t : Tensor V) : List UInt8 × List Int32 × ℕ := (t.name, t.shape, t.data.length)

def layout (ts : List (Tensor V)) : List (List UInt8 × List Int32 × ℕ) := ts.map Tensor.layout

/-- What is fixed of a tensor before its data values are. -/
structure TensorSpec where
  name : List UInt8
  shape : List Int32
  dataSize : ℕ
  dtype : Int32
deriving DecidableEq

def Tensor.spec (t : Tensor V) : TensorSpec := ⟨t.name, t.shape, t.data.length, t.dtype⟩

theorem layout_congr {ts us : List (Tensor V)} (h : ts.map Tensor.spec = us.map Tensor.spec) :
    layout ts = layout us := by
  have hlayout : ∀ vs : List (Tensor V),
      layout vs = (vs.map Tensor.spec).map fun l => (l.name, l.shape, l.dataSize) := by
    intro vs
    rw [List.map_map]
    rfl
  rw [hlayout, hlayout, h]

theorem ne_nil_of_map_spec_eq {ts us : List (Tensor V)}
    (h : ts.map Tensor.spec = us.map Tensor.spec) (hu : us ≠ []) : ts ≠ [] := by
  rintro rfl
  exact hu (List.map_eq_nil_iff.mp h.symm)

/-- `static_cast<size_t>` of an `int`. -/
def toSizeT (n : Int32) : ℕ := (n.toInt % 2 ^ 64).toNat

theorem toSizeT_of_nonneg {n : Int32} (h : 0 ≤ n.toInt) : toSizeT n = n.toInt.toNat := by
  have := n.toInt_lt
  rw [toSizeT, Int.emod_eq_of_lt h (by omega)]

/-- `static_cast<int32_t>` of a count that came from a nonnegative `int`. -/
theorem int32_ofNat_toNat {n : Int32} (h : 0 ≤ n.toInt) : Int32.ofNat n.toInt.toNat = n := by
  have := n.toInt_lt
  rw [← Int32.toInt_inj, Int32.toInt_ofNat_of_lt (by omega)]
  omega

end ParamServer
