import Mathlib.Data.List.TakeWhile
import Mathlib.Data.UInt

/-! Numbers as text: `std::to_string` and `std::stoi`, on the bytes of a string. -/

namespace ParamServer

/-- `std::to_string` of an `int32_t`. -/
def decimal (n : Int32) : List UInt8 :=
  (if n.toInt < 0 then [45] else []) ++
    (Nat.toDigits 10 n.toInt.natAbs).map fun c => UInt8.ofNat c.toNat

def isSpace (c : UInt8) : Bool := c = 32 || (9 ≤ c && c ≤ 13)

def isDigit (c : UInt8) : Bool := 48 ≤ c && c ≤ 57

def digitsValue (digits : List UInt8) : ℕ :=
  digits.foldl (fun value c => 10 * value + (c.toNat - 48)) 0

/-- An optional sign, and what follows it. -/
def splitSign : List UInt8 → Bool × List UInt8
  | 45 :: text => (true, text)
  | 43 :: text => (false, text)
  | text => (false, text)

/-- `std::stoi`, which throws when there are no digits or when an `int` does not hold the value.
What follows the digits is ignored. -/
def stoi (text : List UInt8) : Option Int32 :=
  let (negative, text) := splitSign (text.dropWhile isSpace)
  let digits := text.takeWhile isDigit
  let value : ℤ := if negative then -digitsValue digits else digitsValue digits
  if digits = [] ∨ value < -2 ^ 31 ∨ 2 ^ 31 ≤ value then none else some (Int32.ofInt value)

/-- The digits of `decimal`, without the sign. -/
def digitsOf (n : ℕ) : List UInt8 := (Nat.toDigits 10 n).map fun c => UInt8.ofNat c.toNat

theorem decimal_eq (n : Int32) :
    decimal n = (if n.toInt < 0 then [45] else []) ++ digitsOf n.toInt.natAbs := rfl

theorem digitsOf_ne_nil (n : ℕ) : digitsOf n ≠ [] := by
  rw [digitsOf, ne_eq, List.map_eq_nil_iff]
  exact Nat.toDigits_ne_nil

/-- The character of a digit, and the byte that stands for it. -/
theorem toNat_of_mem_toDigits {n : ℕ} {c : Char} (h : c ∈ Nat.toDigits 10 n) :
    48 ≤ c.toNat ∧ c.toNat ≤ 57 ∧ (UInt8.ofNat c.toNat).toNat = c.toNat := by
  have hdigit := Nat.isDigit_of_mem_toDigits (by decide) (by decide) h
  have hrange : 48 ≤ c.toNat ∧ c.toNat ≤ 57 := by
    simpa [Char.isDigit, UInt32.le_iff_toNat_le] using hdigit
  refine ⟨hrange.1, hrange.2, ?_⟩
  rw [UInt8.toNat_ofNat']
  omega

theorem isDigit_of_mem_digitsOf {n : ℕ} {b : UInt8} (h : b ∈ digitsOf n) : isDigit b = true := by
  obtain ⟨c, hc, rfl⟩ := List.mem_map.mp h
  obtain ⟨hlow, hhigh, hbyte⟩ := toNat_of_mem_toDigits hc
  rw [isDigit, Bool.and_eq_true, decide_eq_true_eq, decide_eq_true_eq, UInt8.le_iff_toNat_le,
    UInt8.le_iff_toNat_le, hbyte]
  exact ⟨hlow, hhigh⟩

theorem digitsValue_digitsOf (n : ℕ) : digitsValue (digitsOf n) = n := by
  have hfold : ∀ (cs : List Char) (value : ℕ),
      (∀ c ∈ cs, (UInt8.ofNat c.toNat).toNat = c.toNat) →
      (cs.map fun c => UInt8.ofNat c.toNat).foldl (fun value b => 10 * value + (b.toNat - 48))
        value = Nat.ofDigitChars 10 cs value := by
    intro cs value hcs
    induction cs generalizing value with
    | nil => rfl
    | cons c cs ih =>
      rw [List.map_cons, List.foldl_cons, hcs c List.mem_cons_self,
        ih _ fun d hd => hcs d (List.mem_cons_of_mem _ hd)]
      exact Nat.ofDigitChars_cons.symm
  exact (hfold _ 0 fun c hc => (toNat_of_mem_toDigits hc).2.2).trans Nat.ofDigitChars_ten_toDigits

/-- Text that does not go on with a digit. -/
def EndsNumber (rest : List UInt8) : Prop := ∀ c ∈ rest.head?, isDigit c = false

theorem takeWhile_digitsOf {rest : List UInt8} (h : EndsNumber rest) (n : ℕ) :
    (digitsOf n ++ rest).takeWhile isDigit = digitsOf n := by
  have hrest : rest.takeWhile isDigit = [] := by
    rcases rest with _ | ⟨c, rest⟩
    · rfl
    · rw [List.takeWhile_cons_of_neg]
      simp [h c rfl]
  rw [List.takeWhile_append_of_pos fun b hb => isDigit_of_mem_digitsOf hb, hrest, List.append_nil]

theorem splitSign_digitsOf (n : ℕ) (rest : List UInt8) :
    splitSign (digitsOf n ++ rest) = (false, digitsOf n ++ rest) := by
  obtain ⟨b, bs, hb⟩ := List.exists_cons_of_ne_nil (digitsOf_ne_nil n)
  have hdigit : isDigit b = true := isDigit_of_mem_digitsOf (hb ▸ List.mem_cons_self)
  rw [hb, List.cons_append]
  unfold splitSign
  split
  · rename_i heq
    cases heq
    cases hdigit
  · rename_i heq
    cases heq
    cases hdigit
  · rfl

theorem dropWhile_isSpace_decimal (n : Int32) (rest : List UInt8) :
    (decimal n ++ rest).dropWhile isSpace = decimal n ++ rest := by
  obtain ⟨b, bs, hb⟩ := List.exists_cons_of_ne_nil (digitsOf_ne_nil n.toInt.natAbs)
  have hdigit : isDigit b = true := isDigit_of_mem_digitsOf (hb ▸ List.mem_cons_self)
  have hspace : isSpace b = false := by
    rw [isDigit, Bool.and_eq_true, decide_eq_true_eq, decide_eq_true_eq] at hdigit
    rw [isSpace, Bool.or_eq_false_iff, decide_eq_false_iff_not, Bool.and_eq_false_iff,
      decide_eq_false_iff_not, decide_eq_false_iff_not]
    grind
  rw [decimal_eq, hb]
  split
  · rfl
  · rw [List.nil_append, List.cons_append, List.dropWhile_cons_of_neg]
    rw [hspace]
    exact Bool.false_ne_true

/-- What `std::to_string` writes, `std::stoi` reads, up to what ends the number. -/
theorem stoi_decimal (n : Int32) {rest : List UInt8} (h : EndsNumber rest) :
    stoi (decimal n ++ rest) = some n := by
  have hlow := n.le_toInt
  have hhigh := n.toInt_lt
  have hsplit : splitSign (decimal n ++ rest) =
      (decide (n.toInt < 0), digitsOf n.toInt.natAbs ++ rest) := by
    rw [decimal_eq]
    by_cases hneg : n.toInt < 0
    · rw [if_pos hneg, decide_eq_true hneg]
      rfl
    · rw [if_neg hneg, decide_eq_false hneg]
      exact splitSign_digitsOf _ rest
  have hvalue : (if decide (n.toInt < 0) = true then -(n.toInt.natAbs : ℤ) else n.toInt.natAbs) =
      n.toInt := by
    split
    · rename_i hneg
      have hneg : n.toInt < 0 := of_decide_eq_true hneg
      omega
    · rename_i hneg
      have hneg : ¬n.toInt < 0 := fun h => hneg (decide_eq_true h)
      omega
  unfold stoi
  rw [dropWhile_isSpace_decimal, hsplit]
  dsimp only
  rw [takeWhile_digitsOf h, digitsValue_digitsOf, hvalue, if_neg, Int32.ofInt_toInt]
  rintro (hnil | hrange | hrange)
  · exact digitsOf_ne_nil _ hnil
  · omega
  · omega

/-- The text of a number is the number. -/
theorem decimal_injective : Function.Injective decimal := by
  intro m n h
  have hend : EndsNumber [] := by simp [EndsNumber]
  have hm := stoi_decimal m hend
  rw [h, stoi_decimal n hend] at hm
  exact (Option.some.inj hm).symm

end ParamServer
