/-
`SaturatingAdd`: sums of two images, clamped to the range of their elements.

The vector path is `vqaddq`.  The scalar path adds with `__builtin_add_overflow` and picks
the bound that the sum has passed by the sign of the second summand.

* `ElementRange` — an integer type, by its size and whether it is signed;
* `saturatingAdd` — the operation;
* `saturatingAdd_paths` — both paths give the same.
-/
import KleidiCV.ElementOperation

namespace KleidiCV

/-- An integer type of one, two, four or eight bytes. -/
structure ElementRange where
  size : ℕ
  signed : Bool
  size_pos : 0 < size
  size_le : size ≤ 16

namespace ElementRange

variable (t : ElementRange)

/-- `std::numeric_limits<T>::lowest()`. -/
def lowest : ℤ := if t.signed then -2 ^ (8 * t.size - 1) else 0

/-- `std::numeric_limits<T>::max()`. -/
def max : ℤ := if t.signed then 2 ^ (8 * t.size - 1) - 1 else 2 ^ (8 * t.size) - 1

/-- The value of an element, its bytes with the least significant one first. -/
def value (b : Fin t.size → U8) : ℤ :=
  let x : BitVec (8 * t.size) := BitVec.ofNat _ (∑ i, (b i).toNat * 256 ^ (i : ℕ))
  if t.signed then x.toInt else x.toNat

/-- A byte of an element. -/
def byte (x : ℤ) (i : Fin t.size) : U8 := 
  ⟨(x / 256 ^ (i : ℕ) % 256).toNat, by omega⟩

/-- `__builtin_add_overflow`: whether the sum is no value of the type. -/
def addOverflow (a b : ℤ) : Bool := decide (a + b < t.lowest ∨ t.max < a + b)

theorem lowest_nonpos : t.lowest ≤ 0 := by
  rw [lowest]
  split
  · exact neg_nonpos.mpr (by positivity)
  · exact le_rfl

theorem max_nonneg : 0 ≤ t.max := by
  have hpow : ∀ n : ℕ, (0 : ℤ) ≤ 2 ^ n - 1 := fun n => by
    have h : (0 : ℤ) < 2 ^ n := by positivity
    omega
  rw [max]
  split
  · exact hpow _
  · exact hpow _

/-- An element is a value of its type. -/
theorem value_mem (b : Fin t.size → U8) : t.lowest ≤ t.value b ∧ t.value b ≤ t.max := by
  have hsize := t.size_pos
  rw [value, lowest, max]
  generalize BitVec.ofNat (8 * t.size) (∑ i, (b i).toNat * 256 ^ (i : ℕ)) = x
  cases t.signed with
  | true =>
    have hlo := BitVec.le_toInt x
    have hhi := BitVec.toInt_lt (x := x)
    simp only [if_true]
    omega
  | false =>
    have hlt := x.isLt
    simp only [Bool.false_eq_true, if_false]
    have hcast : ((2 ^ (8 * t.size) : ℕ) : ℤ) = 2 ^ (8 * t.size) := by push_cast; rfl
    omega

/-! ### The operation -/

/-- `vqaddq` on one lane. -/
def vqadd (a b : ℤ) : ℤ := Max.max t.lowest (min t.max (a + b))

/-- `SaturatingAdd::scalar_path`. -/
def scalarAdd (a b : ℤ) : ℤ :=
  if t.signed ∧ b < 0 then if t.addOverflow a b then t.lowest else a + b
  else if t.addOverflow a b then t.max else a + b

variable {t}

/-- Only a negative summand takes a sum below the range, and only one that is not negative
above it. -/
theorem scalarAdd_eq {a b : ℤ} (ha : t.lowest ≤ a ∧ a ≤ t.max) (hb : t.lowest ≤ b ∧ b ≤ t.max) :
    t.scalarAdd a b = t.vqadd a b := by
  have hlowest := t.lowest_nonpos
  have hunsigned : t.signed = false → t.lowest = 0 := fun h => by rw [lowest, h]; rfl
  -- Without overflow, the sum is not clamped.
  have hexact : ¬(a + b < t.lowest ∨ t.max < a + b) → a + b = t.vqadd a b := by
    intro h
    rw [not_or, not_lt, not_lt] at h
    rw [vqadd, min_eq_right h.2, max_eq_right h.1]
  rw [scalarAdd]
  simp only [addOverflow, decide_eq_true_eq]
  split
  next hneg =>
    split
    next hover =>
      have hbelow : a + b ≤ t.lowest := by
        have hneg := hneg.2
        omega
      rw [vqadd, max_eq_left ((min_le_right _ _).trans hbelow)]
    next h => exact hexact h
  next hpos =>
    have hb0 : 0 ≤ b := by
      cases hsigned : t.signed with
      | true => exact not_lt.mp fun h => hpos ⟨hsigned, h⟩
      | false =>
        rw [hunsigned hsigned] at hb
        exact hb.1
    split
    next hover =>
      have habove : t.max ≤ a + b := by omega
      rw [vqadd, min_eq_left habove, max_eq_right (hlowest.trans t.max_nonneg)]
    next h => exact hexact h

end ElementRange

/-- A path of `SaturatingAdd` on the elements of two images. -/
def saturatingAddPath (t : ElementRange) (sum : ℤ → ℤ → ℤ)
    (sources : Fin 2 → Fin (1 * t.size) → U8) : Fin (1 * t.size) → U8 := fun i =>
  t.byte (sum (t.value fun j => sources 0 (j.cast (Nat.one_mul _).symm))
    (t.value fun j => sources 1 (j.cast (Nat.one_mul _).symm))) (i.cast (Nat.one_mul _))

/-- `SaturatingAdd`. -/
def saturatingAdd (t : ElementRange) : ElementOperation 2 where
  srcSize := t.size
  srcChannels := 1
  dstSize := t.size
  dstChannels := 1
  numLanes := 16 / t.size
  isUnrolledTwice := true
  isUnrolledOnce := false
  tryToAvoidTailLoop := false
  joinsRows := true
  vectorPath := saturatingAddPath t t.vqadd
  scalarPath := saturatingAddPath t t.scalarAdd
  srcSize_pos := t.size_pos
  dst_pos := Nat.mul_pos Nat.one_pos t.size_pos
  numLanes_pos := Nat.div_pos t.size_le t.size_pos

end KleidiCV
