/-
Natural numbers up to saturation.

`SatEq M a b` says that `a` and `b` are equal or both at least `M`, so that they
cannot be told apart once clamped to `M`.  Sums and products with natural
weights respect it, a weight of zero included, so a computation may clamp its
intermediate results wherever it likes above `M`.

* `SatEq.add`, `SatEq.mul`, `SatEq.sum` — the operations;
* `satEq_min` — clamping at `M` or above;
* `toNat_ofNat_min`, `toNat_mul_lt` — words that hold clamped numbers and products.
-/
import Mathlib.Tactic

/-- Equal once clamped to `M`. -/
def SatEq (M a b : ℕ) : Prop := min M a = min M b

namespace SatEq

variable {M a b c d : ℕ}

theorem refl (a : ℕ) : SatEq M a a := rfl

theorem symm (h : SatEq M a b) : SatEq M b a := Eq.symm h

theorem trans (h : SatEq M a b) (h' : SatEq M b c) : SatEq M a c := Eq.trans h h'

/-- Equal, or both at least `M`. -/
theorem eq_or_le (h : SatEq M a b) : a = b ∨ M ≤ a ∧ M ≤ b := by
  unfold SatEq at h
  omega

theorem of_le (ha : M ≤ a) (hb : M ≤ b) : SatEq M a b := by
  unfold SatEq
  omega

theorem add (h : SatEq M a b) (h' : SatEq M c d) : SatEq M (a + c) (b + d) := by
  unfold SatEq at h h' ⊢
  omega

theorem mul (h : SatEq M a b) (k : ℕ) : SatEq M (k * a) (k * b) := by
  rcases h.eq_or_le with rfl | ⟨ha, hb⟩
  · exact refl _
  · rcases Nat.eq_zero_or_pos k with rfl | hk
    · rw [Nat.zero_mul, Nat.zero_mul]
      exact refl 0
    · exact of_le (ha.trans (Nat.le_mul_of_pos_left a hk)) (hb.trans (Nat.le_mul_of_pos_left b hk))

theorem sum {ι : Type*} (s : Finset ι) {f g : ι → ℕ} (h : ∀ i ∈ s, SatEq M (f i) (g i)) :
    SatEq M (∑ i ∈ s, f i) (∑ i ∈ s, g i) := by
  induction s using Finset.cons_induction with
  | empty => exact refl _
  | cons i s hi ih =>
    rw [Finset.sum_cons, Finset.sum_cons]
    exact (h i (Finset.mem_cons_self i s)).add (ih fun j hj => h j (Finset.mem_cons_of_mem hj))

end SatEq

/-- Clamping at `M` or above makes no difference. -/
theorem satEq_min {M N : ℕ} (h : M ≤ N) (a : ℕ) : SatEq M (min N a) a := by
  unfold SatEq
  omega

/-! ### Words -/

theorem toNat_ofNat_min (w x : ℕ) :
    (BitVec.ofNat w (min (2 ^ w - 1) x)).toNat = min (2 ^ w - 1) x := by
  have := Nat.two_pow_pos w
  rw [BitVec.toNat_ofNat, Nat.mod_eq_of_lt (by omega)]

/-- The product of two words fits twice the width. -/
theorem toNat_mul_lt {w : ℕ} (a b : BitVec w) : a.toNat * b.toNat < 2 ^ (2 * w) := by
  have hprod := Nat.mul_lt_mul'' a.isLt b.isLt
  rwa [← pow_add, ← Nat.two_mul] at hprod

/-- So does the sum. -/
theorem toNat_add_lt {w : ℕ} (hw : 0 < w) (a b : BitVec w) : a.toNat + b.toNat < 2 ^ (2 * w) := by
  have ha := a.isLt
  have hb := b.isLt
  have hpow : 2 * 2 ^ w ≤ 2 ^ (2 * w) := by
    rw [Nat.mul_comm, ← pow_succ]
    exact Nat.pow_le_pow_right two_pos (by omega)
  omega
