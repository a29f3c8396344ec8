/-
Rounding integers to a number of significant bits.

A binary floating-point operation on integers below its overflow bound gives
the exact integer rounded to the precision of the format, ties to even.

* `roundInt_of_abs_lt` — integers of at most `p` bits are not changed.
-/
import Mathlib.Tactic

namespace Rounding

/-- `a` rounded to `p` significant bits, ties to even. -/
def roundNat (p a : ℕ) : ℕ :=
  let unit := 2 ^ (a.log2 + 1 - p)
  let q := a / unit
  let r := a % unit
  if 2 * r < unit then q * unit
  else if unit < 2 * r then (q + 1) * unit
  else (q + q % 2) * unit

/-- The same for either sign. -/
def roundInt (p : ℕ) (z : ℤ) : ℤ :=
  if 0 ≤ z then roundNat p z.natAbs else -(roundNat p z.natAbs : ℤ)

theorem roundNat_of_lt {p a : ℕ} (hp : 0 < p) (h : a < 2 ^ p) : roundNat p a = a := by
  have hlog : a.log2 + 1 - p = 0 := by
    rcases Nat.eq_zero_or_pos a with rfl | ha
    · simp only [Nat.log2_zero]
      omega
    · have := (Nat.log2_lt ha.ne').mpr h
      omega
  simp [roundNat, hlog, Nat.mod_one]

theorem roundInt_of_abs_lt {p : ℕ} (hp : 0 < p) {z : ℤ} (h : |z| < 2 ^ p) :
    roundInt p z = z := by
  have hn : z.natAbs < 2 ^ p := by
    rw [Int.abs_eq_natAbs] at h
    exact_mod_cast h
  unfold roundInt
  rw [roundNat_of_lt hp hn]
  split <;> omega

end Rounding
