/-
Bilinear interpolation of a grid of samples.

Samples stand at the integers; `bilinear f y x` interpolates between the four
around `(y, x)`.  When an image is enlarged by an even factor, the centres of
its elements fall between the samples at odd multiples of half an element, and
the rounded interpolation is a quotient of natural numbers.

* `linear_centre` — the weights of the two samples around a centre;
* `roundHalfUp_bilinear` — the interpolation at a centre, rounded half up;
* `quotient_rows`, `quotient_columns`, `quotient_samples` — the same where
  samples agree.
-/
import Mathlib.Tactic

namespace Bilinear

/-- Between samples at the integers. -/
def linear (f : ℤ → ℚ) (x : ℚ) : ℚ := (1 - Int.fract x) * f ⌊x⌋ + Int.fract x * f (⌊x⌋ + 1)

/-- Between samples at pairs of integers. -/
def bilinear (f : ℤ → ℤ → ℚ) (y x : ℚ) : ℚ := linear (fun row => linear (f row) x) y

/-- Where the centre of element `i` lies among the samples, for an image that
is `ratio` times as large. -/
def centre (ratio i : ℕ) : ℚ := (i + 1 / 2) / ratio - 1 / 2

def roundHalfUp (q : ℚ) : ℤ := ⌊q + 1 / 2⌋

/-- Samples `a` and `b`, weighted for the centre of the `i`th element between
them; the weights add up to `2 * ratio`. -/
def weighted (ratio i a b : ℕ) : ℕ := (2 * ratio - (2 * i + 1)) * a + (2 * i + 1) * b

/-- Four samples, for element `i` of the `j`th row between them. -/
def quotient (ratio j i a b c d : ℕ) : ℕ :=
  (weighted ratio j (weighted ratio i a b) (weighted ratio i c d) + 2 * ratio * ratio) /
    (2 * ratio * (2 * ratio))

variable {half i j n n' k l a b c d : ℕ}

theorem linear_add (f : ℤ → ℚ) (n : ℤ) {w : ℚ} (h0 : 0 ≤ w) (h1 : w < 1) :
    linear f (n + w) = (1 - w) * f n + w * f (n + 1) := by
  have hfloor : ⌊(n : ℚ) + w⌋ = n := by
    rw [Int.floor_intCast_add, Int.floor_eq_zero_iff.mpr ⟨h0, h1⟩, add_zero]
  have hfract : Int.fract ((n : ℚ) + w) = w := by
    rw [Int.fract, hfloor]
    ring
  rw [linear, hfloor, hfract]

/-- The centre of an element, `i` elements after the middle between two
samples. -/
theorem centre_eq (hhalf : 0 < half) (hk : k + half = n * (2 * half) + i) :
    centre (2 * half) k = ((n - 1 : ℤ) : ℚ) + (2 * i + 1) / (2 * (2 * half)) := by
  have hpos : (half : ℚ) ≠ 0 := by exact_mod_cast hhalf.ne'
  have hk' : (k : ℚ) = n * (2 * half) + i - half := by
    have : (k : ℚ) + half = n * (2 * half) + i := by exact_mod_cast hk
    linarith
  rw [centre, hk']
  push_cast
  field_simp
  ring

/-- **The two samples around a centre, and their weights.** -/
theorem linear_centre (f : ℤ → ℚ) (hi : i < 2 * half) (hk : k + half = n * (2 * half) + i) :
    linear f (centre (2 * half) k) =
      ((2 * (2 * half) - (2 * i + 1)) * f (n - 1) + (2 * i + 1) * f n) / (2 * (2 * half)) := by
  have hhalf : 0 < half := by omega
  have hpos : (0 : ℚ) < 2 * (2 * half) := by
    have : (0 : ℚ) < half := by exact_mod_cast hhalf
    linarith
  have hlt : (2 * i + 1 : ℚ) < 2 * (2 * half) := by
    have : 2 * i + 1 < 2 * (2 * half) := by omega
    exact_mod_cast this
  rw [centre_eq hhalf hk, linear_add f _ (by positivity) ((div_lt_one hpos).mpr hlt),
    sub_add_cancel]
  field_simp

theorem cast_weighted (hi : i < 2 * half) (a b : ℕ) :
    (weighted (2 * half) i a b : ℚ) =
      (2 * (2 * half) - (2 * i + 1)) * a + (2 * i + 1) * b := by
  rw [weighted]
  push_cast [Nat.cast_sub (show 2 * i + 1 ≤ 2 * (2 * half) by omega)]
  ring

theorem roundHalfUp_div {s : ℕ} (hs : 0 < s) (x : ℕ) :
    roundHalfUp ((x : ℚ) / (2 * s)) = ((x + s) / (2 * s) : ℕ) := by
  have hpos : (s : ℚ) ≠ 0 := by exact_mod_cast hs.ne'
  have heq : (x : ℚ) / (2 * s) + 1 / 2 = ((x + s : ℕ) : ℚ) / ((2 * s : ℕ) : ℚ) := by
    push_cast
    field_simp
  rw [roundHalfUp, heq, Rat.floor_natCast_div_natCast]
  exact_mod_cast rfl

/-- **The interpolation at the centre of an element, rounded half up.** -/
theorem roundHalfUp_bilinear (f : ℤ → ℤ → ℕ) (hj : j < 2 * half)
    (hk : k + half = n * (2 * half) + j) (hi : i < 2 * half)
    (hl : l + half = n' * (2 * half) + i) :
    roundHalfUp (bilinear (fun y x => f y x) (centre (2 * half) k) (centre (2 * half) l)) =
      quotient (2 * half) j i (f (n - 1) (n' - 1)) (f (n - 1) n') (f n (n' - 1)) (f n n') := by
  have hhalf : 0 < half := by omega
  have hpos : (half : ℚ) ≠ 0 := by exact_mod_cast hhalf.ne'
  have hvalue : bilinear (fun y x => f y x) (centre (2 * half) k) (centre (2 * half) l) =
      (weighted (2 * half) j (weighted (2 * half) i (f (n - 1) (n' - 1)) (f (n - 1) n'))
        (weighted (2 * half) i (f n (n' - 1)) (f n n')) : ℕ) /
          (2 * (2 * (2 * half) * (2 * half) : ℕ)) := by
    rw [bilinear, linear_centre _ hj hk, linear_centre _ hi hl, linear_centre _ hi hl,
      cast_weighted hj, cast_weighted hi, cast_weighted hi]
    push_cast
    field_simp
  rw [hvalue, roundHalfUp_div (by positivity), quotient]
  congr 2
  ring

/-! ### Samples that agree -/

theorem weighted_self (hi : i < 2 * half) (a : ℕ) :
    weighted (2 * half) i a a = 2 * (2 * half) * a := by
  rw [weighted, ← Nat.add_mul, Nat.sub_add_cancel (by omega)]

theorem weighted_mul (ratio i q a b : ℕ) :
    weighted ratio i (q * a) (q * b) = q * weighted ratio i a b := by
  unfold weighted
  ring

theorem quotient_eq_of_weighted {ratio s : ℕ} (hratio : 0 < ratio)
    (h : weighted ratio j (weighted ratio i a b) (weighted ratio i c d) = 2 * ratio * s) :
    quotient ratio j i a b c d = (s + ratio) / (2 * ratio) := by
  rw [quotient, h, ← Nat.mul_add, Nat.mul_div_mul_left _ _ (by omega)]

/-- Two equal rows of samples. -/
theorem quotient_rows (hj : j < 2 * half) (i a b : ℕ) :
    quotient (2 * half) j i a b a b = (weighted (2 * half) i a b + 2 * half) / (2 * (2 * half)) :=
  quotient_eq_of_weighted (by omega) (weighted_self hj _)

/-- Two equal columns of samples. -/
theorem quotient_columns (hi : i < 2 * half) (j a c : ℕ) :
    quotient (2 * half) j i a a c c = (weighted (2 * half) j a c + 2 * half) / (2 * (2 * half)) :=
  quotient_eq_of_weighted (by omega) (by rw [weighted_self hi, weighted_self hi, weighted_mul])

/-- One sample only. -/
theorem quotient_samples (hj : j < 2 * half) (hi : i < 2 * half) (a : ℕ) :
    quotient (2 * half) j i a a a a = a := by
  rw [quotient_rows hj, weighted_self hi, Nat.mul_add_div (by omega),
    Nat.div_eq_of_lt (by omega), Nat.add_zero]

end Bilinear
