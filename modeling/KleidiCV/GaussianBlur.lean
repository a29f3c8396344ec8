/-
The binomial kernels of `gaussian_blur` for `uint8_t`, of 3, 5, 7 and 9 taps.

Each kernel comes with a vector path and a scalar path for either direction,
written over arithmetic that keeps track of whether it was exact.  Vertically the
weighted sum is widened to `uint16_t`; horizontally the sum of these is rounded
and narrowed.

* `GaussianBlur.Exact` — what the paths of a kernel have in common: nothing wraps,
  and both compute the weighted sum;
* `gaussianBlur3x3_exact` to `gaussianBlur9x9_exact` — the four kernels.
-/
import KleidiCV.Lib.Tracked
import KleidiCV.SeparableFilter2D

namespace KleidiCV

namespace GaussianBlur

/-! ### Vector arithmetic -/

section

variable {n v w : ℕ}

/-- `vdupq_n`. -/
def vdupqN (w x : ℕ) : Fin n → BitVec w := fun _ => BitVec.ofNat w x

/-- `vaddl`, into words of `w` bits. -/
abbrev vaddl (w : ℕ) (a b : Fin n → BitVec v) : Tracked (Fin n → BitVec w) :=
  Tracked.lanes w fun lane => (a lane).toNat + (b lane).toNat

/-- `vaddq`. -/
abbrev vaddq (a b : Fin n → BitVec w) : Tracked (Fin n → BitVec w) :=
  Tracked.lanes w fun lane => (a lane).toNat + (b lane).toNat

/-- `vshll_n`, into words of `w` bits. -/
abbrev vshllN (w shift : ℕ) (a : Fin n → BitVec v) : Tracked (Fin n → BitVec w) :=
  Tracked.lanes w fun lane => (a lane).toNat * 2 ^ shift

/-- `vshlq_n`. -/
abbrev vshlqN (shift : ℕ) (a : Fin n → BitVec w) : Tracked (Fin n → BitVec w) :=
  Tracked.lanes w fun lane => (a lane).toNat * 2 ^ shift

/-- `vmovl`, into words of `w` bits. -/
abbrev vmovl (w : ℕ) (a : Fin n → BitVec v) : Tracked (Fin n → BitVec w) :=
  Tracked.lanes w fun lane => (a lane).toNat

/-- `vmulq`. -/
abbrev vmulq (a b : Fin n → BitVec w) : Tracked (Fin n → BitVec w) :=
  Tracked.lanes w fun lane => (a lane).toNat * (b lane).toNat

/-- `vmlaq`. -/
abbrev vmlaq (acc a b : Fin n → BitVec w) : Tracked (Fin n → BitVec w) :=
  Tracked.lanes w fun lane => (acc lane).toNat + (a lane).toNat * (b lane).toNat

/-- `vmlal`. -/
abbrev vmlal (acc : Fin n → BitVec w) (a b : Fin n → BitVec v) : Tracked (Fin n → BitVec w) :=
  Tracked.lanes w fun lane => (acc lane).toNat + (a lane).toNat * (b lane).toNat

/-- `vrshrn_n`, into words of `w` bits; the constant for rounding does not wrap. -/
abbrev vrshrnN (w shift : ℕ) (a : Fin n → BitVec v) : Tracked (Fin n → BitVec w) :=
  Tracked.lanes w fun lane => ((a lane).toNat + 2 ^ (shift - 1)) / 2 ^ shift

/-- `vmovn`, into words of `w` bits. -/
abbrev vmovn (w : ℕ) (a : Fin n → BitVec v) : Tracked (Fin n → BitVec w) :=
  Tracked.lanes w fun lane => (a lane).toNat

/-- An `int` that is not negative. -/
abbrev int (x : ℕ) : Tracked (BitVec 31) := Tracked.word 31 x

/-- `rounding_shift_right`. -/
def roundingShiftRight (value : BitVec w) (shift : ℕ) : Tracked (BitVec w) := do
  let sum ← Tracked.word w (value.toNat + 2 ^ (shift - 1))
  pure (sum >>> shift)

theorem roundingShiftRight_ensures {value : BitVec w} {shift : ℕ}
    (h : value.toNat + 2 ^ (shift - 1) < 2 ^ w) :
    (roundingShiftRight value shift).Ensures fun x =>
      x.toNat = (value.toNat + 2 ^ (shift - 1)) / 2 ^ shift := by
  refine (Tracked.word_ensures h).bind fun sum hsum => .pure ?_
  rw [BitVec.toNat_ushiftRight, hsum, Nat.shiftRight_eq_div_pow]

theorem vdupqN_toNat {x : ℕ} (hx : x < 2 ^ w) (lane : Fin n) : (vdupqN w x lane).toNat = x :=
  (BitVec.toNat_ofNat _ _).trans (Nat.mod_eq_of_lt hx)

/-- A constant times a vector, on top of another. -/
theorem mla_ensures {acc : Fin n → BitVec w} {a : Fin n → BitVec v} {x : ℕ} (hx : x < 2 ^ v)
    (h : ∀ lane, (acc lane).toNat + (a lane).toNat * x < 2 ^ w) :
    (vmlal acc a (vdupqN v x)).Ensures fun sum => ∀ lane,
      (sum lane).toNat = (acc lane).toNat + (a lane).toNat * x := by
  simp only [vmlal, vdupqN_toNat hx]
  exact Tracked.lanes_ensures h

theorem mul_ensures {a : Fin n → BitVec w} {x : ℕ} (hx : x < 2 ^ w)
    (h : ∀ lane, (a lane).toNat * x < 2 ^ w) :
    (vmulq a (vdupqN w x)).Ensures fun product => ∀ lane,
      (product lane).toNat = (a lane).toNat * x := by
  simp only [vmulq, vdupqN_toNat hx]
  exact Tracked.lanes_ensures h

/-- Lanes of a vector made of two halves. -/
theorem vcombine_cases {α : Type} {low high : Fin n → α} {P : Fin (2 * n) → α → Prop}
    (hlow : ∀ lane : Fin n, P ⟨lane, lowLane_lt lane⟩ (low lane))
    (hhigh : ∀ lane : Fin n, P ⟨n + lane, highLane_lt lane⟩ (high lane)) (lane : Fin (2 * n)) :
    P lane (vcombine low high lane) := by
  unfold vcombine
  split
  · rename_i h
    exact hlow ⟨lane, h⟩
  · rename_i h
    have hlane : lane = ⟨n + (lane - n), by omega⟩ := Fin.ext (by simp only; omega)
    have := hhigh ⟨lane - n, by omega⟩
    rwa [← hlane] at this

/-- The lower and the upper half of vectors. -/
def lower {α : Type} (src : ℕ → Fin (2 * n) → α) : ℕ → Fin n → α := fun t => vgetLow (src t)

def upper {α : Type} (src : ℕ → Fin (2 * n) → α) : ℕ → Fin n → α := fun t => vgetHigh (src t)

end

end GaussianBlur

/-- `GaussianBlur<uint8_t, KernelSize, true>`. -/
structure GaussianBlur where
  verticalVectorPath : (ℕ → Fin (2 * 8) → BitVec 8) →
    Tracked ((Fin 8 → BitVec 16) × (Fin 8 → BitVec 16))
  verticalScalarPath : (ℕ → BitVec 8) → Tracked (BitVec 16)
  horizontalVectorPath : (ℕ → Fin (2 * 4) → BitVec 16) → Tracked (Fin (2 * 4) → BitVec 8)
  horizontalScalarPath : (ℕ → BitVec 16) → Tracked (BitVec 8)

namespace GaussianBlur

/-! ### 3x3 -/

namespace Blur3x3

/-- One half of `vertical_vector_path`. -/
def verticalHalf (src : ℕ → Fin 8 → BitVec 8) : Tracked (Fin 8 → BitVec 16) := do
  let acc02 ← vaddl 16 (src 0) (src 2)
  let acc1 ← vshllN 16 1 (src 1)
  vaddq acc02 acc1

def verticalVectorPath (src : ℕ → Fin (2 * 8) → BitVec 8) :
    Tracked ((Fin 8 → BitVec 16) × (Fin 8 → BitVec 16)) := do
  let accL ← verticalHalf (lower src)
  let accH ← verticalHalf (upper src)
  pure (accL, accH)

def verticalScalarPath (src : ℕ → BitVec 8) : Tracked (BitVec 16) := do
  let acc ← int ((src 0).toNat + 2 * (src 1).toNat + (src 2).toNat)
  Tracked.word 16 acc.toNat

def horizontalVectorPath (src : ℕ → Fin (2 * 4) → BitVec 16) : Tracked (Fin (2 * 4) → BitVec 8) := do
  let accWide ← vaddq (src 0) (src 2)
  let shifted ← vshlqN 1 (src 1)
  let accWide ← vaddq accWide shifted
  vrshrnN 8 4 accWide

def horizontalScalarPath (src : ℕ → BitVec 16) : Tracked (BitVec 8) := do
  let acc ← int ((src 0).toNat + 2 * (src 1).toNat + (src 2).toNat)
  let rounded ← roundingShiftRight acc 4
  Tracked.word 8 rounded.toNat

end Blur3x3

end GaussianBlur

/-- `GaussianBlur<uint8_t, 3, true>`. -/
def gaussianBlur3x3 : GaussianBlur where
  verticalVectorPath := GaussianBlur.Blur3x3.verticalVectorPath
  verticalScalarPath := GaussianBlur.Blur3x3.verticalScalarPath
  horizontalVectorPath := GaussianBlur.Blur3x3.horizontalVectorPath
  horizontalScalarPath := GaussianBlur.Blur3x3.horizontalScalarPath

namespace GaussianBlur

/-! ### 5x5 -/

namespace Blur5x5

/-- One half of `vertical_vector_path`. -/
def verticalHalf (src : ℕ → Fin 8 → BitVec 8) : Tracked (Fin 8 → BitVec 16) := do
  let acc04 ← vaddl 16 (src 0) (src 4)
  let acc13 ← vaddl 16 (src 1) (src 3)
  let acc ← vmlal acc04 (src 2) (vdupqN 8 6)
  vmlaq acc acc13 (vdupqN 16 4)

def verticalVectorPath (src : ℕ → Fin (2 * 8) → BitVec 8) :
    Tracked ((Fin 8 → BitVec 16) × (Fin 8 → BitVec 16)) := do
  let accL ← verticalHalf (lower src)
  let accH ← verticalHalf (upper src)
  pure (accL, accH)

def verticalScalarPath (src : ℕ → BitVec 8) : Tracked (BitVec 16) := do
  let acc ← int ((src 0).toNat + (src 4).toNat + 4 * ((src 1).toNat + (src 3).toNat) +
    6 * (src 2).toNat)
  Tracked.word 16 acc.toNat

def horizontalVectorPath (src : ℕ → Fin (2 * 4) → BitVec 16) : Tracked (Fin (2 * 4) → BitVec 8) := do
  let acc04 ← vaddq (src 0) (src 4)
  let acc13 ← vaddq (src 1) (src 3)
  let acc ← vmlaq acc04 (src 2) (vdupqN 16 6)
  let acc ← vmlaq acc acc13 (vdupqN 16 4)
  vrshrnN 8 8 acc

def horizontalScalarPath (src : ℕ → BitVec 16) : Tracked (BitVec 8) := do
  let acc ← int ((src 0).toNat + (src 4).toNat + 4 * ((src 1).toNat + (src 3).toNat) +
    6 * (src 2).toNat)
  let rounded ← roundingShiftRight acc 8
  Tracked.word 8 rounded.toNat

end Blur5x5

end GaussianBlur

/-- `GaussianBlur<uint8_t, 5, true>`. -/
def gaussianBlur5x5 : GaussianBlur where
  verticalVectorPath := GaussianBlur.Blur5x5.verticalVectorPath
  verticalScalarPath := GaussianBlur.Blur5x5.verticalScalarPath
  horizontalVectorPath := GaussianBlur.Blur5x5.horizontalVectorPath
  horizontalScalarPath := GaussianBlur.Blur5x5.horizontalScalarPath

namespace GaussianBlur

/-! ### 7x7 -/

namespace Blur7x7

/-- One half of `vertical_vector_path`. -/
def verticalHalf (src : ℕ → Fin 8 → BitVec 8) : Tracked (Fin 8 → BitVec 16) := do
  let acc06 ← vaddl 16 (src 0) (src 6)
  let acc15 ← vaddl 16 (src 1) (src 5)
  let acc24 ← vaddl 16 (src 2) (src 4)
  let acc3 ← vmovl 16 (src 3)
  let acc0246 ← vmlaq acc06 acc24 (vdupqN 16 7)
  let acc02346 ← vmlaq acc0246 acc3 (vdupqN 16 9)
  let acc02346 ← vshlqN 1 acc02346
  vmlaq acc02346 acc15 (vdupqN 16 7)

def verticalVectorPath (src : ℕ → Fin (2 * 8) → BitVec 8) :
    Tracked ((Fin 8 → BitVec 16) × (Fin 8 → BitVec 16)) := do
  let accL ← verticalHalf (lower src)
  let accH ← verticalHalf (upper src)
  pure (accL, accH)

/-- The sum of the scalar paths. -/
def scalarSum {w : ℕ} (src : ℕ → BitVec w) : ℕ :=
  (src 0).toNat * 2 + (src 1).toNat * 7 + (src 2).toNat * 14 + (src 3).toNat * 18 +
    (src 4).toNat * 14 + (src 5).toNat * 7 + (src 6).toNat * 2

def verticalScalarPath (src : ℕ → BitVec 8) : Tracked (BitVec 16) := do
  let acc ← int (scalarSum src)
  Tracked.word 16 acc.toNat

/-- One half of `horizontal_vector_path`, up to narrowing to `uint16_t`. -/
def horizontalHalf (src : ℕ → Fin 4 → BitVec 16) (acc24 : Fin 4 → BitVec 16) :
    Tracked (Fin 4 → BitVec 16) := do
  let acc06 ← vaddl 32 (src 0) (src 6)
  let acc15 ← vaddl 32 (src 1) (src 5)
  let acc0246 ← vmlal acc06 acc24 (vdupqN 16 7)
  let acc02346 ← vmlal acc0246 (src 3) (vdupqN 16 9)
  let acc02346 ← vshlqN 1 acc02346
  let acc ← vmlaq acc02346 acc15 (vdupqN 32 7)
  vrshrnN 16 12 acc

def horizontalVectorPath (src : ℕ → Fin (2 * 4) → BitVec 16) : Tracked (Fin (2 * 4) → BitVec 8) := do
  let acc24 ← vaddq (src 2) (src 4)
  let accL ← horizontalHalf (lower src) (vgetLow acc24)
  let accH ← horizontalHalf (upper src) (vgetHigh acc24)
  vmovn 8 (vcombine accL accH)

def horizontalScalarPath (src : ℕ → BitVec 16) : Tracked (BitVec 8) := do
  let sum ← int (scalarSum src)
  let acc ← Tracked.word 32 sum.toNat
  let rounded ← roundingShiftRight acc 12
  Tracked.word 8 rounded.toNat

end Blur7x7

end GaussianBlur

/-- `GaussianBlur<uint8_t, 7, true>`. -/
def gaussianBlur7x7 : GaussianBlur where
  verticalVectorPath := GaussianBlur.Blur7x7.verticalVectorPath
  verticalScalarPath := GaussianBlur.Blur7x7.verticalScalarPath
  horizontalVectorPath := GaussianBlur.Blur7x7.horizontalVectorPath
  horizontalScalarPath := GaussianBlur.Blur7x7.horizontalScalarPath

namespace GaussianBlur

/-! ### 9x9 -/

namespace Blur9x9

/-- The accumulators of one half, in words of `w` bits: even and odd taps apart. -/
def half {n v : ℕ} (w : ℕ) (src : ℕ → Fin n → BitVec v) : Tracked (Fin n → BitVec w) := do
  let acc08 ← vaddl w (src 0) (src 8)
  let acc17 ← vaddl w (src 1) (src 7)
  let acc26 ← vaddl w (src 2) (src 6)
  let acc35 ← vaddl w (src 3) (src 5)
  let acc4 ← vmovl w (src 4)
  let even ← vshlqN 2 acc08
  let odd ← vmulq acc17 (vdupqN w 13)
  let even ← vmlaq even acc26 (vdupqN w 30)
  let odd ← vmlaq odd acc35 (vdupqN w 51)
  let even ← vmlaq even acc4 (vdupqN w 60)
  vaddq even odd

def verticalVectorPath (src : ℕ → Fin (2 * 8) → BitVec 8) :
    Tracked ((Fin 8 → BitVec 16) × (Fin 8 → BitVec 16)) := do
  let accL ← half 16 (lower src)
  let accH ← half 16 (upper src)
  pure (accL, accH)

/-- The sum of the scalar paths. -/
def scalarSum {w : ℕ} (src : ℕ → BitVec w) : ℕ :=
  (src 0).toNat * 4 + (src 1).toNat * 13 + (src 2).toNat * 30 + (src 3).toNat * 51 +
    (src 4).toNat * 60 + (src 5).toNat * 51 + (src 6).toNat * 30 + (src 7).toNat * 13 +
    (src 8).toNat * 4

def verticalScalarPath (src : ℕ → BitVec 8) : Tracked (BitVec 16) := do
  let acc ← int (scalarSum src)
  Tracked.word 16 acc.toNat

def horizontalVectorPath (src : ℕ → Fin (2 * 4) → BitVec 16) : Tracked (Fin (2 * 4) → BitVec 8) := do
  let accL ← half 32 (lower src)
  let accH ← half 32 (upper src)
  let accL ← vrshrnN 16 16 accL
  let accH ← vrshrnN 16 16 accH
  vmovn 8 (vcombine accL accH)

def horizontalScalarPath (src : ℕ → BitVec 16) : Tracked (BitVec 8) := do
  let sum ← int (scalarSum src)
  let acc ← Tracked.word 32 sum.toNat
  let rounded ← roundingShiftRight acc 16
  Tracked.word 8 rounded.toNat

end Blur9x9

end GaussianBlur

/-- `GaussianBlur<uint8_t, 9, true>`. -/
def gaussianBlur9x9 : GaussianBlur where
  verticalVectorPath := GaussianBlur.Blur9x9.verticalVectorPath
  verticalScalarPath := GaussianBlur.Blur9x9.verticalScalarPath
  horizontalVectorPath := GaussianBlur.Blur9x9.horizontalVectorPath
  horizontalScalarPath := GaussianBlur.Blur9x9.horizontalScalarPath

namespace GaussianBlur

/-! ### Exactness -/

section

variable {w : ℕ}

/-- The weighted sum of the taps. -/
def convolve (kernel : List ℕ) (src : ℕ → BitVec w) : ℕ :=
  ∑ t ∈ Finset.range kernel.length, kernel.getD t 0 * (src t).toNat

/-- The sum of both passes over the total weight, rounded. -/
def normalize (kernel : List ℕ) (sum : ℕ) : ℕ := (sum + kernel.sum ^ 2 / 2) / kernel.sum ^ 2

/-- **The paths of a kernel.**  No step wraps, and both paths compute the weighted
sum: vertically as it is, horizontally normalized, for vertical sums. -/
structure Exact (blur : GaussianBlur) (kernel : List ℕ) : Prop where
  verticalVector : ∀ src, (blur.verticalVectorPath src).Ensures fun acc => ∀ lane,
    (acc.1 lane).toNat = convolve kernel (fun t => lower src t lane) ∧
      (acc.2 lane).toNat = convolve kernel fun t => upper src t lane
  verticalScalar : ∀ src, (blur.verticalScalarPath src).Ensures fun acc =>
    acc.toNat = convolve kernel src
  horizontalVector : ∀ src, (∀ t < kernel.length, ∀ lane, (src t lane).toNat ≤ 255 * kernel.sum) →
    (blur.horizontalVectorPath src).Ensures fun acc => ∀ lane,
      (acc lane).toNat = normalize kernel (convolve kernel fun t => src t lane)
  horizontalScalar : ∀ src, (∀ t < kernel.length, (src t).toNat ≤ 255 * kernel.sum) →
    (blur.horizontalScalarPath src).Ensures fun acc =>
      acc.toNat = normalize kernel (convolve kernel src)

end

section

variable {w : ℕ} {kernel : List ℕ}

variable (kernel) in
theorem sum_weights : ∑ t ∈ Finset.range kernel.length, kernel.getD t 0 = kernel.sum := by
  rw [Finset.sum_range, ← Fin.sum_univ_getElem]
  refine Finset.sum_congr rfl fun t _ => ?_
  rw [List.getD_eq_getElem?_getD, List.getElem?_eq_getElem t.2, Option.getD_some]

/-- A weighted sum of numbers up to `b`. -/
theorem sum_weights_mul_le {b : ℕ} {f : ℕ → ℕ} (h : ∀ t < kernel.length, f t ≤ b) :
    ∑ t ∈ Finset.range kernel.length, kernel.getD t 0 * f t ≤ b * kernel.sum := by
  calc ∑ t ∈ Finset.range kernel.length, kernel.getD t 0 * f t
      ≤ ∑ t ∈ Finset.range kernel.length, kernel.getD t 0 * b :=
        Finset.sum_le_sum fun t ht => Nat.mul_le_mul_left _ (h t (Finset.mem_range.mp ht))
    _ = b * kernel.sum := by rw [← Finset.sum_mul, sum_weights, Nat.mul_comm]

theorem convolve_le {b : ℕ} {src : ℕ → BitVec w} (h : ∀ t < kernel.length, (src t).toNat ≤ b) :
    convolve kernel src ≤ b * kernel.sum :=
  sum_weights_mul_le h

/-- Both halves of a vector. -/
theorem halves_ensures {half : (ℕ → Fin 8 → BitVec 8) → Tracked (Fin 8 → BitVec 16)}
    (hhalf : ∀ src, (half src).Ensures fun acc => ∀ lane,
      (acc lane).toNat = convolve kernel fun t => src t lane) (src : ℕ → Fin (2 * 8) → BitVec 8) :
    (do let accL ← half (lower src); let accH ← half (upper src); pure (accL, accH) :
      Tracked _).Ensures fun acc => ∀ lane,
        (acc.1 lane).toNat = convolve kernel (fun t => lower src t lane) ∧
          (acc.2 lane).toNat = convolve kernel fun t => upper src t lane := by
  refine (hhalf (lower src)).bind fun accL hL => ?_
  refine (hhalf (upper src)).bind fun accH hH => ?_
  exact .pure fun lane => ⟨hL lane, hH lane⟩

theorem verticalScalar_ensures {sum : ℕ} {src : ℕ → BitVec 8} (hsum : sum = convolve kernel src)
    (hmax : 255 * kernel.sum < 2 ^ 16) :
    (do let acc ← int sum; Tracked.word 16 acc.toNat : Tracked _).Ensures fun acc =>
      acc.toNat = convolve kernel src := by
  have hle : convolve kernel src ≤ 255 * kernel.sum := convolve_le fun t _ => by
    have := (src t).isLt
    omega
  refine (Tracked.word_ensures (by omega)).bind fun acc hacc => ?_
  exact (Tracked.word_ensures (by omega)).imp fun v hv => by rw [hv, hacc, hsum]

/-- Rounding by a shift. -/
theorem normalize_eq_shift {shift : ℕ} (hshift : kernel.sum ^ 2 = 2 ^ (shift + 1)) (sum : ℕ) :
    normalize kernel sum = (sum + 2 ^ (shift + 1 - 1)) / 2 ^ (shift + 1) := by
  have hhalf : kernel.sum ^ 2 / 2 = 2 ^ shift := by
    rw [hshift, pow_succ, Nat.mul_div_cancel _ (by decide)]
  rw [normalize, hhalf, hshift, Nat.add_sub_cancel]

/-- Normalized sums are bytes. -/
theorem normalize_lt {sum : ℕ} (hpos : 0 < kernel.sum) (hsum : sum ≤ 255 * kernel.sum * kernel.sum) :
    normalize kernel sum < 2 ^ 8 := by
  have hsq : 0 < kernel.sum ^ 2 := Nat.pow_pos hpos
  rw [Nat.mul_assoc, ← Nat.pow_two] at hsum
  refine Nat.div_lt_of_lt_mul ?_
  omega

/-- Rounding in words of `v` bits. -/
theorem round_ensures {v shift : ℕ} {acc : BitVec v} {src : ℕ → BitVec 16}
    (hsrc : ∀ t < kernel.length, (src t).toNat ≤ 255 * kernel.sum)
    (hacc : acc.toNat = convolve kernel src) (hshift : kernel.sum ^ 2 = 2 ^ (shift + 1))
    (hv : shift + 9 < v) :
    (do let rounded ← roundingShiftRight acc (shift + 1); Tracked.word 8 rounded.toNat :
      Tracked _).Ensures fun x => x.toNat = normalize kernel (convolve kernel src) := by
  have hpos : 0 < kernel.sum := Nat.pos_of_ne_zero fun h => by
    rw [h] at hshift
    exact absurd hshift (Nat.two_pow_pos _).ne
  have hle : convolve kernel src ≤ 255 * 2 ^ (shift + 1) := by
    calc convolve kernel src ≤ 255 * kernel.sum * kernel.sum := convolve_le hsrc
      _ = 255 * 2 ^ (shift + 1) := by rw [← hshift]; ring
  have hfit : 2 ^ (shift + 9) < 2 ^ v := Nat.pow_lt_pow_right (by decide) hv
  have hpow : 2 ^ (shift + 1) = 2 * 2 ^ shift := by ring
  have hbits : 2 ^ (shift + 9) = 512 * 2 ^ shift := by ring
  refine (roundingShiftRight_ensures (by rw [Nat.add_sub_cancel]; omega)).bind
    fun rounded hrounded => ?_
  rw [hacc, ← normalize_eq_shift hshift] at hrounded
  refine (Tracked.word_ensures ?_).imp fun x hx => hx.trans hrounded
  rw [hrounded]
  exact normalize_lt hpos (convolve_le hsrc)

variable (kernel) in
/-- Rounding and narrowing of a vector. -/
theorem vrshrnN_ensures {n v shift : ℕ} (w : ℕ) {acc : Fin n → BitVec v}
    {src : ℕ → Fin n → BitVec 16} (hw : 8 ≤ w)
    (hsrc : ∀ t < kernel.length, ∀ lane, (src t lane).toNat ≤ 255 * kernel.sum)
    (hacc : ∀ lane, (acc lane).toNat = convolve kernel fun t => src t lane)
    (hshift : kernel.sum ^ 2 = 2 ^ (shift + 1)) :
    (vrshrnN w (shift + 1) acc).Ensures fun narrow => ∀ lane,
      (narrow lane).toNat = normalize kernel (convolve kernel fun t => src t lane) := by
  have hpos : 0 < kernel.sum := Nat.pos_of_ne_zero fun h => by
    rw [h] at hshift
    exact absurd hshift (Nat.two_pow_pos _).ne
  simp only [vrshrnN, hacc, ← normalize_eq_shift hshift]
  exact Tracked.lanes_ensures fun lane =>
    (normalize_lt hpos (convolve_le fun t ht => hsrc t ht lane)).trans_le (Nat.pow_le_pow_right (by decide) hw)

variable (kernel) in
/-- Two narrowed halves, narrowed further. -/
theorem vmovn_ensures {n : ℕ} {low high : Fin n → BitVec 16} {src : ℕ → Fin (2 * n) → BitVec 16}
    (hpos : 0 < kernel.sum)
    (hsrc : ∀ t < kernel.length, ∀ lane, (src t lane).toNat ≤ 255 * kernel.sum)
    (hlow : ∀ lane, (low lane).toNat = normalize kernel (convolve kernel fun t => lower src t lane))
    (hhigh : ∀ lane, (high lane).toNat = normalize kernel (convolve kernel fun t => upper src t lane)) :
    (vmovn 8 (vcombine low high)).Ensures fun narrow => ∀ lane,
      (narrow lane).toNat = normalize kernel (convolve kernel fun t => src t lane) := by
  have hlanes : ∀ lane, (vcombine low high lane).toNat =
      normalize kernel (convolve kernel fun t => src t lane) :=
    vcombine_cases (P := fun lane (v : BitVec 16) => v.toNat =
      normalize kernel (convolve kernel fun t => src t lane)) hlow hhigh
  simp only [vmovn, hlanes]
  exact Tracked.lanes_ensures fun lane => normalize_lt hpos (convolve_le fun t ht => hsrc t ht lane)

end

namespace Blur3x3

theorem convolve_eq {w : ℕ} (src : ℕ → BitVec w) : convolve [1, 2, 1] src =
    (src 0).toNat + 2 * (src 1).toNat + (src 2).toNat := by
  simp [convolve, Finset.sum_range_succ]

theorem verticalHalf_ensures (src : ℕ → Fin 8 → BitVec 8) :
    (verticalHalf src).Ensures fun acc => ∀ lane,
      (acc lane).toNat = convolve [1, 2, 1] fun t => src t lane := by
  have hsrc : ∀ t lane, (src t lane).toNat < 256 := fun t lane => (src t lane).isLt
  refine (Tracked.lanes_ensures fun lane => ?_).bind fun acc02 h02 => ?_
  · linarith only [hsrc 0 lane, hsrc 2 lane]
  refine (Tracked.lanes_ensures fun lane => ?_).bind fun acc1 h1 => ?_
  · linarith only [hsrc 1 lane]
  refine (Tracked.lanes_ensures fun lane => ?_).imp fun acc h lane => ?_
  · rw [h02, h1]
    linarith only [hsrc 0 lane, hsrc 1 lane, hsrc 2 lane]
  · rw [h, h02, h1, convolve_eq]
    ring

theorem horizontalVectorPath_ensures (src : ℕ → Fin (2 * 4) → BitVec 16)
    (hsrc : ∀ t < 3, ∀ lane, (src t lane).toNat ≤ 1020) :
    (horizontalVectorPath src).Ensures fun acc => ∀ lane,
      (acc lane).toNat = normalize [1, 2, 1] (convolve [1, 2, 1] fun t => src t lane) := by
  have h0 := hsrc 0 (by decide)
  have h1 := hsrc 1 (by decide)
  have h2 := hsrc 2 (by decide)
  refine (Tracked.lanes_ensures fun lane => ?_).bind fun acc02 h02 => ?_
  · linarith only [h0 lane, h2 lane]
  refine (Tracked.lanes_ensures fun lane => ?_).bind fun shifted hshifted => ?_
  · linarith only [h1 lane]
  refine (Tracked.lanes_ensures fun lane => ?_).bind fun acc h => ?_
  · rw [h02, hshifted]
    linarith only [h0 lane, h1 lane, h2 lane]
  have hacc : ∀ lane, (acc lane).toNat = convolve [1, 2, 1] fun t => src t lane := fun lane => by
    rw [h, h02, hshifted, convolve_eq]
    ring
  exact vrshrnN_ensures [1, 2, 1] 8 le_rfl hsrc hacc (by decide)

end Blur3x3

theorem gaussianBlur3x3_exact : gaussianBlur3x3.Exact [1, 2, 1] where
  verticalVector := halves_ensures Blur3x3.verticalHalf_ensures
  verticalScalar := fun src => verticalScalar_ensures (Blur3x3.convolve_eq src).symm (by decide)
  horizontalVector := Blur3x3.horizontalVectorPath_ensures
  horizontalScalar := fun src hsrc => by
    have hle : convolve [1, 2, 1] src ≤ 1020 * 4 := convolve_le hsrc
    rw [Blur3x3.convolve_eq] at hle
    refine (Tracked.word_ensures (by omega)).bind fun acc hacc => ?_
    exact round_ensures hsrc (hacc.trans (Blur3x3.convolve_eq src).symm) (by decide) (by decide)

namespace Blur5x5

theorem convolve_eq {w : ℕ} (src : ℕ → BitVec w) : convolve [1, 4, 6, 4, 1] src =
    (src 0).toNat + (src 4).toNat + 4 * ((src 1).toNat + (src 3).toNat) + 6 * (src 2).toNat := by
  simp only [convolve, List.length_cons, List.length_nil, Finset.sum_range_succ,
    Finset.sum_range_zero, List.getD_cons_zero, List.getD_cons_succ]
  ring

theorem verticalHalf_ensures (src : ℕ → Fin 8 → BitVec 8) :
    (verticalHalf src).Ensures fun acc => ∀ lane,
      (acc lane).toNat = convolve [1, 4, 6, 4, 1] fun t => src t lane := by
  have hsrc : ∀ t lane, (src t lane).toNat < 256 := fun t lane => (src t lane).isLt
  refine (Tracked.lanes_ensures fun lane => ?_).bind fun acc04 h04 => ?_
  · linarith only [hsrc 0 lane, hsrc 4 lane]
  refine (Tracked.lanes_ensures fun lane => ?_).bind fun acc13 h13 => ?_
  · linarith only [hsrc 1 lane, hsrc 3 lane]
  refine (mla_ensures (by decide) fun lane => ?_).bind fun acc024 h024 => ?_
  · rw [h04]
    linarith only [hsrc 0 lane, hsrc 2 lane, hsrc 4 lane]
  refine (mla_ensures (by decide) fun lane => ?_).imp fun acc h lane => ?_
  · rw [h024, h04, h13]
    linarith only [hsrc 0 lane, hsrc 1 lane, hsrc 2 lane, hsrc 3 lane, hsrc 4 lane]
  · rw [h, h024, h04, h13, convolve_eq]
    ring

theorem horizontalVectorPath_ensures (src : ℕ → Fin (2 * 4) → BitVec 16)
    (hsrc : ∀ t < 5, ∀ lane, (src t lane).toNat ≤ 255 * 16) :
    (horizontalVectorPath src).Ensures fun acc => ∀ lane,
      (acc lane).toNat = normalize [1, 4, 6, 4, 1]
        (convolve [1, 4, 6, 4, 1] fun t => src t lane) := by
  have h0 := hsrc 0 (by decide)
  have h1 := hsrc 1 (by decide)
  have h2 := hsrc 2 (by decide)
  have h3 := hsrc 3 (by decide)
  have h4 := hsrc 4 (by decide)
  refine (Tracked.lanes_ensures fun lane => ?_).bind fun acc04 h04 => ?_
  · linarith only [h0 lane, h4 lane]
  refine (Tracked.lanes_ensures fun lane => ?_).bind fun acc13 h13 => ?_
  · linarith only [h1 lane, h3 lane]
  refine (mla_ensures (by decide) fun lane => ?_).bind fun acc024 h024 => ?_
  · rw [h04]
    linarith only [h0 lane, h2 lane, h4 lane]
  refine (mla_ensures (by decide) fun lane => ?_).bind fun acc h => ?_
  · rw [h024, h04, h13]
    linarith only [h0 lane, h1 lane, h2 lane, h3 lane, h4 lane]
  have hacc : ∀ lane, (acc lane).toNat = convolve [1, 4, 6, 4, 1] fun t => src t lane :=
    fun lane => by
      rw [h, h024, h04, h13, convolve_eq]
      ring
  exact vrshrnN_ensures [1, 4, 6, 4, 1] 8 le_rfl hsrc hacc (by decide)

end Blur5x5

theorem gaussianBlur5x5_exact : gaussianBlur5x5.Exact [1, 4, 6, 4, 1] where
  verticalVector := halves_ensures Blur5x5.verticalHalf_ensures
  verticalScalar := fun src => verticalScalar_ensures (Blur5x5.convolve_eq src).symm (by decide)
  horizontalVector := Blur5x5.horizontalVectorPath_ensures
  horizontalScalar := fun src hsrc => by
    have hle : convolve [1, 4, 6, 4, 1] src ≤ 255 * 16 * 16 := convolve_le hsrc
    rw [Blur5x5.convolve_eq] at hle
    refine (Tracked.word_ensures (by omega)).bind fun acc hacc => ?_
    exact round_ensures hsrc (hacc.trans (Blur5x5.convolve_eq src).symm) (by decide) (by decide)

namespace Blur7x7

/-- The weights. -/
abbrev kernel : List ℕ := [2, 7, 14, 18, 14, 7, 2]

theorem convolve_eq {w : ℕ} (src : ℕ → BitVec w) : convolve kernel src = scalarSum src := by
  simp only [convolve, List.length_cons, List.length_nil, Finset.sum_range_succ,
    Finset.sum_range_zero, List.getD_cons_zero, List.getD_cons_succ, scalarSum]
  ring

theorem verticalHalf_ensures (src : ℕ → Fin 8 → BitVec 8) :
    (verticalHalf src).Ensures fun acc => ∀ lane,
      (acc lane).toNat = convolve kernel fun t => src t lane := by
  have hsrc : ∀ t lane, (src t lane).toNat < 256 := fun t lane => (src t lane).isLt
  refine (Tracked.lanes_ensures fun lane => ?_).bind fun acc06 h06 => ?_
  · linarith only [hsrc 0 lane, hsrc 6 lane]
  refine (Tracked.lanes_ensures fun lane => ?_).bind fun acc15 h15 => ?_
  · linarith only [hsrc 1 lane, hsrc 5 lane]
  refine (Tracked.lanes_ensures fun lane => ?_).bind fun acc24 h24 => ?_
  · linarith only [hsrc 2 lane, hsrc 4 lane]
  refine (Tracked.lanes_ensures fun lane => ?_).bind fun acc3 h3 => ?_
  · linarith only [hsrc 3 lane]
  -- The taps 0, 2, 4 and 6, and then tap 3, before they are doubled.
  refine (mla_ensures (by decide) fun lane => ?_).bind fun acc0246 h0246 => ?_
  · rw [h06, h24]
    linarith only [hsrc 0 lane, hsrc 2 lane, hsrc 4 lane, hsrc 6 lane]
  refine (mla_ensures (by decide) fun lane => ?_).bind fun acc02346 h02346 => ?_
  · rw [h0246, h06, h24, h3]
    linarith only [hsrc 0 lane, hsrc 2 lane, hsrc 3 lane, hsrc 4 lane, hsrc 6 lane]
  refine (Tracked.lanes_ensures fun lane => ?_).bind fun doubled hdoubled => ?_
  · rw [h02346, h0246, h06, h24, h3]
    linarith only [hsrc 0 lane, hsrc 2 lane, hsrc 3 lane, hsrc 4 lane, hsrc 6 lane]
  refine (mla_ensures (by decide) fun lane => ?_).imp fun acc h lane => ?_
  · rw [hdoubled, h02346, h0246, h06, h24, h3, h15]
    linarith only [hsrc 0 lane, hsrc 1 lane, hsrc 2 lane, hsrc 3 lane, hsrc 4 lane, hsrc 5 lane,
      hsrc 6 lane]
  · rw [h, hdoubled, h02346, h0246, h06, h24, h3, h15, convolve_eq, scalarSum]
    ring

theorem horizontalHalf_ensures (src : ℕ → Fin 4 → BitVec 16) {acc24 : Fin 4 → BitVec 16}
    (hsrc : ∀ t < 7, ∀ lane, (src t lane).toNat ≤ 255 * 64)
    (h24 : ∀ lane, (acc24 lane).toNat = (src 2 lane).toNat + (src 4 lane).toNat) :
    (horizontalHalf src acc24).Ensures fun acc => ∀ lane,
      (acc lane).toNat = normalize kernel (convolve kernel fun t => src t lane) := by
  have h0 := hsrc 0 (by decide)
  have h1 := hsrc 1 (by decide)
  have h2 := hsrc 2 (by decide)
  have h3 := hsrc 3 (by decide)
  have h4 := hsrc 4 (by decide)
  have h5 := hsrc 5 (by decide)
  have h6 := hsrc 6 (by decide)
  refine (Tracked.lanes_ensures fun lane => ?_).bind fun acc06 h06 => ?_
  · linarith only [h0 lane, h6 lane]
  refine (Tracked.lanes_ensures fun lane => ?_).bind fun acc15 h15 => ?_
  · linarith only [h1 lane, h5 lane]
  refine (mla_ensures (by decide) fun lane => ?_).bind fun acc0246 h0246 => ?_
  · rw [h06, h24]
    linarith only [h0 lane, h2 lane, h4 lane, h6 lane]
  refine (mla_ensures (by decide) fun lane => ?_).bind fun acc02346 h02346 => ?_
  · rw [h0246, h06, h24]
    linarith only [h0 lane, h2 lane, h3 lane, h4 lane, h6 lane]
  refine (Tracked.lanes_ensures fun lane => ?_).bind fun doubled hdoubled => ?_
  · rw [h02346, h0246, h06, h24]
    linarith only [h0 lane, h2 lane, h3 lane, h4 lane, h6 lane]
  refine (mla_ensures (by decide) fun lane => ?_).bind fun acc h => ?_
  · rw [hdoubled, h02346, h0246, h06, h24, h15]
    linarith only [h0 lane, h1 lane, h2 lane, h3 lane, h4 lane, h5 lane, h6 lane]
  have hacc : ∀ lane, (acc lane).toNat = convolve kernel fun t => src t lane := fun lane => by
    rw [h, hdoubled, h02346, h0246, h06, h24, h15, convolve_eq, scalarSum]
    ring
  exact vrshrnN_ensures kernel 16 (by decide) hsrc hacc (by decide)

theorem horizontalVectorPath_ensures (src : ℕ → Fin (2 * 4) → BitVec 16)
    (hsrc : ∀ t < 7, ∀ lane, (src t lane).toNat ≤ 255 * 64) :
    (horizontalVectorPath src).Ensures fun acc => ∀ lane,
      (acc lane).toNat = normalize kernel (convolve kernel fun t => src t lane) := by
  refine (Tracked.lanes_ensures fun lane => ?_).bind fun acc24 h24 => ?_
  · linarith only [hsrc 2 (by decide) lane, hsrc 4 (by decide) lane]
  refine (horizontalHalf_ensures (lower src) (fun t ht lane => hsrc t ht _)
    fun lane => h24 _).bind fun accL hL => ?_
  refine (horizontalHalf_ensures (upper src) (fun t ht lane => hsrc t ht _)
    fun lane => h24 _).bind fun accH hH => ?_
  exact vmovn_ensures kernel (by decide) hsrc hL hH

end Blur7x7

theorem gaussianBlur7x7_exact : gaussianBlur7x7.Exact [2, 7, 14, 18, 14, 7, 2] where
  verticalVector := halves_ensures Blur7x7.verticalHalf_ensures
  verticalScalar := fun src => verticalScalar_ensures (Blur7x7.convolve_eq src).symm (by decide)
  horizontalVector := Blur7x7.horizontalVectorPath_ensures
  horizontalScalar := fun src hsrc => by
    have hle : convolve Blur7x7.kernel src ≤ 255 * 64 * 64 := convolve_le hsrc
    rw [Blur7x7.convolve_eq] at hle
    refine (Tracked.word_ensures (by omega)).bind fun sum hsum => ?_
    refine (Tracked.word_ensures (by omega)).bind fun acc hacc => ?_
    rw [hsum, ← Blur7x7.convolve_eq] at hacc
    exact round_ensures hsrc hacc (by decide) (by decide)

namespace Blur9x9

/-- The weights. -/
abbrev kernel : List ℕ := [4, 13, 30, 51, 60, 51, 30, 13, 4]

theorem convolve_eq {w : ℕ} (src : ℕ → BitVec w) : convolve kernel src = scalarSum src := by
  simp only [convolve, List.length_cons, List.length_nil, Finset.sum_range_succ,
    Finset.sum_range_zero, List.getD_cons_zero, List.getD_cons_succ, scalarSum]
  ring

/-- The accumulators, for taps that are small enough. -/
theorem half_ensures {n v w : ℕ} {src : ℕ → Fin n → BitVec v} {b : ℕ} (hw : 6 ≤ w)
    (hb : 256 * b < 2 ^ w) (hsrc : ∀ t < 9, ∀ lane, (src t lane).toNat ≤ b) :
    (half w src).Ensures fun acc => ∀ lane,
      (acc lane).toNat = convolve kernel fun t => src t lane := by
  have h0 := hsrc 0 (by decide)
  have h1 := hsrc 1 (by decide)
  have h2 := hsrc 2 (by decide)
  have h3 := hsrc 3 (by decide)
  have h4 := hsrc 4 (by decide)
  have h5 := hsrc 5 (by decide)
  have h6 := hsrc 6 (by decide)
  have h7 := hsrc 7 (by decide)
  have h8 := hsrc 8 (by decide)
  have h64 : 2 ^ 6 ≤ 2 ^ w := Nat.pow_le_pow_right (by decide) hw
  have hconst : ∀ {x : ℕ}, x < 64 → x < 2 ^ w := fun hx => hx.trans_le h64
  refine (Tracked.lanes_ensures fun lane => ?_).bind fun acc08 h08 => ?_
  · linarith only [h0 lane, h8 lane, hb]
  refine (Tracked.lanes_ensures fun lane => ?_).bind fun acc17 h17 => ?_
  · linarith only [h1 lane, h7 lane, hb]
  refine (Tracked.lanes_ensures fun lane => ?_).bind fun acc26 h26 => ?_
  · linarith only [h2 lane, h6 lane, hb]
  refine (Tracked.lanes_ensures fun lane => ?_).bind fun acc35 h35 => ?_
  · linarith only [h3 lane, h5 lane, hb]
  refine (Tracked.lanes_ensures fun lane => ?_).bind fun acc4 hacc4 => ?_
  · linarith only [h4 lane, hb]
  refine (Tracked.lanes_ensures fun lane => ?_).bind fun even0 heven0 => ?_
  · rw [h08]
    linarith only [h0 lane, h8 lane, hb]
  refine (mul_ensures (hconst (by decide)) fun lane => ?_).bind fun odd1 hodd1 => ?_
  · rw [h17]
    linarith only [h1 lane, h7 lane, hb]
  refine (mla_ensures (hconst (by decide)) fun lane => ?_).bind fun even2 heven2 => ?_
  · rw [heven0, h08, h26]
    linarith only [h0 lane, h2 lane, h6 lane, h8 lane, hb]
  refine (mla_ensures (hconst (by decide)) fun lane => ?_).bind fun odd3 hodd3 => ?_
  · rw [hodd1, h17, h35]
    linarith only [h1 lane, h3 lane, h5 lane, h7 lane, hb]
  refine (mla_ensures (hconst (by decide)) fun lane => ?_).bind fun even heven => ?_
  · rw [heven2, heven0, h08, h26, hacc4]
    linarith only [h0 lane, h2 lane, h4 lane, h6 lane, h8 lane, hb]
  refine (Tracked.lanes_ensures fun lane => ?_).imp fun acc h lane => ?_
  · rw [heven, heven2, heven0, h08, h26, hacc4, hodd3, hodd1, h17, h35]
    linarith only [h0 lane, h1 lane, h2 lane, h3 lane, h4 lane, h5 lane, h6 lane, h7 lane, h8 lane,
      hb]
  · rw [h, heven, heven2, heven0, h08, h26, hacc4, hodd3, hodd1, h17, h35, convolve_eq, scalarSum]
    ring

theorem horizontalVectorPath_ensures (src : ℕ → Fin (2 * 4) → BitVec 16)
    (hsrc : ∀ t < 9, ∀ lane, (src t lane).toNat ≤ 255 * 256) :
    (horizontalVectorPath src).Ensures fun acc => ∀ lane,
      (acc lane).toNat = normalize kernel (convolve kernel fun t => src t lane) := by
  have hlower : ∀ t < 9, ∀ lane, (lower src t lane).toNat ≤ 255 * 256 := fun t ht lane => hsrc t ht _
  have hupper : ∀ t < 9, ∀ lane, (upper src t lane).toNat ≤ 255 * 256 := fun t ht lane => hsrc t ht _
  refine (half_ensures (by decide) (by decide) hlower).bind fun accL hL => ?_
  refine (half_ensures (by decide) (by decide) hupper).bind fun accH hH => ?_
  refine (vrshrnN_ensures kernel 16 (by decide) hlower hL (by decide)).bind fun narrowL hnarrowL => ?_
  refine (vrshrnN_ensures kernel 16 (by decide) hupper hH (by decide)).bind fun narrowH hnarrowH => ?_
  exact vmovn_ensures kernel (by decide) hsrc hnarrowL hnarrowH

end Blur9x9

theorem gaussianBlur9x9_exact : gaussianBlur9x9.Exact [4, 13, 30, 51, 60, 51, 30, 13, 4] where
  verticalVector := halves_ensures fun src => Blur9x9.half_ensures (by decide) (by decide)
    fun t _ lane => Nat.le_of_lt_succ (src t lane).isLt
  verticalScalar := fun src => verticalScalar_ensures (Blur9x9.convolve_eq src).symm (by decide)
  horizontalVector := Blur9x9.horizontalVectorPath_ensures
  horizontalScalar := fun src hsrc => by
    have hle : convolve Blur9x9.kernel src ≤ 255 * 256 * 256 := convolve_le hsrc
    rw [Blur9x9.convolve_eq] at hle
    refine (Tracked.word_ensures (by omega)).bind fun sum hsum => ?_
    refine (Tracked.word_ensures (by omega)).bind fun acc hacc => ?_
    rw [hsum, ← Blur9x9.convolve_eq] at hacc
    exact round_ensures hsrc hacc (by decide) (by decide)

end GaussianBlur

end KleidiCV
