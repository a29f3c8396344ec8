/-
The fixed-point kernel of a Gaussian blur: `generate_gaussian_half_kernel`.

The weights of the outer half, which `std::exp` computes, are given; the
arithmetic is that of rational numbers.  They are scaled to a sum of 256 and
rounded one after the other, and what a rounding adds is taken from the next
value.  The middle is rounded last and corrects the error of the outer half,
which counts twice in the whole kernel, once.

* `DiffusedTo` — what the loop keeps, and `diffuseStep_diffusedTo`, one step of it;
* `total_eq` — the sum of the whole kernel: the outer half is rounded up at halves
  and the middle rounds its complement up as well;
* `total_eq_iff` — it is 256 unless the scaled middle is odd.
-/
import KleidiCV.Lib.Loop
import Mathlib.Tactic

open Loop

namespace KleidiCV

/-- `std::round`: to the nearest integer, halves away from zero. -/
def stdRound (x : ℚ) : ℤ := if 0 ≤ x then ⌊x + 1 / 2⌋ else -⌊-x + 1 / 2⌋

/-- The variables of the loop that diffuses the error. -/
structure Diffusion where
  halfKernel : ℕ → BitVec 8
  error : ℚ
  /-- `value_rounded` of every iteration, before it is converted. -/
  valueRounded : ℕ → ℤ

namespace GaussianHalfKernel

variable (weights : ℕ → ℚ) (halfSize : ℕ)

def kMid : ℕ := halfSize - 1

/-- `sum`, of the outer weights. -/
def sum : ℚ := forRange (kMid halfSize) (fun i sum => sum + weights i) 0

def multiplier : ℚ := 256 / (sum weights halfSize * 2 + 1)

/-- The body of the loop. -/
def diffuseStep (i : ℕ) (s : Diffusion) : Diffusion :=
  let value := weights i * multiplier weights halfSize - s.error
  let valueRounded := stdRound value
  { halfKernel := Function.update s.halfKernel i (BitVec.ofInt 8 valueRounded)
    error := valueRounded - value
    valueRounded := Function.update s.valueRounded i valueRounded }

/-- The loop; `memory` is what `half_kernel` holds before. -/
def diffused (memory : ℕ → BitVec 8) : Diffusion :=
  forRange (kMid halfSize) (diffuseStep weights halfSize) ⟨memory, 0, fun _ => 0⟩

/-- The rounded middle, before it is converted. -/
def midRounded (memory : ℕ → BitVec 8) : ℤ :=
  stdRound (multiplier weights halfSize - (diffused weights halfSize memory).error)

/-- `mid_value`. -/
def midValue (memory : ℕ → BitVec 8) : BitVec 16 :=
  BitVec.ofInt 16 (midRounded weights halfSize memory)

/-- `generate_gaussian_half_kernel`; `none` where it returns `false`. -/
def generateGaussianHalfKernel (memory : ℕ → BitVec 8) : Option (ℕ → BitVec 8) :=
  if midValue weights halfSize memory = 256 then none
  else some (Function.update (diffused weights halfSize memory).halfKernel (kMid halfSize)
    ((midValue weights halfSize memory).setWidth 8))

/-- Twice the outer entries and the middle. -/
def total (memory : ℕ → BitVec 8) : ℤ :=
  2 * ∑ i ∈ Finset.range (kMid halfSize), (diffused weights halfSize memory).valueRounded i
    + midRounded weights halfSize memory

/-! ### Rounding -/

/-- Away from a negative half, rounding is rounding up at halves. -/
theorem stdRound_eq {x : ℚ} (hx : -1 / 2 < x) : stdRound x = ⌊x + 1 / 2⌋ := by
  rw [stdRound]
  split
  · rfl
  · rename_i hneg
    have hlow : ⌊-x + 1 / 2⌋ = 0 := by
      rw [Int.floor_eq_iff]
      constructor
      · push_cast
        linarith
      · push_cast
        linarith
    have hhigh : ⌊x + 1 / 2⌋ = 0 := by
      rw [Int.floor_eq_iff]
      constructor
      · push_cast
        linarith
      · push_cast
        linarith
    rw [hlow, hhigh, neg_zero]

theorem stdRound_spec {x : ℚ} (hx : -1 / 2 < x) :
    0 ≤ stdRound x ∧ -1 / 2 < (stdRound x : ℚ) - x ∧ (stdRound x : ℚ) - x ≤ 1 / 2 := by
  rw [stdRound_eq hx]
  have hle := Int.floor_le (x + 1 / 2)
  have hlt := Int.lt_floor_add_one (x + 1 / 2)
  refine ⟨Int.floor_nonneg.mpr (by linarith), by linarith, by linarith⟩

/-- A number rounded up at halves and rounded down at halves: the same elsewhere. -/
theorem floor_add_half_eq_ceil {x : ℚ} (hx : ¬ ∃ k : ℤ, x + 1 / 2 = k) :
    ⌈x - 1 / 2⌉ = ⌊x + 1 / 2⌋ := by
  have hle := Int.floor_le (x + 1 / 2)
  have hlt := Int.lt_floor_add_one (x + 1 / 2)
  have hne : (⌊x + 1 / 2⌋ : ℚ) ≠ x + 1 / 2 := fun heq => hx ⟨⌊x + 1 / 2⌋, heq.symm⟩
  have hlt' := lt_of_le_of_ne hle hne
  rw [Int.ceil_eq_iff]
  constructor
  · linarith
  · linarith

/-- At a half they differ by one. -/
theorem floor_add_half_eq_ceil_add_one {x : ℚ} (hx : ∃ k : ℤ, x + 1 / 2 = k) :
    ⌊x + 1 / 2⌋ = ⌈x - 1 / 2⌉ + 1 := by
  obtain ⟨k, hk⟩ := hx
  have hdown : x - 1 / 2 = ((k - 1 : ℤ) : ℚ) := by
    push_cast
    linarith
  rw [hdown, hk, Int.floor_intCast, Int.ceil_intCast]
  ring

/-! ### The loop -/

variable {weights halfSize}

theorem sum_eq : sum weights halfSize = ∑ i ∈ Finset.range (kMid halfSize), weights i := by
  refine forRange_invariant (fun i (sum : ℚ) => sum = ∑ j ∈ Finset.range i, weights j)
    (Finset.sum_range_zero _).symm ?_
  rintro i - _ rfl
  exact (Finset.sum_range_succ _ _).symm

theorem sum_nonneg (hpos : ∀ i < kMid halfSize, 0 < weights i) : 0 ≤ sum weights halfSize := by
  rw [sum_eq]
  exact Finset.sum_nonneg fun i hi => (hpos i (Finset.mem_range.mp hi)).le

theorem multiplier_pos (hpos : ∀ i < kMid halfSize, 0 < weights i) :
    0 < multiplier weights halfSize := by
  have hsum := sum_nonneg hpos
  exact div_pos (by norm_num) (by linarith)

/-- The scaled weights add up to what the scaled middle leaves. -/
theorem multiplier_sum (hpos : ∀ i < kMid halfSize, 0 < weights i) :
    2 * (multiplier weights halfSize * sum weights halfSize) + multiplier weights halfSize = 256 := by
  have hsum := sum_nonneg hpos
  have hne : sum weights halfSize * 2 + 1 ≠ 0 := by linarith
  rw [multiplier]
  field_simp

/-- No scaled weight is more than half of the total. -/
theorem scaled_le (hpos : ∀ i < kMid halfSize, 0 < weights i) {i : ℕ} (hi : i < kMid halfSize) :
    weights i * multiplier weights halfSize ≤ 128 := by
  have hle : weights i ≤ sum weights halfSize := by
    rw [sum_eq]
    exact Finset.single_le_sum (f := weights)
      (fun j hj => (hpos j (Finset.mem_range.mp hj)).le) (Finset.mem_range.mpr hi)
  have hmul := mul_le_mul_of_nonneg_right hle (multiplier_pos hpos).le
  have htotal := multiplier_sum hpos
  have hpos' := multiplier_pos hpos
  linarith [mul_comm (multiplier weights halfSize) (sum weights halfSize)]

/-- What is known after `i` iterations: the error is what all roundings together added. -/
structure DiffusedTo (weights : ℕ → ℚ) (halfSize i : ℕ) (s : Diffusion) : Prop where
  error_eq : s.error = ∑ j ∈ Finset.range i, (s.valueRounded j : ℚ)
    - multiplier weights halfSize * ∑ j ∈ Finset.range i, weights j
  error_lower : -1 / 2 < s.error
  error_upper : s.error ≤ 1 / 2
  entry : ∀ j < i, 0 ≤ s.valueRounded j ∧ s.valueRounded j ≤ 255 ∧
    s.halfKernel j = BitVec.ofInt 8 (s.valueRounded j)

/-- An iteration: the value to be rounded is above minus one half, so it is not rounded to a
negative number and the error stays at most one half. -/
theorem diffuseStep_diffusedTo (hpos : ∀ i < kMid halfSize, 0 < weights i) {i : ℕ}
    (hi : i < kMid halfSize) {s : Diffusion} (h : DiffusedTo weights halfSize i s) :
    DiffusedTo weights halfSize (i + 1) (diffuseStep weights halfSize i s) := by
  have hscaled : 0 < weights i * multiplier weights halfSize :=
    mul_pos (hpos i hi) (multiplier_pos hpos)
  have hscaledLe := scaled_le hpos hi
  have hlower := h.error_lower
  have hupper := h.error_upper
  set value := weights i * multiplier weights halfSize - s.error with hvalue
  obtain ⟨hnonneg, hlow, hhigh⟩ := stdRound_spec (x := value) (by linarith)
  have hle : stdRound value ≤ 255 := by
    have hcast : (stdRound value : ℚ) ≤ 255 := by linarith
    exact_mod_cast hcast
  have hsum : ∑ j ∈ Finset.range i, (Function.update s.valueRounded i (stdRound value) j : ℚ)
      = ∑ j ∈ Finset.range i, (s.valueRounded j : ℚ) := by
    refine Finset.sum_congr rfl fun j hj => ?_
    rw [Function.update_of_ne (Finset.mem_range.mp hj).ne]
  refine ⟨?_, hlow, hhigh, fun j hj => ?_⟩
  · show (stdRound value : ℚ) - value = _
    rw [Finset.sum_range_succ, Finset.sum_range_succ]
    show _ = ∑ j ∈ Finset.range i, (Function.update s.valueRounded i (stdRound value) j : ℚ)
      + (Function.update s.valueRounded i (stdRound value) i : ℤ) - _
    rw [hsum, Function.update_self, hvalue, h.error_eq]
    ring
  · simp only [diffuseStep, ← hvalue]
    rcases Nat.lt_succ_iff_lt_or_eq.mp hj with hlt | rfl
    · rw [Function.update_of_ne hlt.ne, Function.update_of_ne hlt.ne]
      exact h.entry j hlt
    · rw [Function.update_self, Function.update_self]
      exact ⟨hnonneg, hle, rfl⟩

theorem diffused_diffusedTo (hpos : ∀ i < kMid halfSize, 0 < weights i) (memory : ℕ → BitVec 8) :
    DiffusedTo weights halfSize (kMid halfSize) (diffused weights halfSize memory) := by
  refine forRange_invariant (DiffusedTo weights halfSize) ?_ fun i hi s h =>
    diffuseStep_diffusedTo hpos hi h
  exact ⟨by simp, by norm_num, by norm_num, fun j hj => absurd hj (Nat.not_lt_zero j)⟩

/-! ### The sum of the kernel -/

variable (memory : ℕ → BitVec 8)

/-- The outer half, rounded as one number. -/
theorem sum_valueRounded (hpos : ∀ i < kMid halfSize, 0 < weights i) :
    ∑ i ∈ Finset.range (kMid halfSize), (diffused weights halfSize memory).valueRounded i
      = ⌊multiplier weights halfSize * sum weights halfSize + 1 / 2⌋ := by
  have h := diffused_diffusedTo hpos memory
  have herror := h.error_eq
  rw [show ∑ j ∈ Finset.range (kMid halfSize), weights j = sum weights halfSize from sum_eq.symm]
    at herror
  have hlower := h.error_lower
  have hupper := h.error_upper
  symm
  rw [Int.floor_eq_iff]
  push_cast
  constructor
  · linarith
  · linarith

theorem midRounded_spec (hpos : ∀ i < kMid halfSize, 0 < weights i) :
    midRounded weights halfSize memory
      = ⌊multiplier weights halfSize - (diffused weights halfSize memory).error + 1 / 2⌋ ∧
    0 ≤ midRounded weights halfSize memory ∧ midRounded weights halfSize memory ≤ 256 := by
  have h := diffused_diffusedTo hpos memory
  have hmultiplier := multiplier_pos hpos
  have htotal := multiplier_sum hpos
  have hsum := mul_nonneg hmultiplier.le (sum_nonneg hpos)
  have hlower := h.error_lower
  have hupper := h.error_upper
  have habove : -1 / 2 < multiplier weights halfSize - (diffused weights halfSize memory).error := by
    linarith
  refine ⟨stdRound_eq habove, (stdRound_spec habove).1, ?_⟩
  rw [midRounded, stdRound_eq habove, ← Int.lt_add_one_iff, Int.floor_lt]
  push_cast
  linarith

/-- With `x` the exact sum of the scaled outer half, the outer entries add up to `x` rounded up
at halves, and the middle to the rest rounded down at halves. -/
theorem total_eq (hpos : ∀ i < kMid halfSize, 0 < weights i) :
    total weights halfSize memory = 256 +
      (⌊multiplier weights halfSize * sum weights halfSize + 1 / 2⌋
        - ⌈multiplier weights halfSize * sum weights halfSize - 1 / 2⌉) := by
  have hmultiplier := multiplier_sum hpos
  have herror := (diffused_diffusedTo hpos memory).error_eq
  rw [show ∑ j ∈ Finset.range (kMid halfSize), weights j = sum weights halfSize from sum_eq.symm,
    ← Int.cast_sum, sum_valueRounded memory hpos] at herror
  rw [total, sum_valueRounded memory hpos, (midRounded_spec memory hpos).1, herror]
  set x := multiplier weights halfSize * sum weights halfSize with hx
  have harg : multiplier weights halfSize - ((⌊x + 1 / 2⌋ : ℤ) - x) + 1 / 2
      = -(x - 1 / 2) + ((256 - ⌊x + 1 / 2⌋ : ℤ) : ℚ) := by
    push_cast
    linarith
  rw [harg, Int.floor_add_intCast, Int.floor_neg]
  ring

/-- The outer half is a tie exactly when the scaled middle is odd. -/
theorem half_iff (hpos : ∀ i < kMid halfSize, 0 < weights i) :
    (∃ k : ℤ, multiplier weights halfSize * sum weights halfSize + 1 / 2 = k) ↔
      ∃ k : ℤ, multiplier weights halfSize = 2 * k + 1 := by
  have hmultiplier := multiplier_sum hpos
  constructor
  · rintro ⟨k, hk⟩
    refine ⟨128 - k, ?_⟩
    push_cast
    linarith
  · rintro ⟨k, hk⟩
    refine ⟨128 - k, ?_⟩
    push_cast
    linarith

/-- **The sum of the whole kernel is 256, and 257 where the scaled middle is odd.** -/
theorem total_eq_iff (hpos : ∀ i < kMid halfSize, 0 < weights i) :
    total weights halfSize memory = 256 ↔
      ¬ ∃ k : ℤ, multiplier weights halfSize = 2 * k + 1 := by
  rw [total_eq memory hpos, ← half_iff hpos]
  constructor
  · intro heq hhalf
    have := floor_add_half_eq_ceil_add_one hhalf
    omega
  · intro hhalf
    rw [floor_add_half_eq_ceil hhalf]
    ring

end GaussianHalfKernel

end KleidiCV
