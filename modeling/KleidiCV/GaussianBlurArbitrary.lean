/-
Gaussian blurs with a computed kernel: what their accumulators hold.

`GaussianBlurArbitrary` has any kernel size and `GaussianBlur<uint8_t, KernelSize,
false>` a fixed one; both take the kernel from `generate_gaussian_half_kernel`.
A path is given the element in the middle and, for each outer entry of the kernel,
the elements to the left and to the right (above and below) of it that have this
weight, wherever they were loaded from.

* `weightedSum` — what a path adds up, in exact numbers;
* `GaussianBlurArbitrary.Exact`, `GaussianBlurArbitrary.exact` — a kernel that sums to
  256 at most never makes an accumulator wrap or saturate;
* `GaussianBlurSigma.filterType_computesOn` — the same for the fixed sizes, in the
  driver of separable filters;
* `generateGaussianHalfKernel_keepsConstants_iff` — when all of this holds.
-/
import KleidiCV.GaussianHalfKernel
import KleidiCV.GaussianBlurFixed

open Loop

namespace KleidiCV

/-! ### Weighted sums -/

/-- The middle and the first `n` outer entries, each with both its elements. -/
def weightedSum (halfKernel : ℕ → BitVec 8) (kMid n : ℕ) (mid : BitVec 8)
    (left right : ℕ → BitVec 8) : ℕ :=
  mid.toNat * (halfKernel kMid).toNat
    + ∑ i ∈ Finset.range n, ((left i).toNat + (right i).toNat) * (halfKernel i).toNat

/-- The sum of the whole kernel. -/
def kernelSum (halfKernel : ℕ → BitVec 8) (kMid : ℕ) : ℕ :=
  2 * ∑ i ∈ Finset.range kMid, (halfKernel i).toNat + (halfKernel kMid).toNat

/-- Divided by 256, rounded to the nearest integer. -/
def roundedByte (sum : ℕ) : BitVec 8 := BitVec.ofNat 8 ((sum + 128) / 256)

section

variable {halfKernel : ℕ → BitVec 8} {kMid : ℕ} {mid : BitVec 8} {left right : ℕ → BitVec 8}

theorem weightedSum_zero :
    weightedSum halfKernel kMid 0 mid left right = mid.toNat * (halfKernel kMid).toNat := by
  rw [weightedSum, Finset.sum_range_zero, Nat.add_zero]

theorem weightedSum_succ (n : ℕ) :
    weightedSum halfKernel kMid (n + 1) mid left right
      = weightedSum halfKernel kMid n mid left right
        + ((left n).toNat + (right n).toNat) * (halfKernel n).toNat := by
  rw [weightedSum, Finset.sum_range_succ, ← Nat.add_assoc]
  rfl

/-- No image has a larger sum than a white one. -/
theorem weightedSum_le : weightedSum halfKernel kMid kMid mid left right
    ≤ 255 * kernelSum halfKernel kMid := by
  have hmid := Nat.mul_le_mul_right (halfKernel kMid).toNat (Nat.le_of_lt_succ mid.isLt)
  have houter : ∑ i ∈ Finset.range kMid, ((left i).toNat + (right i).toNat) * (halfKernel i).toNat
      ≤ ∑ i ∈ Finset.range kMid, 510 * (halfKernel i).toNat := by
    refine Finset.sum_le_sum fun i _ => Nat.mul_le_mul_right _ ?_
    have hl := (left i).isLt
    have hr := (right i).isLt
    omega
  rw [← Finset.mul_sum] at houter
  rw [weightedSum, kernelSum]
  omega

/-- A constant image has that multiple of the kernel's sum. -/
theorem weightedSum_const (c : BitVec 8) :
    weightedSum halfKernel kMid kMid c (fun _ => c) (fun _ => c)
      = c.toNat * kernelSum halfKernel kMid := by
  rw [weightedSum, kernelSum, ← Finset.mul_sum]
  ring

/-- A constant is kept if the kernel sums to 256. -/
theorem roundedByte_const (c : BitVec 8) : roundedByte (c.toNat * 256) = c := by
  have hdiv : (c.toNat * 256 + 128) / 256 = c.toNat := by omega
  rw [roundedByte, hdiv, BitVec.ofNat_toNat, BitVec.setWidth_eq]

/-- The rounded sum of a kernel that sums to 256 at most is a byte. -/
theorem roundedByte_of_le {sum : ℕ} (h : sum ≤ 255 * 256) : (sum + 128) / 256 < 2 ^ 8 := by omega

end

/-! ### Any kernel size -/

/-- `GaussianBlurArbitrary<uint8_t>`. -/
structure GaussianBlurArbitrary where
  halfKernelSize : ℕ
  halfKernel : ℕ → BitVec 8

namespace GaussianBlurArbitrary

variable (blur : GaussianBlurArbitrary) (mid : BitVec 8) (left right : ℕ → BitVec 8)

/-- One lane of `vmull_u8` with the middle weight. -/
def startSum : BitVec 16 :=
  mid.setWidth 16 * (blur.halfKernel (blur.halfKernelSize - 1)).setWidth 16

/-- One lane of `vaddl_u8` and `vmulq_u16` for outer entry `i`. -/
def product (i : ℕ) : BitVec 16 :=
  ((left i).setWidth 16 + (right i).setWidth 16) * (blur.halfKernel i).setWidth 16

/-- Outer entries from `first` to before `last`, one at a time. -/
def accumulate (first last : ℕ) : BitVec 16 → BitVec 16 :=
  forFrom first (last - first) fun i acc => acc + blur.product left right i

/-- `vqaddq_u16` with 128, of which the upper byte is kept. -/
def saturatingRound (acc : BitVec 16) : BitVec 8 :=
  ((BitVec.ofNat 16 (min (2 ^ 16 - 1) (acc.toNat + 128))) >>> 8).setWidth 8

/-- One lane of `vrshrn_n_u16(acc, 8)`. -/
def vrshrn8 (acc : BitVec 16) : BitVec 8 := BitVec.ofNat 8 ((acc.toNat + 2 ^ 7) / 2 ^ 8)

/-- `vertical_vector_path`: four outer entries at a time, then single ones. -/
def verticalVectorPath : BitVec 8 :=
  let p := blur.product left right
  let fours := (blur.halfKernelSize - 4 + 3) / 4
  let acc := forRange fours (fun k acc =>
      let i := 4 * k
      acc + ((p i + p (i + 1)) + (p (i + 2) + p (i + 3)))) (blur.startSum mid)
  saturatingRound (blur.accumulate left right (4 * fours) (blur.halfKernelSize - 1) acc)

/-- `vertical_border_vector_path` and `horizontal_vector_path`. -/
def vectorPath : BitVec 8 :=
  saturatingRound (blur.accumulate left right 0 (blur.halfKernelSize - 1) (blur.startSum mid))

/-- `horizontal_left_border_vector_path` and `horizontal_right_border_vector_path`: one side of
the first `borderTaps` entries is loaded through the border. -/
def horizontalBorderVectorPath (borderTaps : ℕ) : BitVec 8 :=
  let acc := blur.accumulate left right 0 borderTaps (blur.startSum mid)
  vrshrn8 (blur.accumulate left right borderTaps (blur.halfKernelSize - 1) acc)

/-- `vertical_scalar_path`, `vertical_border_scalar_path` and `horizontal_scalar_path`. -/
def scalarPath : BitVec 8 :=
  let start := BitVec.ofNat 32 (mid.toNat * (blur.halfKernel (blur.halfKernelSize - 1)).toNat)
  let acc := forRange (blur.halfKernelSize - 1) (fun i (acc : BitVec 32) =>
      acc + BitVec.ofNat 32 (((left i).toNat + (right i).toNat) * (blur.halfKernel i).toNat)) start
  ((acc + 2 ^ 7) >>> 8).setWidth 8

/-- The sum up to outer entry `i`. -/
def sumTo (i : ℕ) : ℕ :=
  weightedSum blur.halfKernel (blur.halfKernelSize - 1) i mid left right

/-- No accumulator wraps: all paths compute the same rounded sum. -/
structure Exact : Prop where
  verticalVector : ∀ mid left right, blur.verticalVectorPath mid left right
    = roundedByte (blur.sumTo mid left right (blur.halfKernelSize - 1))
  vector : ∀ mid left right, blur.vectorPath mid left right
    = roundedByte (blur.sumTo mid left right (blur.halfKernelSize - 1))
  horizontalBorderVector : ∀ borderTaps ≤ blur.halfKernelSize - 1, ∀ mid left right,
    blur.horizontalBorderVectorPath mid left right borderTaps
      = roundedByte (blur.sumTo mid left right (blur.halfKernelSize - 1))
  scalar : ∀ mid left right, blur.scalarPath mid left right
    = roundedByte (blur.sumTo mid left right (blur.halfKernelSize - 1))

variable {blur mid left right}

theorem startSum_eq : blur.startSum mid = BitVec.ofNat 16 (blur.sumTo mid left right 0) := by
  rw [sumTo, weightedSum_zero]
  apply BitVec.eq_of_toNat_eq
  simp [startSum]

theorem product_eq (i : ℕ) : blur.product left right i
    = BitVec.ofNat 16 (((left i).toNat + (right i).toNat) * (blur.halfKernel i).toNat) := by
  apply BitVec.eq_of_toNat_eq
  simp [product, Nat.mul_mod]

theorem sumTo_succ (i : ℕ) : BitVec.ofNat 16 (blur.sumTo mid left right (i + 1))
    = BitVec.ofNat 16 (blur.sumTo mid left right i) + blur.product left right i := by
  rw [sumTo, weightedSum_succ, BitVec.ofNat_add, product_eq]
  rfl

theorem accumulate_eq {first last : ℕ} (h : first ≤ last) :
    blur.accumulate left right first last (BitVec.ofNat 16 (blur.sumTo mid left right first))
      = BitVec.ofNat 16 (blur.sumTo mid left right last) := by
  obtain ⟨n, rfl⟩ := Nat.exists_eq_add_of_le h
  rw [accumulate, Nat.add_sub_cancel_left]
  refine forFrom_invariant
    (fun i acc => acc = BitVec.ofNat 16 (blur.sumTo mid left right i)) rfl ?_
  rintro i - - _ rfl
  exact (sumTo_succ i).symm

/-- Four entries at a time. -/
theorem accumulate_fours (fours : ℕ) :
    forRange fours (fun k acc =>
        let i := 4 * k
        acc + ((blur.product left right i + blur.product left right (i + 1))
          + (blur.product left right (i + 2) + blur.product left right (i + 3))))
      (BitVec.ofNat 16 (blur.sumTo mid left right 0))
        = BitVec.ofNat 16 (blur.sumTo mid left right (4 * fours)) := by
  refine forRange_invariant
    (fun k acc => acc = BitVec.ofNat 16 (blur.sumTo mid left right (4 * k))) rfl ?_
  rintro k - _ rfl
  rw [show 4 * (k + 1) = 4 * k + 3 + 1 by ring, sumTo_succ (4 * k + 3), sumTo_succ (4 * k + 2),
    sumTo_succ (4 * k + 1), sumTo_succ (4 * k)]
  simp only [BitVec.add_assoc]

section

variable {sum : ℕ}

theorem saturatingRound_eq (h : sum ≤ 255 * 256) :
    saturatingRound (BitVec.ofNat 16 sum) = roundedByte sum := by
  apply BitVec.eq_of_toNat_eq
  simp only [saturatingRound, roundedByte, BitVec.toNat_setWidth, BitVec.toNat_ushiftRight,
    BitVec.toNat_ofNat, Nat.shiftRight_eq_div_pow]
  omega

theorem vrshrn8_eq (h : sum ≤ 255 * 256) : vrshrn8 (BitVec.ofNat 16 sum) = roundedByte sum := by
  rw [vrshrn8, roundedByte, BitVec.toNat_ofNat, Nat.mod_eq_of_lt (by omega),
    show 2 ^ 7 = 128 from rfl, show 2 ^ 8 = 256 from rfl]

end

theorem scalarPath_eq : blur.scalarPath mid left right
    = ((BitVec.ofNat 32 (blur.sumTo mid left right (blur.halfKernelSize - 1)) + 2 ^ 7)
      >>> 8).setWidth 8 := by
  rw [scalarPath]
  congr 3
  refine forRange_invariant
    (fun i (acc : BitVec 32) => acc = BitVec.ofNat 32 (blur.sumTo mid left right i)) ?_ ?_
  · rw [sumTo, weightedSum_zero]
  · rintro i - _ rfl
    rw [sumTo, sumTo, weightedSum_succ, BitVec.ofNat_add]

/-- **A kernel that sums to 256 at most never makes an accumulator wrap or saturate.** -/
theorem exact (hpos : 0 < blur.halfKernelSize)
    (hsum : kernelSum blur.halfKernel (blur.halfKernelSize - 1) ≤ 256) : blur.Exact := by
  have hle : ∀ mid left right, blur.sumTo mid left right (blur.halfKernelSize - 1) ≤ 255 * 256 :=
    fun _ _ _ => weightedSum_le.trans (Nat.mul_le_mul_left 255 hsum)
  refine ⟨fun mid left right => ?_, fun mid left right => ?_, fun borderTaps hborder mid left right => ?_,
    fun mid left right => ?_⟩
  · have hfours : 4 * ((blur.halfKernelSize - 4 + 3) / 4) ≤ blur.halfKernelSize - 1 := by omega
    simp only [verticalVectorPath]
    rw [startSum_eq, accumulate_fours, accumulate_eq hfours, saturatingRound_eq (hle mid left right)]
  · rw [vectorPath, startSum_eq, accumulate_eq (Nat.zero_le _),
      saturatingRound_eq (hle mid left right)]
  · simp only [horizontalBorderVectorPath]
    rw [startSum_eq, accumulate_eq (Nat.zero_le _), accumulate_eq hborder,
      vrshrn8_eq (hle mid left right)]
  · have hbound := hle mid left right
    rw [scalarPath_eq]
    apply BitVec.eq_of_toNat_eq
    rw [BitVec.toNat_setWidth, BitVec.toNat_ushiftRight, BitVec.toNat_add, BitVec.toNat_ofNat,
      show (2 ^ 7 : BitVec 32).toNat = 128 from rfl, Nat.shiftRight_eq_div_pow, roundedByte,
      BitVec.toNat_ofNat]
    omega

end GaussianBlurArbitrary

/-! ### Fixed kernel sizes -/

namespace GaussianBlurSigma

variable {blur : GaussianBlurSigma}

/-- The exact sum of the elements under the kernel. -/
def sumOf (blur : GaussianBlurSigma) (src : ℕ → BitVec 8) : ℕ :=
  weightedSum blur.halfKernel (blur.kHalfKernelSize - 1) (blur.kHalfKernelSize - 1)
    (src (blur.kHalfKernelSize - 1)) src fun i => src (blur.kernelSize - i - 1)

theorem sumOf_le (hsum : kernelSum blur.halfKernel (blur.kHalfKernelSize - 1) ≤ 256)
    (src : ℕ → BitVec 8) : blur.sumOf src ≤ 255 * 256 :=
  weightedSum_le.trans (Nat.mul_le_mul_left 255 hsum)

/-- The accumulator of a vector starts with the rounding term. -/
theorem commonHalf_eq (src : ℕ → Fin 8 → BitVec 8) (lane : Fin 8) :
    blur.commonHalf src lane = 128 + BitVec.ofNat 16 (blur.sumOf fun t => src t lane) := by
  have hloop : ∀ lane : Fin 8, blur.commonHalf src lane = 128 + BitVec.ofNat 16
      (weightedSum blur.halfKernel (blur.kHalfKernelSize - 1) (blur.kHalfKernelSize - 1)
        (src (blur.kHalfKernelSize - 1) lane) (fun t => src t lane)
        fun i => src (blur.kernelSize - i - 1) lane) := by
    refine forRange_invariant (fun i (acc : Fin 8 → BitVec 16) => ∀ lane, acc lane = 128
      + BitVec.ofNat 16 (weightedSum blur.halfKernel (blur.kHalfKernelSize - 1) i
        (src (blur.kHalfKernelSize - 1) lane) (fun t => src t lane)
        fun i => src (blur.kernelSize - i - 1) lane)) ?_ ?_
    · intro lane
      rw [weightedSum_zero]
      congr 1
    · intro i _ acc hacc lane
      have hproduct : ((src i lane).setWidth 16 + (src (blur.kernelSize - i - 1) lane).setWidth 16)
          * (blur.halfKernel i).setWidth 16 = BitVec.ofNat 16 (((src i lane).toNat
            + (src (blur.kernelSize - i - 1) lane).toNat) * (blur.halfKernel i).toNat) := by
        apply BitVec.eq_of_toNat_eq
        simp [Nat.mul_mod]
      rw [weightedSum_succ, BitVec.ofNat_add, ← BitVec.add_assoc, ← hacc lane, ← hproduct]
  exact hloop lane

theorem commonHalf_byte (hsum : kernelSum blur.halfKernel (blur.kHalfKernelSize - 1) ≤ 256)
    (src : ℕ → Fin 8 → BitVec 8) (lane : Fin 8) :
    (blur.commonHalf src lane >>> 8).setWidth 8 = roundedByte (blur.sumOf fun t => src t lane) := by
  have hle := sumOf_le hsum fun t => src t lane
  rw [commonHalf_eq]
  apply BitVec.eq_of_toNat_eq
  rw [BitVec.toNat_setWidth, BitVec.toNat_ushiftRight, BitVec.toNat_add, BitVec.toNat_ofNat,
    show (128 : BitVec 16).toNat = 128 from rfl, Nat.shiftRight_eq_div_pow, roundedByte,
    BitVec.toNat_ofNat]
  omega

theorem commonVectorPath_eq (hsum : kernelSum blur.halfKernel (blur.kHalfKernelSize - 1) ≤ 256)
    (src : ℕ → Fin (2 * 8) → BitVec 8) (lane : Fin (2 * 8)) :
    blur.commonVectorPath src lane = roundedByte (blur.sumOf fun t => src t lane) :=
  GaussianBlur.vcombine_cases
    (P := fun lane (v : BitVec 8) => v = roundedByte (blur.sumOf fun t => src t lane))
    (fun lane => commonHalf_byte hsum (GaussianBlur.lower src) lane)
    (fun lane => commonHalf_byte hsum (GaussianBlur.upper src) lane) lane

theorem scalarPath_eq (hsum : kernelSum blur.halfKernel (blur.kHalfKernelSize - 1) ≤ 256)
    (src : ℕ → BitVec 8) : blur.scalarPath src = roundedByte (blur.sumOf src) := by
  have hle := sumOf_le hsum src
  have hacc : forRange (blur.kHalfKernelSize - 1) (fun i (acc : BitVec 16) =>
      acc + BitVec.ofNat 16 (((src i).toNat + (src (blur.kernelSize - i - 1)).toNat) *
        (blur.halfKernel i).toNat))
      (BitVec.ofNat 16 ((src (blur.kHalfKernelSize - 1)).toNat
        * (blur.halfKernel (blur.kHalfKernelSize - 1)).toNat))
      = BitVec.ofNat 16 (blur.sumOf src) := by
    refine forRange_invariant (fun i (acc : BitVec 16) => acc = BitVec.ofNat 16
      (weightedSum blur.halfKernel (blur.kHalfKernelSize - 1) i (src (blur.kHalfKernelSize - 1)) src
        fun i => src (blur.kernelSize - i - 1))) ?_ ?_
    · rw [weightedSum_zero]
    · rintro i - _ rfl
      rw [weightedSum_succ, BitVec.ofNat_add]
  simp only [scalarPath]
  rw [hacc, roundedByte, BitVec.toNat_ofNat, Nat.mod_eq_of_lt (by omega),
    show 2 ^ 7 = 128 from rfl, show 2 ^ 8 = 256 from rfl]

/-- Only the elements under the kernel matter. -/
theorem sumOf_congr (hodd : blur.kernelSize % 2 = 1) {src src' : ℕ → BitVec 8}
    (h : ∀ t < blur.kernelSize, src t = src' t) : blur.sumOf src = blur.sumOf src' := by
  have hmid : blur.kHalfKernelSize - 1 < blur.kernelSize := by
    rw [kHalfKernelSize]
    omega
  rw [sumOf, sumOf, weightedSum, weightedSum, h _ hmid]
  congr 1
  refine Finset.sum_congr rfl fun i hi => ?_
  rw [Finset.mem_range] at hi
  rw [h i (by omega), h _ (by omega)]

/-- **A computed kernel in the driver** of separable filters. -/
theorem filterType_computesOn (blur : GaussianBlurSigma) (hodd : blur.kernelSize % 2 = 1)
    (hsum : kernelSum blur.halfKernel (blur.kHalfKernelSize - 1) ≤ 256) :
    blur.filterType.ComputesOn blur.kernelSize (fun _ => True)
      (fun src v => v = roundedByte (blur.sumOf src)) (fun src => roundedByte (blur.sumOf src)) where
  sourceLanes_pos := show 0 < 2 * 8 by decide
  bufferLanes_pos := show 0 < 2 * 8 by decide
  verticalVector := by
    intro (src : ℕ → Fin (2 * 8) → BitVec 8) dst buffer
    obtain ⟨g, heq, hg⟩ := vst1q_eq buffer dst (blur.commonVectorPath src)
    exact ⟨g, heq, fun lane => (hg lane).trans (commonVectorPath_eq hsum src lane)⟩
  verticalScalar := fun src _ _ => ⟨_, rfl, scalarPath_eq hsum src⟩
  vertical_valid := fun _ _ _ => trivial
  horizontalVector := by
    intro (src : ℕ → Fin (2 * 8) → BitVec 8) dst m _
    obtain ⟨g, heq, hg⟩ := vst1q_eq m dst (blur.commonVectorPath src)
    exact ⟨g, heq, fun lane => (hg lane).trans (commonVectorPath_eq hsum src lane)⟩
  horizontalScalar := fun src dst m _ =>
    congrArg (Function.update m dst) (scalarPath_eq hsum src)
  vertical_congr := fun src src' v h hv => hv.trans (congrArg _ (sumOf_congr hodd h))
  horizontal_congr := fun src src' h => congrArg _ (sumOf_congr hodd h)

end GaussianBlurSigma

/-! ### Constant images -/

open GaussianHalfKernel

section

variable {weights : ℕ → ℚ} {halfSize : ℕ} {memory halfKernel : ℕ → BitVec 8}

/-- The bytes of the kernel are the rounded values. -/
theorem kernelSum_eq (hpos : ∀ i < kMid halfSize, 0 < weights i)
    (h : generateGaussianHalfKernel weights halfSize memory = some halfKernel) :
    (kernelSum halfKernel (kMid halfSize) : ℤ) = total weights halfSize memory := by
  have hdiffused := diffused_diffusedTo hpos memory
  obtain ⟨-, hmid0, hmid⟩ := midRounded_spec memory hpos
  rw [generateGaussianHalfKernel] at h
  split at h
  · cases h
  · rename_i hne
    obtain rfl := Option.some.inj h
    have hmidNat : ((midValue weights halfSize memory).toNat : ℤ)
        = midRounded weights halfSize memory := by
      rw [midValue, BitVec.toNat_ofInt]
      omega
    have hmidNe : midRounded weights halfSize memory ≠ 256 := by
      intro heq
      refine hne (BitVec.eq_of_toNat_eq ?_)
      rw [heq] at hmidNat
      exact_mod_cast hmidNat
    have houter : ∀ i ∈ Finset.range (kMid halfSize),
        ((Function.update (diffused weights halfSize memory).halfKernel (kMid halfSize)
          ((midValue weights halfSize memory).setWidth 8) i).toNat : ℤ)
        = (diffused weights halfSize memory).valueRounded i := by
      intro i hi
      rw [Finset.mem_range] at hi
      obtain ⟨h0, h255, hbyte⟩ := hdiffused.entry i hi
      rw [Function.update_of_ne hi.ne, hbyte, BitVec.toNat_ofInt]
      omega
    have hbyte : (midValue weights halfSize memory).toNat % 2 ^ 8
        = (midValue weights halfSize memory).toNat := Nat.mod_eq_of_lt (by omega)
    rw [kernelSum, total, Function.update_self, BitVec.toNat_setWidth, hbyte, Nat.cast_add,
      Nat.cast_mul, Nat.cast_sum, Finset.sum_congr rfl houter, hmidNat]
    rfl

/-- The paths of a kernel of any size on a constant. -/
structure GaussianBlurArbitrary.KeepsConstant (blur : GaussianBlurArbitrary) (c : BitVec 8) :
    Prop where
  verticalVector : blur.verticalVectorPath c (fun _ => c) (fun _ => c) = c
  vector : blur.vectorPath c (fun _ => c) (fun _ => c) = c
  horizontalBorderVector : ∀ borderTaps ≤ blur.halfKernelSize - 1,
    blur.horizontalBorderVectorPath c (fun _ => c) (fun _ => c) borderTaps = c
  scalar : blur.scalarPath c (fun _ => c) (fun _ => c) = c

theorem GaussianBlurArbitrary.keepsConstant {blur : GaussianBlurArbitrary}
    (hpos : 0 < blur.halfKernelSize)
    (hsum : kernelSum blur.halfKernel (blur.halfKernelSize - 1) = 256) (c : BitVec 8) :
    blur.KeepsConstant c := by
  have hexact := GaussianBlurArbitrary.exact hpos hsum.le
  have hconst : roundedByte (blur.sumTo c (fun _ => c) (fun _ => c) (blur.halfKernelSize - 1)) = c := by
    rw [GaussianBlurArbitrary.sumTo, weightedSum_const, hsum, roundedByte_const]
  exact ⟨(hexact.verticalVector _ _ _).trans hconst, (hexact.vector _ _ _).trans hconst,
    fun borderTaps hborder => (hexact.horizontalBorderVector borderTaps hborder _ _ _).trans hconst,
    (hexact.scalar _ _ _).trans hconst⟩

/-- The source has one value in all its elements. -/
def GaussianBlurCall.ConstantSource (r : GaussianBlurCall) (src : ℕ → BitVec 8) (c : BitVec 8) :
    Prop :=
  ∀ y < r.height, ∀ e < r.width * r.channels, src (r.srcRows.address (y, e)) = c

/-- The image has room for the kernel, and the stripe is one of it. -/
structure GaussianBlurCall.Fits (r : GaussianBlurCall) (margin yBegin yEnd : ℕ) : Prop where
  width : 2 * margin ≤ r.width
  width_lt : r.width < 2 ^ 63
  height : 2 * margin ≤ r.height
  height_lt : r.height < 2 ^ 63
  stride : r.width * r.channels ≤ r.dstStride
  begin_le : yBegin ≤ yEnd
  end_le : yEnd ≤ r.height

/-- A driver whose columns and rows of one value give this value. -/
theorem SeparableDriver.process_constant {driver : SeparableDriver (BitVec 8) (BitVec 8) (BitVec 8)}
    {info : FixedBorderInfo} {value : (ℕ → BitVec 8) → BitVec 8} {r : GaussianBlurCall}
    {yBegin yEnd : ℕ} {c : BitVec 8} {src : ℕ → BitVec 8}
    (hf : driver.ComputesOn (2 * info.margin + 1) (fun _ => True) (fun src v => v = value src) value)
    (hconst : ∀ taps : ℕ → BitVec 8, (∀ t < 2 * info.margin + 1, taps t = c) → value taps = c)
    (hfits : r.Fits info.margin yBegin yEnd) (hsrc : r.ConstantSource src c) (b : FixedBorderType)
    (buffer m : ℕ → BitVec 8) :
    Wrote r.dstRows.address (fun _ => c) (stripeElements (r.width * r.channels) yBegin yEnd) m
      (driver.process info r.width r.height yBegin yEnd src r.srcRows r.bufferRows r.dstRows b
        (buffer, m)).2 := by
  have hbase : r.bufferRows.ptr = 0 := rfl
  have hsrcChannels : r.srcRows.channels = r.dstRows.channels := rfl
  have hch : r.bufferRows.channels = r.dstRows.channels := rfl
  refine SeparableDriver.process_wrote hf hfits.width hfits.width_lt hfits.height hfits.height_lt hbase
    hsrcChannels hch hfits.stride (fun y hy buffer hbuffer e he => ?_) hfits.begin_le hfits.end_le
    buffer m
  have hvertical : ∀ e < r.width * r.channels, buffer e = c := by
    intro e he
    rw [hbuffer e he]
    exact hconst _ fun t _ => hsrc _ (info.sample_lt hfits.height y t) e he
  have hpos : 0 < r.channels := Nat.pos_of_ne_zero fun h => by
    rw [show r.dstRows.channels = r.channels from rfl, h, Nat.mul_zero] at he
    exact absurd he (Nat.not_lt_zero e)
  exact hconst _ fun t _ => hvertical _
    (pixelByte_lt (info.sample_lt hfits.width (e / r.channels) t) (Nat.mod_lt _ hpos))

/-- The rows of a stripe, copied from a constant source. -/
theorem copyRows_constant {r : GaussianBlurCall} {margin yBegin yEnd : ℕ} {c : BitVec 8}
    {src : ℕ → BitVec 8} (hfits : r.Fits margin yBegin yEnd) (hsrc : r.ConstantSource src c)
    (m : ℕ → BitVec 8) :
    Wrote r.dstRows.address (fun _ => c) (stripeElements (r.width * r.channels) yBegin yEnd) m
      (forFrom yBegin (yEnd - yBegin) (fun row m =>
        overwrite m (r.dst + row * r.dstStride) (r.width * r.channels) fun i =>
          src (r.src + row * r.srcStride + i)) m) := by
  have hend := hfits.end_le
  obtain ⟨n, rfl⟩ := Nat.exists_eq_add_of_le hfits.begin_le
  rw [Nat.add_sub_cancel_left]
  refine forFrom_invariant (fun y => Wrote r.dstRows.address (fun _ => c)
    (stripeElements (r.width * r.channels) yBegin y) m) ?_ ?_
  · exact Wrote.refl_of_empty m fun p hp => Nat.not_lt.mpr hp.1 hp.2.1
  · intro y h1 h2 m' h
    have hrow : Wrote r.dstRows.address (fun _ => c)
        (stripeElements (r.width * r.channels) y (y + 1)) m'
        (overwrite m' (r.dst + y * r.dstStride) (r.width * r.channels) fun i =>
          src (r.src + y * r.srcStride + i)) := by
      refine overwrite_wrote ?_ ?_
      · rintro ⟨y', e⟩ ⟨h3, h4, he⟩
        obtain rfl : y' = y := by simp only at h3 h4; omega
        exact ⟨e, he, rfl, hsrc y' (by omega) e he⟩
      · exact fun j hj => ⟨(y, j), ⟨le_rfl, Nat.lt_succ_self y, hj⟩, rfl⟩
    refine (h.trans (Rows.address_injOn hfits.stride) (fun p hp => hp.2.2) (fun p hp => hp.2.2)
      hrow).congr ?_
    ext p
    simp only [stripeElements, Set.mem_union, Set.mem_ofPred_eq]
    omega

/-- **A constant image stays constant** under a computed kernel of a fixed size. -/
theorem gaussianBlurFixedSigma_constant (generate : ℕ → FloatValue → Option (ℕ → BitVec 8))
    (sigma : FloatValue) {info : FixedBorderInfo} {r : GaussianBlurCall} {yBegin yEnd : ℕ}
    {c : BitVec 8} {src : ℕ → BitVec 8} (hfits : r.Fits info.margin yBegin yEnd)
    (hsum : ∀ k, generate (info.margin + 1) sigma = some k → kernelSum k info.margin = 256)
    (hsrc : r.ConstantSource src c) (b : FixedBorderType) (bytes m : ℕ → BitVec 8) :
    Wrote r.dstRows.address (fun _ => c) (stripeElements (r.width * r.channels) yBegin yEnd) m
      (gaussianBlurFixedSigma generate (2 * info.margin + 1) info r yBegin yEnd sigma b (some bytes)
        src m).2 := by
  have hhalf : (2 * info.margin + 1) / 2 + 1 = info.margin + 1 := by omega
  cases hkernel : generate (info.margin + 1) sigma with
  | none =>
      simp only [gaussianBlurFixedSigma, hhalf, hkernel]
      exact copyRows_constant hfits hsrc m
  | some k =>
      have hk := hsum k hkernel
      simp only [gaussianBlurFixedSigma, hhalf, hkernel]
      have hmid : GaussianBlurSigma.kHalfKernelSize ⟨2 * info.margin + 1, k⟩ - 1 = info.margin := by
        simp only [GaussianBlurSigma.kHalfKernelSize]
        omega
      have hodd : (GaussianBlurSigma.mk (2 * info.margin + 1) k).kernelSize % 2 = 1 := by
        show (2 * info.margin + 1) % 2 = 1
        omega
      have hf := (GaussianBlurSigma.filterType_computesOn (⟨2 * info.margin + 1, k⟩ : GaussianBlurSigma) hodd
        (by rw [hmid]; exact hk.le)).driver info
      refine SeparableDriver.process_constant hf (fun taps htaps => ?_) hfits hsrc b bytes m
      rw [GaussianBlurSigma.sumOf_congr hodd htaps, GaussianBlurSigma.sumOf, weightedSum_const, hmid,
        hk, roundedByte_const]

/-- What the kernel is for: it sums to one in fixed point, no accumulator overflows, and a blur
leaves a constant image as it is. -/
structure KernelKeepsConstants (weights : ℕ → ℚ) (halfSize : ℕ) (memory : ℕ → BitVec 8) : Prop where
  outer : ∀ i < kMid halfSize, 0 ≤ (diffused weights halfSize memory).valueRounded i ∧
    (diffused weights halfSize memory).valueRounded i ≤ 255
  total : total weights halfSize memory = 256
  accumulator : 255 * GaussianHalfKernel.total weights halfSize memory + 128 < 2 ^ 16
  arbitrary : ∀ k, generateGaussianHalfKernel weights halfSize memory = some k →
    ∀ c, (GaussianBlurArbitrary.mk halfSize k).KeepsConstant c
  fixed : ∀ (info : FixedBorderInfo) (r : GaussianBlurCall) (yBegin yEnd : ℕ) (sigma : FloatValue)
    (b : FixedBorderType) (bytes m src : ℕ → BitVec 8) (c : BitVec 8), info.margin + 1 = halfSize →
    r.Fits info.margin yBegin yEnd → r.ConstantSource src c →
    ∀ y x channel, yBegin ≤ y → y < yEnd → x < r.width → channel < r.channels →
      (gaussianBlurFixedSigma (fun n _ => generateGaussianHalfKernel weights n memory)
        (2 * info.margin + 1) info r yBegin yEnd sigma b (some bytes) src m).2
          (r.dstRows.ptrAt y x channel) = c

/-- **The kernel does what it is for unless the scaled middle is an odd integer.**  Then the outer
half ends at a tie, both roundings go up, and the sum is 257. -/
theorem generateGaussianHalfKernel_keepsConstants_iff (weights : ℕ → ℚ) (halfSize : ℕ)
    (memory : ℕ → BitVec 8) (hsize : 2 ≤ halfSize) (hpos : ∀ i < halfSize - 1, 0 < weights i) :
    KernelKeepsConstants weights halfSize memory ↔
      ¬ ∃ k : ℤ, 256 / ((∑ i ∈ Finset.range (halfSize - 1), weights i) * 2 + 1) = 2 * k + 1 := by
  have hmultiplier : multiplier weights halfSize
      = 256 / ((∑ i ∈ Finset.range (halfSize - 1), weights i) * 2 + 1) := by
    rw [multiplier, sum_eq]
    rfl
  have hiff := total_eq_iff memory hpos
  rw [hmultiplier] at hiff
  constructor
  · exact fun h => hiff.mp h.total
  · intro hodd
    have htotal := hiff.mpr hodd
    have hsum : ∀ k, generateGaussianHalfKernel weights halfSize memory = some k →
        kernelSum k (kMid halfSize) = 256 := by
      intro k hk
      have hk' := kernelSum_eq hpos hk
      rw [htotal] at hk'
      exact_mod_cast hk'
    refine ⟨fun i hi => ?_, htotal, by rw [htotal]; norm_num, fun k hk c => ?_, ?_⟩
    · obtain ⟨h0, h255, -⟩ := (diffused_diffusedTo hpos memory).entry i hi
      exact ⟨h0, h255⟩
    · exact GaussianBlurArbitrary.keepsConstant (show 0 < halfSize by omega) (hsum k hk) c
    · rintro info r yBegin yEnd sigma b bytes m src c rfl hfits hsrc y x channel h1 h2 hx hc
      have hwrote := gaussianBlurFixedSigma_constant
        (fun n _ => generateGaussianHalfKernel weights n memory) sigma hfits hsum hsrc b bytes m
      exact (stripe_pixels hwrote).1 y x channel h1 h2 hx hc

end

/-- Three weights of 1: the scaled middle is 256 / 7. -/
theorem generateGaussianHalfKernel_keepsConstants_ones :
    KernelKeepsConstants (fun _ => 1) 4 (fun _ => 0) := by
  refine (generateGaussianHalfKernel_keepsConstants_iff (fun _ => 1) 4 (fun _ => 0) (by decide)
    fun _ _ => one_pos).mpr ?_
  rintro ⟨k, hk⟩
  norm_num at hk
  have hcast : (256 : ℚ) = ((14 * k + 7 : ℤ) : ℚ) := by
    push_cast
    linarith
  have hint : (256 : ℤ) = 14 * k + 7 := by exact_mod_cast hcast
  omega

/-- The weight 1/510 next to the middle: the kernel is 1, 255, 1 and a white image becomes
black. -/
theorem generateGaussianHalfKernel_tie :
    total (fun _ => 1 / 510) 2 (fun _ => 0) = 257 ∧
    (∀ k, generateGaussianHalfKernel (fun _ => 1 / 510) 2 (fun _ => 0) = some k →
      (GaussianBlurArbitrary.mk 2 k).scalarPath 255 (fun _ => 255) (fun _ => 255) = 0) ∧
    ¬ ∀ (weights : ℕ → ℚ) (halfSize : ℕ) (memory : ℕ → BitVec 8), 2 ≤ halfSize →
      (∀ i < halfSize - 1, 0 < weights i ∧ weights i ≤ 1) →
      (∀ i j, i ≤ j → j < halfSize - 1 → weights i ≤ weights j) →
      KernelKeepsConstants weights halfSize memory := by
  have htotal : total (fun _ => 1 / 510) 2 (fun _ => 0) = 257 := by decide +kernel
  refine ⟨htotal, fun k hk => ?_, fun h => ?_⟩
  · have hkernel : generateGaussianHalfKernel (fun _ => 1 / 510) 2 (fun _ => 0)
        = some (Function.update (Function.update (fun _ => 0) 0 1) 1 255) := by
      have hmid : midValue (fun _ => 1 / 510) 2 (fun _ => 0) = 255 := by decide +kernel
      have hvalue : (1 / 510 : ℚ) * multiplier (fun _ => 1 / 510) 2 - 0 = 1 / 2 := by decide +kernel
      have hround : stdRound (1 / 2) = 1 := by decide +kernel
      rw [generateGaussianHalfKernel, hmid, if_neg (by decide)]
      simp only [diffused, kMid, forRange_succ, forRange_zero, diffuseStep, hvalue, hround]
      rfl
    rw [hkernel] at hk
    obtain rfl := Option.some.inj hk
    decide +kernel
  · have hall := (h (fun _ => 1 / 510) 2 (fun _ => 0) le_rfl
      (fun _ _ => ⟨by norm_num, by norm_num⟩) fun _ _ _ _ => le_rfl).total
    rw [htotal] at hall
    exact absurd hall (by decide)

end KleidiCV
