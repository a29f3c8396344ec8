/-
`gaussian_blur` for `uint8_t` with a fixed kernel size: validation, the stripe
function and the entry point.

With sigma 0 the sizes 3, 5, 7 and 9 have binomial kernels; all other kernels are
computed in `float`, which is left open.

* `filterType_computesOn` — a binomial kernel in the driver of separable filters;
* `gaussianBlurFixed_correct` — every pixel of a stripe is the convolution, rounded
  once, however the rows are cut into stripes.
-/
import KleidiCV.GaussianBlur
import KleidiCV.Lib.Bilinear

open Loop

namespace KleidiCV

/-! ### Kernels of any sigma -/

/-- `GaussianBlur<uint8_t, KernelSize, false>`. -/
structure GaussianBlurSigma where
  kernelSize : ℕ
  halfKernel : ℕ → BitVec 8

namespace GaussianBlurSigma

variable (blur : GaussianBlurSigma)

/-- `kHalfKernelSize`. -/
def kHalfKernelSize : ℕ := blur.kernelSize / 2 + 1

/-- One half of `common_vector_path`, before the upper bytes are taken. -/
def commonHalf (src : ℕ → Fin 8 → BitVec 8) : Fin 8 → BitVec 16 :=
  let mid := blur.kHalfKernelSize - 1
  forRange mid (fun i acc lane =>
      let vec := (src i lane).setWidth 16 + (src (blur.kernelSize - i - 1) lane).setWidth 16
      acc lane + vec * (blur.halfKernel i).setWidth 16)
    fun lane => 128 + (src mid lane).setWidth 16 * (blur.halfKernel mid).setWidth 16

/-- `common_vector_path`. -/
def commonVectorPath (src : ℕ → Fin (2 * 8) → BitVec 8) : Fin (2 * 8) → BitVec 8 :=
  vcombine (fun lane => (blur.commonHalf (GaussianBlur.lower src) lane >>> 8).setWidth 8)
    fun lane => (blur.commonHalf (GaussianBlur.upper src) lane >>> 8).setWidth 8

/-- `vertical_scalar_path` and `horizontal_scalar_path`. -/
def scalarPath (src : ℕ → BitVec 8) : BitVec 8 :=
  let mid := blur.kHalfKernelSize - 1
  let acc := forRange mid (fun i (acc : BitVec 16) =>
      acc + BitVec.ofNat 16 (((src i).toNat + (src (blur.kernelSize - i - 1)).toNat) *
        (blur.halfKernel i).toNat))
    (BitVec.ofNat 16 ((src mid).toNat * (blur.halfKernel mid).toNat))
  BitVec.ofNat 8 ((acc.toNat + 2 ^ 7) / 2 ^ 8)

/-- The class as a `FilterType` of the driver. -/
def filterType : SeparableFilterType (BitVec 8) (BitVec 8) (BitVec 8) where
  sourceLanes := 2 * 8
  bufferLanes := 2 * 8
  verticalVectorPath := fun src dst buffer => vst1q buffer dst (blur.commonVectorPath src)
  verticalScalarPath := fun src dst buffer => Function.update buffer dst (blur.scalarPath src)
  horizontalVectorPath := fun src dst m => vst1q m dst (blur.commonVectorPath src)
  horizontalScalarPath := fun src dst m => Function.update m dst (blur.scalarPath src)

end GaussianBlurSigma

/-! ### The stripe function -/

/-- A `float`, as far as it is compared; the two zeros are equal. -/
inductive FloatValue
  | nan
  | infinity (negative : Bool)
  | finite (q : ℚ)
  deriving DecidableEq

/-- `==`. -/
def FloatValue.eq (x y : FloatValue) : Bool := x ≠ .nan && y ≠ .nan && x = y

/-- A binomial kernel as a `FilterType` of the driver. -/
def GaussianBlur.filterType (blur : GaussianBlur) :
    SeparableFilterType (BitVec 8) (BitVec 16) (BitVec 8) where
  sourceLanes := 2 * 8
  bufferLanes := 2 * 4
  verticalVectorPath := fun src dst buffer =>
    let acc := (blur.verticalVectorPath src).value
    vst1q (vst1q buffer dst acc.1) (dst + 8) acc.2
  verticalScalarPath := fun src dst buffer =>
    Function.update buffer dst (blur.verticalScalarPath src).value
  horizontalVectorPath := fun src dst m => vst1q m dst (blur.horizontalVectorPath src).value
  horizontalScalarPath := fun src dst m =>
    Function.update m dst (blur.horizontalScalarPath src).value

/-- The images of a call; pointers and strides count bytes. -/
structure GaussianBlurCall where
  src : ℕ
  srcStride : ℕ
  dst : ℕ
  dstStride : ℕ
  width : ℕ
  height : ℕ
  channels : ℕ

namespace GaussianBlurCall

variable (r : GaussianBlurCall)

def srcRows : Rows := ⟨r.src, r.srcStride, r.channels⟩

def dstRows : Rows := ⟨r.dst, r.dstStride, r.channels⟩

/-- The row buffer of `SeparableFilterWorkspace`, in its elements. -/
def bufferRows : Rows := ⟨0, r.width * r.channels + 3, r.channels⟩

end GaussianBlurCall

/-- Bytes of an allocation as `uint16_t`. -/
def bytesAsU16 (bytes : ℕ → BitVec 8) : ℕ → BitVec 16 := fun i =>
  bytes (2 * i + 1) ++ bytes (2 * i)

section

variable (generateGaussianHalfKernel : ℕ → FloatValue → Option (ℕ → BitVec 8))

/-- `gaussian_blur_fixed_kernel_size<KernelSize, true>`; `allocation` is what
`malloc` returns. -/
def gaussianBlurFixedBinomial (blur : GaussianBlur) (info : FixedBorderInfo) (r : GaussianBlurCall)
    (yBegin yEnd : ℕ) (borderType : FixedBorderType) (allocation : Option (ℕ → BitVec 8))
    (src m : ℕ → BitVec 8) : KleidicvError × (ℕ → BitVec 8) :=
  match allocation with
  | none => (.allocation, m)
  | some bytes =>
    (.ok, (SeparableFilterWorkspace.process blur.filterType info r.width r.height yBegin yEnd src
      r.srcRows r.bufferRows r.dstRows borderType (bytesAsU16 bytes, m)).2)

/-- `gaussian_blur_fixed_kernel_size<KernelSize, false>`. -/
def gaussianBlurFixedSigma (kernelSize : ℕ) (info : FixedBorderInfo) (r : GaussianBlurCall)
    (yBegin yEnd : ℕ) (sigma : FloatValue) (borderType : FixedBorderType)
    (allocation : Option (ℕ → BitVec 8)) (src m : ℕ → BitVec 8) :
    KleidicvError × (ℕ → BitVec 8) :=
  match allocation, generateGaussianHalfKernel (kernelSize / 2 + 1) sigma with
  | none, _ => (.allocation, m)
  | some bytes, some halfKernel =>
    let blur : GaussianBlurSigma := ⟨kernelSize, halfKernel⟩
    (.ok, (SeparableFilterWorkspace.process blur.filterType info r.width r.height yBegin yEnd src
      r.srcRows r.bufferRows r.dstRows borderType (bytes, m)).2)
  -- The middle would get all the weight.
  | some _, none =>
    (.ok, forFrom yBegin (yEnd - yBegin) (fun row m =>
      overwrite m (r.dst + row * r.dstStride) (r.width * r.channels) fun i =>
        src (r.src + row * r.srcStride + i)) m)

/-- `gaussian_blur_fixed_stripe_u8`, with `gaussian_blur_fixed`. -/
def gaussianBlurFixedStripeU8 (r : GaussianBlurCall) (yBegin yEnd kernelWidth : ℕ)
    (sigmaX : FloatValue) (borderType : FixedBorderType) (allocation : Option (ℕ → BitVec 8))
    (src m : ℕ → BitVec 8) : KleidicvError × (ℕ → BitVec 8) :=
  let binomial := fun blur info =>
    gaussianBlurFixedBinomial blur info r yBegin yEnd borderType allocation src m
  let anySigma := fun kernelSize info =>
    gaussianBlurFixedSigma generateGaussianHalfKernel kernelSize info r yBegin yEnd sigmaX borderType
      allocation src m
  if sigmaX.eq (.finite 0) then
    match kernelWidth with
    | 3 => binomial gaussianBlur3x3 FixedBorderInfo3x3.info
    | 5 => binomial gaussianBlur5x5 FixedBorderInfo5x5.info
    | 7 => binomial gaussianBlur7x7 FixedBorderInfo7x7.info
    | 9 => binomial gaussianBlur9x9 FixedBorderInfo9x9.info
    | 15 => anySigma 15 FixedBorderInfo15x15.info
    | 21 => anySigma 21 FixedBorderInfo21x21.info
    | _ => (.notImplemented, m)
  else
    match kernelWidth with
    | 3 => anySigma 3 FixedBorderInfo3x3.info
    | 5 => anySigma 5 FixedBorderInfo5x5.info
    | 7 => anySigma 7 FixedBorderInfo7x7.info
    | 9 => anySigma 9 FixedBorderInfo9x9.info
    | 15 => anySigma 15 FixedBorderInfo15x15.info
    | 21 => anySigma 21 FixedBorderInfo21x21.info
    | _ => (.notImplemented, m)

end

/-! ### Validation -/

/-- `gaussian_blur_checks`. -/
def gaussianBlurChecks (r : GaussianBlurCall) : KleidicvError :=
  if checkPointerAndStride 1 r.src r.srcStride r.height ≠ .ok then
    checkPointerAndStride 1 r.src r.srcStride r.height
  else if checkPointerAndStride 1 r.dst r.dstStride r.height ≠ .ok then
    checkPointerAndStride 1 r.dst r.dstStride r.height
  else if !checkImageSize r.width r.height then .range
  else .ok

/-- `gaussian_blur_validate`. -/
def gaussianBlurValidate (r : GaussianBlurCall) (kernelWidth kernelHeight : ℕ)
    (sigmaX sigmaY : FloatValue) (borderType : BorderType) : Except KleidicvError FixedBorderType :=
  match getFixedBorderType borderType with
  | none => .error .notImplemented
  | some fixedBorderType =>
    if kernelWidth ≠ kernelHeight then .error .notImplemented
    else if kernelWidth < 3 ∨ 255 < kernelWidth then .error .notImplemented
    else if kernelWidth % 2 ≠ 1 then .error .notImplemented
    else if !sigmaX.eq sigmaY then .error .notImplemented
    else if r.width < kernelWidth - 1 ∨ r.height < kernelWidth - 1 then .error .notImplemented
    else if kleidicvMaximumChannelCount < r.channels then .error .notImplemented
    else
      let margin := kernelWidth / 2
      let alignedMargin := (margin + 8 - 1) / 8 * 8
      if (9 < kernelWidth ∧ kernelWidth ≠ 15 ∧ kernelWidth ≠ 21) ∧
          (fixedBorderType ≠ .replicate ∨ r.width < alignedMargin + margin) then
        .error .notImplemented
      else if gaussianBlurChecks r ≠ .ok then .error (gaussianBlurChecks r)
      else .ok fixedBorderType

/-- What an accepted call promises. -/
theorem gaussianBlurValidate_ok {r : GaussianBlurCall} {kernelWidth kernelHeight : ℕ}
    {sigmaX sigmaY : FloatValue} {borderType : BorderType} {b : FixedBorderType}
    (h : gaussianBlurValidate r kernelWidth kernelHeight sigmaX sigmaY borderType = .ok b) :
    kernelWidth - 1 ≤ r.width ∧ kernelWidth - 1 ≤ r.height ∧ r.channels ≤ 4 ∧
      r.width * r.height ≤ kleidicvMaxImagePixels ∧ 3 ≤ kernelWidth := by
  rw [gaussianBlurValidate] at h
  cases htype : getFixedBorderType borderType with
  | none =>
    rw [htype] at h
    cases h
  | some fixedBorderType =>
    simp only [htype] at h
    split_ifs at h with _ hkernel _ _ hsize hchannels _ hchecks
    have himage : r.width * r.height ≤ kleidicvMaxImagePixels := by
      rw [gaussianBlurChecks] at hchecks
      split_ifs at hchecks with h1 h2 h3
      · exact absurd h1 (not_not_intro (Classical.not_not.mp hchecks))
      · exact absurd h2 (not_not_intro (Classical.not_not.mp hchecks))
      · exact absurd hchecks (by decide)
      · exact checkImageSize_iff.mp (by simpa using h3)
    have hmax : kleidicvMaximumChannelCount = 4 := rfl
    exact ⟨by omega, by omega, by omega, himage, by omega⟩

/-! ### The result -/

namespace GaussianBlur

variable {blur : GaussianBlur} {kernel : List ℕ}

theorem convolve_congr {w : ℕ} {src src' : ℕ → BitVec w}
    (h : ∀ t < kernel.length, src t = src' t) : convolve kernel src = convolve kernel src' :=
  Finset.sum_congr rfl fun t ht => by rw [h t (Finset.mem_range.mp ht)]

/-- **A binomial kernel in the driver**: the buffer holds the vertical sums, and these
are in the range of the horizontal paths. -/
theorem filterType_computesOn (hblur : blur.Exact kernel) :
    blur.filterType.ComputesOn kernel.length (fun v => v.toNat ≤ 255 * kernel.sum)
      (fun src v => v.toNat = convolve kernel src)
      (fun src => BitVec.ofNat 8 (normalize kernel (convolve kernel src))) where
  sourceLanes_pos := show 0 < 2 * 8 by decide
  bufferLanes_pos := show 0 < 2 * 4 by decide
  verticalVector := by
    intro (src : ℕ → Fin (2 * 8) → BitVec 8) dst buffer
    obtain ⟨-, hlanes⟩ := hblur.verticalVector src
    obtain ⟨gL, heqL, hgL⟩ := vst1q_eq buffer dst (blur.verticalVectorPath src).value.1
    obtain ⟨gH, heqH, hgH⟩ := vst1q_eq (overwrite buffer dst 8 gL) (dst + 8)
      (blur.verticalVectorPath src).value.2
    refine ⟨fun j => if j < 8 then gL j else gH (j - 8), ?_, fun (lane : Fin (2 * 8)) => ?_⟩
    · show vst1q (vst1q buffer dst _) (dst + 8) _ = _
      rw [heqL, heqH, overwrite_append]
      rfl
    · dsimp only
      by_cases hlane : lane.val < 8
      · rw [if_pos hlane, hgL ⟨lane, hlane⟩]
        exact (hlanes ⟨lane, hlane⟩).1
      · have hindex : lane = ⟨8 + (lane.val - 8), by omega⟩ := Fin.ext (by simp only; omega)
        rw [if_neg hlane, hgH ⟨lane - 8, by omega⟩, (hlanes ⟨lane - 8, by omega⟩).2]
        refine convolve_congr fun t _ => ?_
        exact congrArg (src t) hindex.symm
  verticalScalar := fun src _ _ => ⟨_, rfl, (hblur.verticalScalar src).2⟩
  vertical_valid := by
    intro src v hv
    rw [hv]
    refine convolve_le fun t _ => ?_
    have := (src t).isLt
    omega
  horizontalVector := by
    intro (src : ℕ → Fin (2 * 4) → BitVec 16) dst m hsrc
    obtain ⟨g, heq, hg⟩ := vst1q_eq m dst (blur.horizontalVectorPath src).value
    refine ⟨g, heq, fun (lane : Fin (2 * 4)) => ?_⟩
    rw [hg, ← (hblur.horizontalVector src hsrc).2 lane, BitVec.ofNat_toNat, BitVec.setWidth_eq]
  horizontalScalar := by
    intro src dst m hsrc
    show Function.update m dst (blur.horizontalScalarPath src).value = _
    rw [← (hblur.horizontalScalar src hsrc).2, BitVec.ofNat_toNat, BitVec.setWidth_eq]
  vertical_congr := fun src src' v h hv => hv.trans (convolve_congr h)
  horizontal_congr := fun src src' h => by rw [convolve_congr h]

end GaussianBlur

/-- The binomial kernels. -/
def binomialKernel : ℕ → List ℕ
  | 3 => [1, 2, 1]
  | 5 => [1, 4, 6, 4, 1]
  | 7 => [2, 7, 14, 18, 14, 7, 2]
  | 9 => [4, 13, 30, 51, 60, 51, 30, 13, 4]
  | _ => []

section

variable (r : GaussianBlurCall) (kernel : List ℕ) (b : FixedBorderType) (src : ℕ → BitVec 8)

/-- The sum over the extended image around a pixel, with the products of the weights. -/
def GaussianBlurCall.blurSum (y x c : ℕ) : ℕ :=
  ∑ i ∈ Finset.range kernel.length, kernel.getD i 0 *
    ∑ j ∈ Finset.range kernel.length, kernel.getD j 0 * (src (r.srcRows.ptrAt
      (b.extension.index r.height ((y : ℤ) + i - (kernel.length / 2 : ℕ)))
      (b.extension.index r.width ((x : ℤ) + j - (kernel.length / 2 : ℕ))) c)).toNat

/-- The convolution of the extended image with a kernel and its transpose, exact. -/
def GaussianBlurCall.exactBlur (y x c : ℕ) : ℚ :=
  (r.blurSum kernel b src y x c : ℚ) / (kernel.sum : ℚ) ^ 2

/-- From `m` to `m'`, the blurred pixels of the rows from `yBegin` up to `yEnd` were
written, and nothing else. -/
structure GaussianBlurCall.BlurredRows (yBegin yEnd : ℕ) (m m' : ℕ → BitVec 8) : Prop where
  value : ∀ y x c, yBegin ≤ y → y < yEnd → x < r.width → c < r.channels →
    ((m' (r.dstRows.ptrAt y x c)).toNat : ℤ) =
      Bilinear.roundHalfUp (r.exactBlur kernel b src y x c)
  frame : ∀ a, (∀ y x c : ℕ, yBegin ≤ y → y < yEnd → x < r.width → c < r.channels →
    r.dstRows.ptrAt y x c ≠ a) → m' a = m a

/-- The blurred pixel, as a byte. -/
def GaussianBlurCall.blurred (y x c : ℕ) : BitVec 8 :=
  BitVec.ofNat 8 (GaussianBlur.normalize kernel (r.blurSum kernel b src y x c))

end

section

variable {r : GaussianBlurCall} {kernel : List ℕ} {info : FixedBorderInfo} {b : FixedBorderType}
  {src : ℕ → BitVec 8}

/-- The sums of both passes. -/
theorem convolve_buffer (hlength : kernel.length = 2 * info.margin + 1)
    (hw : 2 * info.margin ≤ r.width) (hh : 2 * info.margin ≤ r.height) {y x c : ℕ}
    (hc : c < r.channels) {buffer : ℕ → BitVec 16}
    (hbuffer : ∀ e < r.width * r.channels, (buffer e).toNat =
      GaussianBlur.convolve kernel fun t => src (r.srcRows.address (info.sample b r.height y t, e))) :
    GaussianBlur.convolve kernel (fun t =>
      buffer (info.sample b r.width x t * r.channels + c)) = r.blurSum kernel b src y x c := by
  have hmargin := info.margin_pos
  have hhalf : kernel.length / 2 = info.margin := by omega
  have hindex : ∀ {n i t : ℕ}, 2 * info.margin ≤ n →
      b.extension.index n ((i : ℤ) + t - info.margin) = (info.sample b n i t : ℕ) := fun hn =>
    (Int.toNat_of_nonneg (b.extension.index_mem (by omega)).1).symm
  -- The outer sum is over the columns here.
  simp only [GaussianBlurCall.blurSum, Finset.mul_sum]
  rw [Finset.sum_comm, GaussianBlur.convolve]
  refine Finset.sum_congr rfl fun j _ => ?_
  have hcolumn := info.sample_lt (b := b) hw x j
  rw [hbuffer _ (pixelByte_lt hcolumn hc), GaussianBlur.convolve, Finset.mul_sum]
  refine Finset.sum_congr rfl fun i _ => ?_
  rw [hhalf, hindex hh, hindex hw, Rows.ptrAt_natCast, Rows.address]
  simp only [Nat.add_assoc, GaussianBlurCall.srcRows]
  ring

/-- The blurred pixel is the exact convolution, rounded. -/
theorem blurred_toNat (heven : 2 ∣ kernel.sum) (hpos : 0 < kernel.sum) (y x c : ℕ) :
    ((r.blurred kernel b src y x c).toNat : ℤ) =
      Bilinear.roundHalfUp (r.exactBlur kernel b src y x c) := by
  have hle : r.blurSum kernel b src y x c ≤ 255 * kernel.sum * kernel.sum :=
    GaussianBlur.sum_weights_mul_le fun i _ => GaussianBlur.sum_weights_mul_le fun j _ => by
      have := (src (r.srcRows.ptrAt (b.extension.index r.height ((y : ℤ) + i - (kernel.length / 2 : ℕ)))
        (b.extension.index r.width ((x : ℤ) + j - (kernel.length / 2 : ℕ))) c)).isLt
      omega
  obtain ⟨half, hhalf⟩ := heven
  have hsq : kernel.sum ^ 2 = 2 * (2 * half ^ 2) := by rw [hhalf]; ring
  have hdiv : 2 * (2 * half ^ 2) / 2 = 2 * half ^ 2 := Nat.mul_div_cancel_left _ (by decide)
  have hsqQ : (kernel.sum : ℚ) ^ 2 = 2 * (2 * half ^ 2 : ℕ) := by exact_mod_cast hsq
  have hhalfPos : 0 < half := by omega
  rw [GaussianBlurCall.blurred, BitVec.toNat_ofNat,
    Nat.mod_eq_of_lt (GaussianBlur.normalize_lt hpos hle), GaussianBlurCall.exactBlur, hsqQ,
    Bilinear.roundHalfUp_div (Nat.mul_pos (by decide) (Nat.pow_pos hhalfPos)),
    GaussianBlur.normalize, hsq, hdiv]

variable (info) in
/-- A stripe of an image, with a driver that computes the sums of a kernel. -/
theorem SeparableDriver.process_blurred {driver : SeparableDriver (BitVec 8) (BitVec 16) (BitVec 8)}
    {valid : BitVec 16 → Prop}
    (hf : driver.ComputesOn (2 * info.margin + 1) valid
      (fun src v => v.toNat = GaussianBlur.convolve kernel src)
      (fun src => BitVec.ofNat 8 (GaussianBlur.normalize kernel (GaussianBlur.convolve kernel src))))
    (hlength : kernel.length = 2 * info.margin + 1) (hw : 2 * info.margin ≤ r.width)
    (hwmax : r.width < 2 ^ 63) (hh : 2 * info.margin ≤ r.height) (hhmax : r.height < 2 ^ 63)
    (hstride : r.width * r.channels ≤ r.dstStride) {yBegin yEnd : ℕ} (hle : yBegin ≤ yEnd)
    (hend : yEnd ≤ r.height) (buffer : ℕ → BitVec 16) (m : ℕ → BitVec 8) :
    Wrote r.dstRows.address
      (fun p => r.blurred kernel b src p.1 (p.2 / r.channels) (p.2 % r.channels))
      (stripeElements (r.width * r.channels) yBegin yEnd) m
      (driver.process info r.width r.height yBegin yEnd src r.srcRows r.bufferRows r.dstRows b
        (buffer, m)).2 := by
  have hbase : r.bufferRows.ptr = 0 := rfl
  have hsrc : r.srcRows.channels = r.dstRows.channels := rfl
  have hch : r.bufferRows.channels = r.dstRows.channels := rfl
  refine SeparableDriver.process_wrote hf hw hwmax hh hhmax hbase hsrc hch hstride
    (fun y hy buffer hbuffer e he => ?_) hle hend buffer m
  have hpos : 0 < r.channels := Nat.pos_of_ne_zero fun h => by
    rw [show r.dstRows.channels = r.channels from rfl, h, Nat.mul_zero] at he
    exact absurd he (Nat.not_lt_zero e)
  rw [GaussianBlurCall.blurred, ← convolve_buffer hlength hw hh (Nat.mod_lt _ hpos) hbuffer]
  rfl

/-- A stripe of an image, with a binomial kernel. -/
theorem gaussianBlurFixedBinomial_wrote {blur : GaussianBlur} (hblur : blur.Exact kernel)
    (hlength : kernel.length = 2 * info.margin + 1) (hw : 2 * info.margin ≤ r.width)
    (hwmax : r.width < 2 ^ 63) (hh : 2 * info.margin ≤ r.height) (hhmax : r.height < 2 ^ 63)
    (hstride : r.width * r.channels ≤ r.dstStride) {yBegin yEnd : ℕ} (hle : yBegin ≤ yEnd)
    (hend : yEnd ≤ r.height) (bytes m : ℕ → BitVec 8) :
    ∃ m', gaussianBlurFixedBinomial blur info r yBegin yEnd b (some bytes) src m = (.ok, m') ∧
      Wrote r.dstRows.address
        (fun p => r.blurred kernel b src p.1 (p.2 / r.channels) (p.2 % r.channels))
        (stripeElements (r.width * r.channels) yBegin yEnd) m m' := by
  have hf := (GaussianBlur.filterType_computesOn hblur).driver info
  rw [hlength] at hf
  exact ⟨_, rfl, SeparableDriver.process_blurred info hf hlength hw hwmax hh hhmax hstride hle hend
    (bytesAsU16 bytes) m⟩

/-- The rows of a stripe, pixel by pixel. -/
theorem blurredRows_of_wrote (heven : 2 ∣ kernel.sum) (hpos : 0 < kernel.sum) {yBegin yEnd : ℕ}
    {m m' : ℕ → BitVec 8}
    (h : Wrote r.dstRows.address
      (fun p => r.blurred kernel b src p.1 (p.2 / r.channels) (p.2 % r.channels))
      (stripeElements (r.width * r.channels) yBegin yEnd) m m') :
    r.BlurredRows kernel b src yBegin yEnd m m' := by
  obtain ⟨hpixels, hframe⟩ := stripe_pixels h
  refine ⟨fun y x c h1 h2 hx hc => ?_, hframe⟩
  have hx' : (x * r.channels + c) / r.channels = x := by
    rw [Nat.mul_comm x, Nat.mul_add_div (by omega), Nat.div_eq_of_lt hc, Nat.add_zero]
  have hc' : (x * r.channels + c) % r.channels = c := by
    rw [Nat.mul_comm x, Nat.mul_add_mod, Nat.mod_eq_of_lt hc]
  have hvalue := hpixels y x c h1 h2 hx hc
  simp only [show r.dstRows.channels = r.channels from rfl, hx', hc'] at hvalue
  rw [hvalue, blurred_toNat heven hpos]

/-- The kernel that belongs to a size. -/
theorem gaussianBlurFixed_binomial {kernelSize : ℕ} (hsize : kernelSize ∈ [3, 5, 7, 9]) :
    ∃ blur info, blur.Exact (binomialKernel kernelSize) ∧ kernelSize = 2 * info.margin + 1 ∧
      ∀ generate r yBegin yEnd borderType allocation src m,
        gaussianBlurFixedStripeU8 generate r yBegin yEnd kernelSize (.finite 0) borderType allocation
          src m = gaussianBlurFixedBinomial blur info r yBegin yEnd borderType allocation src m := by
  simp only [List.mem_cons, List.not_mem_nil, or_false] at hsize
  rcases hsize with rfl | rfl | rfl | rfl
  · exact ⟨_, _, GaussianBlur.gaussianBlur3x3_exact, rfl, fun _ _ _ _ _ _ _ _ => rfl⟩
  · exact ⟨_, _, GaussianBlur.gaussianBlur5x5_exact, rfl, fun _ _ _ _ _ _ _ _ => rfl⟩
  · exact ⟨_, _, GaussianBlur.gaussianBlur7x7_exact, rfl, fun _ _ _ _ _ _ _ _ => rfl⟩
  · exact ⟨_, _, GaussianBlur.gaussianBlur9x9_exact, rfl, fun _ _ _ _ _ _ _ _ => rfl⟩

theorem binomialKernel_spec {kernelSize : ℕ} (hsize : kernelSize ∈ [3, 5, 7, 9]) :
    (binomialKernel kernelSize).length = kernelSize ∧ 2 ∣ (binomialKernel kernelSize).sum ∧
      0 < (binomialKernel kernelSize).sum := by
  simp only [List.mem_cons, List.not_mem_nil, or_false] at hsize
  rcases hsize with rfl | rfl | rfl | rfl
  all_goals decide

/-- **Every pixel of a stripe is the convolution with the binomial kernel, rounded
once.**  No intermediate value wraps, vector and scalar paths compute the same sums,
and any cut into stripes, in any order, gives what one stripe of all rows does. -/
theorem gaussianBlurFixed_correct {kernelSize kernelHeight : ℕ} {sigmaY : FloatValue}
    {borderType : BorderType} (hsize : kernelSize ∈ [3, 5, 7, 9])
    (hvalid : gaussianBlurValidate r kernelSize kernelHeight (.finite 0) sigmaY borderType = .ok b)
    (hstride : r.width * r.channels ≤ r.dstStride) :
    (∃ blur info, blur.Exact (binomialKernel kernelSize) ∧ ∀ generate yBegin yEnd allocation m,
      gaussianBlurFixedStripeU8 generate r yBegin yEnd kernelSize (.finite 0) b allocation src m =
        gaussianBlurFixedBinomial blur info r yBegin yEnd b allocation src m) ∧
    (∀ generate yBegin yEnd bytes m, yBegin ≤ yEnd → yEnd ≤ r.height → ∃ m',
      gaussianBlurFixedStripeU8 generate r yBegin yEnd kernelSize (.finite 0) b (some bytes) src m =
          (.ok, m') ∧
        r.BlurredRows (binomialKernel kernelSize) b src yBegin yEnd m m') ∧
    ∀ generate (bytes : ℕ × ℕ → ℕ → BitVec 8) wholeBytes m l, IsPartition r.height l →
      l.foldl (fun m s => (gaussianBlurFixedStripeU8 generate r s.1 s.2 kernelSize (.finite 0) b
          (some (bytes s)) src m).2) m =
        (gaussianBlurFixedStripeU8 generate r 0 r.height kernelSize (.finite 0) b (some wholeBytes)
          src m).2 := by
  obtain ⟨hw, hh, -, himage, -⟩ := gaussianBlurValidate_ok hvalid
  obtain ⟨blur, info, hblur, hmargin, hstripe⟩ := gaussianBlurFixed_binomial hsize
  obtain ⟨hlength, heven, hpos⟩ := binomialKernel_spec hsize
  have hmargin_pos := info.margin_pos
  have hmax : kleidicvMaxImagePixels < 2 ^ 63 := by decide
  have hwmax : r.width ≤ r.width * r.height := Nat.le_mul_of_pos_right _ (by omega)
  have hhmax : r.height ≤ r.width * r.height := Nat.le_mul_of_pos_left _ (by omega)
  have hwrote : ∀ generate yBegin yEnd bytes m, yBegin ≤ yEnd → yEnd ≤ r.height → ∃ m',
      gaussianBlurFixedStripeU8 generate r yBegin yEnd kernelSize (.finite 0) b (some bytes) src m =
          (.ok, m') ∧
        Wrote r.dstRows.address (fun p => r.blurred (binomialKernel kernelSize) b src p.1
          (p.2 / r.channels) (p.2 % r.channels))
          (stripeElements (r.width * r.channels) yBegin yEnd) m m' := by
    intro generate yBegin yEnd bytes m hle hend
    rw [hstripe]
    exact gaussianBlurFixedBinomial_wrote hblur (hlength.trans hmargin) (by omega) (by omega)
      (by omega) (by omega) hstride hle hend bytes m
  refine ⟨⟨blur, info, hblur, fun _ _ _ _ _ => hstripe _ _ _ _ _ _ _ _⟩,
    fun generate yBegin yEnd bytes m hle hend => ?_, fun generate bytes wholeBytes m l hl => ?_⟩
  · obtain ⟨m', heq, h⟩ := hwrote generate yBegin yEnd bytes m hle hend
    exact ⟨m', heq, blurredRows_of_wrote heven hpos h⟩
  · obtain ⟨whole, hwhole, hwholeWrote⟩ :=
      hwrote generate 0 r.height wholeBytes m (Nat.zero_le _) le_rfl
    rw [hwhole]
    refine (stripes_wrote r.dstRows hstride hl (fun s hs m => ?_) m).eq_of hwholeWrote
    obtain ⟨m', heq, h⟩ := hwrote generate s.1 s.2 (bytes s) m (hl.bounds s hs).1 (hl.bounds s hs).2
    rw [heq]
    exact h

/-- Two rows of a small image with two channels. -/
theorem gaussianBlurFixed_correct_small :
    ∃ m', gaussianBlurFixedStripeU8 (fun _ _ => none) ⟨100, 8, 200, 9, 4, 4, 2⟩ 1 3 5 (.finite 0) .reverse
        (some fun _ => 7) (fun a => BitVec.ofNat 8 a) (fun _ => 0) = (.ok, m') ∧
      GaussianBlurCall.BlurredRows ⟨100, 8, 200, 9, 4, 4, 2⟩ [1, 4, 6, 4, 1] .reverse
        (fun a => BitVec.ofNat 8 a) 1 3 (fun _ => 0) m' :=
  (gaussianBlurFixed_correct (r := ⟨100, 8, 200, 9, 4, 4, 2⟩) (by decide)
    (show gaussianBlurValidate ⟨100, 8, 200, 9, 4, 4, 2⟩ 5 5 (.finite 0) (.finite 0) .reverse =
      .ok .reverse by decide) (by decide)).2.1 (fun _ _ => none) 1 3 (fun _ => 7) (fun _ => 0)
    (by decide) (by decide)

end

end KleidiCV
