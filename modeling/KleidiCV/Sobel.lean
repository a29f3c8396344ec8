/-
`sobel_3x3_horizontal` and `sobel_3x3_vertical` for `uint8_t`: validation, the stripe
functions and the entry points.

* `horizontalSobel3x3_exact`, `verticalSobel3x3_exact` — both paths of both passes,
  with no intermediate value out of 16 bits;
* `Sobel3x3.filterType_computesOn` — a filter in the driver of separable filters;
* `sobel3x3_correct` — every pixel of a stripe is the exact derivative of the
  edge-replicated image.
-/
import KleidiCV.GaussianBlurFixed

namespace KleidiCV

/-! ### Signed vector arithmetic -/

section

variable {n v w : ℕ}

/-- `vsubl`, into words of `w` bits that are read as signed. -/
abbrev vsublS (w : ℕ) (a b : Fin n → BitVec v) : Tracked (Fin n → BitVec w) :=
  Tracked.slanes w fun lane => (a lane).toNat - (b lane).toNat

/-- `vaddq_s16`. -/
abbrev vaddqS (a b : Fin n → BitVec w) : Tracked (Fin n → BitVec w) :=
  Tracked.slanes w fun lane => (a lane).toInt + (b lane).toInt

/-- `vsubq_s16`. -/
abbrev vsubqS (a b : Fin n → BitVec w) : Tracked (Fin n → BitVec w) :=
  Tracked.slanes w fun lane => (a lane).toInt - (b lane).toInt

/-- `vshlq_n_s16`. -/
abbrev vshlqNS (shift : ℕ) (a : Fin n → BitVec w) : Tracked (Fin n → BitVec w) :=
  Tracked.slanes w fun lane => (a lane).toInt * 2 ^ shift

end

/-! ### The filters -/

/-- The paths of `HorizontalSobel3x3` and `VerticalSobel3x3`. -/
structure Sobel3x3 where
  verticalVectorPath : (ℕ → Fin (2 * 8) → BitVec 8) →
    Tracked ((Fin 8 → BitVec 16) × (Fin 8 → BitVec 16))
  verticalScalarPath : (ℕ → BitVec 8) → Tracked (BitVec 16)
  horizontalVectorPath : (ℕ → Fin 8 → BitVec 16) → Tracked (Fin 8 → BitVec 16)
  horizontalScalarPath : (ℕ → BitVec 16) → Tracked (BitVec 16)

namespace HorizontalSobel3x3

open GaussianBlur (vaddl vaddq vshllN)

/-- One half of `vertical_vector_path`. -/
def verticalHalf (src : ℕ → Fin 8 → BitVec 8) : Tracked (Fin 8 → BitVec 16) := do
  let acc ← vaddl 16 (src 0) (src 2)
  let shift ← vshllN 16 1 (src 1)
  vaddq acc shift

def verticalVectorPath (src : ℕ → Fin (2 * 8) → BitVec 8) :
    Tracked ((Fin 8 → BitVec 16) × (Fin 8 → BitVec 16)) := do
  let accL ← verticalHalf (GaussianBlur.lower src)
  let accH ← verticalHalf (GaussianBlur.upper src)
  pure (accL, accH)

def verticalScalarPath (src : ℕ → BitVec 8) : Tracked (BitVec 16) :=
  Tracked.sword 16 ((src 0).toNat + 2 * (src 1).toNat + (src 2).toNat)

def horizontalVectorPath (src : ℕ → Fin 8 → BitVec 16) : Tracked (Fin 8 → BitVec 16) :=
  vsubqS (src 2) (src 0)

def horizontalScalarPath (src : ℕ → BitVec 16) : Tracked (BitVec 16) :=
  Tracked.sword 16 ((src 2).toInt - (src 0).toInt)

end HorizontalSobel3x3

def horizontalSobel3x3 : Sobel3x3 where
  verticalVectorPath := HorizontalSobel3x3.verticalVectorPath
  verticalScalarPath := HorizontalSobel3x3.verticalScalarPath
  horizontalVectorPath := HorizontalSobel3x3.horizontalVectorPath
  horizontalScalarPath := HorizontalSobel3x3.horizontalScalarPath

namespace VerticalSobel3x3

def verticalVectorPath (src : ℕ → Fin (2 * 8) → BitVec 8) :
    Tracked ((Fin 8 → BitVec 16) × (Fin 8 → BitVec 16)) := do
  let accL ← vsublS 16 (vgetLow (src 2)) (vgetLow (src 0))
  let accH ← vsublS 16 (vgetHigh (src 2)) (vgetHigh (src 0))
  pure (accL, accH)

def verticalScalarPath (src : ℕ → BitVec 8) : Tracked (BitVec 16) :=
  Tracked.sword 16 ((src 2).toNat - (src 0).toNat)

def horizontalVectorPath (src : ℕ → Fin 8 → BitVec 16) : Tracked (Fin 8 → BitVec 16) := do
  let acc ← vaddqS (src 0) (src 2)
  let shift ← vshlqNS 1 (src 1)
  vaddqS acc shift

def horizontalScalarPath (src : ℕ → BitVec 16) : Tracked (BitVec 16) :=
  Tracked.sword 16 ((src 0).toInt + 2 * (src 1).toInt + (src 2).toInt)

end VerticalSobel3x3

def verticalSobel3x3 : Sobel3x3 where
  verticalVectorPath := VerticalSobel3x3.verticalVectorPath
  verticalScalarPath := VerticalSobel3x3.verticalScalarPath
  horizontalVectorPath := VerticalSobel3x3.horizontalVectorPath
  horizontalScalarPath := VerticalSobel3x3.horizontalScalarPath

namespace Sobel3x3

/-- A filter as a `FilterType` of the driver. -/
def filterType (sobel : Sobel3x3) : SeparableFilterType (BitVec 8) (BitVec 16) (BitVec 16) where
  sourceLanes := 2 * 8
  bufferLanes := 8
  verticalVectorPath := fun src dst buffer =>
    let acc := (sobel.verticalVectorPath src).value
    vst1q (vst1q buffer dst acc.1) (dst + 8) acc.2
  verticalScalarPath := fun src dst buffer =>
    Function.update buffer dst (sobel.verticalScalarPath src).value
  horizontalVectorPath := fun src dst m => vst1q m dst (sobel.horizontalVectorPath src).value
  horizontalScalarPath := fun src dst m =>
    Function.update m dst (sobel.horizontalScalarPath src).value

end Sobel3x3

/-! ### The stripe functions -/

/-- The images of a call; pointers and strides count bytes. -/
structure SobelCall where
  src : ℕ
  srcStride : ℕ
  dst : ℕ
  dstStride : ℕ
  width : ℕ
  height : ℕ
  channels : ℕ

namespace SobelCall

variable (r : SobelCall)

def srcRows : Rows := ⟨r.src, r.srcStride, r.channels⟩

/-- The rows of the destination, in elements. -/
def dstRows : Rows := elementRows 2 r.dst r.dstStride r.channels

/-- The row buffer of `SeparableFilterWorkspace`, in elements. -/
def bufferRows : Rows := ⟨0, r.width * r.channels + 3, r.channels⟩

end SobelCall

/-- `sobel_3x3_horizontal_stripe_s16_u8` and `sobel_3x3_vertical_stripe_s16_u8`; `allocation` is
what `malloc` returns. -/
def sobel3x3StripeS16U8 (sobel : Sobel3x3) (r : SobelCall) (yBegin yEnd : ℕ)
    (allocation : Option (ℕ → BitVec 8)) (src : ℕ → BitVec 8) (m : ℕ → BitVec 16) :
    KleidicvError × (ℕ → BitVec 16) :=
  match allocation with
  | none => (.allocation, m)
  | some bytes =>
    (.ok, (SeparableFilterWorkspace.process sobel.filterType FixedBorderInfo3x3.info r.width r.height
      yBegin yEnd src r.srcRows r.bufferRows r.dstRows .replicate (bytesAsU16 bytes, m)).2)

/-- `sobel_validate`. -/
def sobelValidate (r : SobelCall) : KleidicvError :=
  if r.width < 2 ∨ r.height < 2 then .notImplemented
  else if checkPointerAndStride 1 r.src r.srcStride r.height ≠ .ok then
    checkPointerAndStride 1 r.src r.srcStride r.height
  else if checkPointerAndStride 2 r.dst r.dstStride r.height ≠ .ok then
    checkPointerAndStride 2 r.dst r.dstStride r.height
  else if !checkImageSize r.width r.height then .range
  else if kleidicvMaximumChannelCount < r.channels then .notImplemented
  else .ok

/-- `kleidicv_sobel_3x3_horizontal_s16_u8` and `kleidicv_sobel_3x3_vertical_s16_u8`. -/
def kleidicvSobel3x3S16U8 (sobel : Sobel3x3) (r : SobelCall) (allocation : Option (ℕ → BitVec 8))
    (src : ℕ → BitVec 8) (m : ℕ → BitVec 16) : KleidicvError × (ℕ → BitVec 16) :=
  if sobelValidate r ≠ .ok then (sobelValidate r, m)
  else sobel3x3StripeS16U8 sobel r 0 r.height allocation src m

/-! ### Exact passes -/

/-- The sum of three taps. -/
def weigh (kernel : ℕ → ℤ) (src : ℕ → ℤ) : ℤ := ∑ t ∈ Finset.range 3, kernel t * src t

/-- The weights of smoothing. -/
def smoothing (t : ℕ) : ℤ := [1, 2, 1].getD t 0

/-- The weights of a difference. -/
def difference (t : ℕ) : ℤ := [-1, 0, 1].getD t 0

theorem weigh_smoothing (src : ℕ → ℤ) : weigh smoothing src = src 0 + 2 * src 1 + src 2 := by
  simp [weigh, smoothing, Finset.sum_range_succ]

theorem weigh_difference (src : ℕ → ℤ) : weigh difference src = src 2 - src 0 := by
  simp [weigh, difference, Finset.sum_range_succ]
  ring

theorem weigh_congr (kernel : ℕ → ℤ) {src src' : ℕ → ℤ} (h : ∀ t < 3, src t = src' t) :
    weigh kernel src = weigh kernel src' :=
  Finset.sum_congr rfl fun t ht => by rw [h t (Finset.mem_range.mp ht)]

/-- What the buffer holds between the passes. -/
def BufferValue (v : BitVec 16) : Prop := -1020 ≤ v.toInt ∧ v.toInt ≤ 1020

/-- Both paths of both passes compute the sums of a kernel, exactly in 16 bits. -/
structure Sobel3x3.Exact (sobel : Sobel3x3) (kernelY kernelX : ℕ → ℤ) : Prop where
  verticalVector : ∀ src, (sobel.verticalVectorPath src).Ensures fun acc => ∀ lane : Fin 8,
    (acc.1 lane).toInt = weigh kernelY (fun t => (GaussianBlur.lower src t lane).toNat) ∧
    (acc.2 lane).toInt = weigh kernelY (fun t => (GaussianBlur.upper src t lane).toNat)
  verticalScalar : ∀ src, (sobel.verticalScalarPath src).Ensures fun v =>
    v.toInt = weigh kernelY fun t => (src t).toNat
  vertical_le : ∀ src : ℕ → BitVec 8, -1020 ≤ weigh kernelY (fun t => (src t).toNat) ∧
    weigh kernelY (fun t => (src t).toNat) ≤ 1020
  horizontalVector : ∀ src, (∀ t < 3, ∀ lane, BufferValue (src t lane)) →
    (sobel.horizontalVectorPath src).Ensures fun v => ∀ lane,
      (v lane).toInt = weigh kernelX fun t => (src t lane).toInt
  horizontalScalar : ∀ src, (∀ t < 3, BufferValue (src t)) →
    (sobel.horizontalScalarPath src).Ensures fun v =>
      v.toInt = weigh kernelX fun t => (src t).toInt

namespace HorizontalSobel3x3

theorem verticalHalf_ensures (src : ℕ → Fin 8 → BitVec 8) :
    (verticalHalf src).Ensures fun v => ∀ lane,
      (v lane).toInt = weigh smoothing fun t => (src t lane).toNat := by
  refine (Tracked.lanes_ensures fun lane => ?_).bind fun acc hacc => ?_
  · have h0 := (src 0 lane).isLt
    have h2 := (src 2 lane).isLt
    omega
  refine (Tracked.lanes_ensures fun lane => ?_).bind fun shift hshift => ?_
  · have h1 := (src 1 lane).isLt
    omega
  have hsum : ∀ lane, (acc lane).toNat + (shift lane).toNat ≤ 1020 := by
    intro lane
    have h0 := (src 0 lane).isLt
    have h1 := (src 1 lane).isLt
    have h2 := (src 2 lane).isLt
    rw [hacc, hshift]
    omega
  refine (Tracked.lanes_ensures fun lane => (hsum lane).trans_lt (by decide)).imp fun v hv lane => ?_
  have hle := hsum lane
  rw [BitVec.toInt_eq_toNat_of_lt (by rw [hv]; omega), hv, hacc, hshift, weigh_smoothing]
  push_cast
  ring

theorem exact : horizontalSobel3x3.Exact smoothing difference where
  verticalVector := by
    intro src
    refine (verticalHalf_ensures _).bind fun accL hL => ?_
    refine (verticalHalf_ensures _).bind fun accH hH => ?_
    exact .pure fun lane => ⟨hL lane, hH lane⟩
  verticalScalar := by
    intro src
    have h0 := (src 0).isLt
    have h1 := (src 1).isLt
    have h2 := (src 2).isLt
    rw [weigh_smoothing]
    exact Tracked.sword_ensures (by decide) (by omega) (by omega)
  vertical_le := by
    intro src
    have h0 := (src 0).isLt
    have h1 := (src 1).isLt
    have h2 := (src 2).isLt
    rw [weigh_smoothing]
    omega
  horizontalVector := by
    intro src hsrc
    simp only [weigh_difference]
    refine Tracked.slanes_ensures (by decide) fun lane => ?_
    have h0 := hsrc 0 (by decide) lane
    have h2 := hsrc 2 (by decide) lane
    unfold BufferValue at h0 h2
    omega
  horizontalScalar := by
    intro src hsrc
    have h0 := hsrc 0 (by decide)
    have h2 := hsrc 2 (by decide)
    unfold BufferValue at h0 h2
    rw [weigh_difference]
    exact Tracked.sword_ensures (by decide) (by omega) (by omega)

end HorizontalSobel3x3

namespace VerticalSobel3x3

theorem exact : verticalSobel3x3.Exact difference smoothing where
  verticalVector := by
    intro src
    have hhalf : ∀ a b : Fin 8 → BitVec 8, (vsublS 16 a b).Ensures fun v => ∀ lane,
        (v lane).toInt = (a lane).toNat - (b lane).toNat := by
      intro a b
      refine Tracked.slanes_ensures (by decide) fun lane => ?_
      have ha := (a lane).isLt
      have hb := (b lane).isLt
      omega
    simp only [weigh_difference]
    refine (hhalf _ _).bind fun accL hL => (hhalf _ _).bind fun accH hH => ?_
    exact .pure fun lane => ⟨hL lane, hH lane⟩
  verticalScalar := by
    intro src
    have h0 := (src 0).isLt
    have h2 := (src 2).isLt
    rw [weigh_difference]
    exact Tracked.sword_ensures (by decide) (by omega) (by omega)
  vertical_le := by
    intro src
    have h0 := (src 0).isLt
    have h2 := (src 2).isLt
    rw [weigh_difference]
    omega
  horizontalVector := by
    intro src hsrc
    have h0 := fun lane => hsrc 0 (by decide) lane
    have h1 := fun lane => hsrc 1 (by decide) lane
    have h2 := fun lane => hsrc 2 (by decide) lane
    unfold BufferValue at h0 h1 h2
    refine (Tracked.slanes_ensures (by decide) fun lane => ?_).bind fun acc hacc => ?_
    · have h0' := h0 lane
      have h2' := h2 lane
      omega
    refine (Tracked.slanes_ensures (by decide) fun lane => ?_).bind fun shift hshift => ?_
    · have h1' := h1 lane
      omega
    refine (Tracked.slanes_ensures (by decide) fun lane => ?_).imp fun v hv lane => ?_
    · have h0' := h0 lane
      have h1' := h1 lane
      have h2' := h2 lane
      rw [hacc, hshift]
      omega
    · rw [hv, hacc, hshift, weigh_smoothing]
      ring
  horizontalScalar := by
    intro src hsrc
    have h0 := hsrc 0 (by decide)
    have h1 := hsrc 1 (by decide)
    have h2 := hsrc 2 (by decide)
    unfold BufferValue at h0 h1 h2
    rw [weigh_smoothing]
    exact Tracked.sword_ensures (by decide) (by omega) (by omega)

end VerticalSobel3x3

/-! ### The driver -/

section

variable {sobel : Sobel3x3} {kernelY kernelX : ℕ → ℤ}

/-- **A filter in the driver**: the buffer holds the vertical sums, and these are in the range
of the horizontal paths. -/
theorem Sobel3x3.filterType_computesOn (h : sobel.Exact kernelY kernelX) :
    sobel.filterType.ComputesOn 3 BufferValue
      (fun src v => v.toInt = weigh kernelY fun t => (src t).toNat)
      (fun src => BitVec.ofInt 16 (weigh kernelX fun t => (src t).toInt)) where
  sourceLanes_pos := show 0 < 2 * 8 by decide
  bufferLanes_pos := show 0 < 8 by decide
  verticalVector := by
    intro (src : ℕ → Fin (2 * 8) → BitVec 8) dst buffer
    obtain ⟨-, hlanes⟩ := h.verticalVector src
    obtain ⟨gL, heqL, hgL⟩ := vst1q_eq buffer dst (sobel.verticalVectorPath src).value.1
    obtain ⟨gH, heqH, hgH⟩ := vst1q_eq (overwrite buffer dst 8 gL) (dst + 8)
      (sobel.verticalVectorPath src).value.2
    refine ⟨fun j => if j < 8 then gL j else gH (j - 8), ?_, fun (lane : Fin (2 * 8)) => ?_⟩
    · show vst1q (vst1q buffer dst _) (dst + 8) _ = _
      rw [heqL, heqH, overwrite_append]
      rfl
    · dsimp only
      by_cases hlane : lane.val < 8
      · rw [if_pos hlane, hgL ⟨lane, hlane⟩]
        exact (hlanes ⟨lane, hlane⟩).1
      · have hindex : lane = ⟨8 + (lane.val - 8), by omega⟩ := Fin.ext (by simp only; omega)
        rw [if_neg hlane, hgH ⟨lane - 8, by omega⟩, (hlanes ⟨lane - 8, by omega⟩).2]
        refine weigh_congr kernelY fun t _ => ?_
        exact congrArg (fun l => ((src t l).toNat : ℤ)) hindex.symm
  verticalScalar := fun src _ _ => ⟨_, rfl, (h.verticalScalar src).2⟩
  vertical_valid := by
    intro src v hv
    rw [BufferValue, hv]
    exact h.vertical_le src
  horizontalVector := by
    intro (src : ℕ → Fin 8 → BitVec 16) dst m hsrc
    obtain ⟨g, heq, hg⟩ := vst1q_eq m dst (sobel.horizontalVectorPath src).value
    refine ⟨g, heq, fun (lane : Fin 8) => ?_⟩
    rw [hg, ← (h.horizontalVector src hsrc).2 lane, BitVec.ofInt_toInt]
  horizontalScalar := by
    intro src dst m hsrc
    show Function.update m dst (sobel.horizontalScalarPath src).value = _
    rw [← (h.horizontalScalar src hsrc).2, BitVec.ofInt_toInt]
  vertical_congr := fun src src' v hsrc hv =>
    hv.trans (weigh_congr kernelY fun t ht => by rw [hsrc t ht])
  horizontal_congr := fun src src' hsrc => by
    rw [weigh_congr kernelX fun t ht => by rw [hsrc t ht]]

end

/-! ### The derivatives -/

/-- The weights of the horizontal derivative. -/
def horizontalKernel (i j : ℕ) : ℤ := ([[-1, 0, 1], [-2, 0, 2], [-1, 0, 1]].getD i []).getD j 0

/-- The weights of the vertical derivative. -/
def verticalKernel (i j : ℕ) : ℤ := ([[-1, -2, -1], [0, 0, 0], [1, 2, 1]].getD i []).getD j 0

section

variable (r : SobelCall) (kernel : ℕ → ℕ → ℤ) (src : ℕ → BitVec 8)

/-- The pixel at a row and a column of the edge-replicated image. -/
def SobelCall.pixel (row column : ℤ) (c : ℕ) : ℤ :=
  (src (r.srcRows.ptrAt (FixedBorderType.replicate.extension.index r.height row)
    (FixedBorderType.replicate.extension.index r.width column) c)).toNat

/-- The derivative of the edge-replicated image at a pixel, exact. -/
def SobelCall.derivative (y x c : ℕ) : ℤ :=
  ∑ i ∈ Finset.range 3, ∑ j ∈ Finset.range 3, kernel i j * r.pixel src (y + i - 1) (x + j - 1) c

/-- From `m` to `m'`, the derivatives at all pixels of the rows from `yBegin` up to `yEnd`
were written, and nothing else. -/
structure SobelCall.DerivedRows (yBegin yEnd : ℕ) (m m' : ℕ → BitVec 16) : Prop where
  value : ∀ y x c, yBegin ≤ y → y < yEnd → x < r.width → c < r.channels →
    (m' (r.dstRows.ptrAt y x c)).toInt = r.derivative kernel src y x c
  frame : ∀ a, (∀ y x c : ℕ, yBegin ≤ y → y < yEnd → x < r.width → c < r.channels →
    r.dstRows.ptrAt y x c ≠ a) → m' a = m a

end

section

variable {r : SobelCall} {sobel : Sobel3x3} {kernel : ℕ → ℕ → ℤ} {kernelY kernelX : ℕ → ℤ}
  {src : ℕ → BitVec 8}

theorem SobelCall.pixel_bounds (r : SobelCall) (src : ℕ → BitVec 8) (row column : ℤ) (c : ℕ) :
    0 ≤ r.pixel src row column c ∧ r.pixel src row column c ≤ 255 := by
  have hlt := (src (r.srcRows.ptrAt (FixedBorderType.replicate.extension.index r.height row)
    (FixedBorderType.replicate.extension.index r.width column) c)).isLt
  rw [SobelCall.pixel]
  omega

/-- A derivative, pass by pass. -/
theorem SobelCall.derivative_eq (hkernel : ∀ i < 3, ∀ j < 3, kernel i j = kernelY i * kernelX j)
    (y x c : ℕ) : r.derivative kernel src y x c =
      weigh kernelX fun j => weigh kernelY fun i => r.pixel src (y + i - 1) (x + j - 1) c := by
  simp only [SobelCall.derivative, weigh, Finset.mul_sum]
  rw [Finset.sum_comm]
  refine Finset.sum_congr rfl fun j hj => Finset.sum_congr rfl fun i hi => ?_
  rw [hkernel i (Finset.mem_range.mp hi) j (Finset.mem_range.mp hj)]
  ring

/-- The vertical sums in the buffer make up the derivative. -/
theorem SobelCall.derivative_buffer
    (hkernel : ∀ i < 3, ∀ j < 3, kernel i j = kernelY i * kernelX j) (hw : 2 ≤ r.width)
    (hh : 2 ≤ r.height) {y x c : ℕ} (hc : c < r.channels) {buffer : ℕ → BitVec 16}
    (hbuffer : ∀ e < r.width * r.channels, (buffer e).toInt = weigh kernelY fun t =>
      (src (r.srcRows.address (FixedBorderInfo3x3.info.sample .replicate r.height y t, e))).toNat) :
    weigh kernelX (fun t => (buffer (FixedBorderInfo3x3.info.sample .replicate r.width x t *
      r.channels + c)).toInt) = r.derivative kernel src y x c := by
  have hindex : ∀ {n i t : ℕ}, 2 ≤ n →
      FixedBorderType.replicate.extension.index n ((i : ℤ) + t - 1) =
        (FixedBorderInfo3x3.info.sample .replicate n i t : ℕ) := fun hn =>
    (Int.toNat_of_nonneg (FixedBorderType.replicate.extension.index_mem (by omega)).1).symm
  rw [SobelCall.derivative_eq hkernel]
  refine weigh_congr kernelX fun j _ => ?_
  have hcolumn := FixedBorderInfo3x3.info.sample_lt (b := .replicate) (n := r.width) hw x j
  rw [hbuffer _ (pixelByte_lt hcolumn hc)]
  refine weigh_congr kernelY fun i _ => ?_
  rw [SobelCall.pixel, hindex hh, hindex hw, Rows.ptrAt_natCast, Rows.address]
  simp only [Nat.add_assoc, SobelCall.srcRows]

/-- A derivative fits its element. -/
theorem SobelCall.derivative_bounds (h : sobel.Exact kernelY kernelX)
    (hkernel : ∀ i < 3, ∀ j < 3, kernel i j = kernelY i * kernelX j) (y x c : ℕ) :
    (BitVec.ofInt 16 (r.derivative kernel src y x c)).toInt = r.derivative kernel src y x c := by
  -- the horizontal scalar path computes it from a buffer of vertical sums
  let column : ℕ → ℤ := fun j => weigh kernelY fun i => r.pixel src (y + i - 1) (x + j - 1) c
  have hcolumn : ∀ j, -1020 ≤ column j ∧ column j ≤ 1020 := by
    intro j
    have hpixel : ∀ i, r.pixel src (y + i - 1) (x + j - 1) c =
        (BitVec.ofNat 8 (r.pixel src (y + i - 1) (x + j - 1) c).toNat).toNat := by
      intro i
      obtain ⟨hlow, hhigh⟩ := r.pixel_bounds src (y + i - 1) (x + j - 1) c
      rw [BitVec.toNat_ofNat, Nat.mod_eq_of_lt (by omega), Int.toNat_of_nonneg hlow]
    have hle := h.vertical_le fun i =>
      BitVec.ofNat 8 (r.pixel src (y + i - 1) (x + j - 1) c).toNat
    simp only [column]
    rwa [weigh_congr kernelY fun i _ => hpixel i]
  have hvalue : ∀ j, (BitVec.ofInt 16 (column j)).toInt = column j := by
    intro j
    have hj := hcolumn j
    exact BitVec.toInt_ofInt_eq_self (by decide) (by omega) (by omega)
  have hscalar := (h.horizontalScalar (fun j => BitVec.ofInt 16 (column j)) fun t _ => by
    rw [BufferValue, hvalue]
    exact hcolumn t).2
  simp only [hvalue] at hscalar
  rw [SobelCall.derivative_eq hkernel]
  show (BitVec.ofInt 16 (weigh kernelX column)).toInt = weigh kernelX column
  rw [← hscalar, BitVec.ofInt_toInt]

theorem sobelValidate_ok (h : sobelValidate r = .ok) :
    2 ≤ r.width ∧ 2 ≤ r.height ∧ r.width * r.height ≤ kleidicvMaxImagePixels := by
  unfold sobelValidate at h
  split_ifs at h with hsmall hsrc hdst hsize hch
  · exact absurd h hsrc
  · exact absurd h hdst
  · refine ⟨by omega, by omega, ?_⟩
    rw [← checkImageSize_iff]
    simpa using hsize

/-- A stripe of an accepted image. -/
theorem sobel3x3Stripe_derived (h : sobel.Exact kernelY kernelX)
    (hkernel : ∀ i < 3, ∀ j < 3, kernel i j = kernelY i * kernelX j)
    (hvalid : sobelValidate r = .ok) (hstride : r.width * r.channels ≤ r.dstRows.stride)
    {yBegin yEnd : ℕ} (hle : yBegin ≤ yEnd) (hend : yEnd ≤ r.height) (bytes : ℕ → BitVec 8)
    (m : ℕ → BitVec 16) :
    ∃ m', sobel3x3StripeS16U8 sobel r yBegin yEnd (some bytes) src m = (.ok, m') ∧
      r.DerivedRows kernel src yBegin yEnd m m' := by
  obtain ⟨hw, hh, himage⟩ := sobelValidate_ok hvalid
  have hmax : kleidicvMaxImagePixels < 2 ^ 63 := by decide
  have hwmax : r.width ≤ r.width * r.height := Nat.le_mul_of_pos_right _ (by omega)
  have hhmax : r.height ≤ r.width * r.height := Nat.le_mul_of_pos_left _ (by omega)
  have hf := (Sobel3x3.filterType_computesOn h).driver FixedBorderInfo3x3.info
  have hbase : r.bufferRows.ptr = 0 := rfl
  have hsrc : r.srcRows.channels = r.dstRows.channels := rfl
  have hch : r.bufferRows.channels = r.dstRows.channels := rfl
  have hwrote : Wrote r.dstRows.address (fun p => BitVec.ofInt 16
      (r.derivative kernel src p.1 (p.2 / r.channels) (p.2 % r.channels)))
      (stripeElements (r.width * r.channels) yBegin yEnd) m
      ((sobel.filterType.driver FixedBorderInfo3x3.info).process FixedBorderInfo3x3.info r.width
        r.height yBegin yEnd src r.srcRows r.bufferRows r.dstRows .replicate
        (bytesAsU16 bytes, m)).2 := by
    refine SeparableDriver.process_wrote hf hw (by omega) hh (by omega) hbase hsrc hch hstride
      (fun y hy buffer hbuffer e he => ?_) hle hend (bytesAsU16 bytes) m
    have hpos : 0 < r.channels := Nat.pos_of_ne_zero fun hzero => by
      rw [show r.dstRows.channels = r.channels from rfl, hzero, Nat.mul_zero] at he
      exact absurd he (Nat.not_lt_zero e)
    rw [← SobelCall.derivative_buffer hkernel hw hh (Nat.mod_lt _ hpos) hbuffer]
    rfl
  obtain ⟨hpixels, hframe⟩ := stripe_pixels hwrote
  refine ⟨_, rfl, fun y x c h1 h2 hx hc => ?_, hframe⟩
  have hx' : (x * r.channels + c) / r.channels = x := by
    rw [Nat.mul_comm x, Nat.mul_add_div (by omega), Nat.div_eq_of_lt hc, Nat.add_zero]
  have hc' : (x * r.channels + c) % r.channels = c := by
    rw [Nat.mul_comm x, Nat.mul_add_mod, Nat.mod_eq_of_lt hc]
  have hvalue := hpixels y x c h1 h2 hx hc
  simp only [show r.dstRows.channels = r.channels from rfl, hx', hc'] at hvalue
  exact (congrArg BitVec.toInt hvalue).trans (SobelCall.derivative_bounds h hkernel y x c)

theorem horizontalKernel_eq : ∀ i < 3, ∀ j < 3, horizontalKernel i j = smoothing i * difference j := by
  decide

theorem verticalKernel_eq : ∀ i < 3, ∀ j < 3, verticalKernel i j = difference i * smoothing j := by
  decide

/-- **Every pixel of a stripe is the exact derivative of the edge-replicated image**, for both
functions; no intermediate value leaves 16 bits, and nothing else is written.  The entry points
run the stripe with all rows. -/
theorem sobel3x3_correct (hvalid : sobelValidate r = .ok)
    (hstride : r.width * r.channels ≤ r.dstRows.stride) :
    (horizontalSobel3x3.Exact smoothing difference ∧ verticalSobel3x3.Exact difference smoothing) ∧
    (∀ yBegin yEnd bytes m, yBegin ≤ yEnd → yEnd ≤ r.height →
      (∃ m', sobel3x3StripeS16U8 horizontalSobel3x3 r yBegin yEnd (some bytes) src m = (.ok, m') ∧
        r.DerivedRows horizontalKernel src yBegin yEnd m m') ∧
      ∃ m', sobel3x3StripeS16U8 verticalSobel3x3 r yBegin yEnd (some bytes) src m = (.ok, m') ∧
        r.DerivedRows verticalKernel src yBegin yEnd m m') ∧
    ∀ sobel allocation m, kleidicvSobel3x3S16U8 sobel r allocation src m =
      sobel3x3StripeS16U8 sobel r 0 r.height allocation src m := by
  refine ⟨⟨HorizontalSobel3x3.exact, VerticalSobel3x3.exact⟩,
    fun yBegin yEnd bytes m hle hend => ⟨?_, ?_⟩, fun sobel allocation m => ?_⟩
  · exact sobel3x3Stripe_derived HorizontalSobel3x3.exact horizontalKernel_eq hvalid hstride hle hend
      bytes m
  · exact sobel3x3Stripe_derived VerticalSobel3x3.exact verticalKernel_eq hvalid hstride hle hend
      bytes m
  · exact if_neg (by rw [hvalid]; simp)

/-- The second row of an image of two rows and columns, with three channels. -/
theorem sobel3x3_correct_small :
    ∃ m', sobel3x3StripeS16U8 verticalSobel3x3 ⟨100, 6, 200, 12, 2, 2, 3⟩ 1 2 (some fun _ => 7)
        (fun a => BitVec.ofNat 8 a) (fun _ => 0) = (.ok, m') ∧
      SobelCall.DerivedRows ⟨100, 6, 200, 12, 2, 2, 3⟩ verticalKernel (fun a => BitVec.ofNat 8 a) 1 2
        (fun _ => 0) m' :=
  ((sobel3x3_correct (r := ⟨100, 6, 200, 12, 2, 2, 3⟩) (by decide) (by decide)).2.1 1 2
    (fun _ => 7) (fun _ => 0) (by decide) (by decide)).2

end

end KleidiCV
