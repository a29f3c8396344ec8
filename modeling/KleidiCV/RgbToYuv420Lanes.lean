/-
The arithmetic of `RGBxorBGRxToYUV420`, `rgb_to_yuv420_neon.h`, in vectors and in single pixels.

The vector path takes 32 pixels of a row and narrows its sums to bytes without saturating them;
the scalar path saturates.  The chroma samples are those of the pixels in even rows and columns.

* `lumaSum_bounds`, `chromaSum_bounds` — there is nothing to saturate;
* `rgbToYVector_ensures`, `computeUOrV2x_ensures` — the lanes of the vector path;
* `row_ensures`, `rgb2yuv420Operation_eq` — rows and stripes, with vectors or without them;
* `rowsApart_planar`, `rowsApart_interleaved` — when the rows that are written do not overlap;
* `yuv_paths_agree` — all conversions to and from YUV.
-/
import KleidiCV.RgbToYuv420
import KleidiCV.Yuv444
import KleidiCV.Yuv422ToRgb
import KleidiCV.RgbToYuv422
import KleidiCV.Scharr

open Loop

namespace KleidiCV

open YuvLanes
open GaussianBlur (vcombine_cases vdupqN)
open ResizeToQuarter (vreinterpretqU8U16)
open Yuv420 (weightScale saturatingCast)

/-- `RGBxorBGRxToYUV420<kAlpha, RGB, kInterleave>`. -/
structure RgbToYuv420Lanes where
  kAlpha : Bool
  rgb : Bool
  kInterleave : Bool

namespace RgbToYuv420Lanes

/-- `kRYWeight`, `kGYWeight` and `kBYWeight`. -/
def ryWeight : ℕ := 269484

def gyWeight : ℕ := 528482

def byWeight : ℕ := 102760

/-- `kRUWeight`, `kGUWeight` and `kBUWeight`. -/
def ruWeight : ℤ := -155188

def guWeight : ℤ := -305135

def buWeight : ℤ := 460324

/-- `kGVWeight` and `kBVWeight`. -/
def gvWeight : ℤ := -385875

def bvWeight : ℤ := -74448

variable (op : RgbToYuv420Lanes)

/-- `r_index_`. -/
def rIndex : ℕ := if op.rgb then 0 else 2

/-- `b_index_`. -/
def bIndex : ℕ := if op.rgb then 2 else 0

def scn : ℕ := if op.kAlpha then 4 else 3

/-- `kHalfShift`. -/
def halfShift : ℤ := 2 ^ (weightScale - 1)

/-- `kShifted16`. -/
def shifted16 : ℤ := 16 * 2 ^ weightScale

/-- `kShifted128`. -/
def shifted128 : ℤ := 128 * 2 ^ weightScale

/-! ### The vector path -/

/-- `indices`: the even and the odd pixels of the lower half, then those of the upper half. -/
def indices : Fin 4 → Fin 16 → ℕ :=
  ![![0, 0xff, 0xff, 0xff, 2, 0xff, 0xff, 0xff, 4, 0xff, 0xff, 0xff, 6, 0xff, 0xff, 0xff],
    ![1, 0xff, 0xff, 0xff, 3, 0xff, 0xff, 0xff, 5, 0xff, 0xff, 0xff, 7, 0xff, 0xff, 0xff],
    ![8, 0xff, 0xff, 0xff, 10, 0xff, 0xff, 0xff, 12, 0xff, 0xff, 0xff, 14, 0xff, 0xff, 0xff],
    ![9, 0xff, 0xff, 0xff, 11, 0xff, 0xff, 0xff, 13, 0xff, 0xff, 0xff, 15, 0xff, 0xff, 0xff]]

/-- `y_index`. -/
def yIndex : Fin 16 → ℕ := ![1, 17, 3, 19, 5, 21, 7, 23, 9, 25, 11, 27, 13, 29, 15, 31]

/-- `uv_index`. -/
def uvIndex : Fin 16 → ℕ := ![1, 3, 5, 7, 9, 11, 13, 15, 17, 19, 21, 23, 25, 27, 29, 31]

/-- A channel of 16 pixels as `load_rgb_2x` leaves it. -/
def loadChannel (src : ℕ → BitVec 8) (ptr k : ℕ) (i : Fin 4) : Fin 4 → BitVec 32 :=
  vreinterpretqS32U8 (vqtblU8 (vldInterleaved op.scn src ptr k) (indices i) : Fin (4 * 4) → BitVec 8)

/-- `normalize_and_pack_y`. -/
def normalizeAndPackY (vec : Fin 4 → Fin 4 → BitVec 32) : Tracked (Fin 16 → BitVec 8) := do
  let loLo ← vshrnNU32 (weightScale - 8) (vec 0)
  let loHi ← vshrnNU32 (weightScale - 8) (vec 2)
  let hiLo ← vshrnNU32 (weightScale - 8) (vec 1)
  let hiHi ← vshrnNU32 (weightScale - 8) (vec 3)
  let even : Fin (2 * 4) → BitVec 16 := vcombine loLo loHi
  let odd : Fin (2 * 4) → BitVec 16 := vcombine hiLo hiHi
  let tmp : Fin (2 * (2 * (2 * 4))) → BitVec 8 :=
    vcombine (vreinterpretqU8U16 even) (vreinterpretqU8U16 odd)
  pure (vqtblU8 tmp yIndex)

/-- `y[i]` of `rgb_to_y`. -/
def lumaLanes (r g b : Fin 4 → BitVec 32) : Tracked (Fin 4 → BitVec 32) := do
  let start ← Tracked.lanes 32 fun _ => (halfShift + shifted16).toNat
  let y ← GaussianBlur.vmlaq start r (vdupqN 32 ryWeight)
  let y ← GaussianBlur.vmlaq y g (vdupqN 32 gyWeight)
  GaussianBlur.vmlaq y b (vdupqN 32 byWeight)

/-- `rgb_to_y`, for 16 pixels. -/
def rgbToYVector (r g b : Fin 4 → Fin 4 → BitVec 32) : Tracked (Fin 16 → BitVec 8) := do
  let y0 ← lumaLanes (r 0) (g 0) (b 0)
  let y1 ← lumaLanes (r 1) (g 1) (b 1)
  let y2 ← lumaLanes (r 2) (g 2) (b 2)
  let y3 ← lumaLanes (r 3) (g 3) (b 3)
  normalizeAndPackY ![y0, y1, y2, y3]

/-- `normalize_and_pack_u_or_v`. -/
def normalizeAndPackUOrV (vec : Fin 4 → Fin 4 → BitVec 32) : Tracked (Fin 16 → BitVec 8) := do
  let loLo ← vshrnNS32 (weightScale - 8) (vec 0)
  let loHi ← vshrnNS32 (weightScale - 8) (vec 1)
  let hiLo ← vshrnNS32 (weightScale - 8) (vec 2)
  let hiHi ← vshrnNS32 (weightScale - 8) (vec 3)
  let low : Fin (2 * 4) → BitVec 16 := vcombine loLo loHi
  let high : Fin (2 * 4) → BitVec 16 := vcombine hiLo hiHi
  let tmp : Fin (2 * (2 * (2 * 4))) → BitVec 8 :=
    vcombine (vreinterpretqU8U16 low) (vreinterpretqU8U16 high)
  pure (vqtblU8 tmp uvIndex)

/-- `uv[i]` of `compute_u_or_v_2x`. -/
def chromaLanes (rCoeff gCoeff bCoeff : ℤ) (r g b : Fin 4 → BitVec 32) :
    Tracked (Fin 4 → BitVec 32) := do
  let start ← vdupqNS32 (halfShift + shifted128)
  let c ← vmlaN start r rCoeff
  let c ← vmlaN c g gCoeff
  vmlaN c b bCoeff

/-- `compute_u_or_v_2x`. -/
def computeUOrV2x (rCoeff gCoeff bCoeff : ℤ) (r g b : Fin 4 → Fin 4 → BitVec 32) :
    Tracked (Fin 16 → BitVec 8) := do
  let c0 ← chromaLanes rCoeff gCoeff bCoeff (r 0) (g 0) (b 0)
  let c1 ← chromaLanes rCoeff gCoeff bCoeff (r 1) (g 1) (b 1)
  let c2 ← chromaLanes rCoeff gCoeff bCoeff (r 2) (g 2) (b 2)
  let c3 ← chromaLanes rCoeff gCoeff bCoeff (r 3) (g 3) (b 3)
  normalizeAndPackUOrV ![c0, c1, c2, c3]

/-- `r_even`, `g_even` or `b_even`. -/
def evenChannel (c0 c1 : Fin 4 → Fin 4 → BitVec 32) : Fin 4 → Fin 4 → BitVec 32 :=
  ![c0 0, c0 2, c1 0, c1 2]

/-- Where the samples of a row go. -/
structure Target where
  yRow : ℕ
  uRow : ℕ
  vRow : ℕ
  vFirst : Bool
  evenRow : Bool

/-- `vector_path_2x`. -/
def vectorPath2x (src : ℕ → BitVec 8) (srcRow : ℕ) (t : Target) (index : ℕ) (m : ℕ → BitVec 8) :
    Tracked (ℕ → BitVec 8) := do
  let c0 := op.loadChannel src (srcRow + op.scn * index)
  let c1 := op.loadChannel src (srcRow + op.scn * index + op.scn * 16)
  let y0 ← rgbToYVector (c0 op.rIndex) (c0 1) (c0 op.bIndex)
  let y1 ← rgbToYVector (c1 op.rIndex) (c1 1) (c1 op.bIndex)
  let m := vst1q m (t.yRow + index) y0
  let m := vst1q m (t.yRow + index + 16) y1
  if t.evenRow then do
    let rEven := evenChannel (c0 op.rIndex) (c1 op.rIndex)
    let gEven := evenChannel (c0 1) (c1 1)
    let bEven := evenChannel (c0 op.bIndex) (c1 op.bIndex)
    let u ← computeUOrV2x ruWeight guWeight buWeight rEven gEven bEven
    let v ← computeUOrV2x buWeight gvWeight bvWeight rEven gEven bEven
    let (uv0, uv1) := if t.vFirst then (v, u) else (u, v)
    if op.kInterleave then pure (vst2q m (t.uRow + index) uv0 uv1)
    else pure (vst1q (vst1q m (t.uRow + index / 2) uv0) (t.vRow + index / 2) uv1)
  else pure m

/-! ### The scalar path -/

/-- `rgb_to_y`, for one pixel. -/
def rgbToY (r g b : BitVec 8) : Tracked (BitVec 8) := do
  let yy ← weighRgb r.toNat ryWeight g.toNat gyWeight b.toNat byWeight
  let yy ← int32 (yy + halfShift)
  let yy ← int32 (yy + shifted16)
  pure (saturatingCast (yy / 2 ^ weightScale))

/-- `uv[0]` or `uv[1]` of `rgb_to_uv`. -/
def rgbToUOrV (rWeight gWeight bWeight : ℤ) (r g b : BitVec 8) : Tracked (BitVec 8) := do
  let c ← weighRgb r.toNat rWeight g.toNat gWeight b.toNat bWeight
  let c ← int32 (c + halfShift)
  let c ← int32 (c + shifted128)
  pure (saturatingCast (c / 2 ^ weightScale))

/-- The body of the loop of `scalar_path`. -/
def scalarColumn (src : ℕ → BitVec 8) (srcRow : ℕ) (t : Target) (index : ℕ) (m : ℕ → BitVec 8) :
    Tracked (ℕ → BitVec 8) := do
  let r0 := src (srcRow + (index * op.scn + op.rIndex))
  let g0 := src (srcRow + (index * op.scn + 1))
  let b0 := src (srcRow + (index * op.scn + op.bIndex))
  let y0 ← rgbToY r0 g0 b0
  let m := Function.update m (t.yRow + index) y0
  if t.evenRow && index % 2 == 0 then do
    let u ← rgbToUOrV ruWeight guWeight buWeight r0 g0 b0
    let v ← rgbToUOrV buWeight gvWeight bvWeight r0 g0 b0
    let (uv0, uv1) := if t.vFirst then (v, u) else (u, v)
    if op.kInterleave then
      pure (Function.update (Function.update m (t.uRow + index) uv0) (t.uRow + (index + 1)) uv1)
    else
      pure (Function.update (Function.update m (t.uRow + (index + 1) / 2) uv0)
        (t.vRow + (index + 1) / 2) uv1)
  else pure m

/-- `scalar_path`. -/
def scalarPath (src : ℕ → BitVec 8) (srcRow : ℕ) (t : Target) (index length : ℕ) :
    Tracked (ℕ → BitVec 8) → Tracked (ℕ → BitVec 8) :=
  forFrom index (length - index) fun index s => s >>= op.scalarColumn src srcRow t index

/-- One row, with vectors for the first pixels; each call for the tail goes to the end of it. -/
def processRow (src : ℕ → BitVec 8) (srcRow : ℕ) (t : Target) (width : ℕ)
    (s : Tracked (ℕ → BitVec 8)) : Tracked (ℕ → BitVec 8) :=
  ((LoopUnroll2.startAvoidingTail width 16, s) |>
    LoopUnroll2.unrollTwice (fun index s => s >>= op.vectorPath2x src srcRow t index) |>
    LoopUnroll2.tail (fun index => op.scalarPath src srcRow t index width)).2

/-- One row, with the scalar path for all pixels. -/
def scalarRow (src : ℕ → BitVec 8) (srcRow : ℕ) (t : Target) (width : ℕ) :
    Tracked (ℕ → BitVec 8) → Tracked (ℕ → BitVec 8) := op.scalarPath src srcRow t 0 width

/-- The arguments of `rgb2yuv420_operation`. -/
structure Call where
  srcPtr : ℕ
  srcStride : ℕ
  yDst : ℕ
  yStride : ℕ
  uvDst : ℕ
  uvStride : ℕ
  width : ℕ
  height : ℕ
  vFirst : Bool

/-- The rows that row `h` is stored in; chroma rows are only used for an even one. -/
def target (c : Call) (h : ℕ) : Target where
  yRow := c.yDst + c.yStride * h
  uRow :=
    if op.kInterleave then c.uvDst + c.uvStride * (h / 2)
    else c.uvDst + c.uvStride * (h / 4) + h / 2 % 2 * ((c.width + 1) / 2)
  vRow := RgbxOrBgrxToYuv420.vRow c.uvDst c.uvStride c.width c.height h
  vFirst := c.vFirst
  evenRow := h % 2 == 0

/-- `rgb2yuv420_operation`, for a way to process a row. -/
def rgb2yuv420Operation (row : ℕ → Target → ℕ → Tracked (ℕ → BitVec 8) → Tracked (ℕ → BitVec 8))
    (c : Call) (begin_ end_ : ℕ) : Tracked (ℕ → BitVec 8) → Tracked (ℕ → BitVec 8) :=
  let rowBegin := begin_ * 2
  let rowEnd := min c.height (end_ * 2)
  forFrom rowBegin (rowEnd - rowBegin) fun h =>
    row (c.srcPtr + c.srcStride * h) (op.target c h) c.width

/-! ### What the paths store -/

/-- A luma sample, before it is saturated. -/
def lumaSum (r g b : BitVec 8) : ℤ :=
  (r.toNat * ryWeight + g.toNat * gyWeight + b.toNat * byWeight + halfShift + shifted16) / 2 ^ 20

/-- A chroma sample, before it is saturated. -/
def chromaSum (rWeight gWeight bWeight : ℤ) (r g b : BitVec 8) : ℤ :=
  (r.toNat * rWeight + g.toNat * gWeight + b.toNat * bWeight + halfShift + shifted128) / 2 ^ 20

/-- The weights of U, or those of V. -/
def IsChroma (rWeight gWeight bWeight : ℤ) : Prop :=
  (rWeight = ruWeight ∧ gWeight = guWeight ∧ bWeight = buWeight) ∨
    (rWeight = buWeight ∧ gWeight = gvWeight ∧ bWeight = bvWeight)

theorem halfShift_eq : halfShift = 524288 := by decide

theorem shifted16_eq : shifted16 = 16777216 := by decide

theorem shifted128_eq : shifted128 = 134217728 := by decide

/-- **Luma samples lie in 0..255.** -/
theorem lumaSum_bounds (r g b : BitVec 8) : 0 ≤ lumaSum r g b ∧ lumaSum r g b ≤ 255 := by
  have hr := r.isLt
  have hg := g.isLt
  have hb := b.isLt
  rw [lumaSum, halfShift_eq, shifted16_eq, ryWeight, gyWeight, byWeight]
  push_cast
  omega

/-- **Chroma samples lie in 0..255.** -/
theorem chromaSum_bounds {rWeight gWeight bWeight : ℤ} (hw : IsChroma rWeight gWeight bWeight)
    (r g b : BitVec 8) :
    0 ≤ chromaSum rWeight gWeight bWeight r g b ∧ chromaSum rWeight gWeight bWeight r g b ≤ 255 := by
  have hr := r.isLt
  have hg := g.isLt
  have hb := b.isLt
  rw [chromaSum, halfShift_eq, shifted128_eq]
  rcases hw with ⟨rfl, rfl, rfl⟩ | ⟨rfl, rfl, rfl⟩
  · rw [ruWeight, guWeight, buWeight]
    omega
  · rw [buWeight, gvWeight, bvWeight]
    omega

/-! ### Vectors -/

theorem loadChannel_toNat (src : ℕ → BitVec 8) (ptr k : ℕ) (i lane : Fin 4) :
    (op.loadChannel src ptr k i lane).toNat =
      (src (ptr + op.scn * (8 * (i / 2) + 2 * lane + i % 2) + k)).toNat := by
  have hbyte : ∀ i lane : Fin 4,
      indices i ⟨4 * lane, by omega⟩ = 8 * (i.val / 2) + 2 * lane + i.val % 2 := by decide
  have hzero : ∀ i : Fin 4, ∀ j : Fin 16, j.val % 4 ≠ 0 → 16 ≤ indices i j := by decide
  refine (widened_toNat (f := fun lane => vldInterleaved op.scn src ptr k
    ⟨8 * (i / 2) + 2 * lane + i % 2, by omega⟩) (fun lane => vqtblU8_of_lt (hbyte i lane) _)
    (fun j hj => vqtblU8_of_le (hzero i j hj)) lane).trans ?_
  exact congrArg (fun a => (src a).toNat) (Nat.add_assoc ..).symm

theorem loadChannel_toInt (src : ℕ → BitVec 8) (ptr k : ℕ) (i lane : Fin 4) :
    (op.loadChannel src ptr k i lane).toInt =
      (src (ptr + op.scn * (8 * (i / 2) + 2 * lane + i % 2) + k)).toNat := by
  have hnat := op.loadChannel_toNat src ptr k i lane
  have hlt := (src (ptr + op.scn * (8 * (i / 2) + 2 * lane + i % 2) + k)).isLt
  rw [BitVec.toInt_eq_toNat_of_lt (by omega), hnat]

/-- The upper bytes of two vectors of halfwords. -/
theorem vqtbl2_upper {low high : Fin (2 * 4) → BitVec 16} {index : Fin 16 → ℕ} {lane : Fin 16} {j : ℕ}
    (hindex : index lane = 2 * j + 1) (hj : j < 16) {f : ℕ → ℤ}
    (hlow : ∀ i : Fin (2 * 4), ((low i).toNat : ℤ) = f i / 2 ^ 12)
    (hhigh : ∀ i : Fin (2 * 4), ((high i).toNat : ℤ) = f (8 + i) / 2 ^ 12) :
    vqtblU8 (vcombine (vreinterpretqU8U16 low) (vreinterpretqU8U16 high) :
      Fin (2 * (2 * (2 * 4))) → BitVec 8) index lane = saturatingCast (f j / 2 ^ 20) := by
  have hscaled : f j / 2 ^ 12 / 256 = f j / 2 ^ 20 := by omega
  rw [vqtblU8_of_lt hindex (show 2 * j + 1 < 32 by omega), ← hscaled]
  by_cases hlt : j < 8
  · rw [vcombine, dif_pos (show 2 * j + 1 < 16 by omega)]
    exact (upperByte_eq low j hlt).trans (highByte_of_lt (hlow ⟨j, hlt⟩))
  · have hsub : 2 * j + 1 - 2 * (2 * 4) = 2 * (j - 8) + 1 := by omega
    have hword := hhigh ⟨j - 8, by omega⟩
    rw [show 8 + (j - 8) = j by omega] at hword
    rw [vcombine, dif_neg (show ¬2 * j + 1 < 16 by omega)]
    exact (congrArg _ (Fin.ext hsub)).trans
      ((upperByte_eq high (j - 8) (by omega)).trans (highByte_of_lt hword))

theorem normalizeAndPackY_ensures {vec : Fin 4 → Fin 4 → BitVec 32} {f : ℕ → ℕ}
    (hvec : ∀ i lane : Fin 4, (vec i lane).toNat = f (8 * (i / 2) + 2 * lane + i % 2))
    (hf : ∀ x, f x < 2 ^ 28) :
    (normalizeAndPackY vec).Ensures fun s => ∀ lane : Fin 16,
      s lane = saturatingCast ((f lane : ℤ) / 2 ^ 20) := by
  have hshift : ∀ i, (vshrnNU32 (weightScale - 8) (vec i)).Ensures fun s => ∀ lane : Fin 4,
      ((s lane).toNat : ℤ) = (f (8 * (i / 2) + 2 * lane + i % 2) : ℤ) / 2 ^ 12 := by
    intro i
    refine (vshrnNU32_ensures (hvec i) fun lane => ?_).imp fun s hs lane => ?_
    · have := hf (8 * (i / 2) + 2 * lane + i % 2)
      rw [weightScale]
      omega
    · rw [hs, weightScale]
      push_cast
      rfl
  refine (hshift 0).bind fun loLo h0 => (hshift 2).bind fun loHi h2 => ?_
  refine (hshift 1).bind fun hiLo h1 => (hshift 3).bind fun hiHi h3 => .pure fun lane => ?_
  -- Halfword `j` holds pixel `2 * j`, and those of the other vector the pixels between.
  have heven : ∀ i : Fin (2 * 4), ((vcombine loLo loHi i).toNat : ℤ) = (f (2 * i) : ℤ) / 2 ^ 12 := by
    refine vcombine_cases (P := fun i (x : BitVec 16) => (x.toNat : ℤ) = (f (2 * i) : ℤ) / 2 ^ 12)
      (fun i => ?_) fun i => ?_
    · simpa using h0 i
    · rw [h2 i, show 8 * ((2 : Fin 4).val / 2) + 2 * i.val + (2 : Fin 4).val % 2 = 2 * (4 + i) by
        simp only [Fin.isValue, Fin.val_two]; omega]
  have hodd : ∀ i : Fin (2 * 4), ((vcombine hiLo hiHi i).toNat : ℤ) =
      (f (2 * i + 1) : ℤ) / 2 ^ 12 := by
    refine vcombine_cases (P := fun i (x : BitVec 16) => (x.toNat : ℤ) = (f (2 * i + 1) : ℤ) / 2 ^ 12)
      (fun i => ?_) fun i => ?_
    · simpa using h1 i
    · rw [h3 i, show 8 * ((3 : Fin 4).val / 2) + 2 * i.val + (3 : Fin 4).val % 2 = 2 * (4 + i) + 1 by
        rw [show (3 : Fin 4).val = 3 from rfl]; omega]
  have hindex : ∀ lane : Fin 16, yIndex lane = 2 * (lane / 2 + lane % 2 * 8) + 1 := by decide
  have hlane := lane.isLt
  have hpixel : (if lane.val / 2 + lane.val % 2 * 8 < 8 then 2 * (lane.val / 2 + lane.val % 2 * 8)
      else 2 * (lane.val / 2 + lane.val % 2 * 8 - 8) + 1) = lane := by
    split <;> omega
  rw [vqtbl2_upper (hindex lane) (by omega)
    (f := fun j => (f (if j < 8 then 2 * j else 2 * (j - 8) + 1) : ℤ)) (fun i => ?_) fun i => ?_]
  · simp only [hpixel]
  · rw [if_pos i.isLt]
    exact heven i
  · rw [if_neg (by omega), Nat.add_sub_cancel_left]
    exact hodd i

theorem normalizeAndPackUOrV_ensures {vec : Fin 4 → Fin 4 → BitVec 32} {f : ℕ → ℤ}
    (hvec : ∀ i lane : Fin 4, (vec i lane).toInt = f (4 * i + lane))
    (hf : ∀ x, 0 ≤ f x ∧ f x < 2 ^ 28) :
    (normalizeAndPackUOrV vec).Ensures fun s => ∀ lane : Fin 16,
      s lane = saturatingCast (f lane / 2 ^ 20) := by
  have hshift : ∀ i, (vshrnNS32 (weightScale - 8) (vec i)).Ensures fun s => ∀ lane : Fin 4,
      ((s lane).toNat : ℤ) = f (4 * i + lane) / 2 ^ 12 := by
    intro i
    refine vshrnNS32_ensures (hvec i) fun lane => ?_
    have := hf (4 * i + lane)
    rw [weightScale]
    omega
  refine (hshift 0).bind fun loLo h0 => (hshift 1).bind fun loHi h1 => ?_
  refine (hshift 2).bind fun hiLo h2 => (hshift 3).bind fun hiHi h3 => .pure fun lane => ?_
  have hlow : ∀ i : Fin (2 * 4), ((vcombine loLo loHi i).toNat : ℤ) = f i / 2 ^ 12 := by
    refine vcombine_cases (P := fun i (x : BitVec 16) => (x.toNat : ℤ) = f i / 2 ^ 12)
      (fun i => ?_) fun i => ?_
    · simpa using h0 i
    · simpa using h1 i
  have hhigh : ∀ i : Fin (2 * 4), ((vcombine hiLo hiHi i).toNat : ℤ) = f (8 + i) / 2 ^ 12 := by
    refine vcombine_cases (P := fun i (x : BitVec 16) => (x.toNat : ℤ) = f (8 + i) / 2 ^ 12)
      (fun i => ?_) fun i => ?_
    · simpa using h2 i
    · rw [h3 i, show 4 * (3 : Fin 4).val + i.val = 8 + (4 + i) by
        rw [show (3 : Fin 4).val = 3 from rfl]; omega]
  have hindex : ∀ lane : Fin 16, uvIndex lane = 2 * lane + 1 := by decide
  exact vqtbl2_upper (hindex lane) lane.isLt hlow hhigh

section

variable {r g b : Fin 4 → Fin 4 → BitVec 32} (fr fg fb : ℕ → BitVec 8)

/-- The luma samples of 16 pixels. -/
theorem rgbToYVector_ensures
    (hr : ∀ i lane : Fin 4, (r i lane).toNat = (fr (8 * (i / 2) + 2 * lane + i % 2)).toNat)
    (hg : ∀ i lane : Fin 4, (g i lane).toNat = (fg (8 * (i / 2) + 2 * lane + i % 2)).toNat)
    (hb : ∀ i lane : Fin 4, (b i lane).toNat = (fb (8 * (i / 2) + 2 * lane + i % 2)).toNat) :
    (rgbToYVector r g b).Ensures fun s => ∀ lane : Fin 16,
      s lane = saturatingCast (lumaSum (fr lane) (fg lane) (fb lane)) := by
  have hstart : (halfShift + shifted16).toNat = 17301504 := by decide
  have hlt : ∀ (f : ℕ → BitVec 8) x, (f x).toNat < 256 := fun f x => (f x).isLt
  have hlanes : ∀ i, (lumaLanes (r i) (g i) (b i)).Ensures fun s => ∀ lane : Fin 4,
      (s lane).toNat = 17301504 + (fr (8 * (i / 2) + 2 * lane + i % 2)).toNat * ryWeight +
        (fg (8 * (i / 2) + 2 * lane + i % 2)).toNat * gyWeight +
        (fb (8 * (i / 2) + 2 * lane + i % 2)).toNat * byWeight := by
    intro i
    rw [lumaLanes, hstart]
    refine (Tracked.lanes_ensures fun _ => by decide).bind fun start hs => ?_
    refine (GaussianBlur.mla_ensures (by decide) fun lane => ?_).bind fun y hy => ?_
    · have := hlt fr (8 * (i / 2) + 2 * lane + i % 2)
      rw [hs, hr, ryWeight]
      omega
    refine (GaussianBlur.mla_ensures (by decide) fun lane => ?_).bind fun y' hy' => ?_
    · have := hlt fr (8 * (i / 2) + 2 * lane + i % 2)
      have := hlt fg (8 * (i / 2) + 2 * lane + i % 2)
      rw [hy, hs, hr, hg, ryWeight, gyWeight]
      omega
    refine (GaussianBlur.mla_ensures (by decide) fun lane => ?_).imp fun y'' hy'' lane => ?_
    · have := hlt fr (8 * (i / 2) + 2 * lane + i % 2)
      have := hlt fg (8 * (i / 2) + 2 * lane + i % 2)
      have := hlt fb (8 * (i / 2) + 2 * lane + i % 2)
      rw [hy', hy, hs, hr, hg, hb, ryWeight, gyWeight, byWeight]
      omega
    · rw [hy'', hy', hy, hs, hr, hg, hb]
  refine (hlanes 0).bind fun y0 h0 => (hlanes 1).bind fun y1 h1 => ?_
  refine (hlanes 2).bind fun y2 h2 => (hlanes 3).bind fun y3 h3 => ?_
  refine (normalizeAndPackY_ensures (f := fun x => 17301504 + (fr x).toNat * ryWeight +
    (fg x).toNat * gyWeight + (fb x).toNat * byWeight) (fun i lane => ?_) fun x => ?_).imp
    fun s hs lane => ?_
  · fin_cases i
    · exact h0 lane
    · exact h1 lane
    · exact h2 lane
    · exact h3 lane
  · have := hlt fr x
    have := hlt fg x
    have := hlt fb x
    rw [ryWeight, gyWeight, byWeight]
    omega
  · rw [hs, lumaSum, halfShift_eq, shifted16_eq]
    congr 2
    push_cast
    ring

/-- The chroma samples of 16 pixels. -/
theorem computeUOrV2x_ensures {rWeight gWeight bWeight : ℤ} (hw : IsChroma rWeight gWeight bWeight)
    (hr : ∀ i lane : Fin 4, (r i lane).toInt = (fr (4 * i + lane)).toNat)
    (hg : ∀ i lane : Fin 4, (g i lane).toInt = (fg (4 * i + lane)).toNat)
    (hb : ∀ i lane : Fin 4, (b i lane).toInt = (fb (4 * i + lane)).toNat) :
    (computeUOrV2x rWeight gWeight bWeight r g b).Ensures fun s => ∀ lane : Fin 16,
      s lane = saturatingCast (chromaSum rWeight gWeight bWeight (fr lane) (fg lane) (fb lane)) := by
  have hstart : halfShift + shifted128 = 134742016 := by decide
  have hsize : |rWeight| ≤ 1000000 ∧ |gWeight| ≤ 1000000 ∧ |bWeight| ≤ 1000000 := by
    rcases hw with ⟨rfl, rfl, rfl⟩ | ⟨rfl, rfl, rfl⟩ <;> decide
  have hmul : ∀ (f : ℕ → BitVec 8) (x : ℕ) {w : ℤ}, |w| ≤ 1000000 →
      -510000000 ≤ ((f x).toNat : ℤ) * w ∧ ((f x).toNat : ℤ) * w ≤ 510000000 := fun f x _ hw =>
    sample_mul_bounds (by have := (f x).isLt; omega) hw
  obtain ⟨hrw, hgw, hbw⟩ := hsize
  have hrc := abs_le.mp hrw
  have hgc := abs_le.mp hgw
  have hbc := abs_le.mp hbw
  have hlanes : ∀ i, (chromaLanes rWeight gWeight bWeight (r i) (g i) (b i)).Ensures fun s =>
      ∀ lane : Fin 4, (s lane).toInt = 134742016 + (fr (4 * i + lane)).toNat * rWeight +
        (fg (4 * i + lane)).toNat * gWeight + (fb (4 * i + lane)).toNat * bWeight := by
    intro i
    rw [chromaLanes, hstart]
    refine (Tracked.slanes_ensures (by decide) fun _ => by decide).bind fun start hs => ?_
    refine (vmlaN_ensures (by decide) (by decide) hs (hr i) (by omega) fun lane => ?_).bind
      fun c hc => ?_
    · have := hmul fr (4 * i + lane) hrw
      omega
    refine (vmlaN_ensures (by decide) (by decide) hc (hg i) (by omega) fun lane => ?_).bind
      fun c' hc' => ?_
    · have := hmul fr (4 * i + lane) hrw
      have := hmul fg (4 * i + lane) hgw
      omega
    refine vmlaN_ensures (by decide) (by decide) hc' (hb i) (by omega) fun lane => ?_
    have := hmul fr (4 * i + lane) hrw
    have := hmul fg (4 * i + lane) hgw
    have := hmul fb (4 * i + lane) hbw
    omega
  refine (hlanes 0).bind fun c0 h0 => (hlanes 1).bind fun c1 h1 => ?_
  refine (hlanes 2).bind fun c2 h2 => (hlanes 3).bind fun c3 h3 => ?_
  refine (normalizeAndPackUOrV_ensures (f := fun x => 134742016 + (fr x).toNat * rWeight +
    (fg x).toNat * gWeight + (fb x).toNat * bWeight) (fun i lane => ?_) fun x => ?_).imp
    fun s hs lane => ?_
  · fin_cases i
    · exact h0 lane
    · exact h1 lane
    · exact h2 lane
    · exact h3 lane
  · have := chromaSum_bounds hw (fr x) (fg x) (fb x)
    rw [chromaSum, halfShift_eq, shifted128_eq] at this
    omega
  · rw [hs, chromaSum, halfShift_eq, shifted128_eq]
    congr 2
    ring

end

/-! ### Single pixels -/

theorem sample_bounds (x : BitVec 8) : 0 ≤ (x.toNat : ℤ) ∧ (x.toNat : ℤ) ≤ 510 := by
  have := x.isLt
  omega

theorem rgbToY_ensures (r g b : BitVec 8) :
    (rgbToY r g b).Ensures (· = saturatingCast (lumaSum r g b)) := by
  have hbyte := lumaSum_bounds r g b
  rw [lumaSum, halfShift_eq, shifted16_eq] at hbyte
  refine (weighRgb_ensures (sample_bounds r) (sample_bounds g) (sample_bounds b) (by decide)
    (by decide) (by decide)).bind fun yy hyy => ?_
  rw [halfShift_eq, shifted16_eq]
  refine (int32_ensures (by omega)).bind fun yy' hyy' => ?_
  refine (int32_ensures (by omega)).bind fun yy'' hyy'' => .pure ?_
  rw [hyy'', hyy', hyy, lumaSum, halfShift_eq, shifted16_eq]
  rfl

theorem rgbToUOrV_ensures {rWeight gWeight bWeight : ℤ} (hw : IsChroma rWeight gWeight bWeight)
    (r g b : BitVec 8) :
    (rgbToUOrV rWeight gWeight bWeight r g b).Ensures
      (· = saturatingCast (chromaSum rWeight gWeight bWeight r g b)) := by
  have hsize : |rWeight| ≤ 1000000 ∧ |gWeight| ≤ 1000000 ∧ |bWeight| ≤ 1000000 := by
    rcases hw with ⟨rfl, rfl, rfl⟩ | ⟨rfl, rfl, rfl⟩ <;> decide
  have hbyte := chromaSum_bounds hw r g b
  rw [chromaSum, halfShift_eq, shifted128_eq] at hbyte
  refine (weighRgb_ensures (sample_bounds r) (sample_bounds g) (sample_bounds b) hsize.1 hsize.2.1
    hsize.2.2).bind fun c hc => ?_
  rw [halfShift_eq, shifted128_eq]
  refine (int32_ensures (by omega)).bind fun c' hc' => ?_
  refine (int32_ensures (by omega)).bind fun c'' hc'' => .pure ?_
  rw [hc'', hc', hc, chromaSum, halfShift_eq, shifted128_eq]
  rfl

/-! ### The samples of a row -/

/-- A luma sample of a column, or a chroma sample of two columns. -/
inductive RowSample
  | y (x : ℕ)
  | chroma (isV : Bool) (j : ℕ)

/-- Where it goes. -/
def rowPlace (t : Target) : RowSample → ℕ
  | .y x => t.yRow + x
  | .chroma isV j =>
    if op.kInterleave then t.uRow + (2 * j + if isV = t.vFirst then 0 else 1)
    else (if isV = t.vFirst then t.uRow else t.vRow) + j

def lumaAt (src : ℕ → BitVec 8) (srcRow x : ℕ) : BitVec 8 :=
  saturatingCast (lumaSum (src (srcRow + (x * op.scn + op.rIndex))) (src (srcRow + (x * op.scn + 1)))
    (src (srcRow + (x * op.scn + op.bIndex))))

def chromaAt (src : ℕ → BitVec 8) (srcRow : ℕ) (isV : Bool) (x : ℕ) : BitVec 8 :=
  saturatingCast (chromaSum (if isV then buWeight else ruWeight) (if isV then gvWeight else guWeight)
    (if isV then bvWeight else buWeight) (src (srcRow + (x * op.scn + op.rIndex)))
    (src (srcRow + (x * op.scn + 1))) (src (srcRow + (x * op.scn + op.bIndex))))

/-- What it is. -/
def rowValue (src : ℕ → BitVec 8) (srcRow : ℕ) : RowSample → BitVec 8
  | .y x => op.lumaAt src srcRow x
  | .chroma isV j => op.chromaAt src srcRow isV (2 * j)

/-- The samples that are due to the columns from `a` up to `b`. -/
def rowPart (evenRow : Bool) (a b : ℕ) : Set RowSample := {s |
  match s with
  | .y x => a ≤ x ∧ x < b
  | .chroma _ j => evenRow = true ∧ a ≤ 2 * j ∧ 2 * j < b}

/-- The rows that are written together do not overlap. -/
def RowsApart (t : Target) (width : ℕ) : Prop :=
  Set.InjOn (op.rowPlace t) (rowPart t.evenRow 0 width)

theorem rowPart_subset {evenRow : Bool} {a b width : ℕ} (hb : b ≤ width) :
    rowPart evenRow a b ⊆ rowPart evenRow 0 width := by
  rintro (x | ⟨isV, j⟩) hs
  · exact ⟨Nat.zero_le _, hs.2.trans_le hb⟩
  · exact ⟨hs.1, Nat.zero_le _, hs.2.2.trans_le hb⟩

theorem rowPart_append {evenRow : Bool} {a b c : ℕ} (hab : a ≤ b) (hbc : b ≤ c) :
    rowPart evenRow a b ∪ rowPart evenRow b c = rowPart evenRow a c := by
  ext (x | ⟨isV, j⟩)
  · simp only [rowPart, Set.mem_union, Set.mem_ofPred_eq]
    omega
  · simp only [rowPart, Set.mem_union, Set.mem_ofPred_eq, ← and_or_left]
    exact and_congr_right fun _ => by omega

theorem not_mem_rowPart (evenRow : Bool) (a : ℕ) (s : RowSample) : s ∉ rowPart evenRow a a := by
  rcases s with x | ⟨isV, j⟩
  · exact fun hs => Nat.not_lt.mpr hs.1 hs.2
  · exact fun hs => Nat.not_lt.mpr hs.2.1 hs.2.2

section

variable {op} {src : ℕ → BitVec 8} {srcRow width : ℕ} {t : Target}

/-- A vector of luma samples. -/
theorem luma_wrote {y : Fin 16 → BitVec 8} {x : ℕ} (hy : ∀ lane : Fin 16,
    y lane = op.lumaAt src srcRow (x + lane)) (m : ℕ → BitVec 8) :
    Wrote (op.rowPlace t) (op.rowValue src srcRow) {s | ∃ l < 16, RowSample.y (x + l) = s} m
      (vst1q m (t.yRow + x) y) := by
  obtain ⟨g, heq, hg⟩ := vst1q_eq m (t.yRow + x) y
  rw [heq]
  refine overwrite_wrote_range (fun l hl => (Nat.add_assoc _ _ _).symm) fun l hl => ?_
  rw [hg ⟨l, hl⟩, hy]
  rfl

/-- A vector of chroma samples of either kind. -/
theorem chroma_wrote (h : op.RowsApart t width) (hrow : t.evenRow = true)
    {uv : Bool → Fin 16 → BitVec 8} {index : ℕ} (heven : index % 2 = 0) (hi : index + 2 * 16 ≤ width)
    (huv : ∀ isV, ∀ lane : Fin 16, uv isV lane = op.chromaAt src srcRow isV (index + 2 * lane))
    (m : ℕ → BitVec 8) :
    Wrote (op.rowPlace t) (op.rowValue src srcRow)
      {s | ∃ isV, ∃ l < 16, RowSample.chroma isV (index / 2 + l) = s} m
      (if op.kInterleave then vst2q m (t.uRow + index) (uv t.vFirst) (uv !t.vFirst)
      else vst1q (vst1q m (t.uRow + index / 2) (uv t.vFirst)) (t.vRow + index / 2)
        (uv !t.vFirst)) := by
  have hvalue : ∀ isV (lane : Fin 16),
      uv isV lane = op.rowValue src srcRow (.chroma isV (index / 2 + lane)) := by
    intro isV lane
    rw [huv, rowValue, show 2 * (index / 2 + lane) = index + 2 * lane by omega]
  cases hinter : op.kInterleave with
  | true =>
    obtain ⟨g, heq, hg⟩ := vst2q_eq m (t.uRow + index) (uv t.vFirst) (uv !t.vFirst)
    rw [if_pos rfl, heq]
    refine overwrite_wrote ?_ fun j hj => ?_
    · rintro _ ⟨isV, l, hl, rfl⟩
      rcases Bool.eq_or_eq_not isV t.vFirst with rfl | rfl
      · refine ⟨2 * l, by omega, ?_, ?_⟩
        · simp only [rowPlace, hinter, if_true]
          omega
        · rw [(hg ⟨l, hl⟩).1, hvalue]
      · refine ⟨2 * l + 1, by omega, ?_, ?_⟩
        · simp only [rowPlace, hinter, if_true, Bool.not_eq_eq_eq_not, Bool.eq_not_self, if_false]
          omega
        · rw [(hg ⟨l, hl⟩).2, hvalue]
    · rcases Nat.mod_two_eq_zero_or_one j with hmod | hmod
      · refine ⟨.chroma t.vFirst (index / 2 + j / 2), ⟨_, j / 2, by omega, rfl⟩, ?_⟩
        simp only [rowPlace, hinter, if_true]
        omega
      · refine ⟨.chroma (!t.vFirst) (index / 2 + j / 2), ⟨_, j / 2, by omega, rfl⟩, ?_⟩
        simp only [rowPlace, hinter, if_true, Bool.not_eq_eq_eq_not, Bool.eq_not_self, if_false]
        omega
  | false =>
    rw [if_neg Bool.false_ne_true]
    have hplane : ∀ isV row (m : ℕ → BitVec 8),
        (∀ j, op.rowPlace t (.chroma isV j) = row + j) →
        Wrote (op.rowPlace t) (op.rowValue src srcRow)
          {s | ∃ l < 16, RowSample.chroma isV (index / 2 + l) = s} m
          (vst1q m (row + index / 2) (uv isV)) := by
      intro isV row m hplace
      obtain ⟨g, heq, hg⟩ := vst1q_eq m (row + index / 2) (uv isV)
      rw [heq]
      refine overwrite_wrote_range (fun l hl => ?_) fun l hl => ?_
      · rw [hplace, Nat.add_assoc]
      · rw [hg ⟨l, hl⟩, hvalue]
    have hmem : ∀ isV, {s | ∃ l < 16, RowSample.chroma isV (index / 2 + l) = s} ⊆
        rowPart t.evenRow 0 width := by
      rintro isV _ ⟨l, hl, rfl⟩
      exact ⟨hrow, Nat.zero_le _, by omega⟩
    refine ((hplane t.vFirst t.uRow m fun j => ?_).trans h (hmem _) (hmem _)
      (hplane (!t.vFirst) t.vRow _ fun j => ?_)).congr ?_
    · simp only [rowPlace, hinter, if_true, Bool.false_eq_true, if_false]
    · simp only [rowPlace, hinter, Bool.false_eq_true, if_false, Bool.not_eq_eq_eq_not,
        Bool.eq_not_self]
    · ext s
      simp only [Set.mem_union, Set.mem_ofPred_eq]
      constructor
      · rintro (hs | hs)
        · exact ⟨_, hs⟩
        · exact ⟨_, hs⟩
      · rintro ⟨isV, hs⟩
        rcases Bool.eq_or_eq_not isV t.vFirst with rfl | rfl
        · exact .inl hs
        · exact .inr hs

/-- Two vectors of luma samples, and in an even row one of either kind of chroma sample. -/
theorem vectorPath2x_wrote (h : op.RowsApart t width) {index : ℕ} (heven : index % 2 = 0)
    (hi : index + 2 * 16 ≤ width) (m : ℕ → BitVec 8) :
    (op.vectorPath2x src srcRow t index m).Ensures fun m' =>
      Wrote (op.rowPlace t) (op.rowValue src srcRow) (rowPart t.evenRow index (index + 2 * 16)) m
        m' := by
  have hload : ∀ (base k : ℕ) (i lane : Fin 4), (op.loadChannel src (srcRow + op.scn * base) k i
      lane).toNat = (src (srcRow + ((base + (8 * (i / 2) + 2 * lane + i % 2)) * op.scn + k))).toNat := by
    intro base k i lane
    rw [loadChannel_toNat]
    congr 2
    ring
  have hloadInt : ∀ (base k : ℕ) (i lane : Fin 4), (op.loadChannel src (srcRow + op.scn * base) k i
      lane).toInt = (src (srcRow + ((base + (8 * (i / 2) + 2 * lane + i % 2)) * op.scn + k))).toNat := by
    intro base k i lane
    have hlt := (src (srcRow + ((base + (8 * (i / 2) + 2 * lane + i % 2)) * op.scn + k))).isLt
    rw [BitVec.toInt_eq_toNat_of_lt (by rw [hload]; omega), hload]
  have hluma : ∀ base, (rgbToYVector (op.loadChannel src (srcRow + op.scn * base) op.rIndex)
      (op.loadChannel src (srcRow + op.scn * base) 1)
      (op.loadChannel src (srcRow + op.scn * base) op.bIndex)).Ensures fun y => ∀ lane : Fin 16,
        y lane = op.lumaAt src srcRow (base + lane) := fun base =>
    rgbToYVector_ensures (fun x => src (srcRow + ((base + x) * op.scn + op.rIndex)))
      (fun x => src (srcRow + ((base + x) * op.scn + 1)))
      (fun x => src (srcRow + ((base + x) * op.scn + op.bIndex)))
      (hload base _) (hload base _) (hload base _)
  have hnext : srcRow + op.scn * index + op.scn * 16 = srcRow + op.scn * (index + 16) := by ring
  rw [vectorPath2x, hnext]
  refine (hluma index).bind fun y0 hy0 => (hluma (index + 16)).bind fun y1 hy1 => ?_
  have hmem : ∀ x, x + 16 ≤ width →
      {s | ∃ l < 16, RowSample.y (x + l) = s} ⊆ rowPart t.evenRow 0 width := by
    rintro x hx _ ⟨l, hl, rfl⟩
    exact ⟨Nat.zero_le _, by omega⟩
  have hy := (luma_wrote (t := t) hy0 m).trans h (hmem _ (by omega)) (hmem (index + 16) (by omega))
    (luma_wrote hy1 _)
  rw [← Nat.add_assoc] at hy
  have hyMem := Set.union_subset (hmem index (by omega)) (hmem (index + 16) (by omega))
  cases hrow : t.evenRow with
  | false =>
    refine .pure (hy.congr ?_)
    ext (x | ⟨isV, j⟩)
    · simp only [rowPart, Set.mem_union, Set.mem_ofPred_eq, RowSample.y.injEq]
      constructor
      · rintro (⟨l, hl, rfl⟩ | ⟨l, hl, rfl⟩) <;> omega
      · rintro ⟨h1, h2⟩
        rcases Nat.lt_or_ge x (index + 16) with hlt | hge
        · exact .inl ⟨x - index, by omega, by omega⟩
        · exact .inr ⟨x - (index + 16), by omega, by omega⟩
    · simp [rowPart]
  | true =>
    have hevens : ∀ k i lane, (evenChannel (op.loadChannel src (srcRow + op.scn * index) k)
        (op.loadChannel src (srcRow + op.scn * (index + 16)) k) i lane).toInt =
        (src (srcRow + ((index + 2 * (4 * i.val + lane.val)) * op.scn + k))).toNat := by
      intro k i lane
      fin_cases i
      · refine (hloadInt index k 0 lane).trans ?_
        simp
      · refine (hloadInt index k 2 lane).trans ?_
        simp only [Fin.isValue, Fin.val_two]
        congr 5
        simp
        omega
      · refine (hloadInt (index + 16) k 0 lane).trans ?_
        congr 5
        simp
        omega
      · refine (hloadInt (index + 16) k 2 lane).trans ?_
        congr 5
        simp
        omega
    have hchroma : ∀ {rWeight gWeight bWeight : ℤ}, IsChroma rWeight gWeight bWeight →
        (computeUOrV2x rWeight gWeight bWeight
          (evenChannel (op.loadChannel src (srcRow + op.scn * index) op.rIndex)
            (op.loadChannel src (srcRow + op.scn * (index + 16)) op.rIndex))
          (evenChannel (op.loadChannel src (srcRow + op.scn * index) 1)
            (op.loadChannel src (srcRow + op.scn * (index + 16)) 1))
          (evenChannel (op.loadChannel src (srcRow + op.scn * index) op.bIndex)
            (op.loadChannel src (srcRow + op.scn * (index + 16)) op.bIndex))).Ensures
          fun uv => ∀ lane : Fin 16, uv lane = saturatingCast (chromaSum rWeight gWeight bWeight
            (src (srcRow + ((index + 2 * lane) * op.scn + op.rIndex)))
            (src (srcRow + ((index + 2 * lane) * op.scn + 1)))
            (src (srcRow + ((index + 2 * lane) * op.scn + op.bIndex)))) := fun hw =>
      computeUOrV2x_ensures (fun x => src (srcRow + ((index + 2 * x) * op.scn + op.rIndex)))
        (fun x => src (srcRow + ((index + 2 * x) * op.scn + 1)))
        (fun x => src (srcRow + ((index + 2 * x) * op.scn + op.bIndex))) hw
        (hevens op.rIndex) (hevens 1) (hevens op.bIndex)
    refine (hchroma (.inl ⟨rfl, rfl, rfl⟩)).bind fun u hu => ?_
    refine (hchroma (.inr ⟨rfl, rfl, rfl⟩)).bind fun v hv => ?_
    have hkind : ∀ isV : Bool, ∀ lane : Fin 16, (if isV then v else u) lane =
        op.chromaAt src srcRow isV (index + 2 * lane) := by
      intro isV lane
      cases isV with
      | false => exact hu lane
      | true => exact hv lane
    have huvMem : {s | ∃ isV, ∃ l < 16, RowSample.chroma isV (index / 2 + l) = s} ⊆
        rowPart t.evenRow 0 width := by
      rintro _ ⟨isV, l, hl, rfl⟩
      exact ⟨hrow, Nat.zero_le _, by omega⟩
    have hset : {s | ∃ l < 16, RowSample.y (index + l) = s} ∪
        {s | ∃ l < 16, RowSample.y (index + 16 + l) = s} ∪
        {s | ∃ isV, ∃ l < 16, RowSample.chroma isV (index / 2 + l) = s} =
        rowPart true index (index + 2 * 16) := by
      ext (x | ⟨isV, j⟩)
      · simp only [rowPart, Set.mem_union, Set.mem_ofPred_eq, RowSample.y.injEq, reduceCtorEq,
          and_false, exists_false, or_false]
        constructor
        · rintro (⟨l, hl, rfl⟩ | ⟨l, hl, rfl⟩) <;> omega
        · rintro ⟨h1, h2⟩
          rcases Nat.lt_or_ge x (index + 16) with hlt | hge
          · exact .inl ⟨x - index, by omega, by omega⟩
          · exact .inr ⟨x - (index + 16), by omega, by omega⟩
      · simp only [rowPart, Set.mem_union, Set.mem_ofPred_eq, RowSample.chroma.injEq, reduceCtorEq,
          and_false, exists_false, false_or, true_and]
        constructor
        · rintro ⟨_, l, hl, rfl, rfl⟩
          omega
        · rintro ⟨h1, h2⟩
          exact ⟨isV, j - index / 2, by omega, rfl, by omega⟩
    have huv := fun m => chroma_wrote h hrow heven hi hkind m
    have hstore := (hy.trans h hyMem huvMem (huv _)).congr hset
    cases hf : t.vFirst <;> cases hinter : op.kInterleave <;>
      (rw [hf, hinter] at hstore; exact .pure hstore)

/-- A chroma sample of either kind. -/
theorem chroma_updated (h : op.RowsApart t width) (hrow : t.evenRow = true) {uv : Bool → BitVec 8}
    {index : ℕ} (heven : index % 2 = 0) (hi : index < width)
    (huv : ∀ isV, uv isV = op.chromaAt src srcRow isV index) (m : ℕ → BitVec 8) :
    Wrote (op.rowPlace t) (op.rowValue src srcRow) {s | ∃ isV, RowSample.chroma isV (index / 2) = s}
      m (if op.kInterleave then
          Function.update (Function.update m (t.uRow + index) (uv t.vFirst)) (t.uRow + (index + 1))
            (uv !t.vFirst)
        else Function.update (Function.update m (t.uRow + (index + 1) / 2) (uv t.vFirst))
          (t.vRow + (index + 1) / 2) (uv !t.vFirst)) := by
  have hvalue : ∀ isV, uv isV = op.rowValue src srcRow (.chroma isV (index / 2)) := by
    intro isV
    rw [huv, rowValue, show 2 * (index / 2) = index by omega]
  have hmem : ∀ isV, {RowSample.chroma isV (index / 2)} ⊆ rowPart t.evenRow 0 width := by
    rintro isV _ rfl
    exact ⟨hrow, Nat.zero_le _, by omega⟩
  have hset : ({RowSample.chroma t.vFirst (index / 2)} ∪ {RowSample.chroma (!t.vFirst) (index / 2)} :
      Set RowSample) = {s | ∃ isV, RowSample.chroma isV (index / 2) = s} := by
    ext s
    simp only [Set.mem_union, Set.mem_singleton_iff, Set.mem_ofPred_eq]
    constructor
    · rintro (rfl | rfl)
      · exact ⟨_, rfl⟩
      · exact ⟨_, rfl⟩
    · rintro ⟨isV, rfl⟩
      rcases Bool.eq_or_eq_not isV t.vFirst with rfl | rfl
      · exact .inl rfl
      · exact .inr rfl
  have hhalf : (index + 1) / 2 = index / 2 := by omega
  rw [← hset, hvalue, hvalue, hhalf]
  cases hinter : op.kInterleave with
  | true =>
    rw [if_pos rfl]
    refine (Wrote.update m ?_).trans h (hmem _) (hmem _) (Wrote.update _ ?_)
    · simp only [rowPlace, hinter, if_true]
      omega
    · simp only [rowPlace, hinter, if_true, Bool.not_eq_eq_eq_not, Bool.eq_not_self, if_false]
      omega
  | false =>
    rw [if_neg Bool.false_ne_true]
    refine (Wrote.update m ?_).trans h (hmem _) (hmem _) (Wrote.update _ ?_)
    · simp only [rowPlace, hinter, if_true, Bool.false_eq_true, if_false]
    · simp only [rowPlace, hinter, Bool.false_eq_true, if_false, Bool.not_eq_eq_eq_not,
        Bool.eq_not_self]

/-- One column, in single pixels. -/
theorem scalarColumn_wrote (h : op.RowsApart t width) {index : ℕ} (hi : index < width)
    (m : ℕ → BitVec 8) :
    (op.scalarColumn src srcRow t index m).Ensures fun m' =>
      Wrote (op.rowPlace t) (op.rowValue src srcRow) (rowPart t.evenRow index (index + 1)) m m' := by
  refine (rgbToY_ensures _ _ _).bind fun y hy => ?_
  have hluma : Wrote (op.rowPlace t) (op.rowValue src srcRow) {RowSample.y index} m
      (Function.update m (t.yRow + index) y) := by
    rw [hy]
    exact Wrote.update m rfl
  have hlumaMem : {RowSample.y index} ⊆ rowPart t.evenRow 0 width := by
    rintro _ rfl
    exact ⟨Nat.zero_le _, hi⟩
  by_cases hblock : t.evenRow = true ∧ index % 2 = 0
  · obtain ⟨hrow, heven⟩ := hblock
    have hdue : (t.evenRow && index % 2 == 0) = true := by
      rw [hrow, heven]
      rfl
    rw [hdue, if_pos rfl]
    refine (rgbToUOrV_ensures (.inl ⟨rfl, rfl, rfl⟩) _ _ _).bind fun u hu => ?_
    refine (rgbToUOrV_ensures (.inr ⟨rfl, rfl, rfl⟩) _ _ _).bind fun v hv => ?_
    have hkind : ∀ isV : Bool, (if isV then v else u) = op.chromaAt src srcRow isV index := by
      intro isV
      cases isV with
      | false => exact hu
      | true => exact hv
    have hchromaMem : {s | ∃ isV, RowSample.chroma isV (index / 2) = s} ⊆
        rowPart t.evenRow 0 width := by
      rintro _ ⟨isV, rfl⟩
      exact ⟨hrow, Nat.zero_le _, by omega⟩
    have hset : {RowSample.y index} ∪ {s | ∃ isV, RowSample.chroma isV (index / 2) = s} =
        rowPart t.evenRow index (index + 1) := by
      ext (x | ⟨isV, j⟩)
      · simp only [rowPart, Set.mem_union, Set.mem_singleton_iff, RowSample.y.injEq,
          Set.mem_ofPred_eq, reduceCtorEq, exists_false, or_false]
        omega
      · simp only [rowPart, Set.mem_union, Set.mem_singleton_iff, RowSample.chroma.injEq,
          Set.mem_ofPred_eq, reduceCtorEq, false_or]
        constructor
        · rintro ⟨_, rfl, rfl⟩
          exact ⟨hrow, by omega, by omega⟩
        · rintro ⟨-, h1, h2⟩
          exact ⟨isV, rfl, by omega⟩
    have huv := fun m => chroma_updated h hrow heven hi hkind m
    have hstore := (hluma.trans h hlumaMem hchromaMem (huv _)).congr hset
    cases hf : t.vFirst <;> cases hinter : op.kInterleave <;>
      (rw [hf, hinter] at hstore; exact .pure hstore)
  · have hskip : (t.evenRow && index % 2 == 0) = false := by
      rw [← Bool.not_eq_true, Bool.and_eq_true, beq_iff_eq]
      exact hblock
    rw [hskip, if_neg Bool.false_ne_true]
    refine .pure (hluma.congr ?_)
    ext (x | ⟨isV, j⟩)
    · simp only [rowPart, Set.mem_singleton_iff, RowSample.y.injEq, Set.mem_ofPred_eq]
      omega
    · simp only [rowPart, Set.mem_singleton_iff, reduceCtorEq, Set.mem_ofPred_eq, false_iff]
      rintro ⟨hrow, h1, h2⟩
      exact hblock ⟨hrow, by omega⟩

/-- The rest of a row, in single pixels. -/
theorem scalarPath_wrote (h : op.RowsApart t width) {index : ℕ} (hi : index ≤ width)
    {done : Set RowSample} (hdone : done ⊆ rowPart t.evenRow 0 width) {m : ℕ → BitVec 8}
    {s : Tracked (ℕ → BitVec 8)}
    (hs : s.Ensures fun m' => Wrote (op.rowPlace t) (op.rowValue src srcRow) done m m') :
    (op.scalarPath src srcRow t index width s).Ensures fun m' =>
      Wrote (op.rowPlace t) (op.rowValue src srcRow) (done ∪ rowPart t.evenRow index width) m m' := by
  have hloop : (op.scalarPath src srcRow t index width s).Ensures fun m' =>
      Wrote (op.rowPlace t) (op.rowValue src srcRow)
        (done ∪ rowPart t.evenRow index (index + (width - index))) m m' := by
    refine forFrom_invariant (fun i (s : Tracked (ℕ → BitVec 8)) => s.Ensures fun m' =>
      Wrote (op.rowPlace t) (op.rowValue src srcRow) (done ∪ rowPart t.evenRow index i) m m') ?_ ?_
    · refine hs.imp fun m' h' => h'.congr ?_
      rw [Set.eq_empty_of_forall_notMem (not_mem_rowPart t.evenRow index), Set.union_empty]
    · intro i h1 h2 s hs
      refine hs.bind fun m' h' => (scalarColumn_wrote h (by omega) m').imp fun m'' h'' => ?_
      rw [← rowPart_append h1 (Nat.le_succ i), ← Set.union_assoc]
      exact h'.trans h (Set.union_subset hdone (rowPart_subset (by omega)))
        (rowPart_subset (by omega)) h''
  rwa [Nat.add_sub_cancel' hi] at hloop

variable (src srcRow) in
/-- **A row**, with vectors or without them. -/
theorem row_ensures (h : op.RowsApart t width) (m : ℕ → BitVec 8) :
    ((op.processRow src srcRow t width (pure m)).Ensures fun m' =>
      Wrote (op.rowPlace t) (op.rowValue src srcRow) (rowPart t.evenRow 0 width) m m') ∧
    (op.scalarRow src srcRow t width (pure m)).Ensures fun m' =>
      Wrote (op.rowPlace t) (op.rowValue src srcRow) (rowPart t.evenRow 0 width) m m' := by
  have hnone : (pure m : Tracked (ℕ → BitVec 8)).Ensures fun m' =>
      Wrote (op.rowPlace t) (op.rowValue src srcRow) (rowPart t.evenRow 0 0) m m' :=
    .pure (Wrote.refl_of_empty m (not_mem_rowPart t.evenRow 0))
  constructor
  · -- The first call of the tail finds an even number of columns done, and does the rest.
    let part i (s : Tracked (ℕ → BitVec 8)) := s.Ensures fun m' =>
      Wrote (op.rowPlace t) (op.rowValue src srcRow) (rowPart t.evenRow 0 i) m m'
    have hloop : (width % 2 = 0 ∧ part width (op.processRow src srcRow t width (pure m))) ∨
        part width (op.processRow src srcRow t width (pure m)) := by
      refine unrollTwice_tail_avoidingTail (fun i s => i % 2 = 0 ∧ part i s)
        (fun i s => (i % 2 = 0 ∧ part i s) ∨ part width s) ⟨rfl, hnone⟩ ?_
        (fun i s hs => .inl hs) ?_
      · rintro i s hi ⟨heven, hs⟩
        refine ⟨by omega, hs.bind fun m' h' => ?_⟩
        refine (vectorPath2x_wrote h heven hi m').imp fun m'' h'' => ?_
        rw [← rowPart_append (Nat.zero_le i) (Nat.le_add_right i (2 * 16))]
        exact h'.trans h (rowPart_subset (by omega)) (rowPart_subset hi) h''
      · rintro i s hi hs
        right
        rcases hs with ⟨-, hs⟩ | hs
        · refine (scalarPath_wrote h hi.le (rowPart_subset hi.le) hs).imp fun m' h' => ?_
          rwa [rowPart_append (Nat.zero_le i) hi.le] at h'
        · refine (scalarPath_wrote h hi.le subset_rfl hs).imp fun m' h' => h'.congr ?_
          rw [← rowPart_append (Nat.zero_le i) hi.le, Set.union_assoc, Set.union_self]
    exact hloop.elim And.right id
  · refine (scalarPath_wrote h (Nat.zero_le width) (rowPart_subset (Nat.zero_le _)) hnone).imp
      fun m' h' => ?_
    rwa [rowPart_append le_rfl (Nat.zero_le width)] at h'

/-- The bytes of two planes that follow each other in packed rows. -/
theorem packed_lt {stride half r r' j j' : ℕ} (hstride : 2 * half ≤ stride) (hr : r < r')
    (hj : j < half) : stride * (r / 2) + r % 2 * half + j < stride * (r' / 2) + r' % 2 * half + j' := by
  rcases (Nat.div_le_div_right hr.le : r / 2 ≤ r' / 2).eq_or_lt with heq | hlt
  · have hfirst : r % 2 = 0 := by omega
    have hsecond : r' % 2 = 1 := by omega
    rw [heq, hfirst, hsecond]
    omega
  · have hfit := Nat.mul_le_mul_left stride (Nat.succ_le_of_lt hlt)
    have hpart : r % 2 * half ≤ 1 * half := Nat.mul_le_mul_right half (by omega)
    rw [Nat.mul_succ] at hfit
    omega

/-- Planar rows lie apart, the chroma planes being right after the luma plane. -/
theorem rowsApart_planar (hplanar : op.kInterleave = false) {c : Call}
    (huv : c.uvDst = c.yDst + c.yStride * c.height) (hy : c.width ≤ c.yStride)
    (hstride : 2 * ((c.width + 1) / 2) ≤ c.uvStride) {h : ℕ} (hh : h < c.height) :
    op.RowsApart (op.target c h) c.width := by
  have hplace : ∀ isV j, op.rowPlace (op.target c h) (.chroma isV j) = c.uvDst +
      (c.uvStride * ((if isV = c.vFirst then h / 2 else (h + c.height + 1) / 2) / 2) +
        (if isV = c.vFirst then h / 2 else (h + c.height + 1) / 2) % 2 * ((c.width + 1) / 2) +
          j) := by
    intro isV j
    simp only [rowPlace, target, RgbxOrBgrxToYuv420.vRow, hplanar, Bool.false_eq_true, if_false]
    split
    · rw [show h / 2 / 2 = h / 4 by omega]
      omega
    · rw [show (h + c.height + 1) / 2 / 2 = (h + c.height + 1) / 4 by omega]
      omega
  have hfit := Nat.mul_le_mul_left c.yStride (Nat.succ_le_of_lt hh)
  rw [Nat.mul_succ] at hfit
  have hafter : ∀ x isV j, x < c.width →
      op.rowPlace (op.target c h) (.y x) < op.rowPlace (op.target c h) (.chroma isV j) := by
    intro x isV j hx
    rw [hplace, rowPlace, target]
    dsimp only
    omega
  rintro (x | ⟨isV, j⟩) hs (x' | ⟨isV', j'⟩) hs' heq
  · exact congrArg _ (Nat.add_left_cancel heq)
  · exact absurd heq (hafter x isV' j' hs.2).ne
  · exact absurd heq (hafter x' isV j hs'.2).ne'
  · have hj : j < (c.width + 1) / 2 := by have := hs.2.2; omega
    have hj' : j' < (c.width + 1) / 2 := by have := hs'.2.2; omega
    have hrows : h / 2 < (h + c.height + 1) / 2 := by omega
    rw [hplace, hplace, Nat.add_left_cancel_iff] at heq
    rcases Bool.eq_or_eq_not isV isV' with rfl | rfl
    · rw [Nat.add_left_cancel heq]
    · rcases Bool.eq_or_eq_not isV' c.vFirst with rfl | rfl
      · rw [if_neg (Bool.not_ne_self _), if_pos rfl] at heq
        exact absurd heq (packed_lt hstride hrows hj').ne'
      · rw [Bool.not_not, if_pos rfl, if_neg (Bool.not_ne_self _)] at heq
        exact absurd heq (packed_lt hstride hrows hj).ne

/-- Interleaved rows lie apart if the luma row is not in the chroma row. -/
theorem rowsApart_interleaved (hinter : op.kInterleave = true) {t : Target} {width : ℕ}
    (hapart : ∀ x < width, ∀ k < 2 * ((width + 1) / 2), t.yRow + x ≠ t.uRow + k) :
    op.RowsApart t width := by
  have hplace : ∀ isV j, op.rowPlace t (.chroma isV j) =
      t.uRow + (2 * j + if isV = t.vFirst then 0 else 1) := fun isV j => if_pos hinter
  have hbyte : ∀ isV : Bool, (if isV = t.vFirst then 0 else 1) < 2 := by
    intro isV
    split <;> decide
  rintro (x | ⟨isV, j⟩) hs (x' | ⟨isV', j'⟩) hs' heq
  · exact congrArg _ (Nat.add_left_cancel heq)
  · have := hbyte isV'
    exact absurd (heq.trans (hplace isV' j')) (hapart x hs.2 _ (by have := hs'.2.2; omega))
  · have := hbyte isV
    exact absurd (heq.symm.trans (hplace isV j)) (hapart x' hs'.2 _ (by have := hs.2.2; omega))
  · rw [hplace, hplace, Nat.add_left_cancel_iff] at heq
    have := hbyte isV
    have := hbyte isV'
    obtain rfl : j = j' := by omega
    have hkind := Nat.add_left_cancel heq
    rcases Bool.eq_or_eq_not isV isV' with rfl | rfl
    · rfl
    · rcases Bool.eq_or_eq_not isV' t.vFirst with rfl | rfl <;> simp at hkind

end

/-- **A stripe**, with vectors or without them. -/
theorem rgb2yuv420Operation_eq (src : ℕ → BitVec 8) (c : Call)
    (h : ∀ row < c.height, op.RowsApart (op.target c row) c.width) (begin_ end_ : ℕ)
    (m : ℕ → BitVec 8) :
    ∃ m', op.rgb2yuv420Operation (op.processRow src) c begin_ end_ (pure m) = pure m' ∧
      op.rgb2yuv420Operation (op.scalarRow src) c begin_ end_ (pure m) = pure m' := by
  refine forRange_rel (fun _ s t => ∃ m', s = pure m' ∧ t = pure m') ⟨m, rfl, rfl⟩ ?_
  rintro i hi s t ⟨m', rfl, rfl⟩
  have hrow : begin_ * 2 + i < c.height := by omega
  obtain ⟨hvector, hscalar⟩ := row_ensures src
    (c.srcPtr + c.srcStride * (begin_ * 2 + i)) (h _ hrow) m'
  refine ⟨_, Tracked.Ensures.eq_pure ⟨hvector.1, rfl⟩, Tracked.Ensures.eq_pure ⟨hscalar.1, ?_⟩⟩
  exact hscalar.2.eq_of hvector.2

end RgbToYuv420Lanes

/-! ### All conversions -/

/-- **Vectors and single pixels convert alike**, and what is not saturated in a vector is a byte. -/
theorem yuv_paths_agree :
    (∀ (op : RgbToYuv420Lanes) (src : ℕ → BitVec 8) (c : RgbToYuv420Lanes.Call),
      (∀ row < c.height, op.RowsApart (op.target c row) c.width) → ∀ begin_ end_ m, ∃ m',
        op.rgb2yuv420Operation (op.processRow src) c begin_ end_ (pure m) = pure m' ∧
          op.rgb2yuv420Operation (op.scalarRow src) c begin_ end_ (pure m) = pure m') ∧
    (∀ (op : RgbxOrBgrxToYuv422) (src : ℕ → BitVec 8) (srcPtr srcStride dst dstStride width : ℕ),
      width % 2 = 0 → ∀ height m, ∃ m',
        RgbxOrBgrxToYuv422.rgbx2yuv422Operation (op.processRow src) srcPtr srcStride dst dstStride
            width height (pure m) = pure m' ∧
          RgbxOrBgrxToYuv422.rgbx2yuv422Operation (op.scalarRow src) srcPtr srcStride dst dstStride
            width height (pure m) = pure m') ∧
    (∀ (op : Yuv422ToRgbxOrBgrx) (src : ℕ → BitVec 8) (srcPtr srcStride dst dstStride width : ℕ),
      width % 2 = 0 → ∀ height m, ∃ m',
        Yuv422ToRgbxOrBgrx.yuv2rgbxOperation (op.processRow src) srcPtr srcStride dst dstStride
            width height (pure m) = pure m' ∧
          Yuv422ToRgbxOrBgrx.yuv2rgbxOperation (op.scalarRow src) srcPtr srcStride dst dstStride
            width height (pure m) = pure m') ∧
    (∀ (op : RgbToYuvAll) (src : ℕ → BitVec 8) b width height m, ∃ m',
      op.paths.applyOperationByRows src b width height (pure m) = pure m' ∧
        op.paths.applyScalarPath src b width height (pure m) = pure m') ∧
    (∀ (op : YuvToRgbAll) (src : ℕ → BitVec 8) b width height m, ∃ m',
      op.paths.applyOperationByRows src b width height (pure m) = pure m' ∧
        op.paths.applyScalarPath src b width height (pure m) = pure m') ∧
    (∀ r g b : BitVec 8, 0 ≤ RgbToYuv420Lanes.lumaSum r g b ∧ RgbToYuv420Lanes.lumaSum r g b ≤ 255) ∧
    (∀ rWeight gWeight bWeight, RgbToYuv420Lanes.IsChroma rWeight gWeight bWeight →
      ∀ r g b : BitVec 8, 0 ≤ RgbToYuv420Lanes.chromaSum rWeight gWeight bWeight r g b ∧
        RgbToYuv420Lanes.chromaSum rWeight gWeight bWeight r g b ≤ 255) ∧
    (∀ r g b : BitVec 8, 0 ≤ RgbxOrBgrxToYuv422.lumaSum r g b ∧
      RgbxOrBgrxToYuv422.lumaSum r g b ≤ 255) ∧
    (∀ rWeight gWeight bWeight, RgbxOrBgrxToYuv422.IsChroma rWeight gWeight bWeight →
      ∀ r g b : ℤ, 0 ≤ r ∧ r ≤ 510 → 0 ≤ g ∧ g ≤ 510 → 0 ≤ b ∧ b ≤ 510 →
        0 ≤ RgbxOrBgrxToYuv422.chromaSum rWeight gWeight bWeight r g b ∧
          RgbxOrBgrxToYuv422.chromaSum rWeight gWeight bWeight r g b ≤ 255) := by
  refine ⟨fun op src c h begin_ end_ m => op.rgb2yuv420Operation_eq src c h begin_ end_ m,
    fun op src srcPtr srcStride dst dstStride width hwidth height m =>
      op.rgbx2yuv422Operation_eq src srcPtr srcStride dst dstStride hwidth height m,
    fun op src srcPtr srcStride dst dstStride width hwidth height m =>
      op.yuv2rgbxOperation_eq src srcPtr srcStride dst dstStride hwidth height m,
    fun op src b width height m => (op.stores src).image width height m,
    fun op src b width height m => (op.stores src).image width height m,
    RgbToYuv420Lanes.lumaSum_bounds,
    fun _ _ _ hw r g b => RgbToYuv420Lanes.chromaSum_bounds hw r g b,
    RgbxOrBgrxToYuv422.lumaSum_bounds,
    fun _ _ _ hw _ _ _ hr hg hb => RgbxOrBgrxToYuv422.chromaSum_bounds hw hr hg hb⟩

/-- Blocks of two by two, in three planes. -/
theorem yuv_paths_agree_two_columns : ∀ src m : ℕ → BitVec 8,
    let op : RgbToYuv420Lanes := ⟨false, true, false⟩
    let c : RgbToYuv420Lanes.Call := ⟨0, 6, 0, 2, 4, 2, 2, 2, false⟩
    let op' : RgbxOrBgrxToYuv422 := ⟨false, .yuyv, false⟩
    (∃ m', op.rgb2yuv420Operation (op.processRow src) c 0 1 (pure m) = pure m' ∧
      op.rgb2yuv420Operation (op.scalarRow src) c 0 1 (pure m) = pure m') ∧
    (∃ m', RgbxOrBgrxToYuv422.rgbx2yuv422Operation (op'.processRow src) 0 6 0 4 2 2 (pure m) = pure m' ∧
      RgbxOrBgrxToYuv422.rgbx2yuv422Operation (op'.scalarRow src) 0 6 0 4 2 2 (pure m) = pure m') := by
  intro src m op c op'
  have hrows : ∀ row < c.height, op.RowsApart (op.target c row) c.width := fun row hrow =>
    op.rowsApart_planar rfl rfl (by decide) (by decide) hrow
  exact ⟨yuv_paths_agree.1 op src c hrows 0 1 m, yuv_paths_agree.2.1 op' src 0 6 0 4 2 rfl 2 m⟩

end KleidiCV
