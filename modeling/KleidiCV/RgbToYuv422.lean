/-
From RGB to YUV422, `rgb_to_yuv422_neon.cpp`.

Two pixels share their chroma samples, which are those of their mean.  The vector path takes 16
pairs at a time and narrows its sums to bytes without saturating them; the scalar path saturates.

* `lumaSum_bounds`, `chromaSum_bounds` — there is nothing to saturate;
* `vectorPath_ensures`, `scalarPath_ensures` — both paths store the same bytes;
* `rgbx2yuv422Operation_eq` — whole images.
-/
import KleidiCV.LoopUnroll2
import KleidiCV.YuvLanes

open Loop

namespace KleidiCV

open YuvLanes
open GaussianBlur (vcombine_cases)
open ResizeToQuarter (vreinterpretqU16U8 vreinterpretqU8U16)

/-- The order of the four bytes of two pixels. -/
inductive Yuv422Order
  | yuyv
  | uyvy
  | yvyu

namespace Yuv422Order

/-- `u_idx`. -/
def uIdx : Yuv422Order → ℕ
  | yuyv => 1
  | uyvy => 0
  | yvyu => 3

/-- `y_idx`. -/
def yIdx : Yuv422Order → ℕ
  | yuyv => 0
  | uyvy => 1
  | yvyu => 0

/-- `v_idx`. -/
def vIdx (order : Yuv422Order) : ℕ := (order.uIdx + 2) % 4

end Yuv422Order

/-- `RGBxOrBGRxToYUV422<b_idx, u_idx, y_idx, scn>`. -/
structure RgbxOrBgrxToYuv422 where
  bgr : Bool
  order : Yuv422Order
  alpha : Bool

namespace RgbxOrBgrxToYuv422

/-- `kWeightScale`. -/
abbrev kWeightScale : ℕ := 14

/-- `KR2Y422Weight`, `KG2Y422Weight` and `KB2Y422Weight`. -/
def r2yWeight : ℤ := 4211

def g2yWeight : ℤ := 8258

def b2yWeight : ℤ := 1606

/-- `KR2U422Weight`, `KG2U422Weight` and `KB2U422Weight`. -/
def r2uWeight : ℤ := -1212

def g2uWeight : ℤ := -2384

def b2uWeight : ℤ := 3596

/-- `KG2V422Weight` and `KB2V422Weight`. -/
def g2vWeight : ℤ := -3015

def b2vWeight : ℤ := -582

variable (op : RgbxOrBgrxToYuv422)

def bIdx : ℕ := if op.bgr then 0 else 2

def rIdx : ℕ := 2 - op.bIdx

def scn : ℕ := if op.alpha then 4 else 3

/-! ### The vector path -/

/-- `index_even`. -/
def indexEven : Fin 16 → ℕ :=
  ![0, 0xff, 2, 0xff, 4, 0xff, 6, 0xff, 8, 0xff, 10, 0xff, 12, 0xff, 14, 0xff]

/-- `index_odd`. -/
def indexOdd : Fin 16 → ℕ :=
  ![1, 0xff, 3, 0xff, 5, 0xff, 7, 0xff, 9, 0xff, 11, 0xff, 13, 0xff, 15, 0xff]

/-- The table of `normalize_and_pack`. -/
def indexLow : Fin 16 → ℕ := ![0, 2, 4, 6, 8, 10, 12, 14, 16, 18, 20, 22, 24, 26, 28, 30]

/-- Every other pixel of a channel, in halfwords. -/
def select (index : Fin 16 → ℕ) (v : Fin 16 → BitVec 8) : Fin (2 * 4) → BitVec 16 :=
  vreinterpretqU16U8 (vqtblU8 v index : Fin (2 * (2 * 4)) → BitVec 8)

/-- `normalize_and_pack`: the lower bytes of the halfwords. -/
def normalizeAndPack (vec0 vec1 vec2 vec3 : Fin 4 → BitVec 32) : Fin 16 → BitVec 8 :=
  let tmpLo : Fin (2 * 4) → BitVec 16 :=
    vcombine (vqshrunNS32 kWeightScale vec0) (vqshrunNS32 kWeightScale vec1)
  let tmpHi : Fin (2 * 4) → BitVec 16 :=
    vcombine (vqshrunNS32 kWeightScale vec2) (vqshrunNS32 kWeightScale vec3)
  let tmp : Fin (2 * (2 * (2 * 4))) → BitVec 8 :=
    vcombine (vreinterpretqU8U16 tmpLo) (vreinterpretqU8U16 tmpHi)
  vqtblU8 tmp indexLow

/-- `acc_lo[i]` or `acc_hi[i]`. -/
def accumulate (r g b : Fin 4 → BitVec 16) (rCoeff gCoeff bCoeff fixed : ℤ) :
    Tracked (Fin 4 → BitVec 32) := do
  let bias ← vdupqNS32 fixed
  let acc ← vmlaN bias r rCoeff
  let acc ← vmlaN acc g gCoeff
  let tmp ← vmulN 32 b bCoeff
  vaddqS acc tmp

/-- `compute_weighted_channel_422`. -/
def computeWeightedChannel422 (r g b : Fin 2 → Fin (2 * 4) → BitVec 16)
    (rCoeff gCoeff bCoeff fixed : ℤ) : Tracked (Fin 16 → BitVec 8) := do
  let accLo0 ← accumulate (vgetLow (r 0)) (vgetLow (g 0)) (vgetLow (b 0)) rCoeff gCoeff bCoeff fixed
  let accLo1 ← accumulate (vgetLow (r 1)) (vgetLow (g 1)) (vgetLow (b 1)) rCoeff gCoeff bCoeff fixed
  let accHi0 ←
    accumulate (vgetHigh (r 0)) (vgetHigh (g 0)) (vgetHigh (b 0)) rCoeff gCoeff bCoeff fixed
  let accHi1 ←
    accumulate (vgetHigh (r 1)) (vgetHigh (g 1)) (vgetHigh (b 1)) rCoeff gCoeff bCoeff fixed
  pure (normalizeAndPack accLo0 accHi0 accLo1 accHi1)

/-- `r_avg`, `g_avg` or `b_avg`. -/
def average (even odd : Fin 2 → Fin (2 * 4) → BitVec 16) :
    Tracked (Fin 2 → Fin (2 * 4) → BitVec 16) := do
  let avg0 ← vaddqS (even 0) (odd 0)
  let avg1 ← vaddqS (even 1) (odd 1)
  pure ![avg0, avg1]

/-- `y_base`. -/
def yBase : ℤ := 2 ^ (kWeightScale - 1) + 2 ^ kWeightScale * 16

/-- `uv_bias`. -/
def uvBias : ℤ := 2 ^ (kWeightScale - 1) + 2 ^ (kWeightScale - 1) * 256

/-- The callback of `unroll_twice`, with `rgb_to_yuv422` for vectors. -/
def vectorPath (src : ℕ → BitVec 8) (srcPtr dstPtr : ℕ) (m : ℕ → BitVec 8) :
    Tracked (ℕ → BitVec 8) := do
  let channel (k : ℕ) (i : Fin 2) : Fin 16 → BitVec 8 :=
    vldInterleaved op.scn src (srcPtr + 16 * op.scn * i) k
  let even (k : ℕ) (i : Fin 2) := select indexEven (channel k i)
  let odd (k : ℕ) (i : Fin 2) := select indexOdd (channel k i)
  let y1 ← computeWeightedChannel422 (even op.rIdx) (even 1) (even op.bIdx) r2yWeight g2yWeight
    b2yWeight yBase
  let y2 ← computeWeightedChannel422 (odd op.rIdx) (odd 1) (odd op.bIdx) r2yWeight g2yWeight
    b2yWeight yBase
  let rAvg ← average (even op.rIdx) (odd op.rIdx)
  let gAvg ← average (even 1) (odd 1)
  let bAvg ← average (even op.bIdx) (odd op.bIdx)
  let u ← computeWeightedChannel422 rAvg gAvg bAvg r2uWeight g2uWeight b2uWeight uvBias
  let v ← computeWeightedChannel422 rAvg gAvg bAvg b2uWeight g2vWeight b2vWeight uvBias
  pure (vstInterleaved 4 (fun k => if k = op.order.uIdx then u else if k = op.order.vIdx then v
    else if k = op.order.yIdx then y1 else y2) dstPtr m)

/-! ### The scalar path -/

/-- `compute_y`. -/
def computeY (r g b : BitVec 8) : Tracked (BitVec 8) := do
  let sum ← weighRgb r.toNat r2yWeight g.toNat g2yWeight b.toNat b2yWeight
  let y ← int32 (sum + 2 ^ kWeightScale * 16)
  let y ← int32 (2 ^ (kWeightScale - 1) + y)
  pure (Yuv420.saturatingCast (y / 2 ^ kWeightScale))

/-- One of the two samples of `compute_uv`. -/
def computeChroma (sr sg sb rWeight gWeight bWeight : ℤ) : Tracked (BitVec 8) := do
  let sum ← weighRgb sr rWeight sg gWeight sb bWeight
  let c ← int32 (sum + 2 ^ (kWeightScale - 1) * 256)
  let c ← int32 (2 ^ (kWeightScale - 1) + c)
  pure (Yuv420.saturatingCast (c / 2 ^ kWeightScale))

/-- The body of the loop of `remaining`, with `rgb_to_yuv422` for two pixels. -/
def scalarPath (src : ℕ → BitVec 8) (srcPtr dstPtr : ℕ) (m : ℕ → BitVec 8) :
    Tracked (ℕ → BitVec 8) := do
  let r1 := src (srcPtr + op.rIdx)
  let g1 := src (srcPtr + 1)
  let b1 := src (srcPtr + op.bIdx)
  let r2 := src (srcPtr + op.scn + op.rIdx)
  let g2 := src (srcPtr + op.scn + 1)
  let b2 := src (srcPtr + op.scn + op.bIdx)
  let y0 ← computeY r1 g1 b1
  let y1 ← computeY r2 g2 b2
  let sr ← int32 (r1.toNat + r2.toNat)
  let sg ← int32 (g1.toNat + g2.toNat)
  let sb ← int32 (b1.toNat + b2.toNat)
  let u ← computeChroma sr sg sb r2uWeight g2uWeight b2uWeight
  let v ← computeChroma sr sg sb b2uWeight g2vWeight b2vWeight
  let m := Function.update m (dstPtr + op.order.yIdx) y0
  let m := Function.update m (dstPtr + (op.order.yIdx + 2)) y1
  let m := Function.update m (dstPtr + op.order.uIdx) u
  pure (Function.update m (dstPtr + op.order.vIdx) v)

/-- One row, with vectors for the first pixels. -/
def processRow (src : ℕ → BitVec 8) (srcRow dstRow width : ℕ) (s : Tracked (ℕ → BitVec 8)) :
    Tracked (ℕ → BitVec 8) :=
  ((LoopUnroll2.start width 16, s) |>
    LoopUnroll2.unrollTwice (fun index s =>
      s >>= op.vectorPath src (srcRow + index * op.scn) (dstRow + index * 2)) |>
    LoopUnroll2.remaining (fun index length => forSteps index 2 length fun index s =>
      s >>= op.scalarPath src (srcRow + index * op.scn) (dstRow + index * 2))).2

/-- One row, with the scalar path for all pixels. -/
def scalarRow (src : ℕ → BitVec 8) (srcRow dstRow width : ℕ) (s : Tracked (ℕ → BitVec 8)) :
    Tracked (ℕ → BitVec 8) :=
  forSteps 0 2 width (fun index s =>
    s >>= op.scalarPath src (srcRow + index * op.scn) (dstRow + index * 2)) s

/-- `rgbx2yuv422_operation`, for a way to process a row. -/
def rgbx2yuv422Operation (row : ℕ → ℕ → ℕ → Tracked (ℕ → BitVec 8) → Tracked (ℕ → BitVec 8))
    (srcPtr srcStride dst dstStride width height : ℕ) :
    Tracked (ℕ → BitVec 8) → Tracked (ℕ → BitVec 8) :=
  forRange height fun h => row (srcPtr + h * srcStride) (dst + dstStride * h) width

/-! ### What the paths store -/

/-- A luma sample, before it is saturated. -/
def lumaSum (r g b : BitVec 8) : ℤ :=
  (yBase + r.toNat * r2yWeight + g.toNat * g2yWeight + b.toNat * b2yWeight) / 2 ^ 14

/-- A chroma sample of two pixels, before it is saturated. -/
def chromaSum (rWeight gWeight bWeight sr sg sb : ℤ) : ℤ :=
  (uvBias + sr * rWeight + sg * gWeight + sb * bWeight) / 2 ^ 14

theorem yBase_eq : yBase = 270336 := by decide

theorem uvBias_eq : uvBias = 2105344 := by decide

/-- **Luma samples lie in 0..255.** -/
theorem lumaSum_bounds (r g b : BitVec 8) : 0 ≤ lumaSum r g b ∧ lumaSum r g b ≤ 255 := by
  have hr := r.isLt
  have hg := g.isLt
  have hb := b.isLt
  rw [lumaSum, yBase_eq, r2yWeight, g2yWeight, b2yWeight]
  omega

/-- The weights of U, or those of V. -/
def IsChroma (rWeight gWeight bWeight : ℤ) : Prop :=
  (rWeight = r2uWeight ∧ gWeight = g2uWeight ∧ bWeight = b2uWeight) ∨
    (rWeight = b2uWeight ∧ gWeight = g2vWeight ∧ bWeight = b2vWeight)

/-- **Chroma samples lie in 0..255.** -/
theorem chromaSum_bounds {rWeight gWeight bWeight sr sg sb : ℤ}
    (hw : IsChroma rWeight gWeight bWeight) (hr : 0 ≤ sr ∧ sr ≤ 510) (hg : 0 ≤ sg ∧ sg ≤ 510)
    (hb : 0 ≤ sb ∧ sb ≤ 510) :
    0 ≤ chromaSum rWeight gWeight bWeight sr sg sb ∧
      chromaSum rWeight gWeight bWeight sr sg sb ≤ 255 := by
  rw [chromaSum, uvBias_eq]
  rcases hw with ⟨rfl, rfl, rfl⟩ | ⟨rfl, rfl, rfl⟩
  · rw [r2uWeight, g2uWeight, b2uWeight]
    omega
  · rw [b2uWeight, g2vWeight, b2vWeight]
    omega

/-! ### Vectors -/

section

variable {rCoeff gCoeff bCoeff fixed : ℤ}

/-- Constants for which no lane overflows. -/
structure Fits (rCoeff gCoeff bCoeff fixed : ℤ) : Prop where
  r : -32768 ≤ rCoeff ∧ rCoeff < 32768
  g : -32768 ≤ gCoeff ∧ gCoeff < 32768
  b : -32768 ≤ bCoeff ∧ bCoeff < 32768
  fixed : 0 ≤ fixed ∧ fixed ≤ 4000000

theorem accumulate_ensures (h : Fits rCoeff gCoeff bCoeff fixed) {r g b : Fin 4 → BitVec 16}
    {fr fg fb : Fin 4 → ℤ} (hr : ∀ lane, (r lane).toInt = fr lane)
    (hg : ∀ lane, (g lane).toInt = fg lane) (hb : ∀ lane, (b lane).toInt = fb lane)
    (hr' : ∀ lane, 0 ≤ fr lane ∧ fr lane ≤ 510) (hg' : ∀ lane, 0 ≤ fg lane ∧ fg lane ≤ 510)
    (hb' : ∀ lane, 0 ≤ fb lane ∧ fb lane ≤ 510) :
    (accumulate r g b rCoeff gCoeff bCoeff fixed).Ensures fun s => ∀ lane, (s lane).toInt =
      fixed + fr lane * rCoeff + fg lane * gCoeff + fb lane * bCoeff := by
  obtain ⟨hrc, hgc, hbc, hfixed⟩ := h
  have hmul : ∀ {x w : ℤ}, 0 ≤ x ∧ x ≤ 510 → -32768 ≤ w ∧ w < 32768 →
      -510000000 ≤ x * w ∧ x * w ≤ 510000000 := fun hx hw =>
    sample_mul_bounds hx (abs_le.mpr ⟨by omega, by omega⟩)
  refine (Tracked.slanes_ensures (by decide) fun _ => by omega).bind fun bias hbias => ?_
  refine (vmlaN_ensures (by decide) (by decide) hbias hr (by omega) fun lane => ?_).bind
    fun acc hacc => ?_
  · have := hmul (hr' lane) hrc
    omega
  refine (vmlaN_ensures (by decide) (by decide) hacc hg (by omega) fun lane => ?_).bind
    fun acc hacc => ?_
  · have := hmul (hr' lane) hrc
    have := hmul (hg' lane) hgc
    omega
  refine (vmulN_ensures (by decide) (by decide) hb (by omega) fun lane => ?_).bind
    fun tmp htmp => ?_
  · have := hmul (hb' lane) hbc
    omega
  refine vaddqS_ensures (by decide) hacc htmp fun lane => ?_
  have := hmul (hr' lane) hrc
  have := hmul (hg' lane) hgc
  have := hmul (hb' lane) hbc
  omega

/-- Nothing is lost when the sums are bytes. -/
theorem normalizeAndPack_eq {vec0 vec1 vec2 vec3 : Fin 4 → BitVec 32} {f : ℕ → ℤ}
    (h0 : ∀ lane, (vec0 lane).toInt = f lane) (h1 : ∀ lane, (vec1 lane).toInt = f (4 + lane))
    (h2 : ∀ lane, (vec2 lane).toInt = f (8 + lane)) (h3 : ∀ lane, (vec3 lane).toInt = f (8 + (4 + lane)))
    (hf : ∀ i, 0 ≤ f i / 2 ^ 14 ∧ f i / 2 ^ 14 ≤ 255) (lane : Fin 16) :
    normalizeAndPack vec0 vec1 vec2 vec3 lane = Yuv420.saturatingCast (f lane / 2 ^ 14) := by
  have hindex : ∀ lane : Fin 16, indexLow lane = 2 * lane := by decide
  have hbyte : ∀ (v : Fin (2 * 4) → BitVec 16) (i : ℕ) (hi : i < 2 * 4),
      vreinterpretqU8U16 v ⟨2 * i, by omega⟩ = (v ⟨i, hi⟩).extractLsb' 0 8 := by
    intro v i hi
    have hdiv : 2 * i / 2 = i := Nat.mul_div_cancel_left i Nat.two_pos
    simp only [vreinterpretqU8U16, hdiv, Nat.mul_mod_right, Nat.mul_zero]
  have hlo : ∀ lane : Fin (2 * 4), ((vcombine (vqshrunNS32 kWeightScale vec0)
      (vqshrunNS32 kWeightScale vec1) lane).toNat : ℤ) = max 0 (min (f lane / 2 ^ 14) 65535) :=
    vcombine_cases (P := fun lane (x : BitVec 16) =>
      (x.toNat : ℤ) = max 0 (min (f lane / 2 ^ 14) 65535)) (vqshrunNS32_toNat h0)
      (vqshrunNS32_toNat h1)
  have hhi : ∀ lane : Fin (2 * 4), ((vcombine (vqshrunNS32 kWeightScale vec2)
      (vqshrunNS32 kWeightScale vec3) lane).toNat : ℤ) =
      max 0 (min (f (8 + lane) / 2 ^ 14) 65535) :=
    vcombine_cases (P := fun lane (x : BitVec 16) =>
      (x.toNat : ℤ) = max 0 (min (f (8 + lane) / 2 ^ 14) 65535)) (vqshrunNS32_toNat h2)
      (vqshrunNS32_toNat h3)
  have hlane := lane.isLt
  rw [normalizeAndPack, vqtblU8_of_lt (hindex lane) (show 2 * lane.val < 32 by omega)]
  by_cases hlow : lane.val < 8
  · rw [vcombine, dif_pos (show 2 * lane.val < 16 by omega)]
    refine (hbyte _ lane hlow).trans (lowByte_eq (hlo ⟨lane, hlow⟩) (hf _))
  · have hsub : 2 * lane.val - 16 = 2 * (lane.val - 8) := by omega
    rw [vcombine, dif_neg (show ¬2 * lane.val < 16 by omega)]
    refine (congrArg _ (Fin.ext hsub)).trans ((hbyte _ (lane - 8) (by omega)).trans ?_)
    have hbyte' := lowByte_eq (hhi ⟨lane - 8, by omega⟩) (hf _)
    simp only [show 8 + (lane.val - 8) = lane by omega] at hbyte'
    exact hbyte'

/-- One sample of 16 pairs of pixels. -/
theorem computeWeightedChannel422_ensures (fr fg fb : ℕ → ℤ) (h : Fits rCoeff gCoeff bCoeff fixed)
    {r g b : Fin 2 → Fin (2 * 4) → BitVec 16}
    (hr : ∀ i lane, (r i lane).toInt = fr (8 * i + lane))
    (hg : ∀ i lane, (g i lane).toInt = fg (8 * i + lane))
    (hb : ∀ i lane, (b i lane).toInt = fb (8 * i + lane))
    (hr' : ∀ p, 0 ≤ fr p ∧ fr p ≤ 510) (hg' : ∀ p, 0 ≤ fg p ∧ fg p ≤ 510)
    (hb' : ∀ p, 0 ≤ fb p ∧ fb p ≤ 510)
    (hbyte : ∀ p, 0 ≤ (fixed + fr p * rCoeff + fg p * gCoeff + fb p * bCoeff) / 2 ^ 14 ∧
      (fixed + fr p * rCoeff + fg p * gCoeff + fb p * bCoeff) / 2 ^ 14 ≤ 255) :
    (computeWeightedChannel422 r g b rCoeff gCoeff bCoeff fixed).Ensures fun s => ∀ lane,
      s lane = Yuv420.saturatingCast
        ((fixed + fr lane * rCoeff + fg lane * gCoeff + fb lane * bCoeff) / 2 ^ 14) := by
  have hquarter : ∀ (i : Fin 2) (o : ℕ) (pick : (Fin (2 * 4) → BitVec 16) → Fin 4 → BitVec 16),
      (∀ (v : Fin (2 * 4) → BitVec 16) (f : ℕ → ℤ), (∀ lane, (v lane).toInt = f (8 * i + lane)) →
        ∀ lane, (pick v lane).toInt = f (8 * i + (o + lane))) →
      (accumulate (pick (r i)) (pick (g i)) (pick (b i)) rCoeff gCoeff bCoeff fixed).Ensures
        fun s => ∀ lane : Fin 4, (s lane).toInt = fixed + fr (8 * i + (o + lane)) * rCoeff +
          fg (8 * i + (o + lane)) * gCoeff + fb (8 * i + (o + lane)) * bCoeff := fun i o pick hpick =>
    accumulate_ensures h (hpick _ _ (hr i)) (hpick _ _ (hg i)) (hpick _ _ (hb i))
      (fun _ => hr' _) (fun _ => hg' _) fun _ => hb' _
  have hlow : ∀ (i : Fin 2) (v : Fin (2 * 4) → BitVec 16) (f : ℕ → ℤ),
      (∀ lane, (v lane).toInt = f (8 * i + lane)) →
      ∀ lane, (vgetLow v lane).toInt = f (8 * i + (0 + lane)) := by
    intro i v f hv lane
    rw [Nat.zero_add]
    exact hv _
  have hhigh : ∀ (i : Fin 2) (v : Fin (2 * 4) → BitVec 16) (f : ℕ → ℤ),
      (∀ lane, (v lane).toInt = f (8 * i + lane)) →
      ∀ lane, (vgetHigh v lane).toInt = f (8 * i + (4 + lane)) := fun i v f hv lane => hv _
  refine (hquarter 0 0 vgetLow (hlow 0)).bind fun lo0 hlo0 => ?_
  refine (hquarter 1 0 vgetLow (hlow 1)).bind fun lo1 hlo1 => ?_
  refine (hquarter 0 4 vgetHigh (hhigh 0)).bind fun hi0 hhi0 => ?_
  refine (hquarter 1 4 vgetHigh (hhigh 1)).bind fun hi1 hhi1 => .pure ?_
  refine normalizeAndPack_eq
    (f := fun p => fixed + fr p * rCoeff + fg p * gCoeff + fb p * bCoeff) (fun lane => ?_)
    (fun lane => ?_) (fun lane => ?_) (fun lane => ?_) hbyte
  · simpa using hlo0 lane
  · simpa using hhi0 lane
  · simpa using hlo1 lane
  · simpa using hhi1 lane

end

/-- The channel of the pixel at an address. -/
def lumaAt (src : ℕ → BitVec 8) (ptr : ℕ) : BitVec 8 :=
  Yuv420.saturatingCast (lumaSum (src (ptr + op.rIdx)) (src (ptr + 1)) (src (ptr + op.bIdx)))

/-- A channel, summed over the two pixels at an address. -/
def channelSum (src : ℕ → BitVec 8) (ptr k : ℕ) : ℤ :=
  (src (ptr + k)).toNat + (src (ptr + op.scn + k)).toNat

/-- A chroma sample of the two pixels at an address. -/
def chromaAt (rWeight gWeight bWeight : ℤ) (src : ℕ → BitVec 8) (ptr : ℕ) : BitVec 8 :=
  Yuv420.saturatingCast (chromaSum rWeight gWeight bWeight (op.channelSum src ptr op.rIdx)
    (op.channelSum src ptr 1) (op.channelSum src ptr op.bIdx))

/-- Byte `k` that is stored for the two pixels at an address. -/
def pairAt (src : ℕ → BitVec 8) (ptr k : ℕ) : BitVec 8 :=
  if k = op.order.uIdx then op.chromaAt r2uWeight g2uWeight b2uWeight src ptr
  else if k = op.order.vIdx then op.chromaAt b2uWeight g2vWeight b2vWeight src ptr
  else if k = op.order.yIdx then op.lumaAt src ptr
  else op.lumaAt src (ptr + op.scn)

theorem sample_bounds (x : BitVec 8) : 0 ≤ (x.toNat : ℤ) ∧ (x.toNat : ℤ) ≤ 510 := by
  have := x.isLt
  omega

theorem channelSum_bounds (src : ℕ → BitVec 8) (ptr k : ℕ) :
    0 ≤ op.channelSum src ptr k ∧ op.channelSum src ptr k ≤ 510 := by
  have h1 := (src (ptr + k)).isLt
  have h2 := (src (ptr + op.scn + k)).isLt
  rw [channelSum]
  omega

theorem select_toInt {index : Fin 16 → ℕ} {d : ℕ} (hd : d < 2)
    (heven : ∀ lane : Fin 8, index ⟨2 * lane, by omega⟩ = 2 * lane + d)
    (hodd : ∀ lane : Fin 8, 16 ≤ index ⟨2 * lane + 1, by omega⟩) (v : Fin 16 → BitVec 8)
    (lane : Fin 8) : (select index v lane).toInt = (v ⟨2 * lane + d, by omega⟩).toNat :=
  halfword_toInt (vqtblU8_of_lt (heven lane) (by omega)) (vqtblU8_of_le (hodd lane))

/-- The even pixels. -/
theorem even_toInt (src : ℕ → BitVec 8) (srcPtr k : ℕ) (i : Fin 2) (lane : Fin 8) :
    (select indexEven (vldInterleaved op.scn src (srcPtr + 16 * op.scn * i) k) lane).toInt =
      (src (srcPtr + op.scn * (2 * (8 * i + lane)) + k)).toNat := by
  rw [select_toInt (d := 0) Nat.two_pos (by decide) (by decide), vldInterleaved]
  congr 3
  simp only
  ring

/-- The odd pixels. -/
theorem odd_toInt (src : ℕ → BitVec 8) (srcPtr k : ℕ) (i : Fin 2) (lane : Fin 8) :
    (select indexOdd (vldInterleaved op.scn src (srcPtr + 16 * op.scn * i) k) lane).toInt =
      (src (srcPtr + op.scn * (2 * (8 * i + lane)) + op.scn + k)).toNat := by
  rw [select_toInt (d := 1) Nat.one_lt_two (by decide) (by decide), vldInterleaved]
  congr 3
  simp only
  ring

/-- The sums of both. -/
theorem average_ensures {even odd : Fin 2 → Fin (2 * 4) → BitVec 16} {f g : ℕ → BitVec 8}
    (he : ∀ i lane, (even i lane).toInt = (f (8 * i + lane)).toNat)
    (ho : ∀ i lane, (odd i lane).toInt = (g (8 * i + lane)).toNat) :
    (average even odd).Ensures fun avg => ∀ i lane,
      (avg i lane).toInt = (f (8 * i + lane)).toNat + (g (8 * i + lane)).toNat := by
  have hfit : ∀ (i : Fin 2) (lane : Fin (2 * 4)),
      -2 ^ (16 - 1) ≤ (((f (8 * i + lane)).toNat : ℤ) + (g (8 * i + lane)).toNat) ∧
        (((f (8 * i + lane)).toNat : ℤ) + (g (8 * i + lane)).toNat) < 2 ^ (16 - 1) := by
    intro i lane
    have := (f (8 * i + lane)).isLt
    have := (g (8 * i + lane)).isLt
    omega
  refine (vaddqS_ensures (by decide) (he 0) (ho 0) (hfit 0)).bind fun avg0 h0 => ?_
  refine (vaddqS_ensures (by decide) (he 1) (ho 1) (hfit 1)).bind fun avg1 h1 => .pure ?_
  intro i lane
  fin_cases i
  · exact h0 lane
  · exact h1 lane

theorem fits_luma : Fits r2yWeight g2yWeight b2yWeight yBase :=
  ⟨by decide, by decide, by decide, by decide⟩

theorem fits_chroma {rWeight gWeight bWeight : ℤ} (h : IsChroma rWeight gWeight bWeight) :
    Fits rWeight gWeight bWeight uvBias := by
  rcases h with ⟨rfl, rfl, rfl⟩ | ⟨rfl, rfl, rfl⟩
  · exact ⟨by decide, by decide, by decide, by decide⟩
  · exact ⟨by decide, by decide, by decide, by decide⟩

/-- **A vector of 16 pairs.** -/
theorem vectorPath_ensures (src : ℕ → BitVec 8) (srcPtr dstPtr : ℕ) (m : ℕ → BitVec 8) :
    (op.vectorPath src srcPtr dstPtr m).Ensures (· = vstInterleaved 4
      (fun k (lane : Fin 16) => op.pairAt src (srcPtr + op.scn * (2 * lane)) k) dstPtr m) := by
  have heven := fun k => op.even_toInt src srcPtr k
  have hodd := fun k => op.odd_toInt src srcPtr k
  refine (computeWeightedChannel422_ensures (fun p =>
    ((src (srcPtr + op.scn * (2 * p) + op.rIdx)).toNat : ℤ)) (fun p =>
    ((src (srcPtr + op.scn * (2 * p) + 1)).toNat : ℤ)) (fun p =>
    ((src (srcPtr + op.scn * (2 * p) + op.bIdx)).toNat : ℤ)) fits_luma (heven _) (heven _) (heven _)
    (fun _ => sample_bounds _) (fun _ => sample_bounds _) (fun _ => sample_bounds _)
    fun p => lumaSum_bounds _ _ _).bind fun y1 hy1 => ?_
  refine (computeWeightedChannel422_ensures (fun p =>
    ((src (srcPtr + op.scn * (2 * p) + op.scn + op.rIdx)).toNat : ℤ)) (fun p =>
    ((src (srcPtr + op.scn * (2 * p) + op.scn + 1)).toNat : ℤ)) (fun p =>
    ((src (srcPtr + op.scn * (2 * p) + op.scn + op.bIdx)).toNat : ℤ)) fits_luma (hodd _) (hodd _)
    (hodd _) (fun _ => sample_bounds _) (fun _ => sample_bounds _) (fun _ => sample_bounds _)
    fun p => lumaSum_bounds _ _ _).bind fun y2 hy2 => ?_
  have hsum := fun k => average_ensures (f := fun p => src (srcPtr + op.scn * (2 * p) + k))
    (g := fun p => src (srcPtr + op.scn * (2 * p) + op.scn + k)) (heven k) (hodd k)
  refine (hsum op.rIdx).bind fun rAvg hr => (hsum 1).bind fun gAvg hg =>
    (hsum op.bIdx).bind fun bAvg hb => ?_
  have hchroma : ∀ {rWeight gWeight bWeight : ℤ}, IsChroma rWeight gWeight bWeight →
      (computeWeightedChannel422 rAvg gAvg bAvg rWeight gWeight bWeight uvBias).Ensures fun s =>
        ∀ lane, s lane =
          op.chromaAt rWeight gWeight bWeight src (srcPtr + op.scn * (2 * lane.val)) := fun h =>
    computeWeightedChannel422_ensures (fun p =>
      op.channelSum src (srcPtr + op.scn * (2 * p)) op.rIdx) (fun p =>
      op.channelSum src (srcPtr + op.scn * (2 * p)) 1) (fun p =>
      op.channelSum src (srcPtr + op.scn * (2 * p)) op.bIdx) (fits_chroma h) hr hg hb
      (fun _ => op.channelSum_bounds _ _ _) (fun _ => op.channelSum_bounds _ _ _)
      (fun _ => op.channelSum_bounds _ _ _) fun p => chromaSum_bounds h
        (op.channelSum_bounds _ _ _) (op.channelSum_bounds _ _ _) (op.channelSum_bounds _ _ _)
  refine (hchroma (.inl ⟨rfl, rfl, rfl⟩)).bind fun u hu => ?_
  refine (hchroma (.inr ⟨rfl, rfl, rfl⟩)).bind fun v hv => .pure ?_
  congr 1
  funext k lane
  simp only [pairAt]
  split_ifs
  · exact hu lane
  · exact hv lane
  · exact hy1 lane
  · exact hy2 lane

/-! ### Two pixels -/

theorem computeY_ensures (r g b : BitVec 8) :
    (computeY r g b).Ensures (· = Yuv420.saturatingCast (lumaSum r g b)) := by
  have hr := r.isLt
  have hg := g.isLt
  have hb := b.isLt
  have hbase : (2 : ℤ) ^ kWeightScale * 16 = 262144 ∧ (2 : ℤ) ^ (kWeightScale - 1) = 8192 := by
    decide
  refine (weighRgb_ensures (sample_bounds r) (sample_bounds g) (sample_bounds b) (by decide)
    (by decide) (by decide)).bind fun sum hsum => ?_
  rw [r2yWeight, g2yWeight, b2yWeight] at hsum
  rw [hbase.1, hbase.2]
  refine (int32_ensures (by omega)).bind fun y hy => ?_
  refine (int32_ensures (by omega)).bind fun y' hy' => .pure ?_
  rw [hy', hy, hsum, lumaSum, yBase_eq, r2yWeight, g2yWeight, b2yWeight]
  congr 2
  omega

theorem computeChroma_ensures {rWeight gWeight bWeight sr sg sb : ℤ}
    (hw : IsChroma rWeight gWeight bWeight) (hr : 0 ≤ sr ∧ sr ≤ 510) (hg : 0 ≤ sg ∧ sg ≤ 510)
    (hb : 0 ≤ sb ∧ sb ≤ 510) :
    (computeChroma sr sg sb rWeight gWeight bWeight).Ensures
      (· = Yuv420.saturatingCast (chromaSum rWeight gWeight bWeight sr sg sb)) := by
  have hbase : (2 : ℤ) ^ (kWeightScale - 1) * 256 = 2097152 ∧ (2 : ℤ) ^ (kWeightScale - 1) = 8192 := by
    decide
  have hsize : |rWeight| ≤ 1000000 ∧ |gWeight| ≤ 1000000 ∧ |bWeight| ≤ 1000000 := by
    rcases hw with ⟨rfl, rfl, rfl⟩ | ⟨rfl, rfl, rfl⟩ <;> decide
  have hbyte := chromaSum_bounds hw hr hg hb
  rw [chromaSum, uvBias_eq] at hbyte
  refine (weighRgb_ensures hr hg hb hsize.1 hsize.2.1 hsize.2.2).bind fun sum hsum => ?_
  rw [hbase.1, hbase.2]
  refine (int32_ensures (by omega)).bind fun c hc => ?_
  refine (int32_ensures (by omega)).bind fun c' hc' => .pure ?_
  rw [hc', hc, hsum, chromaSum, uvBias_eq]
  congr 2
  omega

theorem order_bytes (order : Yuv422Order) :
    order.yIdx < 4 ∧ order.yIdx + 2 < 4 ∧ order.uIdx < 4 ∧ order.vIdx < 4 ∧
      (∀ j < 4, j = order.yIdx ∨ j = order.yIdx + 2 ∨ j = order.uIdx ∨ j = order.vIdx) ∧
      order.yIdx ≠ order.uIdx ∧ order.yIdx ≠ order.vIdx ∧ order.yIdx + 2 ≠ order.uIdx ∧
      order.yIdx + 2 ≠ order.vIdx ∧ order.vIdx ≠ order.uIdx := by
  cases order <;> decide

/-- **Two pixels.** -/
theorem scalarPath_ensures (src : ℕ → BitVec 8) (srcPtr dstPtr : ℕ) (m : ℕ → BitVec 8) :
    (op.scalarPath src srcPtr dstPtr m).Ensures (· = overwrite m dstPtr 4 (op.pairAt src srcPtr)) := by
  have hsum : ∀ k, (int32 (((src (srcPtr + k)).toNat : ℤ) + (src (srcPtr + op.scn + k)).toNat)).Ensures
      (· = op.channelSum src srcPtr k) := fun k => int32_ensures (by
    have := op.channelSum_bounds src srcPtr k
    rw [channelSum] at this
    omega)
  have hchroma : ∀ {rWeight gWeight bWeight : ℤ}, IsChroma rWeight gWeight bWeight →
      (computeChroma (op.channelSum src srcPtr op.rIdx) (op.channelSum src srcPtr 1)
        (op.channelSum src srcPtr op.bIdx) rWeight gWeight bWeight).Ensures
        (· = op.chromaAt rWeight gWeight bWeight src srcPtr) := fun h =>
    computeChroma_ensures h (op.channelSum_bounds _ _ _) (op.channelSum_bounds _ _ _)
      (op.channelSum_bounds _ _ _)
  refine (computeY_ensures _ _ _).bind fun y0 hy0 => ?_
  refine (computeY_ensures _ _ _).bind fun y1 hy1 => ?_
  refine (hsum op.rIdx).bind fun sr hsr => (hsum 1).bind fun sg hsg =>
    (hsum op.bIdx).bind fun sb hsb => ?_
  rw [hsr, hsg, hsb]
  refine (hchroma (.inl ⟨rfl, rfl, rfl⟩)).bind fun u hu => ?_
  refine (hchroma (.inr ⟨rfl, rfl, rfl⟩)).bind fun v hv => .pure ?_
  obtain ⟨h0, h1, h2, h3, hall, hyu, hyv, hyu', hyv', hvu⟩ := order_bytes op.order
  rw [← overwrite_four_of_order h0 h1 h2 h3 hall, hu, hv, hy0, hy1]
  simp only [pairAt, if_true, if_neg hyu, if_neg hyv, if_neg hyu', if_neg hyv', if_neg hvu]
  rw [if_neg (by omega)]
  rfl

/-! ### Rows -/

/-- **A row**, with vectors or without them. -/
theorem row_ensures (src : ℕ → BitVec 8) (srcRow dstRow : ℕ) {width : ℕ} (hwidth : width % 2 = 0)
    (m : ℕ → BitVec 8) :
    let pairs := written dstRow 4 (fun p k => op.pairAt src (srcRow + op.scn * (2 * p)) k)
    (op.processRow src srcRow dstRow width (pure m)).Ensures (· = pairs (width / 2) m) ∧
      (op.scalarRow src srcRow dstRow width (pure m)).Ensures (· = pairs (width / 2) m) := by
  intro pairs
  -- Columns are counted, and two of them are a pair.
  have hstart : 0 % 2 = 0 ∧ (pure m : Tracked (ℕ → BitVec 8)).Ensures (· = pairs (0 / 2) m) :=
    ⟨rfl, .pure written_zero.symm⟩
  have hpair : ∀ i (s : Tracked (ℕ → BitVec 8)), i % 2 = 0 → s.Ensures (· = pairs (i / 2) m) →
      (s >>= op.scalarPath src (srcRow + i * op.scn) (dstRow + i * 2)).Ensures
        (· = pairs ((i + 2) / 2) m) := by
    intro i s heven hs
    refine hs.bind fun m' hm' => (op.scalarPath_ensures src _ _ m').imp fun m'' hm'' => ?_
    have hdst : dstRow + i * 2 = dstRow + i / 2 * 4 := by omega
    have hsrc : srcRow + i * op.scn = srcRow + op.scn * (2 * (i / 2)) := by
      rw [Nat.mul_comm, show 2 * (i / 2) = i by omega]
    rw [hm'', hm', hdst, hsrc, Nat.add_div_right i Nat.two_pos]
    exact written_pixel (by decide) fun k _ => rfl
  have hrest : ∀ i (s : Tracked (ℕ → BitVec 8)), i ≤ width →
      i % 2 = 0 ∧ s.Ensures (· = pairs (i / 2) m) →
      width % 2 = 0 ∧ (forSteps i 2 width (fun index s =>
        s >>= op.scalarPath src (srcRow + index * op.scn) (dstRow + index * 2)) s).Ensures
        (· = pairs (width / 2) m) := by
    intro i s hi hs
    refine forSteps_invariant (fun i (s : Tracked (ℕ → BitVec 8)) => i % 2 = 0 ∧ s.Ensures (· = pairs (i / 2) m))
      Nat.two_pos hi hs fun j _ hj s hs => ?_
    rw [Nat.min_eq_left (by have := hs.1; omega)]
    exact ⟨by omega, hpair j s hs.1 hs.2⟩
  refine ⟨?_, (hrest 0 _ (Nat.zero_le _) hstart).2⟩
  have hvector : ∀ i (s : Tracked (ℕ → BitVec 8)), i % 2 = 0 → s.Ensures (· = pairs (i / 2) m) →
      (s >>= op.vectorPath src (srcRow + i * op.scn) (dstRow + i * 2)).Ensures
        (· = pairs ((i + 2 * 16) / 2) m) := by
    intro i s heven hs
    refine hs.bind fun m' hm' => (op.vectorPath_ensures src _ _ m').imp fun m'' hm'' => ?_
    have hdst : dstRow + i * 2 = dstRow + i / 2 * 4 := by omega
    have hlast : (i + 2 * 16) / 2 = i / 2 + 16 := by omega
    rw [hm'', hm', hdst, hlast]
    refine written_vector (by decide) le_rfl (Nat.le_add_right _ _) fun lane k _ => ?_
    have hi : i = 2 * (i / 2) := by omega
    have hsrc : srcRow + i * op.scn + op.scn * (2 * lane) =
        srcRow + op.scn * (2 * (i / 2 + lane)) := by
      rw [Nat.mul_add 2, ← hi]
      ring
    rw [hsrc]
  have hloop : Unrolled width 16
      (fun i (s : Tracked (ℕ → BitVec 8)) => i % 2 = 0 ∧ s.Ensures (· = pairs (i / 2) m))
      (LoopUnroll2.start width 16, pure m) := Unrolled.start hstart
  exact hloop.unrollNTimes_remaining (show 0 < 2 * 16 by decide)
    (fun s => s.Ensures (· = pairs (width / 2) m))
    (fun i s _ hs => ⟨by have := hs.1; omega, hvector i s hs.1 hs.2⟩) (fun s hs => hs.2)
    fun i s hi _ hs => (hrest i s hi.le hs).2

/-- **An image**, with vectors or without them. -/
theorem rgbx2yuv422Operation_eq (src : ℕ → BitVec 8) (srcPtr srcStride dst dstStride : ℕ) {width : ℕ}
    (hwidth : width % 2 = 0) (height : ℕ) (m : ℕ → BitVec 8) :
    ∃ m', rgbx2yuv422Operation (op.processRow src) srcPtr srcStride dst dstStride width height
        (pure m) = pure m' ∧
      rgbx2yuv422Operation (op.scalarRow src) srcPtr srcStride dst dstStride width height
        (pure m) = pure m' := by
  refine forRange_rel (fun _ s t => ∃ m', s = pure m' ∧ t = pure m') ⟨m, rfl, rfl⟩ ?_
  rintro h - s t ⟨m', rfl, rfl⟩
  obtain ⟨hvector, hscalar⟩ := op.row_ensures src (srcPtr + h * srcStride) (dst + dstStride * h)
    hwidth m'
  exact ⟨_, hvector.eq_pure, hscalar.eq_pure⟩

end RgbxOrBgrxToYuv422

end KleidiCV
