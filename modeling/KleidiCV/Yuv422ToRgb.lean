/-
From YUV422 to RGB, `yuv422_to_rgb_neon.cpp`.

Two pixels share their chroma samples.  The vector path takes 16 pairs at a time; it saturates
its sums to halfwords and takes their upper bytes, where the scalar path saturates to a byte.

* `normalizeAndPack_eq` — the upper byte of a saturated halfword is a saturated byte;
* `vectorPath_ensures`, `scalarPath_ensures` — both paths store the same bytes;
* `yuv2rgbxOperation_eq` — whole images.
-/
import KleidiCV.RgbToYuv422

open Loop

namespace KleidiCV

open YuvLanes
open GaussianBlur (vcombine_cases)
open ResizeToQuarter (vreinterpretqU8U16)
open Yuv420 (weightScale yWeight rvWeight guWeight gvWeight buWeight saturatedColour saturatingCast)

/-- `YUV422ToRGBxOrBGRx<b_idx, u_chroma_idx, y_idx, dcn>`. -/
structure Yuv422ToRgbxOrBgrx where
  bgr : Bool
  order : Yuv422Order
  alpha : Bool

namespace Yuv422ToRgbxOrBgrx

variable (op : Yuv422ToRgbxOrBgrx)

def bIdx : ℕ := if op.bgr then 0 else 2

def dcn : ℕ := if op.alpha then 4 else 3

/-! ### The vector path -/

/-- `index_0`, `index_1`, `index_2` and `index_3`. -/
def index : Fin 4 → Fin 16 → ℕ :=
  ![![0, 0xff, 0xff, 0xff, 1, 0xff, 0xff, 0xff, 2, 0xff, 0xff, 0xff, 3, 0xff, 0xff, 0xff],
    ![4, 0xff, 0xff, 0xff, 5, 0xff, 0xff, 0xff, 6, 0xff, 0xff, 0xff, 7, 0xff, 0xff, 0xff],
    ![8, 0xff, 0xff, 0xff, 9, 0xff, 0xff, 0xff, 10, 0xff, 0xff, 0xff, 11, 0xff, 0xff, 0xff],
    ![12, 0xff, 0xff, 0xff, 13, 0xff, 0xff, 0xff, 14, 0xff, 0xff, 0xff, 15, 0xff, 0xff, 0xff]]

/-- A quarter of a vector in words: `lo_lo`, `lo_hi`, `hi_lo` and `hi_hi`. -/
def widen (v : Fin 16 → BitVec 8) (q : Fin 4) : Fin 4 → BitVec 32 :=
  vreinterpretqS32U8 (vqtblU8 v (index q) : Fin (4 * 4) → BitVec 8)

/-- `normalize_and_pack`: the upper bytes of the halfwords, in turn. -/
def normalizeAndPack (vec0 vec1 vec2 vec3 : Fin 4 → BitVec 32) : Fin 16 → BitVec 8 :=
  let tmpLoHi : Fin (2 * 4) → BitVec 16 :=
    vcombine (vqshrunNS32 (weightScale - 8) vec0) (vqshrunNS32 (weightScale - 8) vec1)
  let tmpHiHi : Fin (2 * 4) → BitVec 16 :=
    vcombine (vqshrunNS32 (weightScale - 8) vec2) (vqshrunNS32 (weightScale - 8) vec3)
  vtrn2 (vreinterpretqU8U16 tmpLoHi) (vreinterpretqU8U16 tmpHiHi)

/-- The red channel without luma. -/
def redSubY (v : Fin 4 → BitVec 32) : Tracked (Fin 4 → BitVec 32) := do
  let base ← vdupqNS32 (2 ^ (weightScale - 1) - 128 * rvWeight)
  vmlaN base v rvWeight

/-- The green channel without luma. -/
def greenSubY (u v : Fin 4 → BitVec 32) : Tracked (Fin 4 → BitVec 32) := do
  let base ← vdupqNS32 (2 ^ (weightScale - 1) - 128 * (guWeight + gvWeight))
  let g ← vmlaN base u guWeight
  vmlaN g v gvWeight

/-- The blue channel without luma. -/
def blueSubY (u : Fin 4 → BitVec 32) : Tracked (Fin 4 → BitVec 32) := do
  let base ← vdupqNS32 (2 ^ (weightScale - 1) - 128 * buWeight)
  vmlaN base u buWeight

/-- `r0` or `r1`, or the same of another channel, from two quarters of the vectors. -/
def addLuma (subY : Fin 4 → Tracked (Fin 4 → BitVec 32)) (yEven yOdd : Fin 4 → Fin 4 → BitVec 32)
    (lo hi : Fin 4) : Tracked (Fin 16 → BitVec 8) := do
  let subLo ← subY lo
  let subHi ← subY hi
  let oddLo ← vaddqS subLo (yOdd lo)
  let oddHi ← vaddqS subHi (yOdd hi)
  let evenLo ← vaddqS subLo (yEven lo)
  let evenHi ← vaddqS subHi (yEven hi)
  pure (normalizeAndPack evenLo evenHi oddLo oddHi)

/-- The luma samples, less 16 and weighted. -/
def weighLuma (y : Fin 16 → BitVec 8) : Tracked (Fin 4 → Fin 4 → BitVec 32) := do
  let yM16 : Fin 16 → BitVec 8 := fun lane => Yuv420.vqsub16 (y lane)
  let loLo ← vmulN 32 (widen yM16 0) yWeight
  let loHi ← vmulN 32 (widen yM16 1) yWeight
  let hiLo ← vmulN 32 (widen yM16 2) yWeight
  let hiHi ← vmulN 32 (widen yM16 3) yWeight
  pure ![loLo, loHi, hiLo, hiHi]

/-- The vectors that are stored for 16 pixels. -/
def interleave (r g b : Fin 16 → BitVec 8) (k : ℕ) : Fin 16 → BitVec 8 :=
  if k = 2 - op.bIdx then r else if k = 1 then g else if k = op.bIdx then b else fun _ => 0xFF

/-- `UnrollTwiceFunctor`, with `yuv422_to_rgb` for vectors. -/
def vectorPath (src : ℕ → BitVec 8) (srcPtr dstPtr : ℕ) (m : ℕ → BitVec 8) :
    Tracked (ℕ → BitVec 8) := do
  let yuv422 := vldInterleaved 4 src srcPtr
  let u := widen (yuv422 op.order.uIdx)
  let v := widen (yuv422 op.order.vIdx)
  let yEven ← weighLuma (yuv422 op.order.yIdx)
  let yOdd ← weighLuma (yuv422 (op.order.yIdx + 2))
  let r0 ← addLuma (fun q => redSubY (v q)) yEven yOdd 0 1
  let r1 ← addLuma (fun q => redSubY (v q)) yEven yOdd 2 3
  let g0 ← addLuma (fun q => greenSubY (u q) (v q)) yEven yOdd 0 1
  let g1 ← addLuma (fun q => greenSubY (u q) (v q)) yEven yOdd 2 3
  let b0 ← addLuma (fun q => blueSubY (u q)) yEven yOdd 0 1
  let b1 ← addLuma (fun q => blueSubY (u q)) yEven yOdd 2 3
  let m := vstInterleaved op.dcn (op.interleave r0 g0 b0) dstPtr m
  pure (vstInterleaved op.dcn (op.interleave r1 g1 b1) (dstPtr + 16 * op.dcn) m)

/-! ### The scalar path -/

/-- The bytes of one pixel. -/
def storePixel (y : BitVec 8) (rSubY gSubY bSubY : ℤ) (dstPtr : ℕ) (m : ℕ → BitVec 8) :
    Tracked (ℕ → BitVec 8) := do
  let y ← int32 (yWeight * max ((y.toNat : ℤ) - 16) 0)
  let r ← int32 (y + rSubY)
  let g ← int32 (y + gSubY)
  let b ← int32 (y + bSubY)
  let m := Function.update m (dstPtr + (2 - op.bIdx)) (saturatingCast (r / 2 ^ weightScale))
  let m := Function.update m (dstPtr + 1) (saturatingCast (g / 2 ^ weightScale))
  let m := Function.update m (dstPtr + op.bIdx) (saturatingCast (b / 2 ^ weightScale))
  pure (if op.alpha then Function.update m (dstPtr + 3) 0xFF else m)

/-- The body of the loop of `RemainingFunctor`, with `yuv422_to_rgb` for two pixels. -/
def scalarPath (src : ℕ → BitVec 8) (srcPtr dstPtr : ℕ) (m : ℕ → BitVec 8) :
    Tracked (ℕ → BitVec 8) := do
  let uM128 ← int32 ((src (srcPtr + op.order.uIdx)).toNat - 128)
  let vM128 ← int32 ((src (srcPtr + op.order.vIdx)).toNat - 128)
  let y0 := src (srcPtr + op.order.yIdx)
  let y1 := src (srcPtr + op.order.yIdx + 2)
  let rSubY ← int32 (rvWeight * vM128)
  let rSubY ← int32 (rSubY + 2 ^ (weightScale - 1))
  let gu ← int32 (guWeight * uM128)
  let gv ← int32 (gvWeight * vM128)
  let gSubY ← int32 (gu + gv)
  let gSubY ← int32 (gSubY + 2 ^ (weightScale - 1))
  let bSubY ← int32 (buWeight * uM128)
  let bSubY ← int32 (bSubY + 2 ^ (weightScale - 1))
  let m ← op.storePixel y0 rSubY gSubY bSubY dstPtr m
  op.storePixel y1 rSubY gSubY bSubY (dstPtr + op.dcn) m

/-- One row, with vectors for the first pixels. -/
def processRow (src : ℕ → BitVec 8) (srcRow dstRow width : ℕ) (s : Tracked (ℕ → BitVec 8)) :
    Tracked (ℕ → BitVec 8) :=
  ((LoopUnroll2.start width 16, s) |>
    LoopUnroll2.unrollTwice (fun index s =>
      s >>= op.vectorPath src (srcRow + index * 2) (dstRow + index * op.dcn)) |>
    LoopUnroll2.remaining (fun index length => forSteps index 2 length fun index s =>
      s >>= op.scalarPath src (srcRow + index * 2) (dstRow + index * op.dcn))).2

/-- One row, with the scalar path for all pixels. -/
def scalarRow (src : ℕ → BitVec 8) (srcRow dstRow width : ℕ) (s : Tracked (ℕ → BitVec 8)) :
    Tracked (ℕ → BitVec 8) :=
  forSteps 0 2 width (fun index s =>
    s >>= op.scalarPath src (srcRow + index * 2) (dstRow + index * op.dcn)) s

/-- `yuv2rgbx_operation`, for a way to process a row. -/
def yuv2rgbxOperation (row : ℕ → ℕ → ℕ → Tracked (ℕ → BitVec 8) → Tracked (ℕ → BitVec 8))
    (srcPtr srcStride dst dstStride width height : ℕ) :
    Tracked (ℕ → BitVec 8) → Tracked (ℕ → BitVec 8) :=
  forRange height fun y => row (srcPtr + y * srcStride) (dst + y * dstStride) width

/-! ### What the paths store -/

/-- A colour of pixel `x` of a row. -/
def colourAt (src : ℕ → BitVec 8) (srcRow x : ℕ) (c : Fin 3) : BitVec 8 :=
  saturatedColour (src (srcRow + x / 2 * 4 + (op.order.yIdx + x % 2 * 2)))
    (src (srcRow + x / 2 * 4 + op.order.uIdx)) (src (srcRow + x / 2 * 4 + op.order.vIdx)) c

/-- Byte `k` of pixel `x` of a row. -/
def pixelAt (src : ℕ → BitVec 8) (srcRow x k : ℕ) : BitVec 8 :=
  if k = 2 - op.bIdx then op.colourAt src srcRow x 0
  else if k = 1 then op.colourAt src srcRow x 1
  else if k = op.bIdx then op.colourAt src srcRow x 2
  else 0xFF

/-- The weighted luma sample. -/
def lumaPart (y : BitVec 8) : ℤ := yWeight * max ((y.toNat : ℤ) - 16) 0

/-- What is added to it, with the constant for rounding. -/
def chromaPart (u v : BitVec 8) : Fin 3 → ℤ :=
  ![rvWeight * (v.toNat - 128) + 2 ^ 19,
    guWeight * (u.toNat - 128) + gvWeight * (v.toNat - 128) + 2 ^ 19,
    buWeight * (u.toNat - 128) + 2 ^ 19]

theorem channel_cases (c : Fin 3) : c = 0 ∨ c = 1 ∨ c = 2 := by
  fin_cases c <;> decide

theorem saturatedColour_eq (y u v : BitVec 8) (c : Fin 3) :
    saturatedColour y u v c = saturatingCast ((lumaPart y + chromaPart u v c) / 2 ^ 20) := by
  have hsum : Yuv420.weightedSum y u v c + 2 ^ 19 = lumaPart y + chromaPart u v c := by
    rcases channel_cases c with rfl | rfl | rfl
    · exact Int.add_assoc (lumaPart y) (rvWeight * (v.toNat - 128)) _
    · show lumaPart y + guWeight * (u.toNat - 128) + gvWeight * (v.toNat - 128) + 2 ^ 19 =
        lumaPart y + (guWeight * (u.toNat - 128) + gvWeight * (v.toNat - 128) + 2 ^ 19)
      ring
    · exact Int.add_assoc (lumaPart y) (buWeight * (u.toNat - 128)) _
  rw [← hsum]
  rfl

theorem lumaPart_bounds (y : BitVec 8) : 0 ≤ lumaPart y ∧ lumaPart y ≤ 300000000 := by
  have := y.isLt
  rw [lumaPart, yWeight]
  omega

theorem chromaPart_bounds (u v : BitVec 8) (c : Fin 3) :
    -300000000 ≤ chromaPart u v c ∧ chromaPart u v c ≤ 300000000 := by
  have hu := u.isLt
  have hv := v.isLt
  rcases channel_cases c with rfl | rfl | rfl
  · rw [show chromaPart u v 0 = rvWeight * (v.toNat - 128) + 2 ^ 19 from rfl, rvWeight]
    omega
  · rw [show chromaPart u v 1 =
      guWeight * (u.toNat - 128) + gvWeight * (v.toNat - 128) + 2 ^ 19 from rfl, guWeight, gvWeight]
    omega
  · rw [show chromaPart u v 2 = buWeight * (u.toNat - 128) + 2 ^ 19 from rfl, buWeight]
    omega

/-! ### Vectors -/

theorem quarterLane_lt (q lane : Fin 4) : 4 * (q : ℕ) + lane < 16 := by omega

theorem widen_toInt (v : Fin 16 → BitVec 8) (q lane : Fin 4) :
    (widen v q lane).toInt = (v ⟨4 * q + lane, quarterLane_lt q lane⟩).toNat := by
  have hbyte : ∀ q lane : Fin 4, index q ⟨4 * lane, by omega⟩ = 4 * q + lane := by decide
  have hzero : ∀ q : Fin 4, ∀ i : Fin 16, i.val % 4 ≠ 0 → 16 ≤ index q i := by decide
  exact widened_toInt (f := fun lane => v ⟨4 * q + lane, by omega⟩)
    (fun lane => vqtblU8_of_lt (hbyte q lane) (by omega))
    (fun i hi => vqtblU8_of_le (hzero q i hi)) lane

/-- The upper bytes of saturated halfwords. -/
theorem normalizeAndPack_eq {vec0 vec1 vec2 vec3 : Fin 4 → BitVec 32} {f : ℕ → ℤ}
    (h0 : ∀ lane, (vec0 lane).toInt = f (2 * lane))
    (h1 : ∀ lane, (vec1 lane).toInt = f (2 * (4 + lane)))
    (h2 : ∀ lane, (vec2 lane).toInt = f (2 * lane + 1))
    (h3 : ∀ lane, (vec3 lane).toInt = f (2 * (4 + lane) + 1)) (lane : Fin 16) :
    normalizeAndPack vec0 vec1 vec2 vec3 lane = saturatingCast (f lane / 2 ^ 20) := by
  have hbyte : ∀ {a b : Fin 4 → BitVec 32} {g : ℕ → ℤ},
      (∀ lane, (a lane).toInt = g lane) → (∀ lane, (b lane).toInt = g (4 + lane)) →
      ∀ (i : ℕ) (hi : i < 8), vreinterpretqU8U16 (vcombine (vqshrunNS32 (weightScale - 8) a)
        (vqshrunNS32 (weightScale - 8) b)) ⟨2 * i + 1, by omega⟩ = saturatingCast (g i / 2 ^ 20) := by
    intro a b g ha hb i hi
    have hword : ∀ lane : Fin (2 * 4), ((vcombine (vqshrunNS32 (weightScale - 8) a)
        (vqshrunNS32 (weightScale - 8) b) lane).toNat : ℤ) = max 0 (min (g lane / 2 ^ 12) 65535) :=
      vcombine_cases (P := fun lane (x : BitVec 16) =>
        (x.toNat : ℤ) = max 0 (min (g lane / 2 ^ 12) 65535)) (vqshrunNS32_toNat ha)
        (vqshrunNS32_toNat hb)
    have hscaled : g i / 2 ^ 12 / 256 = g i / 2 ^ 20 := by omega
    rw [← hscaled]
    exact (upperByte_eq _ i hi).trans (highByte_eq (hword ⟨i, hi⟩))
  have hlane := lane.isLt
  rw [normalizeAndPack, vtrn2]
  by_cases heven : lane.val % 2 = 0
  · rw [dif_pos heven]
    refine (congrArg _ (Fin.ext (show lane.val + 1 = 2 * (lane / 2) + 1 by omega))).trans
      ((hbyte (g := fun p => f (2 * p)) h0 h1 (lane / 2) (by omega)).trans ?_)
    rw [show 2 * (lane.val / 2) = lane by omega]
  · rw [dif_neg heven]
    refine (congrArg _ (Fin.ext (show lane.val = 2 * (lane / 2) + 1 by omega))).trans
      ((hbyte (g := fun p => f (2 * p + 1)) h2 h3 (lane / 2) (by omega)).trans ?_)
    rw [show 2 * (lane.val / 2) + 1 = lane by omega]

section

variable {u16 v16 : Fin 4 → BitVec 32} {u v : Fin 4 → BitVec 8}

theorem redSubY_ensures (hv : ∀ lane, (v16 lane).toInt = (v lane).toNat) :
    (redSubY v16).Ensures fun s => ∀ lane, (s lane).toInt = chromaPart (u lane) (v lane) 0 := by
  have hbase : (2 : ℤ) ^ (weightScale - 1) - 128 * rvWeight = -213687168 := by decide
  rw [redSubY, hbase]
  refine (Tracked.slanes_ensures (by decide) fun _ => by decide).bind fun base hbase' => ?_
  refine (vmlaN_ensures (by decide) (by decide) hbase' hv (by decide) fun lane => ?_).imp
    fun s hs lane => ?_
  · have := (v lane).isLt
    rw [rvWeight]
    omega
  · rw [hs]
    show _ = rvWeight * ((v lane).toNat - 128 : ℤ) + 2 ^ 19
    rw [rvWeight]
    omega

theorem greenSubY_ensures (hu : ∀ lane, (u16 lane).toInt = (u lane).toNat)
    (hv : ∀ lane, (v16 lane).toInt = (v lane).toNat) :
    (greenSubY u16 v16).Ensures fun s => ∀ lane,
      (s lane).toInt = chromaPart (u lane) (v lane) 1 := by
  have hbase : (2 : ℤ) ^ (weightScale - 1) - 128 * (guWeight + gvWeight) = 162122368 := by decide
  rw [greenSubY, hbase]
  refine (Tracked.slanes_ensures (by decide) fun _ => by decide).bind fun base hbase' => ?_
  refine (vmlaN_ensures (by decide) (by decide) hbase' hu (by decide) fun lane => ?_).bind
    fun g hg => ?_
  · have := (u lane).isLt
    rw [guWeight]
    omega
  refine (vmlaN_ensures (by decide) (by decide) hg hv (by decide) fun lane => ?_).imp
    fun s hs lane => ?_
  · have := (u lane).isLt
    have := (v lane).isLt
    rw [guWeight, gvWeight]
    omega
  · rw [hs]
    show _ = guWeight * ((u lane).toNat - 128 : ℤ) + gvWeight * ((v lane).toNat - 128 : ℤ) + 2 ^ 19
    rw [guWeight, gvWeight]
    omega

theorem blueSubY_ensures (hu : ∀ lane, (u16 lane).toInt = (u lane).toNat) :
    (blueSubY u16).Ensures fun s => ∀ lane, (s lane).toInt = chromaPart (u lane) (v lane) 2 := by
  have hbase : (2 : ℤ) ^ (weightScale - 1) - 128 * buWeight = -270327040 := by decide
  rw [blueSubY, hbase]
  refine (Tracked.slanes_ensures (by decide) fun _ => by decide).bind fun base hbase' => ?_
  refine (vmlaN_ensures (by decide) (by decide) hbase' hu (by decide) fun lane => ?_).imp
    fun s hs lane => ?_
  · have := (u lane).isLt
    rw [buWeight]
    omega
  · rw [hs]
    show _ = buWeight * ((u lane).toNat - 128 : ℤ) + 2 ^ 19
    rw [buWeight]
    omega

end

/-- The luma samples of 16 pixels. -/
theorem weighLuma_ensures {y : Fin 16 → BitVec 8} {f : ℕ → BitVec 8} (hy : ∀ lane, y lane = f lane) :
    (weighLuma y).Ensures fun w => ∀ q lane : Fin 4, (w q lane).toInt = lumaPart (f (4 * q + lane)) := by
  have hquarter : ∀ q, (vmulN 32 (widen (fun lane => Yuv420.vqsub16 (y lane)) q) yWeight).Ensures
      fun s => ∀ lane, (s lane).toInt = lumaPart (f (4 * q + lane)) := by
    intro q
    have hsub : ∀ lane : Fin 4, ((widen (fun lane => Yuv420.vqsub16 (y lane)) q) lane).toInt =
        max (((f (4 * q + lane)).toNat : ℤ) - 16) 0 := by
      intro lane
      have := (f (4 * q + lane)).isLt
      rw [widen_toInt, hy, Yuv420.vqsub16, BitVec.toNat_ofNat]
      simp only
      omega
    refine (vmulN_ensures (by decide) (by decide) hsub (by decide) fun lane => ?_).imp
      fun s hs lane => ?_
    · have := lumaPart_bounds (f (4 * q + lane))
      rw [lumaPart, Int.mul_comm] at this
      omega
    · rw [hs, lumaPart, Int.mul_comm]
  refine (hquarter 0).bind fun loLo h0 => (hquarter 1).bind fun loHi h1 => ?_
  refine (hquarter 2).bind fun hiLo h2 => (hquarter 3).bind fun hiHi h3 => .pure fun q lane => ?_
  fin_cases q
  · exact h0 lane
  · exact h1 lane
  · exact h2 lane
  · exact h3 lane

/-- One channel of 16 pixels, whose first two have the chroma samples of pair `p`. -/
theorem addLuma_ensures (lo hi : Fin 4) {subY : Fin 4 → Tracked (Fin 4 → BitVec 32)}
    {yEven yOdd : Fin 4 → Fin 4 → BitVec 32} {y : ℕ → BitVec 8} {u v : ℕ → BitVec 8} {c : Fin 3}
    (hlohi : hi.val = lo + 1)
    (hsub : ∀ q, (subY q).Ensures fun s => ∀ lane : Fin 4,
      (s lane).toInt = chromaPart (u (4 * q + lane)) (v (4 * q + lane)) c)
    (heven : ∀ q lane : Fin 4, (yEven q lane).toInt = lumaPart (y (2 * (4 * q + lane))))
    (hodd : ∀ q lane : Fin 4, (yOdd q lane).toInt = lumaPart (y (2 * (4 * q + lane) + 1))) :
    (addLuma subY yEven yOdd lo hi).Ensures fun s => ∀ lane : Fin 16, s lane =
      saturatedColour (y (8 * lo + lane)) (u ((8 * lo + lane) / 2)) (v ((8 * lo + lane) / 2)) c := by
  have hfit : ∀ (p x : ℕ),
      -2 ^ (32 - 1) ≤ chromaPart (u p) (v p) c + lumaPart (y x) ∧
        chromaPart (u p) (v p) c + lumaPart (y x) < 2 ^ (32 - 1) := by
    intro p x
    have := chromaPart_bounds (u p) (v p) c
    have := lumaPart_bounds (y x)
    omega
  refine (hsub lo).bind fun subLo hlo => (hsub hi).bind fun subHi hhi => ?_
  refine (vaddqS_ensures (by decide) hlo (hodd lo) fun lane => hfit _ _).bind fun oddLo hoddLo => ?_
  refine (vaddqS_ensures (by decide) hhi (hodd hi) fun lane => hfit _ _).bind fun oddHi hoddHi => ?_
  refine (vaddqS_ensures (by decide) hlo (heven lo) fun lane => hfit _ _).bind
    fun evenLo hevenLo => ?_
  refine (vaddqS_ensures (by decide) hhi (heven hi) fun lane => hfit _ _).bind
    fun evenHi hevenHi => .pure fun lane => ?_
  rw [saturatedColour_eq, Int.add_comm, show (8 * lo.val + lane) / 2 = 4 * lo + lane / 2 by omega]
  refine normalizeAndPack_eq (f := fun x => chromaPart (u (4 * lo + x / 2)) (v (4 * lo + x / 2)) c +
    lumaPart (y (8 * lo + x))) (fun lane => ?_) (fun lane => ?_) (fun lane => ?_) (fun lane => ?_) lane
  · rw [hevenLo, Nat.mul_div_cancel_left _ Nat.two_pos,
      show 2 * (4 * lo.val + lane) = 8 * lo + 2 * lane by omega]
  · rw [hevenHi, Nat.mul_div_cancel_left _ Nat.two_pos, hlohi,
      show 2 * (4 * (lo.val + 1) + lane) = 8 * lo + 2 * (4 + lane) by omega,
      show 4 * (lo.val + 1) + lane = 4 * lo + (4 + lane) by omega]
  · rw [hoddLo, show (2 * lane.val + 1) / 2 = lane by omega,
      show 2 * (4 * lo.val + lane) + 1 = 8 * lo + (2 * lane + 1) by omega]
  · rw [hoddHi, show (2 * (4 + lane.val) + 1) / 2 = 4 + lane by omega, hlohi,
      show 2 * (4 * (lo.val + 1) + lane) + 1 = 8 * lo + (2 * (4 + lane) + 1) by omega,
      show 4 * (lo.val + 1) + lane = 4 * lo + (4 + lane) by omega]

/-- **A vector of 16 pairs.** -/
theorem vectorPath_ensures (src : ℕ → BitVec 8) (srcPtr dstPtr : ℕ) (m : ℕ → BitVec 8) :
    (op.vectorPath src srcPtr dstPtr m).Ensures (· =
      vstInterleaved op.dcn (fun k (lane : Fin 16) => op.pixelAt src srcPtr (16 + lane) k)
        (dstPtr + 16 * op.dcn)
        (vstInterleaved op.dcn (fun k (lane : Fin 16) => op.pixelAt src srcPtr lane k) dstPtr m)) := by
  have hu := widen_toInt (vldInterleaved 4 src srcPtr op.order.uIdx)
  have hv := widen_toInt (vldInterleaved 4 src srcPtr op.order.vIdx)
  have hchroma : ∀ k (q lane : Fin 4), vldInterleaved 4 src srcPtr k ⟨4 * q + lane, by omega⟩ =
      src (srcPtr + (4 * q + lane) * 4 + k) := fun k q lane =>
    congrArg src (show srcPtr + (4 * (4 * q.val + lane) + k) = _ by ring)
  simp only [hchroma] at hu hv
  refine (weighLuma_ensures (f := fun p => src (srcPtr + 2 * p / 2 * 4 +
    (op.order.yIdx + 2 * p % 2 * 2))) fun lane => ?_).bind fun yEven heven => ?_
  · exact congrArg src (show srcPtr + (4 * lane.val + op.order.yIdx) = _ by omega)
  refine (weighLuma_ensures (f := fun p => src (srcPtr + (2 * p + 1) / 2 * 4 +
    (op.order.yIdx + (2 * p + 1) % 2 * 2))) fun lane => ?_).bind fun yOdd hodd => ?_
  · exact congrArg src (show srcPtr + (4 * lane.val + (op.order.yIdx + 2)) = _ by omega)
  have hchannel : ∀ {c : Fin 3} {subY : Fin 4 → Tracked (Fin 4 → BitVec 32)},
      (∀ q, (subY q).Ensures fun s => ∀ lane : Fin 4, (s lane).toInt =
        chromaPart (src (srcPtr + (4 * q + lane) * 4 + op.order.uIdx))
          (src (srcPtr + (4 * q + lane) * 4 + op.order.vIdx)) c) →
      ((addLuma subY yEven yOdd 0 1).Ensures fun s => ∀ lane : Fin 16,
        s lane = op.colourAt src srcPtr lane c) ∧
      (addLuma subY yEven yOdd 2 3).Ensures fun s => ∀ lane : Fin 16,
        s lane = op.colourAt src srcPtr (16 + lane) c := by
    intro c subY hsub
    constructor
    · refine (addLuma_ensures 0 1 (y := fun x => src (srcPtr + x / 2 * 4 +
        (op.order.yIdx + x % 2 * 2))) (u := fun p => src (srcPtr + p * 4 + op.order.uIdx))
        (v := fun p => src (srcPtr + p * 4 + op.order.vIdx)) rfl hsub heven hodd).imp
        fun s hs lane => (hs lane).trans ?_
      rw [show 8 * (0 : Fin 4).val + lane.val = lane from Nat.zero_add _]
      rfl
    · exact addLuma_ensures 2 3 (y := fun x => src (srcPtr + x / 2 * 4 +
        (op.order.yIdx + x % 2 * 2))) (u := fun p => src (srcPtr + p * 4 + op.order.uIdx))
        (v := fun p => src (srcPtr + p * 4 + op.order.vIdx)) rfl hsub heven hodd
  obtain ⟨hr0, hr1⟩ := hchannel fun q => redSubY_ensures (hv q)
  obtain ⟨hg0, hg1⟩ := hchannel fun q => greenSubY_ensures (hu q) (hv q)
  obtain ⟨hb0, hb1⟩ := hchannel fun q => blueSubY_ensures (hu q)
  refine hr0.bind fun r0 hr0 => hr1.bind fun r1 hr1 => ?_
  refine hg0.bind fun g0 hg0 => hg1.bind fun g1 hg1 => ?_
  refine hb0.bind fun b0 hb0 => hb1.bind fun b1 hb1 => .pure ?_
  have hstore : ∀ {r g b : Fin 16 → BitVec 8} {x : ℕ},
      (∀ lane, r lane = op.colourAt src srcPtr (x + lane) 0) →
      (∀ lane, g lane = op.colourAt src srcPtr (x + lane) 1) →
      (∀ lane, b lane = op.colourAt src srcPtr (x + lane) 2) →
      op.interleave r g b = fun k (lane : Fin 16) => op.pixelAt src srcPtr (x + lane) k := by
    intro r g b x hr hg hb
    funext k lane
    rw [interleave, pixelAt]
    split_ifs
    · exact hr lane
    · exact hg lane
    · exact hb lane
    · rfl
  have hfirst := hstore (r := r0) (g := g0) (b := b0) (x := 0)
  simp only [Nat.zero_add] at hfirst
  rw [hstore hr1 hg1 hb1, hfirst hr0 hg0 hb0]

/-! ### Two pixels -/

theorem storePixel_ensures (src : ℕ → BitVec 8) (srcRow x dstPtr : ℕ) (m : ℕ → BitVec 8) :
    let u := src (srcRow + x / 2 * 4 + op.order.uIdx)
    let v := src (srcRow + x / 2 * 4 + op.order.vIdx)
    (op.storePixel (src (srcRow + x / 2 * 4 + (op.order.yIdx + x % 2 * 2))) (chromaPart u v 0)
      (chromaPart u v 1) (chromaPart u v 2) dstPtr m).Ensures
      (· = overwrite m dstPtr op.dcn (op.pixelAt src srcRow x)) := by
  intro u v
  have hy := lumaPart_bounds (src (srcRow + x / 2 * 4 + (op.order.yIdx + x % 2 * 2)))
  have h0 := chromaPart_bounds u v 0
  have h1 := chromaPart_bounds u v 1
  have h2 := chromaPart_bounds u v 2
  refine (int32_ensures (x := lumaPart _) (by omega)).bind fun y hy' => ?_
  refine (int32_ensures (by omega)).bind fun r hr => ?_
  refine (int32_ensures (by omega)).bind fun g hg => ?_
  refine (int32_ensures (by omega)).bind fun b hb => .pure ?_
  have hbidx : (2 - op.bIdx = 0 ∧ op.bIdx = 2) ∨ (2 - op.bIdx = 2 ∧ op.bIdx = 0) := by
    rw [bIdx]
    split <;> decide
  have hcolour : ∀ c, saturatingCast
      ((lumaPart (src (srcRow + x / 2 * 4 + (op.order.yIdx + x % 2 * 2))) + chromaPart u v c) /
        2 ^ weightScale) = op.colourAt src srcRow x c := fun c => (saturatedColour_eq _ _ _ c).symm
  rw [dcn, ← overwrite_rgba hbidx, hr, hg, hb, hy', hcolour, hcolour, hcolour]
  simp only [pixelAt, if_true, if_neg (show 1 ≠ 2 - op.bIdx by omega),
    if_neg (show op.bIdx ≠ 2 - op.bIdx by omega), if_neg (show op.bIdx ≠ 1 by omega),
    if_neg (show 3 ≠ 2 - op.bIdx by omega), if_neg (show (3 : ℕ) ≠ 1 by decide),
    if_neg (show 3 ≠ op.bIdx by omega)]

/-- **Two pixels.** -/
theorem scalarPath_ensures (src : ℕ → BitVec 8) (srcPtr dstPtr : ℕ) (m : ℕ → BitVec 8) :
    (op.scalarPath src srcPtr dstPtr m).Ensures (· =
      overwrite (overwrite m dstPtr op.dcn (op.pixelAt src srcPtr 0)) (dstPtr + op.dcn) op.dcn
        (op.pixelAt src srcPtr 1)) := by
  have hu := (src (srcPtr + op.order.uIdx)).isLt
  have hv := (src (srcPtr + op.order.vIdx)).isLt
  have hround : (2 : ℤ) ^ (weightScale - 1) = 2 ^ 19 := by decide
  have hr := chromaPart_bounds (src (srcPtr + op.order.uIdx)) (src (srcPtr + op.order.vIdx)) 0
  have hg := chromaPart_bounds (src (srcPtr + op.order.uIdx)) (src (srcPtr + op.order.vIdx)) 1
  have hb := chromaPart_bounds (src (srcPtr + op.order.uIdx)) (src (srcPtr + op.order.vIdx)) 2
  rw [chromaPart] at hr hg hb
  simp only [Matrix.cons_val_zero, Matrix.cons_val_one, Matrix.cons_val] at hr hg hb
  refine (int32_ensures (by omega)).bind fun uM128 hum => ?_
  refine (int32_ensures (by omega)).bind fun vM128 hvm => ?_
  rw [hum, hvm]
  refine (int32_ensures (by omega)).bind fun r hr' => ?_
  refine (int32_ensures (by rw [hr', hround]; omega)).bind fun rSubY hrs => ?_
  refine (int32_ensures (by rw [guWeight]; omega)).bind fun gu hgu => ?_
  refine (int32_ensures (by rw [gvWeight]; omega)).bind fun gv hgv => ?_
  refine (int32_ensures (by omega)).bind fun g hg' => ?_
  refine (int32_ensures (by rw [hround]; omega)).bind fun gSubY hgs => ?_
  refine (int32_ensures (by omega)).bind fun b hb' => ?_
  refine (int32_ensures (by rw [hround]; omega)).bind fun bSubY hbs => ?_
  rw [hrs, hr', hgs, hg', hgu, hgv, hbs, hb', hround]
  refine (op.storePixel_ensures src srcPtr 0 dstPtr m).bind fun m' hm' => ?_
  rw [hm']
  exact op.storePixel_ensures src srcPtr 1 _ _

/-! ### Rows -/

/-- **A row**, with vectors or without them. -/
theorem row_ensures (src : ℕ → BitVec 8) (srcRow dstRow : ℕ) {width : ℕ} (hwidth : width % 2 = 0)
    (m : ℕ → BitVec 8) :
    let pixels := written dstRow op.dcn (op.pixelAt src srcRow)
    (op.processRow src srcRow dstRow width (pure m)).Ensures (· = pixels width m) ∧
      (op.scalarRow src srcRow dstRow width (pure m)).Ensures (· = pixels width m) := by
  intro pixels
  have hdcn : 0 < op.dcn := by
    rw [dcn]
    split <;> decide
  -- The pixels from an even column on.
  have hshift : ∀ i x k, i % 2 = 0 → op.pixelAt src (srcRow + i * 2) x k =
      op.pixelAt src srcRow (i + x) k := by
    intro i x k hi
    have hpair : srcRow + i * 2 + x / 2 * 4 = srcRow + (i + x) / 2 * 4 := by omega
    have hodd : x % 2 = (i + x) % 2 := by omega
    simp only [pixelAt, colourAt, hpair, hodd]
  have hstart : 0 % 2 = 0 ∧ (pure m : Tracked (ℕ → BitVec 8)).Ensures (· = pixels 0 m) :=
    ⟨rfl, .pure written_zero.symm⟩
  have hpair : ∀ i (s : Tracked (ℕ → BitVec 8)), i % 2 = 0 → s.Ensures (· = pixels i m) →
      (s >>= op.scalarPath src (srcRow + i * 2) (dstRow + i * op.dcn)).Ensures
        (· = pixels (i + 2) m) := by
    intro i s heven hs
    refine hs.bind fun m' hm' => (op.scalarPath_ensures src _ _ m').imp fun m'' hm'' => ?_
    have hfirst : overwrite (pixels i m) (dstRow + i * op.dcn) op.dcn
        (op.pixelAt src (srcRow + i * 2) 0) = pixels (i + 1) m :=
      written_pixel hdcn fun k _ => hshift i 0 k heven
    have hnext : dstRow + i * op.dcn + op.dcn = dstRow + (i + 1) * op.dcn := by ring
    rw [hm'', hm', hfirst, hnext]
    exact written_pixel hdcn fun k _ => hshift i 1 k heven
  have hrest : ∀ i (s : Tracked (ℕ → BitVec 8)), i ≤ width →
      i % 2 = 0 ∧ s.Ensures (· = pixels i m) →
      width % 2 = 0 ∧ (forSteps i 2 width (fun index s =>
        s >>= op.scalarPath src (srcRow + index * 2) (dstRow + index * op.dcn)) s).Ensures
        (· = pixels width m) := by
    intro i s hi hs
    refine forSteps_invariant
      (fun i (s : Tracked (ℕ → BitVec 8)) => i % 2 = 0 ∧ s.Ensures (· = pixels i m))
      Nat.two_pos hi hs fun j _ hj s hs => ?_
    rw [Nat.min_eq_left (by have := hs.1; omega)]
    exact ⟨by omega, hpair j s hs.1 hs.2⟩
  refine ⟨?_, (hrest 0 _ (Nat.zero_le _) hstart).2⟩
  have hvector : ∀ i (s : Tracked (ℕ → BitVec 8)), i % 2 = 0 → s.Ensures (· = pixels i m) →
      (s >>= op.vectorPath src (srcRow + i * 2) (dstRow + i * op.dcn)).Ensures
        (· = pixels (i + 2 * 16) m) := by
    intro i s heven hs
    refine hs.bind fun m' hm' => (op.vectorPath_ensures src _ _ m').imp fun m'' hm'' => ?_
    have hfirst : vstInterleaved op.dcn (fun k (lane : Fin 16) =>
        op.pixelAt src (srcRow + i * 2) lane k) (dstRow + i * op.dcn) (pixels i m) =
        pixels (i + 16) m :=
      written_vector hdcn le_rfl (Nat.le_add_right _ _) fun lane k _ => hshift i lane k heven
    have hnext : dstRow + i * op.dcn + 16 * op.dcn = dstRow + (i + 16) * op.dcn := by ring
    rw [hm'', hm', hfirst, hnext]
    refine written_vector hdcn le_rfl (Nat.le_add_right _ _) fun lane k _ => ?_
    rw [hshift i (16 + lane) k heven, Nat.add_assoc]
  have hloop : Unrolled width 16
      (fun i (s : Tracked (ℕ → BitVec 8)) => i % 2 = 0 ∧ s.Ensures (· = pixels i m))
      (LoopUnroll2.start width 16, pure m) := Unrolled.start hstart
  exact hloop.unrollNTimes_remaining (show 0 < 2 * 16 by decide)
    (fun s => s.Ensures (· = pixels width m))
    (fun i s _ hs => ⟨by have := hs.1; omega, hvector i s hs.1 hs.2⟩) (fun s hs => hs.2)
    fun i s hi _ hs => (hrest i s hi.le hs).2

/-- **An image**, with vectors or without them. -/
theorem yuv2rgbxOperation_eq (src : ℕ → BitVec 8) (srcPtr srcStride dst dstStride : ℕ) {width : ℕ}
    (hwidth : width % 2 = 0) (height : ℕ) (m : ℕ → BitVec 8) :
    ∃ m', yuv2rgbxOperation (op.processRow src) srcPtr srcStride dst dstStride width height
        (pure m) = pure m' ∧
      yuv2rgbxOperation (op.scalarRow src) srcPtr srcStride dst dstStride width height
        (pure m) = pure m' := by
  refine forRange_rel (fun _ s t => ∃ m', s = pure m' ∧ t = pure m') ⟨m, rfl, rfl⟩ ?_
  rintro y - s t ⟨m', rfl, rfl⟩
  obtain ⟨hvector, hscalar⟩ := op.row_ensures src (srcPtr + y * srcStride) (dst + y * dstStride)
    hwidth m'
  exact ⟨_, hvector.eq_pure, hscalar.eq_pure⟩

end Yuv422ToRgbxOrBgrx

end KleidiCV
