/-
The arithmetic of the generic `resize_linear` kernels for `uint8_t`: fixed-point
source coordinates, the lanes that are derived from them, and the interpolation.

A value that does not fit its type makes a computation fail, so that a result tells
that nothing wrapped.  The indices of the table lookups are left out.

* `alignedScale`, `initialCoordinate`, `coordinateStep`, `scaleX` — the coordinates;
* `rowInterpolationConstants` — all that the generator evaluates for a row;
* `lerp_exact`, `lerpq_exact` — the interpolation, with its rounding;
* `resizeGenericU8_exact` — nothing fails, for every call that takes a generic kernel.
-/
import KleidiCV.Lib.Checked
import KleidiCV.ResizeLinear

open Checked

namespace KleidiCV

namespace ResizeGenericU8

/-! ### Coordinates -/

/-- `kFixpBits`. -/
def kFixpBits : ℕ := 16

/-- `kFixpHalf`. -/
def kFixpHalf : ℕ := 2 ^ (kFixpBits - 1)

/-- `kInterpolationBits`. -/
def kInterpolationBits : ℕ := 15

/-- `kCoordinateBits`. -/
def kCoordinateBits : ℕ := 32

/-- `rounding_div`, before the conversion to the type of its result. -/
def roundingDiv (nom denom : ℕ) : Option ℕ := do
  let sum ← unsigned 64 (nom + denom / 2)
  return sum / denom

/-- `rounding_div<int64_t>`. -/
def roundingDivS64 (nom denom : ℕ) : Option ℤ := do
  let quotient ← roundingDiv nom denom
  signed 63 quotient

/-- `aligned_scale`. -/
def alignedScale (x nom denom : ℕ) : Option ℤ := do
  let shifted ← unsigned 64 (x * 2 ^ kFixpBits)
  let centre ← unsigned 64 (shifted + kFixpHalf)
  let product ← unsigned 64 (centre * nom)
  let scaled ← roundingDivS64 product denom
  let aligned ← signed 63 (scaled - kFixpHalf)
  signed 63 (aligned + 2 ^ (kFixpBits - kInterpolationBits - 1))

/-- `initial_coordinate`. -/
def initialCoordinate (nom denom : ℕ) : Option ℤ := do
  let kNarrowingBias := 3 * 2 ^ (kCoordinateBits - kFixpBits - 1)
  let product ← unsigned 64 (nom * 2 ^ (kCoordinateBits - 1))
  let scaled ← roundingDivS64 product denom
  let aligned ← signed 63 (scaled - 2 ^ (kCoordinateBits - 1))
  signed 63 (aligned + kNarrowingBias)

/-- `coordinate_step`. -/
def coordinateStep (destinationPixels nom denom : ℕ) : Option ℤ := do
  let product ← unsigned 64 (nom * destinationPixels)
  let shifted ← unsigned 64 (product * 2 ^ kCoordinateBits)
  roundingDivS64 shifted denom

/-- `narrow_coordinate`. -/
def narrowCoordinate (coordinate : ℤ) : ℤ := coordinate / 2 ^ (kCoordinateBits - kFixpBits)

/-- `interpolation_fraction`. -/
def interpolationFraction (coordinate : ℤ) : ℕ :=
  (coordinate % 2 ^ 16).toNat / 2 ^ (kFixpBits - kInterpolationBits)

/-- `scale_x`, with the conversion to `uint32_t`. -/
def scaleX (srcWidth dstWidth dx : ℕ) : Option ℕ := do
  let product ← unsigned 64 (dx * srcWidth)
  let shifted ← unsigned 64 (product * 2 ^ kFixpBits)
  let quotient ← roundingDiv shifted dstWidth
  return quotient % 2 ^ 32

/-- `clamp_src_x`. -/
def clampSrcX (sx maxSx : ℤ) : ℤ := max 0 (min sx maxSx)

/-! ### The constants of a row -/

/-- What a vector of constants is computed from, its lanes `vsx_delta` and its weights. -/
structure VectorCoordinates (n : ℕ) where
  sxFixp : ℤ
  sxBase : ℤ
  delta : Fin n → ℤ
  xfrac : Fin n → ℕ

/-- Half a vector of constants computed one by one. -/
structure ScalarCoordinates where
  coordinate : Fin kHalfStep → ℤ
  xfrac : Fin kHalfStep → ℕ

structure RowInterpolationConstants where
  full : List (VectorCoordinates kStep)
  half : List (VectorCoordinates kHalfStep)
  halfScalar : List ScalarCoordinates

/-- The lanes of `vaddq_s32(vsx, vdupq_n_s32(xfrac0))`; `vsx` is reinterpreted as signed. -/
def addFraction {n : ℕ} (vsx : Fin n → ℕ) (sxFixp sxBase xfrac0 : ℤ) :
    Option (VectorCoordinates n) := do
  let delta ← lanes fun lane =>
    signed 31 ((if vsx lane < 2 ^ 31 then (vsx lane : ℤ) else vsx lane - 2 ^ 32) + xfrac0)
  return ⟨sxFixp, sxBase, delta, fun lane => interpolationFraction (delta lane)⟩

/-- `calculate_indices_fractions_base_fullvector`, and the same for half a vector. -/
def calculateIndicesFractionsBase {n : ℕ} (vsx0 : Fin n → ℕ) (sxBase sxFixp : ℤ) :
    Option (VectorCoordinates n) := do
  let base ← signed 63 (sxBase * 2 ^ kFixpBits)
  let difference ← signed 63 (sxFixp - base)
  let xfrac0 ← signed 31 difference
  addFraction vsx0 sxFixp sxBase xfrac0

/-- `fill_full_constants_vectorially`. -/
def fillFullConstantsVectorially {n : ℕ} (vsx : Fin n → ℕ) (sxFixp : ℤ) :
    Option (VectorCoordinates n) :=
  let sxBase := sxFixp / 2 ^ kFixpBits
  let xfrac0 := sxFixp % 2 ^ kFixpBits
  addFraction vsx sxFixp sxBase xfrac0

section

variable (kRatio kChannels : ℕ) (kUpsize : Bool) (srcWidth dstWidth : ℕ)

/-- The variables of the loop over full vectors. -/
structure FullState where
  sxCoordinate : ℤ
  dx : ℕ
  constants : List (VectorCoordinates kStep)

/-- The constants of one full vector. -/
def fullVector (vsx0 : Fin kStep → ℕ) (maxSxFullvector sxCoordinateStep : ℤ) (s : FullState) :
    Option FullState := do
  let sxFixp := narrowCoordinate s.sxCoordinate
  let sxCandidate := sxFixp / 2 ^ kFixpBits
  let sxBase := clampSrcX sxCandidate maxSxFullvector
  let constants ← calculateIndicesFractionsBase vsx0 sxBase sxFixp
  let sxCoordinate ← signed 63 (s.sxCoordinate + sxCoordinateStep)
  let dx ← unsigned 64 (s.dx + kStep / kChannels)
  return ⟨sxCoordinate, dx, s.constants ++ [constants]⟩

/-- The variables of the loop over half vectors. -/
structure HalfState where
  sxFixp : ℤ
  dx : ℕ
  constants : List (VectorCoordinates kHalfStep)

/-- The constants of one half vector. -/
def halfVector (vsx0 : Fin kHalfStep → ℕ) (maxDxHalf : ℕ)
    (maxSxHalf sxFixpOneDstPixel sxFixpHalfStep : ℤ) (s : HalfState) : Option HalfState := do
  let dxPulledBack := min s.dx maxDxHalf
  let pulled ← signed 63 (((s.dx - dxPulledBack : ℕ) : ℤ) * sxFixpOneDstPixel)
  let sxFixp ← signed 63 (s.sxFixp - pulled)
  let sxCandidate := sxFixp / 2 ^ kFixpBits
  let sxBase := clampSrcX sxCandidate maxSxHalf
  let constants ← calculateIndicesFractionsBase vsx0 sxBase sxFixp
  let dx ← unsigned 64 (dxPulledBack + kHalfStep / kChannels)
  let sxFixp ← signed 63 (sxFixp + sxFixpHalfStep)
  return ⟨sxFixp, dx, s.constants ++ [constants]⟩

/-- `kHalfVectorSrcReadSize`. -/
def kHalfVectorSrcReadSize : ℕ :=
  let kLoadTwo := (kRatio = 3 ∨ kChannels = 3) ∧ kUpsize = false
  if kLoadTwo then 32 else 16

/-- `RowInterpolationConstantsGenerator<kRatio, kChannels, kUpsize>`, for one, two and four
channels. -/
def rowInterpolationConstants124 : Option RowInterpolationConstants := do
  let num := calculateNumOfVectorPaths kRatio kChannels srcWidth dstWidth
  let vsx0 ← lanes fun lane : Fin kStep => scaleX srcWidth dstWidth (lane / kChannels)
  let maxSxFullvector := (srcWidth * kChannels - kRatio * kStep) / kChannels
  let sxCoordinateStep ← coordinateStep (kStep / kChannels) srcWidth dstWidth
  let sxCoordinate ← initialCoordinate srcWidth dstWidth
  let path := fullVector kChannels vsx0 maxSxFullvector sxCoordinateStep
  let s ← tryForRange num.1 (fun _ s => (path s).bind path) ⟨sxCoordinate, 0, []⟩
  let sxFixp ← alignedScale s.dx srcWidth dstWidth
  let width ← unsigned 64 (srcWidth * 2 ^ kFixpBits)
  let sxFixpOneDstPixel ← roundingDivS64 width dstWidth
  let readable ← sub (srcWidth * kChannels) (kHalfVectorSrcReadSize kRatio kChannels kUpsize)
  let maxSxHalf := readable / kChannels
  let maxDxHalf ← sub dstWidth (kHalfStep / kChannels)
  let halfWidth ← unsigned 64 (srcWidth * kHalfStep / kChannels * 2 ^ kFixpBits)
  let sxFixpHalfStep ← roundingDivS64 halfWidth dstWidth
  let vsx0Half ← lanes fun lane : Fin kHalfStep => scaleX srcWidth dstWidth (lane / kChannels)
  let t ← tryForRange num.2
    (fun _ => halfVector kChannels vsx0Half maxDxHalf maxSxHalf sxFixpOneDstPixel sxFixpHalfStep)
    ⟨sxFixp, s.dx, []⟩
  return ⟨s.constants, t.constants, []⟩

/-- The constants of one full vector for three channels; the coordinate advances after the
third of three vectors. -/
def fullVector3 (vsx : Fin 3 → Fin kStep → ℕ) (sxCoordinateTripletStep : ℤ) (handled : ℕ)
    (s : FullState) : Option FullState := do
  let sxFixp := narrowCoordinate s.sxCoordinate
  let constants ← fillFullConstantsVectorially (vsx (Fin.ofNat 3 handled)) sxFixp
  let dstElementIndex ← unsigned 64 (s.dx + kStep)
  if handled % 3 = 2 then
    let sxCoordinate ← signed 63 (s.sxCoordinate + sxCoordinateTripletStep)
    return ⟨sxCoordinate, dstElementIndex, s.constants ++ [constants]⟩
  else return ⟨s.sxCoordinate, dstElementIndex, s.constants ++ [constants]⟩

/-- `fill_half_constants_scalarly`; the coordinate advances from one pixel to the next. -/
def fillHalfConstantsScalarly (inPixelIndex : ℕ) (srcElementIndex srcElementBase sxFixp : ℤ)
    (sxFixpOneDstPixel : ℤ) : Option ScalarCoordinates := do
  let coordinate ← lanes fun j : Fin kHalfStep =>
    signed 63 (sxFixp + ((inPixelIndex + j) / 3 : ℕ) * sxFixpOneDstPixel)
  return ⟨coordinate, fun j =>
    if inPixelIndex + j < 3 ∧ srcElementIndex < srcElementBase then 0
    else interpolationFraction (coordinate j)⟩

/-- The constants of one half vector for three channels; the state counts destination elements. -/
def halfVector3 (maxDstIndexHalf : ℕ) (maxSrcBaseIndex sxFixpOneDstPixel : ℤ)
    (s : ℕ × List ScalarCoordinates) : Option (ℕ × List ScalarCoordinates) := do
  let dstElementIndex := min s.1 maxDstIndexHalf
  let dx := dstElementIndex / 3
  let inPixelIndex := dstElementIndex % 3
  let sxFixpPixel0 ← alignedScale dx srcWidth dstWidth
  let sxFixpPixel1 ← alignedScale (dx + 1) srcWidth dstWidth
  let srcElementIndexPixel0 := sxFixpPixel0 / 2 ^ kFixpBits * 3 + inPixelIndex
  let srcElementIndexPixel1 := sxFixpPixel1 / 2 ^ kFixpBits * 3
  let srcElementBase :=
    clampSrcX (min srcElementIndexPixel0 srcElementIndexPixel1) maxSrcBaseIndex
  let constants ← fillHalfConstantsScalarly inPixelIndex srcElementIndexPixel0 srcElementBase
    sxFixpPixel0 sxFixpOneDstPixel
  let next ← unsigned 64 (dstElementIndex + kHalfStep)
  return (next, s.2 ++ [constants])

/-- `RowInterpolationConstantsGenerator<kRatio, 3, kUpsize>`. -/
def rowInterpolationConstants3 : Option RowInterpolationConstants := do
  let num := calculateNumOfVectorPaths kRatio 3 srcWidth dstWidth
  -- `vsx_r`, `vsx_g` and `vsx_b`, one after the other.
  let vsx ← lanes fun vector : Fin 3 => lanes fun lane : Fin kStep =>
    scaleX srcWidth dstWidth ((vector * kStep + lane) / 3)
  let width ← unsigned 64 (srcWidth * 2 ^ kFixpBits)
  let sxFixpOneDstPixel ← roundingDivS64 width dstWidth
  let sxCoordinateTripletStep ← coordinateStep kStep srcWidth dstWidth
  let sxCoordinate ← initialCoordinate srcWidth dstWidth
  let s ← tryForRange (num.1 * 2)
    (fullVector3 vsx sxCoordinateTripletStep) ⟨sxCoordinate, 0, []⟩
  let maxSrcBaseIndex := srcWidth * 3 - kHalfVectorSrcReadSize kRatio 3 kUpsize
  let maxDstIndexHalf ← sub (dstWidth * 3) kHalfStep
  let t ← tryForRange num.2
    (fun _ => halfVector3 srcWidth dstWidth maxDstIndexHalf maxSrcBaseIndex sxFixpOneDstPixel)
    (s.dx, [])
  return ⟨s.constants, [], t.2⟩

/-- The generator of a kernel. -/
def rowInterpolationConstants : Option RowInterpolationConstants :=
  if kChannels = 3 then rowInterpolationConstants3 kRatio kUpsize srcWidth dstWidth
  else rowInterpolationConstants124 kRatio kChannels kUpsize srcWidth dstWidth

end

/-! ### Interpolation -/

/-- `vreinterpretq_s16_u16`. -/
def toS16 (x : U16) : ℤ := if x.val < 2 ^ 15 then x.val else (x.val : ℤ) - 2 ^ 16

/-- One lane of `vsubl_u8`. -/
def vsublU8 (x y : U8) : U16 := Fin.ofNat 65536 x.val - Fin.ofNat 65536 y.val

/-- One lane of `vqrdmulhq_s16`. -/
def vqrdmulhS16 (x y : ℤ) : ℤ := max (-2 ^ 15) (min ((2 * x * y + 2 ^ 15) / 2 ^ 16) (2 ^ 15 - 1))

/-- `lerp_delta`; the scalar weight of its other version is the same in all lanes. -/
def lerpDelta {n : ℕ} (a b : Fin n → U8) (w : Fin n → U16) : Fin n → ℤ := fun lane =>
  let difference := toS16 (vsublU8 (b lane) (a lane))
  vqrdmulhS16 difference (toS16 (w lane))

/-- One lane of `vmovn_s16`, the low byte. -/
def vmovnS16 (x : ℤ) : U8 := Fin.ofNat 256 (x % 256).toNat

/-- `lerp` of half vectors. -/
def lerp (a b : Fin 8 → U8) (w : Fin 8 → U16) : Fin 8 → U8 := fun lane =>
  a lane + vmovnS16 (lerpDelta a b w lane)

/-- `vget_low_u8`. -/
def vgetLowU8 (v : U8x16) : Fin 8 → U8 := fun lane => v (Fin.castLE (by decide) lane)

/-- `vget_high_u8`. -/
def vgetHighU8 (v : U8x16) : Fin 8 → U8 := fun lane => v (Fin.natAdd 8 lane)

/-- `vreinterpretq_u8_s16`, the bytes of the lanes in order. -/
def vreinterpretqU8S16 (v : Fin 8 → ℤ) : U8x16 := fun i =>
  Fin.ofNat 256 (v (Fin.ofNat 8 (i / 2)) / 256 ^ (i.val % 2) % 256).toNat

/-- `vuzp1q_u8`. -/
def vuzp1qU8 (a b : U8x16) : U8x16 := fun i =>
  if i.val < 8 then a (Fin.ofNat 16 (2 * i)) else b (Fin.ofNat 16 (2 * (i - 8)))

/-- `lerp` of full vectors. -/
def lerpq (a b : U8x16) (w0 w1 : Fin 8 → U16) : U8x16 :=
  let deltaLo := lerpDelta (vgetLowU8 a) (vgetLowU8 b) w0
  let deltaHi := lerpDelta (vgetHighU8 a) (vgetHighU8 b) w1
  let delta := vuzp1qU8 (vreinterpretqU8S16 deltaLo) (vreinterpretqU8S16 deltaHi)
  vaddqU8 a delta

/-! ### Exact values -/

/-- `rounding_div` over unbounded integers. -/
def exactRoundingDiv (nom denom : ℕ) : ℕ := (nom + denom / 2) / denom

/-- `aligned_scale` over unbounded integers. -/
def exactAlignedScale (x nom denom : ℕ) : ℤ :=
  exactRoundingDiv ((x * 2 ^ 16 + 2 ^ 15) * nom) denom - 2 ^ 15 + 1

/-- `initial_coordinate` over unbounded integers. -/
def exactInitialCoordinate (nom denom : ℕ) : ℤ :=
  exactRoundingDiv (nom * 2 ^ 31) denom - 2 ^ 31 + 3 * 2 ^ 15

/-- `coordinate_step` over unbounded integers. -/
def exactCoordinateStep (destinationPixels nom denom : ℕ) : ℕ :=
  exactRoundingDiv (nom * destinationPixels * 2 ^ 32) denom

/-- `scale_x` over unbounded integers. -/
def exactScaleX (srcWidth dstWidth dx : ℕ) : ℕ :=
  exactRoundingDiv (dx * srcWidth * 2 ^ 16) dstWidth

section

variable {nom denom : ℕ}

/-- The rounded quotient, from above and from below. -/
theorem exactRoundingDiv_bounds (nom : ℕ) (hdenom : 0 < denom) :
    denom * exactRoundingDiv nom denom ≤ nom + denom / 2 ∧
      nom + denom / 2 < denom * exactRoundingDiv nom denom + denom := by
  have hdiv := Nat.div_add_mod (nom + denom / 2) denom
  have hmod := Nat.mod_lt (nom + denom / 2) hdenom
  rw [exactRoundingDiv]
  omega

theorem roundingDiv_eq (h : nom + denom / 2 < 2 ^ 64) :
    roundingDiv nom denom = some (exactRoundingDiv nom denom) := by
  rw [roundingDiv, unsigned_eq h]
  rfl

theorem roundingDivS64_eq (nom : ℕ) (h : nom + denom / 2 < 2 ^ 64) (hdenom : 0 < denom)
    (hquotient : nom + denom / 2 < 2 ^ 63 * denom) :
    roundingDivS64 nom denom = some (exactRoundingDiv nom denom : ℤ) := by
  have hlt : exactRoundingDiv nom denom < 2 ^ 63 := (Nat.div_lt_iff_lt_mul hdenom).mpr hquotient
  rw [roundingDivS64, roundingDiv_eq h, Option.bind_eq_bind, Option.bind_some, signed_of_lt hlt]

/-- `aligned_scale`, up to one pixel past the end. -/
theorem alignedScale_eq {x : ℕ} (hnom : nom < 2 ^ 24) (hdenom : 0 < denom) (hlarge : denom < 2 ^ 24)
    (hx : x ≤ denom) : alignedScale x nom denom = some (exactAlignedScale x nom denom) := by
  have hproduct : (x * 2 ^ 16 + 2 ^ 15) * nom ≤ ((2 ^ 24 - 1) * 2 ^ 16 + 2 ^ 15) * (2 ^ 24 - 1) :=
    Nat.mul_le_mul (by omega) (by omega)
  have hnarrow : (x * 2 ^ 16 + 2 ^ 15) * nom ≤ 2 ^ 41 * denom := by
    calc (x * 2 ^ 16 + 2 ^ 15) * nom ≤ (denom * 2 ^ 17) * 2 ^ 24 :=
          Nat.mul_le_mul (by omega) hnom.le
      _ = 2 ^ 41 * denom := by ring
  have hdiv := roundingDivS64_eq ((x * 2 ^ 16 + 2 ^ 15) * nom) (by omega) hdenom (by omega)
  have hquotient : exactRoundingDiv ((x * 2 ^ 16 + 2 ^ 15) * nom) denom < 2 ^ 62 :=
    (Nat.div_lt_iff_lt_mul hdenom).mpr (by omega)
  simp only [alignedScale, kFixpBits, kFixpHalf, kInterpolationBits, Option.bind_eq_bind,
    Nat.reduceSub]
  rw [unsigned_eq (by omega), Option.bind_some, unsigned_eq (by omega), Option.bind_some,
    unsigned_eq (by omega), Option.bind_some, hdiv, Option.bind_some, signed_eq (by omega) (by omega),
    Option.bind_some, signed_eq (by omega) (by omega)]
  rfl

theorem initialCoordinate_eq (hnom : nom < 2 ^ 24) (hdenom : 0 < denom) (hlarge : denom < 2 ^ 24) :
    initialCoordinate nom denom = some (exactInitialCoordinate nom denom) := by
  have hdiv := roundingDivS64_eq (nom * 2 ^ 31) (by omega) hdenom (by omega)
  have hquotient : exactRoundingDiv (nom * 2 ^ 31) denom < 2 ^ 62 :=
    (Nat.div_lt_iff_lt_mul hdenom).mpr (by omega)
  simp only [initialCoordinate, kFixpBits, kCoordinateBits, Option.bind_eq_bind]
  rw [unsigned_eq (by omega), Option.bind_some, hdiv, Option.bind_some,
    signed_eq (by omega) (by omega), Option.bind_some, signed_eq (by omega) (by omega)]
  rfl

/-- `coordinate_step`, for as many pixels as the longest vector has bytes. -/
theorem coordinateStep_eq {destinationPixels : ℕ} (hnom : nom < 2 ^ 24) (hratio : nom ≤ 3 * denom)
    (hdenom : 0 < denom) (hlarge : denom < 2 ^ 24) (hpixels : destinationPixels ≤ 256) :
    coordinateStep destinationPixels nom denom =
      some (exactCoordinateStep destinationPixels nom denom : ℤ) := by
  have hproduct : nom * destinationPixels ≤ (2 ^ 24 - 1) * 256 :=
    Nat.mul_le_mul (by omega) hpixels
  have hnarrow : nom * destinationPixels ≤ 3 * denom * 256 := Nat.mul_le_mul hratio hpixels
  have hdiv := roundingDivS64_eq (nom * destinationPixels * 2 ^ 32) (by omega) hdenom
    (by omega)
  simp only [coordinateStep, kCoordinateBits, Option.bind_eq_bind]
  rw [unsigned_eq (by omega), Option.bind_some, unsigned_eq (by omega), Option.bind_some, hdiv]
  rfl

/-- `scale_x`, for as many pixels as the longest vector has bytes. -/
theorem scaleX_eq {dx : ℕ} (hnom : nom < 2 ^ 24) (hratio : nom ≤ 3 * denom) (hdenom : 0 < denom)
    (hlarge : denom < 2 ^ 24) (hdx : dx ≤ 256) :
    scaleX nom denom dx = some (exactScaleX nom denom dx) ∧ exactScaleX nom denom dx < 2 ^ 26 := by
  have hproduct : dx * nom ≤ 256 * (2 ^ 24 - 1) := Nat.mul_le_mul hdx (by omega)
  have hnarrow : dx * nom ≤ 256 * (3 * denom) := Nat.mul_le_mul hdx hratio
  have hlt : exactScaleX nom denom dx < 2 ^ 26 :=
    (Nat.div_lt_iff_lt_mul hdenom).mpr (by omega)
  refine ⟨?_, hlt⟩
  simp only [scaleX, kFixpBits, Option.bind_eq_bind]
  rw [unsigned_eq (by omega), Option.bind_some, unsigned_eq (by omega), Option.bind_some,
    roundingDiv_eq (by omega), Option.bind_some,
    show exactRoundingDiv (dx * nom * 2 ^ 16) denom = exactScaleX nom denom dx from rfl,
    Nat.mod_eq_of_lt (by omega)]
  rfl

end

/-! ### The lanes of a vector -/

/-- The lanes hold the coordinates of their pixels, relative to the base, in 32 bits, and the
weights have 15 bits. -/
structure VectorCoordinates.Exact {n : ℕ} (srcWidth dstWidth : ℕ) (pixel : Fin n → ℕ)
    (v : VectorCoordinates n) : Prop where
  delta : ∀ lane, v.delta lane =
    exactScaleX srcWidth dstWidth (pixel lane) + (v.sxFixp - v.sxBase * 2 ^ 16)
  int32 : ∀ lane, -2 ^ 31 ≤ v.delta lane ∧ v.delta lane < 2 ^ 31
  xfrac : ∀ lane, v.xfrac lane < 2 ^ 15

theorem interpolationFraction_lt (coordinate : ℤ) : interpolationFraction coordinate < 2 ^ 15 := by
  simp only [interpolationFraction, kFixpBits, kInterpolationBits, Nat.reduceSub]
  omega

section

variable {kRatio kChannels srcWidth dstWidth n : ℕ} {kUpsize : Bool}

theorem addFraction_exact {pixel : Fin n → ℕ} (sxFixp sxBase : ℤ) {xfrac0 : ℤ}
    (hvsx : ∀ lane, exactScaleX srcWidth dstWidth (pixel lane) < 2 ^ 26)
    (hxfrac0 : xfrac0 = sxFixp - sxBase * 2 ^ 16) (hlow : -2 ^ 30 ≤ xfrac0)
    (hhigh : xfrac0 < 2 ^ 30) :
    ∃ v, addFraction (fun lane => exactScaleX srcWidth dstWidth (pixel lane)) sxFixp sxBase xfrac0 =
      some v ∧ v.Exact srcWidth dstWidth pixel := by
  let delta : Fin n → ℤ := fun lane => exactScaleX srcWidth dstWidth (pixel lane) + xfrac0
  have hint32 : ∀ lane, -2 ^ 31 ≤ delta lane ∧ delta lane < 2 ^ 31 := by
    intro lane
    have hlane := hvsx lane
    simp only [delta]
    omega
  have hlanes : (lanes fun lane => signed 31
      ((if exactScaleX srcWidth dstWidth (pixel lane) < 2 ^ 31
        then (exactScaleX srcWidth dstWidth (pixel lane) : ℤ)
        else exactScaleX srcWidth dstWidth (pixel lane) - 2 ^ 32) + xfrac0)) = some delta := by
    refine lanes_eq fun lane => ?_
    rw [if_pos ((hvsx lane).trans (by norm_num))]
    exact signed_eq (hint32 lane).1 (hint32 lane).2
  refine ⟨⟨sxFixp, sxBase, delta, fun lane => interpolationFraction (delta lane)⟩, ?_, ?_, hint32, ?_⟩
  · rw [addFraction, hlanes]
    rfl
  · intro lane
    simp only [delta, hxfrac0]
  · exact fun lane => interpolationFraction_lt _

/-- What the generators rely on. -/
structure GenericSizes (kRatio kChannels : ℕ) (kUpsize : Bool) (srcWidth dstWidth : ℕ) : Prop where
  ratio : kRatio ∈ [1, 2, 3]
  channels : kChannels ∈ [1, 2, 3, 4]
  srcWidth_lt : srcWidth < 2 ^ 24
  dstWidth_lt : dstWidth < 2 ^ 24
  dstWidth_pos : 0 < dstWidth
  srcWidth_le : srcWidth ≤ 3 * dstWidth
  readable : kHalfVectorSrcReadSize kRatio kChannels kUpsize ≤ srcWidth * kChannels
  writable : kHalfStep ≤ dstWidth * kChannels

/-- A coordinate that is near the source row, from a base that leaves room for a load only. -/
theorem calculateIndicesFractionsBase_exact (pixel : Fin n → ℕ) (sxFixp : ℤ) {maxSx : ℕ}
    (hvsx : ∀ lane, exactScaleX srcWidth dstWidth (pixel lane) < 2 ^ 26)
    (hsrc : srcWidth < 2 ^ 24) (hmax : srcWidth ≤ maxSx + 49) (hmax' : maxSx ≤ srcWidth)
    (hlow : -2 ^ 29 ≤ sxFixp) (hhigh : sxFixp ≤ srcWidth * 2 ^ 16 + 2 ^ 29) :
    ∃ v, calculateIndicesFractionsBase (fun lane => exactScaleX srcWidth dstWidth (pixel lane))
        (clampSrcX (sxFixp / 2 ^ kFixpBits) maxSx) sxFixp = some v ∧
      v.Exact srcWidth dstWidth pixel := by
  simp only [calculateIndicesFractionsBase, clampSrcX, kFixpBits, Option.bind_eq_bind]
  rw [signed_eq (by omega) (by omega), Option.bind_some, signed_eq (by omega) (by omega),
    Option.bind_some, signed_eq (by omega) (by omega), Option.bind_some]
  exact addFraction_exact _ _ hvsx rfl (by omega) (by omega)

/-! ### Full vectors -/

theorem two_x_le (kRatio kChannels srcWidth dstWidth : ℕ) :
    (calculateNumOfVectorPaths kRatio kChannels srcWidth dstWidth).1 * 2 * 16 ≤
      dstWidth * kChannels := by
  have hdiv := Nat.div_mul_le_self (dstWidth * kChannels) (2 * 16)
  simp only [calculateNumOfVectorPaths]
  split
  · simp only [kStep]
    omega
  · omega

/-- The coordinate of a full vector that ends inside the destination row. -/
theorem coordinate_le {pixels k : ℕ} (hdst : 0 < dstWidth) (hratio : srcWidth ≤ 3 * dstWidth)
    (hpixels : 0 < pixels) (hk : k * pixels ≤ dstWidth) :
    exactRoundingDiv (srcWidth * 2 ^ 31) dstWidth + k * exactCoordinateStep pixels srcWidth dstWidth ≤
      srcWidth * 2 ^ 32 + 3 * 2 ^ 31 + 1 + dstWidth := by
  have hinitial := (exactRoundingDiv_bounds (srcWidth * 2 ^ 31) hdst).1
  have hstep := (exactRoundingDiv_bounds (srcWidth * pixels * 2 ^ 32) hdst).1
  have hkle : k ≤ dstWidth := (Nat.le_mul_of_pos_right k hpixels).trans hk
  have hsteps : k * (dstWidth * exactCoordinateStep pixels srcWidth dstWidth) ≤
      dstWidth * (srcWidth * 2 ^ 32) + dstWidth * dstWidth := by
    calc k * (dstWidth * exactCoordinateStep pixels srcWidth dstWidth)
        ≤ k * (srcWidth * pixels * 2 ^ 32 + dstWidth) :=
          Nat.mul_le_mul_left k (hstep.trans (Nat.add_le_add_left (Nat.div_le_self _ _) _))
      _ = k * pixels * (srcWidth * 2 ^ 32) + k * dstWidth := by ring
      _ ≤ dstWidth * (srcWidth * 2 ^ 32) + dstWidth * dstWidth :=
          Nat.add_le_add (Nat.mul_le_mul_right _ hk) (Nat.mul_le_mul_right _ hkle)
  refine Nat.le_of_mul_le_mul_left ?_ hdst
  calc dstWidth * (exactRoundingDiv (srcWidth * 2 ^ 31) dstWidth +
        k * exactCoordinateStep pixels srcWidth dstWidth)
      = dstWidth * exactRoundingDiv (srcWidth * 2 ^ 31) dstWidth +
          k * (dstWidth * exactCoordinateStep pixels srcWidth dstWidth) := by ring
    _ ≤ (srcWidth * 2 ^ 31 + dstWidth / 2) +
          (dstWidth * (srcWidth * 2 ^ 32) + dstWidth * dstWidth) := Nat.add_le_add hinitial hsteps
    _ ≤ 3 * dstWidth * 2 ^ 31 + dstWidth +
          (dstWidth * (srcWidth * 2 ^ 32) + dstWidth * dstWidth) := by omega
    _ = dstWidth * (srcWidth * 2 ^ 32 + 3 * 2 ^ 31 + 1 + dstWidth) := by ring

/-- The coordinate of a full vector, as the generator advances it. -/
def exactCoordinate (pixels srcWidth dstWidth k : ℕ) : ℤ :=
  exactInitialCoordinate srcWidth dstWidth + k * exactCoordinateStep pixels srcWidth dstWidth

theorem exactCoordinate_bounds {pixels k : ℕ} (hdst : 0 < dstWidth) (hlarge : dstWidth < 2 ^ 24)
    (hratio : srcWidth ≤ 3 * dstWidth) (hpixels : 0 < pixels) (hk : k * pixels ≤ dstWidth) :
    -2 ^ 31 ≤ exactCoordinate pixels srcWidth dstWidth k ∧
      exactCoordinate pixels srcWidth dstWidth k ≤ srcWidth * 2 ^ 32 + 2 ^ 33 := by
  have hle : ((exactRoundingDiv (srcWidth * 2 ^ 31) dstWidth +
      k * exactCoordinateStep pixels srcWidth dstWidth : ℕ) : ℤ) ≤
      (srcWidth * 2 ^ 32 + 3 * 2 ^ 31 + 1 + dstWidth : ℕ) :=
    Nat.cast_le.mpr (coordinate_le hdst hratio hpixels hk)
  have hnonneg : (0 : ℤ) ≤ (k * exactCoordinateStep pixels srcWidth dstWidth : ℕ) :=
    Nat.cast_nonneg _
  rw [exactCoordinate, exactInitialCoordinate, ← Nat.cast_mul]
  omega

theorem narrowCoordinate_bounds {coordinate : ℤ} (hlow : -2 ^ 31 ≤ coordinate)
    (hhigh : coordinate ≤ srcWidth * 2 ^ 32 + 2 ^ 33) :
    -2 ^ 29 ≤ narrowCoordinate coordinate ∧
      narrowCoordinate coordinate ≤ srcWidth * 2 ^ 16 + 2 ^ 29 := by
  simp only [narrowCoordinate, kCoordinateBits, kFixpBits, Nat.reduceSub]
  omega

/-- After `k` full vectors. -/
structure FullState.Inv (pixels srcWidth dstWidth : ℕ) (pixel : ℕ → Fin kStep → ℕ) (advances k : ℕ)
    (s : FullState) : Prop where
  sxCoordinate : s.sxCoordinate = exactCoordinate pixels srcWidth dstWidth advances
  dx_le : s.dx ≤ k * 16
  length : s.constants.length = k
  exact : ∀ i (v : VectorCoordinates kStep), s.constants[i]? = some v → v.Exact srcWidth dstWidth (pixel i)

/-- One more vector at the end of the list. -/
theorem exact_concat {pixel : ℕ → Fin n → ℕ} {l : List (VectorCoordinates n)}
    {w : VectorCoordinates n} (hl : ∀ i (v : VectorCoordinates n), l[i]? = some v → v.Exact srcWidth dstWidth (pixel i))
    (hw : w.Exact srcWidth dstWidth (pixel l.length)) (i : ℕ) (v : VectorCoordinates n)
    (h : (l ++ [w])[i]? = some v) :
    v.Exact srcWidth dstWidth (pixel i) := by
  rcases lt_trichotomy i l.length with hi | rfl | hi
  · rw [List.getElem?_append_left hi] at h
    exact hl i v h
  · rw [List.getElem?_concat_length, Option.some_inj] at h
    rwa [← h]
  · rw [List.getElem?_eq_none (by rw [List.length_append, List.length_singleton]; omega)] at h
    exact absurd h (by simp)

theorem GenericSizes.scaleX (h : GenericSizes kRatio kChannels kUpsize srcWidth dstWidth) {dx : ℕ}
    (hdx : dx ≤ 256) : ResizeGenericU8.scaleX srcWidth dstWidth dx =
      some (exactScaleX srcWidth dstWidth dx) ∧ exactScaleX srcWidth dstWidth dx < 2 ^ 26 :=
  scaleX_eq h.srcWidth_lt h.srcWidth_le h.dstWidth_pos h.dstWidth_lt hdx

/-- The coordinate of a full vector fits. -/
theorem GenericSizes.signed_exactCoordinate
    (h : GenericSizes kRatio kChannels kUpsize srcWidth dstWidth) {pixels k : ℕ}
    (hpixels : 0 < pixels) (hk : k * pixels ≤ dstWidth) :
    signed 63 (exactCoordinate pixels srcWidth dstWidth k) =
      some (exactCoordinate pixels srcWidth dstWidth k) := by
  obtain ⟨hlow, hhigh⟩ :=
    exactCoordinate_bounds h.dstWidth_pos h.dstWidth_lt h.srcWidth_le hpixels hk
  have hsrc := h.srcWidth_lt
  exact signed_eq (by omega) (by omega)

/-- The lanes of a vector stand for its pixels. -/
theorem GenericSizes.scaleX_lane (h : GenericSizes kRatio kChannels kUpsize srcWidth dstWidth)
    (lane : Fin kStep) : ResizeGenericU8.scaleX srcWidth dstWidth (lane / kChannels) =
      some (exactScaleX srcWidth dstWidth (lane / kChannels)) ∧
      exactScaleX srcWidth dstWidth (lane / kChannels) < 2 ^ 26 := by
  have hlane : lane.val < 16 := lane.isLt
  exact h.scaleX ((Nat.div_le_self _ _).trans (by omega))

theorem fullVector_exact (h : GenericSizes kRatio kChannels kUpsize srcWidth dstWidth)
    {s : FullState} {k : ℕ} (hk : (k + 1) * (kStep / kChannels) ≤ dstWidth)
    (hs : s.Inv (kStep / kChannels) srcWidth dstWidth (fun _ lane => lane / kChannels) k k)
    (hdx : s.dx = k * (kStep / kChannels)) :
    ∃ s', fullVector kChannels (fun lane => exactScaleX srcWidth dstWidth (lane / kChannels))
        ((srcWidth * kChannels - kRatio * kStep) / kChannels : ℕ)
        (exactCoordinateStep (kStep / kChannels) srcWidth dstWidth) s = some s' ∧
      s'.Inv (kStep / kChannels) srcWidth dstWidth (fun _ lane => lane / kChannels) (k + 1) (k + 1) ∧
      s'.dx = (k + 1) * (kStep / kChannels) := by
  have hpixels : 0 < kStep / kChannels ∧ kStep / kChannels ≤ 16 := by
    have hch := h.channels
    fin_cases hch <;> decide
  have hmax : srcWidth ≤ (srcWidth * kChannels - kRatio * kStep) / kChannels + 49 ∧
      (srcWidth * kChannels - kRatio * kStep) / kChannels ≤ srcWidth := by
    have hch := h.channels
    have hratio := h.ratio
    unfold kStep
    fin_cases hch <;> fin_cases hratio <;> constructor <;> omega
  have hnow := exactCoordinate_bounds h.dstWidth_pos h.dstWidth_lt h.srcWidth_le hpixels.1
    ((Nat.mul_le_mul_right _ (Nat.le_succ k)).trans hk)
  have hsrc := h.srcWidth_lt
  have hdst := h.dstWidth_lt
  have hadvance : exactCoordinate (kStep / kChannels) srcWidth dstWidth k +
      exactCoordinateStep (kStep / kChannels) srcWidth dstWidth =
      exactCoordinate (kStep / kChannels) srcWidth dstWidth (k + 1) := by
    simp only [exactCoordinate]
    push_cast
    ring
  have hnarrow := narrowCoordinate_bounds hnow.1 hnow.2
  rw [← hs.sxCoordinate] at hnarrow
  have hdxnext : s.dx + kStep / kChannels = (k + 1) * (kStep / kChannels) := by
    rw [hdx]
    ring
  obtain ⟨v, hv, hexact⟩ := calculateIndicesFractionsBase_exact
    (fun lane : Fin kStep => lane / kChannels) _ (fun lane => (h.scaleX_lane lane).2) hsrc hmax.1
    hmax.2 hnarrow.1 hnarrow.2
  refine ⟨⟨exactCoordinate (kStep / kChannels) srcWidth dstWidth (k + 1),
    (k + 1) * (kStep / kChannels), s.constants ++ [v]⟩, ?_, ⟨rfl, ?_, ?_, ?_⟩, rfl⟩
  · simp only [fullVector, Option.bind_eq_bind]
    rw [hv, Option.bind_some, hs.sxCoordinate, hadvance, h.signed_exactCoordinate hpixels.1 hk,
      Option.bind_some, hdxnext, unsigned_eq (by omega), Option.bind_some]
    rfl
  · exact Nat.mul_le_mul_left _ hpixels.2
  · rw [List.length_append, hs.length, List.length_singleton]
  · exact exact_concat hs.exact hexact

/-- All full vectors, two in each iteration. -/
theorem fullVectors_exact (h : GenericSizes kRatio kChannels kUpsize srcWidth dstWidth)
    (hthree : kChannels ≠ 3) :
    let num := calculateNumOfVectorPaths kRatio kChannels srcWidth dstWidth
    let path := fullVector kChannels
      (fun lane => exactScaleX srcWidth dstWidth (lane / kChannels))
      ((srcWidth * kChannels - kRatio * kStep) / kChannels : ℕ)
      (exactCoordinateStep (kStep / kChannels) srcWidth dstWidth)
    ∃ s : FullState, tryForRange num.1 (fun _ s => (path s).bind path)
        ⟨exactInitialCoordinate srcWidth dstWidth, 0, []⟩ = some s ∧
      s.dx ≤ dstWidth ∧
      ∀ (i : ℕ) (v : VectorCoordinates kStep), s.constants[i]? = some v →
        v.Exact srcWidth dstWidth fun lane => lane / kChannels := by
  intro num path
  have hpixels : kStep / kChannels * kChannels = 16 := by
    have hch := h.channels
    unfold kStep
    fin_cases hch <;> first | rfl | exact absurd rfl hthree
  have hpos : 0 < kChannels := by
    have hch := h.channels
    fin_cases hch <;> decide
  have hfit : ∀ k ≤ num.1 * 2, k * (kStep / kChannels) ≤ dstWidth := by
    intro k hk
    refine Nat.le_of_mul_le_mul_right ?_ hpos
    rw [Nat.mul_assoc, hpixels]
    exact (Nat.mul_le_mul_right 16 hk).trans (two_x_le kRatio kChannels srcWidth dstWidth)
  let inv : ℕ → FullState → Prop := fun i s =>
    s.Inv (kStep / kChannels) srcWidth dstWidth (fun _ lane => lane / kChannels) (i * 2) (i * 2) ∧
      s.dx = i * 2 * (kStep / kChannels)
  have hloop : ∃ s, tryForRange num.1 (fun _ s => (path s).bind path)
      ⟨exactInitialCoordinate srcWidth dstWidth, 0, []⟩ = some s ∧ inv num.1 s := by
    refine tryForRange_invariant inv ?_ ?_
    · refine ⟨⟨?_, Nat.zero_le _, rfl, fun i v hv => absurd hv (by simp)⟩, by simp⟩
      simp [exactCoordinate]
    · rintro i hi s ⟨hs, hdx⟩
      obtain ⟨s1, (hs1 : path s = some s1), hinv1, hdx1⟩ := fullVector_exact h (hfit _ (by omega)) hs hdx
      obtain ⟨s2, (hs2 : path s1 = some s2), hinv2, hdx2⟩ := fullVector_exact h (hfit _ (by omega)) hinv1 hdx1
      exact ⟨s2, by rw [hs1, Option.bind_some, hs2], by rwa [Nat.succ_mul], by rwa [Nat.succ_mul]⟩
  obtain ⟨s, hs, hinv, hdx⟩ := hloop
  refine ⟨s, hs, ?_, hinv.exact⟩
  rw [hdx]
  exact hfit _ le_rfl

/-! ### Half vectors -/

/-- A coordinate that is away from the one of pixel `dx` by `err` fixed-point units at most. -/
structure Near (srcWidth dstWidth err dx : ℕ) (sxFixp : ℤ) : Prop where
  low : ((dx * 2 ^ 16 + 2 ^ 15 : ℕ) : ℤ) * srcWidth - 2 ^ 15 * dstWidth - err * dstWidth ≤
    dstWidth * sxFixp
  high : dstWidth * sxFixp ≤
    ((dx * 2 ^ 16 + 2 ^ 15 : ℕ) : ℤ) * srcWidth - 2 ^ 15 * dstWidth + err * dstWidth

theorem Near.bounds {err dx : ℕ} {sxFixp : ℤ} (h : Near srcWidth dstWidth err dx sxFixp)
    (hdst : 0 < dstWidth) (hratio : srcWidth ≤ 3 * dstWidth) (hdx : dx ≤ dstWidth) :
    -2 ^ 15 - err ≤ sxFixp ∧ sxFixp ≤ srcWidth * 2 ^ 16 + 3 * 2 ^ 15 + err := by
  have hpos : (0 : ℤ) < dstWidth := Nat.cast_pos.mpr hdst
  constructor
  · refine le_of_mul_le_mul_left ?_ hpos
    have hnonneg : (0 : ℤ) ≤ ((dx * 2 ^ 16 + 2 ^ 15 : ℕ) : ℤ) * srcWidth :=
      mul_nonneg (Nat.cast_nonneg _) (Nat.cast_nonneg _)
    have hlow := h.low
    linarith
  · refine le_of_mul_le_mul_left ?_ hpos
    have hpixel : (((dx * 2 ^ 16 + 2 ^ 15) * srcWidth : ℕ) : ℤ) ≤
        (dstWidth * (srcWidth * 2 ^ 16 + 3 * 2 ^ 15) : ℕ) := by
      refine Nat.cast_le.mpr ?_
      calc (dx * 2 ^ 16 + 2 ^ 15) * srcWidth = dx * (srcWidth * 2 ^ 16) + srcWidth * 2 ^ 15 := by ring
        _ ≤ dstWidth * (srcWidth * 2 ^ 16) + 3 * dstWidth * 2 ^ 15 :=
            Nat.add_le_add (Nat.mul_le_mul_right _ hdx) (Nat.mul_le_mul_right _ hratio)
        _ = dstWidth * (srcWidth * 2 ^ 16 + 3 * 2 ^ 15) := by ring
    have hhigh := h.high
    push_cast at hpixel hhigh
    linarith

/-- The coordinate of a pixel is near itself. -/
theorem near_exactAlignedScale (dx : ℕ) (hdst : 0 < dstWidth) :
    Near srcWidth dstWidth 2 dx (exactAlignedScale dx srcWidth dstWidth) := by
  obtain ⟨hle, hlt⟩ := exactRoundingDiv_bounds ((dx * 2 ^ 16 + 2 ^ 15) * srcWidth) hdst
  have hexpand : (dstWidth : ℤ) * exactAlignedScale dx srcWidth dstWidth =
      ((dstWidth * exactRoundingDiv ((dx * 2 ^ 16 + 2 ^ 15) * srcWidth) dstWidth : ℕ) : ℤ) -
        2 ^ 15 * dstWidth + dstWidth := by
    rw [exactAlignedScale, Nat.cast_mul]
    ring
  have hnom : (((dx * 2 ^ 16 + 2 ^ 15) * srcWidth : ℕ) : ℤ) =
      ((dx * 2 ^ 16 + 2 ^ 15 : ℕ) : ℤ) * srcWidth := Nat.cast_mul _ _
  constructor
  · rw [hexpand, ← hnom]
    omega
  · rw [hexpand, ← hnom]
    omega

/-- The coordinate moves with the pixel. -/
theorem Near.add {err dx : ℕ} {sxFixp : ℤ} (h : Near srcWidth dstWidth err dx sxFixp)
    (hdst : 0 < dstWidth) (count : ℕ) :
    Near srcWidth dstWidth (err + 1) (dx + count)
      (sxFixp + exactRoundingDiv (srcWidth * count * 2 ^ 16) dstWidth) := by
  obtain ⟨hle, hlt⟩ := exactRoundingDiv_bounds (srcWidth * count * 2 ^ 16) hdst
  have hle' : ((dstWidth * exactRoundingDiv (srcWidth * count * 2 ^ 16) dstWidth : ℕ) : ℤ) ≤
      (srcWidth * count * 2 ^ 16 + dstWidth : ℕ) := Nat.cast_le.mpr (by omega)
  have hlt' : ((srcWidth * count * 2 ^ 16 : ℕ) : ℤ) ≤
      (dstWidth * exactRoundingDiv (srcWidth * count * 2 ^ 16) dstWidth + dstWidth : ℕ) :=
    Nat.cast_le.mpr (by omega)
  have hlow := h.low
  have hhigh := h.high
  push_cast at hle' hlt' hlow hhigh
  constructor
  · push_cast
    linarith
  · push_cast
    linarith

/-- The coordinate is pulled back with the pixel. -/
theorem Near.pull {err dx pulled : ℕ} {sxFixp : ℤ} (h : Near srcWidth dstWidth err dx sxFixp)
    (hdst : 0 < dstWidth) (hpulled : pulled ≤ dx) :
    Near srcWidth dstWidth (err + pulled) (dx - pulled)
      (sxFixp - pulled * exactRoundingDiv (srcWidth * 2 ^ 16) dstWidth) := by
  obtain ⟨hle, hlt⟩ := exactRoundingDiv_bounds (srcWidth * 2 ^ 16) hdst
  have hle' : ((pulled * (dstWidth * exactRoundingDiv (srcWidth * 2 ^ 16) dstWidth) : ℕ) : ℤ) ≤
      (pulled * (srcWidth * 2 ^ 16 + dstWidth) : ℕ) :=
    Nat.cast_le.mpr (Nat.mul_le_mul_left _ (by omega))
  have hlt' : ((pulled * (srcWidth * 2 ^ 16) : ℕ) : ℤ) ≤
      (pulled * (dstWidth * exactRoundingDiv (srcWidth * 2 ^ 16) dstWidth + dstWidth) : ℕ) :=
    Nat.cast_le.mpr (Nat.mul_le_mul_left _ (by omega))
  have hlow := h.low
  have hhigh := h.high
  push_cast at hle' hlt' hlow hhigh
  constructor
  · push_cast [Nat.cast_sub hpulled]
    linarith
  · push_cast [Nat.cast_sub hpulled]
    linarith

/-- After `i` half vectors. -/
structure HalfState.Inv (kChannels srcWidth dstWidth i : ℕ) (s : HalfState) : Prop where
  dx_le : s.dx ≤ dstWidth
  near : ∃ err ≤ 9 * i + 2, Near srcWidth dstWidth err s.dx s.sxFixp
  exact : ∀ v ∈ s.constants, v.Exact srcWidth dstWidth fun lane => lane / kChannels

/-- `sx_fixp_one_dst_pixel` and `sx_fixp_half_step`. -/
theorem sxFixpStep_le (count : ℕ) (hdst : 0 < dstWidth) (hratio : srcWidth ≤ 3 * dstWidth)
    (hcount : count ≤ 8) : exactRoundingDiv (srcWidth * count * 2 ^ 16) dstWidth ≤ 2 ^ 21 := by
  have hproduct : srcWidth * count ≤ 3 * dstWidth * 8 := Nat.mul_le_mul hratio hcount
  refine Nat.lt_succ_iff.mp ((Nat.div_lt_iff_lt_mul hdst).mpr ?_)
  omega

theorem halfVector_exact (h : GenericSizes kRatio kChannels kUpsize srcWidth dstWidth)
    (hthree : kChannels ≠ 3) {s : HalfState} {i : ℕ} (hi : i ≤ 2 ^ 23)
    (hs : s.Inv kChannels srcWidth dstWidth i) :
    ∃ s', halfVector kChannels (fun lane => exactScaleX srcWidth dstWidth (lane / kChannels))
        (dstWidth - kHalfStep / kChannels)
        ((srcWidth * kChannels - kHalfVectorSrcReadSize kRatio kChannels kUpsize) / kChannels : ℕ)
        (exactRoundingDiv (srcWidth * 2 ^ 16) dstWidth)
        (exactRoundingDiv (srcWidth * (kHalfStep / kChannels) * 2 ^ 16) dstWidth) s = some s' ∧
      s'.Inv kChannels srcWidth dstWidth (i + 1) := by
  have hpixels : kHalfStep / kChannels ≤ 8 ∧ kHalfStep / kChannels ≤ dstWidth := by
    have hch := h.channels
    have hwritable := h.writable
    unfold kHalfStep kStep at hwritable ⊢
    fin_cases hch <;> omega
  have hmax : srcWidth ≤
      (srcWidth * kChannels - kHalfVectorSrcReadSize kRatio kChannels kUpsize) / kChannels + 49 ∧
      (srcWidth * kChannels - kHalfVectorSrcReadSize kRatio kChannels kUpsize) / kChannels ≤
        srcWidth := by
    have hch := h.channels
    have hread : kHalfVectorSrcReadSize kRatio kChannels kUpsize ≤ 32 := by
      rw [kHalfVectorSrcReadSize]
      split <;> omega
    fin_cases hch <;> constructor <;> omega
  have hsrc := h.srcWidth_lt
  have hdst := h.dstWidth_lt
  obtain ⟨hdx, ⟨err, herr, hnear⟩, hexact⟩ := hs
  -- the pixel and its coordinate are pulled back together
  obtain ⟨pulled, hpulled, hmin⟩ : ∃ pulled ≤ 8,
      s.dx - min s.dx (dstWidth - kHalfStep / kChannels) = pulled := ⟨_, by omega, rfl⟩
  have hpull : min s.dx (dstWidth - kHalfStep / kChannels) = s.dx - pulled := by omega
  have hone : exactRoundingDiv (srcWidth * 2 ^ 16) dstWidth ≤ 2 ^ 21 := by
    have hle := sxFixpStep_le 1 h.dstWidth_pos h.srcWidth_le (by omega)
    rwa [Nat.mul_one] at hle
  have hpulledOne : pulled * exactRoundingDiv (srcWidth * 2 ^ 16) dstWidth ≤ 8 * 2 ^ 21 :=
    Nat.mul_le_mul hpulled hone
  have hhalf := sxFixpStep_le _ h.dstWidth_pos h.srcWidth_le hpixels.1
  have hbefore := hnear.bounds h.dstWidth_pos h.srcWidth_le hdx
  have hback := hnear.pull h.dstWidth_pos (show pulled ≤ s.dx by omega)
  have hbackBounds := hback.bounds h.dstWidth_pos h.srcWidth_le (by omega)
  have hnext := hback.add h.dstWidth_pos (kHalfStep / kChannels)
  obtain ⟨v, hv, hvexact⟩ := calculateIndicesFractionsBase_exact
    (fun lane : Fin kHalfStep => lane / kChannels)
    (s.sxFixp - pulled * exactRoundingDiv (srcWidth * 2 ^ 16) dstWidth)
    (fun lane => (h.scaleX_lane (Fin.castLE (by decide) lane)).2) hsrc hmax.1 hmax.2
    (by omega) (by omega)
  refine ⟨⟨s.sxFixp - pulled * exactRoundingDiv (srcWidth * 2 ^ 16) dstWidth +
      exactRoundingDiv (srcWidth * (kHalfStep / kChannels) * 2 ^ 16) dstWidth,
    s.dx - pulled + kHalfStep / kChannels, s.constants ++ [v]⟩, ?_, ?_, ⟨_, ?_, hnext⟩, ?_⟩
  · have hpulledCast : ((pulled : ℕ) : ℤ) * exactRoundingDiv (srcWidth * 2 ^ 16) dstWidth =
        (pulled * exactRoundingDiv (srcWidth * 2 ^ 16) dstWidth : ℕ) := (Nat.cast_mul _ _).symm
    simp only [halfVector, Option.bind_eq_bind, hmin]
    rw [hpulledCast, signed_of_lt (by omega), Option.bind_some, ← hpulledCast,
      signed_eq (by omega) (by omega), Option.bind_some, hv, Option.bind_some, hpull,
      unsigned_eq (by omega), Option.bind_some, signed_eq (by omega) (by omega)]
    rfl
  · show s.dx - pulled + kHalfStep / kChannels ≤ dstWidth
    omega
  · omega
  · intro w hw
    rcases List.mem_append.mp hw with hw | hw
    · exact hexact w hw
    · obtain rfl := List.mem_singleton.mp hw
      exact hvexact

/-! ### Three channels -/

/-- The pixel of a lane of the first, second or third of three vectors. -/
def pixel3 (i : ℕ) (lane : Fin kStep) : ℕ := (i % 3 * kStep + lane) / 3

theorem fullVector3_exact (h : GenericSizes kRatio 3 kUpsize srcWidth dstWidth) {s : FullState}
    {k : ℕ} (hk : (k + 1) * 16 ≤ dstWidth * 3)
    (hs : s.Inv kStep srcWidth dstWidth pixel3 (k / 3) k) :
    ∃ s', fullVector3 (fun vector lane => exactScaleX srcWidth dstWidth ((vector * kStep + lane) / 3))
        (exactCoordinateStep kStep srcWidth dstWidth) k s = some s' ∧
      s'.Inv kStep srcWidth dstWidth pixel3 ((k + 1) / 3) (k + 1) := by
  have hsrc := h.srcWidth_lt
  have hdst := h.dstWidth_lt
  have hdx := hs.dx_le
  have hlane : ∀ lane : Fin kStep, exactScaleX srcWidth dstWidth (pixel3 k lane) < 2 ^ 26 := by
    intro lane
    have hlt : lane.val < 16 := lane.isLt
    refine (h.scaleX ?_).2
    simp only [pixel3, kStep]
    omega
  -- the fraction of the first pixel, without its integer part
  have hfraction : narrowCoordinate s.sxCoordinate % 2 ^ 16 =
      narrowCoordinate s.sxCoordinate - narrowCoordinate s.sxCoordinate / 2 ^ 16 * 2 ^ 16 := by omega
  obtain ⟨v, hv, hexact⟩ := addFraction_exact (narrowCoordinate s.sxCoordinate)
    (narrowCoordinate s.sxCoordinate / 2 ^ 16) hlane hfraction (by omega) (by omega)
  have hvector : fillFullConstantsVectorially
      (fun lane => exactScaleX srcWidth dstWidth (((Fin.ofNat 3 k : Fin 3) * kStep + lane) / 3))
      (narrowCoordinate s.sxCoordinate) = some v := hv
  have hconstants := exact_concat hs.exact (w := v) (by rwa [hs.length])
  have hlength : (s.constants ++ [v]).length = k + 1 := by
    rw [List.length_append, hs.length, List.length_singleton]
  have hpath : fullVector3
      (fun vector lane => exactScaleX srcWidth dstWidth ((vector * kStep + lane) / 3))
      (exactCoordinateStep kStep srcWidth dstWidth) k s =
      if k % 3 = 2 then
        (signed 63 (s.sxCoordinate + exactCoordinateStep kStep srcWidth dstWidth)).map
          fun sxCoordinate => ⟨sxCoordinate, s.dx + 16, s.constants ++ [v]⟩
      else some ⟨s.sxCoordinate, s.dx + 16, s.constants ++ [v]⟩ := by
    simp only [fullVector3, Option.bind_eq_bind]
    rw [hvector, Option.bind_some, show s.dx + kStep = s.dx + 16 from rfl, unsigned_eq (by omega),
      Option.bind_some]
    split
    · cases signed 63 (s.sxCoordinate + exactCoordinateStep kStep srcWidth dstWidth) <;> rfl
    · rfl
  rw [hpath]
  split
  · rename_i hlast
    have hdiv : (k + 1) / 3 = k / 3 + 1 := by omega
    have hadvance : s.sxCoordinate + exactCoordinateStep kStep srcWidth dstWidth =
        exactCoordinate kStep srcWidth dstWidth ((k + 1) / 3) := by
      rw [hs.sxCoordinate, hdiv]
      simp only [exactCoordinate]
      push_cast
      ring
    have hfit : (k + 1) / 3 * kStep ≤ dstWidth := by
      unfold kStep
      omega
    rw [hadvance, h.signed_exactCoordinate (by decide) hfit]
    exact ⟨_, rfl, rfl, by show s.dx + 16 ≤ _; omega, hlength, hconstants⟩
  · rename_i hlast
    have hdiv : (k + 1) / 3 = k / 3 := by omega
    exact ⟨_, rfl, by rw [hdiv]; exact hs.sxCoordinate, by show s.dx + 16 ≤ _; omega, hlength,
      hconstants⟩

theorem fillHalfConstantsScalarly_exact {inPixelIndex one : ℕ} (hpixel : inPixelIndex < 3)
    (srcElementIndex srcElementBase : ℤ) {sxFixp : ℤ} (hone : one ≤ 2 ^ 21) (hlow : -2 ^ 16 ≤ sxFixp)
    (hhigh : sxFixp < 2 ^ 42) :
    ∃ v, fillHalfConstantsScalarly inPixelIndex srcElementIndex srcElementBase sxFixp one = some v ∧
      ∀ j, v.xfrac j < 2 ^ 15 := by
  let coordinate : Fin kHalfStep → ℤ := fun j => sxFixp + ((inPixelIndex + j) / 3 : ℕ) * one
  have hlanes : (lanes fun j : Fin kHalfStep =>
      signed 63 (sxFixp + ((inPixelIndex + j) / 3 : ℕ) * one)) = some coordinate := by
    refine lanes_eq fun j => ?_
    have hj : j.val < 8 := j.isLt
    have hmove : (inPixelIndex + j.val) / 3 * one ≤ 4 * 2 ^ 21 :=
      Nat.mul_le_mul (by omega) hone
    simp only [coordinate, ← Nat.cast_mul]
    generalize (inPixelIndex + j.val) / 3 * one = move at hmove
    exact signed_eq (by omega) (by omega)
  refine ⟨⟨coordinate, _⟩, by rw [fillHalfConstantsScalarly, hlanes]; rfl, fun j => ?_⟩
  show (if _ then 0 else interpolationFraction (coordinate j)) < 2 ^ 15
  split
  · norm_num
  · exact interpolationFraction_lt _

theorem halfVector3_exact (h : GenericSizes kRatio 3 kUpsize srcWidth dstWidth) (maxSrcBaseIndex : ℤ)
    {s : ℕ × List ScalarCoordinates}
    (hs : ∀ v ∈ s.2, ∀ j, v.xfrac j < 2 ^ 15) :
    ∃ s', halfVector3 srcWidth dstWidth (dstWidth * 3 - kHalfStep) maxSrcBaseIndex
        (exactRoundingDiv (srcWidth * 2 ^ 16) dstWidth) s = some s' ∧
      ∀ v ∈ s'.2, ∀ j, v.xfrac j < 2 ^ 15 := by
  have hsrc := h.srcWidth_lt
  have hdst := h.dstWidth_lt
  have hwritable := h.writable
  have hpos := h.dstWidth_pos
  unfold kHalfStep kStep at hwritable
  -- the pixel and the next one, which may be one past the end
  obtain ⟨idx, hidx, hmin⟩ : ∃ idx ≤ dstWidth * 3 - 8, min s.1 (dstWidth * 3 - kHalfStep) = idx :=
    ⟨_, min_le_right _ _, rfl⟩
  have hpixel0 := alignedScale_eq (x := idx / 3) hsrc hpos hdst (by omega)
  have hpixel1 := alignedScale_eq (x := idx / 3 + 1) hsrc hpos hdst (by omega)
  have hnear : Near srcWidth dstWidth 2 (idx / 3) (exactAlignedScale (idx / 3) srcWidth dstWidth) :=
    near_exactAlignedScale (idx / 3) hpos
  have hbounds := hnear.bounds hpos h.srcWidth_le (by omega)
  have hone : exactRoundingDiv (srcWidth * 2 ^ 16) dstWidth ≤ 2 ^ 21 := by
    have hle := sxFixpStep_le 1 hpos h.srcWidth_le (by omega)
    rwa [Nat.mul_one] at hle
  obtain ⟨v, hv, hweights⟩ := fillHalfConstantsScalarly_exact (Nat.mod_lt idx (by decide : 0 < 3))
    (exactAlignedScale (idx / 3) srcWidth dstWidth / 2 ^ kFixpBits * 3 + (idx % 3 : ℕ))
    (clampSrcX (min (exactAlignedScale (idx / 3) srcWidth dstWidth / 2 ^ kFixpBits * 3 +
      (idx % 3 : ℕ)) (exactAlignedScale (idx / 3 + 1) srcWidth dstWidth / 2 ^ kFixpBits * 3))
      maxSrcBaseIndex)
    hone (by omega) (show exactAlignedScale (idx / 3) srcWidth dstWidth < 2 ^ 42 by omega)
  refine ⟨(idx + kHalfStep, s.2 ++ [v]), ?_, ?_⟩
  · simp only [halfVector3, Option.bind_eq_bind]
    rw [hmin, hpixel0, Option.bind_some, hpixel1, Option.bind_some, hv, Option.bind_some,
      show idx + kHalfStep = idx + 8 from rfl, unsigned_eq (by omega)]
    rfl
  · intro w hw
    rcases List.mem_append.mp hw with hw | hw
    · exact hs w hw
    · obtain rfl := List.mem_singleton.mp hw
      exact hweights

/-! ### The generators -/

/-- The pixel of a lane of full vector `i`, from the pixel that its coordinate stands for. -/
def fullPixel (kChannels i : ℕ) (lane : Fin kStep) : ℕ :=
  if kChannels = 3 then pixel3 i lane else lane / kChannels

/-- All lanes hold the values they hold over unbounded integers. -/
structure RowInterpolationConstants.Exact (kChannels srcWidth dstWidth : ℕ)
    (c : RowInterpolationConstants) : Prop where
  full : ∀ (i : ℕ) (v : VectorCoordinates kStep), c.full[i]? = some v →
    v.Exact srcWidth dstWidth (fullPixel kChannels i)
  half : ∀ v ∈ c.half, v.Exact srcWidth dstWidth fun lane => lane / kChannels
  halfScalar : ∀ v ∈ c.halfScalar, ∀ j, v.xfrac j < 2 ^ 15

/-- `sx_fixp_one_dst_pixel` and `sx_fixp_half_step`. -/
theorem GenericSizes.sxFixpStep (h : GenericSizes kRatio kChannels kUpsize srcWidth dstWidth)
    {count : ℕ} (hcount : count ≤ 8) :
    unsigned 64 (srcWidth * count * 2 ^ 16) = some (srcWidth * count * 2 ^ 16) ∧
      roundingDivS64 (srcWidth * count * 2 ^ 16) dstWidth =
        some (exactRoundingDiv (srcWidth * count * 2 ^ 16) dstWidth : ℤ) := by
  have hsrc := h.srcWidth_lt
  have hdst := h.dstWidth_lt
  have hpos := h.dstWidth_pos
  have hproduct : srcWidth * count ≤ 2 ^ 24 * 8 := Nat.mul_le_mul hsrc.le hcount
  exact ⟨unsigned_eq (by omega), roundingDivS64_eq _ (by omega) hpos (by omega)⟩

theorem GenericSizes.sxFixpOneDstPixel
    (h : GenericSizes kRatio kChannels kUpsize srcWidth dstWidth) :
    unsigned 64 (srcWidth * 2 ^ 16) = some (srcWidth * 2 ^ 16) ∧
      roundingDivS64 (srcWidth * 2 ^ 16) dstWidth =
        some (exactRoundingDiv (srcWidth * 2 ^ 16) dstWidth : ℤ) := by
  have hone := h.sxFixpStep (by omega : 1 ≤ 8)
  rwa [Nat.mul_one] at hone

theorem GenericSizes.coordinateStep (h : GenericSizes kRatio kChannels kUpsize srcWidth dstWidth)
    {pixels : ℕ} (hpixels : pixels ≤ 256) :
    ResizeGenericU8.coordinateStep pixels srcWidth dstWidth =
      some (exactCoordinateStep pixels srcWidth dstWidth : ℤ) :=
  coordinateStep_eq h.srcWidth_lt h.srcWidth_le h.dstWidth_pos h.dstWidth_lt hpixels

theorem GenericSizes.initialCoordinate
    (h : GenericSizes kRatio kChannels kUpsize srcWidth dstWidth) :
    ResizeGenericU8.initialCoordinate srcWidth dstWidth =
      some (exactInitialCoordinate srcWidth dstWidth) :=
  initialCoordinate_eq h.srcWidth_lt h.dstWidth_pos h.dstWidth_lt

theorem rowInterpolationConstants124_exact
    (h : GenericSizes kRatio kChannels kUpsize srcWidth dstWidth) (hthree : kChannels ≠ 3) :
    ∃ c, rowInterpolationConstants124 kRatio kChannels kUpsize srcWidth dstWidth = some c ∧
      c.Exact kChannels srcWidth dstWidth := by
  have hsrc := h.srcWidth_lt
  have hdst := h.dstWidth_lt
  have hchannels := h.channels
  have hwritable := h.writable
  have hfull : kStep / kChannels ≤ 256 := (Nat.div_le_self _ _).trans (by decide)
  have hpixels : kHalfStep / kChannels ≤ 8 := Nat.div_le_self _ _
  have hhalfFit : kHalfStep / kChannels ≤ dstWidth := by
    unfold kHalfStep kStep at hwritable ⊢
    fin_cases hchannels <;> omega
  have hhalfWidth : srcWidth * kHalfStep / kChannels = srcWidth * (kHalfStep / kChannels) := by
    refine Nat.mul_div_assoc _ ?_
    fin_cases hchannels <;> first | decide | exact absurd rfl hthree
  have hcount : (calculateNumOfVectorPaths kRatio kChannels srcWidth dstWidth).2 ≤ 2 ^ 23 := by
    simp only [calculateNumOfVectorPaths]
    unfold kHalfStep kStep
    fin_cases hchannels <;> omega
  have hlanesHalf : (lanes fun lane : Fin kHalfStep =>
      ResizeGenericU8.scaleX srcWidth dstWidth (lane / kChannels)) =
      some fun lane : Fin kHalfStep => exactScaleX srcWidth dstWidth (lane / kChannels) :=
    lanes_eq fun lane : Fin kHalfStep =>
      (h.scaleX_lane (Fin.castLE (by decide : kHalfStep ≤ kStep) lane)).1
  obtain ⟨s, hs, hdx, hfullExact⟩ := fullVectors_exact h hthree
  -- the half vectors begin where the full ones end
  have hhalves : ∃ t, tryForRange (calculateNumOfVectorPaths kRatio kChannels srcWidth dstWidth).2
      (fun _ => halfVector kChannels (fun lane => exactScaleX srcWidth dstWidth (lane / kChannels))
        (dstWidth - kHalfStep / kChannels)
        ((srcWidth * kChannels - kHalfVectorSrcReadSize kRatio kChannels kUpsize) / kChannels : ℕ)
        (exactRoundingDiv (srcWidth * 2 ^ 16) dstWidth)
        (exactRoundingDiv (srcWidth * (kHalfStep / kChannels) * 2 ^ 16) dstWidth))
      ⟨exactAlignedScale s.dx srcWidth dstWidth, s.dx, []⟩ = some t ∧
      t.Inv kChannels srcWidth dstWidth
        (calculateNumOfVectorPaths kRatio kChannels srcWidth dstWidth).2 := by
    refine tryForRange_invariant (fun i (t : HalfState) => t.Inv kChannels srcWidth dstWidth i) ?_ ?_
    · exact ⟨hdx, ⟨2, by omega, near_exactAlignedScale s.dx h.dstWidth_pos⟩, fun v hv => by simp at hv⟩
    · exact fun i hi t ht => halfVector_exact h hthree (by omega) ht
  obtain ⟨t, ht, hinv⟩ := hhalves
  refine ⟨⟨s.constants, t.constants, []⟩, ?_, ?_, hinv.exact, fun v hv => by simp at hv⟩
  · simp only [rowInterpolationConstants124, Option.bind_eq_bind, kFixpBits]
    rw [lanes_eq fun lane => (h.scaleX_lane lane).1, Option.bind_some, h.coordinateStep hfull,
      Option.bind_some, h.initialCoordinate, Option.bind_some, hs, Option.bind_some,
      alignedScale_eq hsrc h.dstWidth_pos hdst hdx, Option.bind_some, h.sxFixpOneDstPixel.1,
      Option.bind_some, h.sxFixpOneDstPixel.2, Option.bind_some, sub_eq h.readable,
      Option.bind_some, sub_eq hhalfFit, Option.bind_some, hhalfWidth, (h.sxFixpStep hpixels).1,
      Option.bind_some, (h.sxFixpStep hpixels).2, Option.bind_some,
      hlanesHalf, Option.bind_some, ht, Option.bind_some]
    rfl
  · intro i v hv
    have hpixel : fullPixel kChannels i = fun lane => lane.val / kChannels :=
      funext fun lane => if_neg hthree
    rw [hpixel]
    exact hfullExact i v hv

theorem rowInterpolationConstants3_exact (h : GenericSizes kRatio 3 kUpsize srcWidth dstWidth) :
    ∃ c, rowInterpolationConstants3 kRatio kUpsize srcWidth dstWidth = some c ∧
      c.Exact 3 srcWidth dstWidth := by
  have hlanes : (lanes fun vector : Fin 3 => lanes fun lane : Fin kStep =>
      ResizeGenericU8.scaleX srcWidth dstWidth ((vector * kStep + lane) / 3)) =
      some fun (vector : Fin 3) (lane : Fin kStep) =>
        exactScaleX srcWidth dstWidth ((vector * kStep + lane) / 3) := by
    refine lanes_eq fun vector => lanes_eq fun lane => (h.scaleX ?_).1
    have hlane : lane.val < 16 := lane.isLt
    have hvector := vector.isLt
    unfold kStep
    omega
  have htwo := two_x_le kRatio 3 srcWidth dstWidth
  have hfull : ∃ s, tryForRange ((calculateNumOfVectorPaths kRatio 3 srcWidth dstWidth).1 * 2)
      (fullVector3 (fun vector lane => exactScaleX srcWidth dstWidth ((vector * kStep + lane) / 3))
        (exactCoordinateStep kStep srcWidth dstWidth))
      ⟨exactInitialCoordinate srcWidth dstWidth, 0, []⟩ = some s ∧
      s.Inv kStep srcWidth dstWidth pixel3
        ((calculateNumOfVectorPaths kRatio 3 srcWidth dstWidth).1 * 2 / 3)
        ((calculateNumOfVectorPaths kRatio 3 srcWidth dstWidth).1 * 2) := by
    refine tryForRange_invariant
      (fun k (s : FullState) => s.Inv kStep srcWidth dstWidth pixel3 (k / 3) k) ?_ ?_
    · refine ⟨?_, Nat.zero_le _, rfl, fun i v hv => absurd hv (by simp)⟩
      simp [exactCoordinate]
    · exact fun k hk s hs => fullVector3_exact h (by omega) hs
  obtain ⟨s, hs, hinv⟩ := hfull
  have hhalves : ∃ t, tryForRange (calculateNumOfVectorPaths kRatio 3 srcWidth dstWidth).2
      (fun _ => halfVector3 srcWidth dstWidth (dstWidth * 3 - kHalfStep)
        (srcWidth * 3 - kHalfVectorSrcReadSize kRatio 3 kUpsize : ℕ)
        (exactRoundingDiv (srcWidth * 2 ^ 16) dstWidth)) (s.dx, []) = some t ∧
      ∀ v ∈ t.2, ∀ j, v.xfrac j < 2 ^ 15 := by
    refine tryForRange_invariant
      (fun _ (t : ℕ × List ScalarCoordinates) => ∀ v ∈ t.2, ∀ j, v.xfrac j < 2 ^ 15) ?_ ?_
    · exact fun v hv => by simp at hv
    · exact fun i _ t ht => halfVector3_exact h _ ht
  obtain ⟨t, ht, hweights⟩ := hhalves
  refine ⟨⟨s.constants, [], t.2⟩, ?_, ?_, fun v hv => by simp at hv, hweights⟩
  · simp only [rowInterpolationConstants3, Option.bind_eq_bind, kFixpBits]
    rw [hlanes, Option.bind_some, h.sxFixpOneDstPixel.1, Option.bind_some, h.sxFixpOneDstPixel.2,
      Option.bind_some, h.coordinateStep (by decide), Option.bind_some, h.initialCoordinate,
      Option.bind_some, hs, Option.bind_some, sub_eq h.writable, Option.bind_some, ht,
      Option.bind_some]
    rfl
  · intro i v hv
    have hpixel : fullPixel 3 i = pixel3 i := funext fun lane => if_pos rfl
    rw [hpixel]
    exact hinv.exact i v hv

/-- No generator fails. -/
theorem rowInterpolationConstants_exact
    (h : GenericSizes kRatio kChannels kUpsize srcWidth dstWidth) :
    ∃ c, rowInterpolationConstants kRatio kChannels kUpsize srcWidth dstWidth = some c ∧
      c.Exact kChannels srcWidth dstWidth := by
  by_cases hthree : kChannels = 3
  · subst hthree
    rw [rowInterpolationConstants, if_pos rfl]
    exact rowInterpolationConstants3_exact h
  · rw [rowInterpolationConstants, if_neg hthree]
    exact rowInterpolationConstants124_exact h hthree

end

/-! ### The interpolation is exact -/

/-- One lane of `lerp` over unbounded integers. -/
def exactLerp (a b : U8) (w : U16) : ℤ := a.val + round (((b.val - a.val : ℤ) * w.val : ℚ) / 2 ^ 15)

/-- The rounded product of a difference and a weight is between zero and the difference. -/
theorem delta_between (a b : U8) (w : U16) (hw : w.val < 2 ^ 15) :
    min (a.val : ℤ) b.val ≤ a.val + (2 * (b.val - a.val : ℤ) * w.val + 2 ^ 15) / 2 ^ 16 ∧
      a.val + (2 * (b.val - a.val : ℤ) * w.val + 2 ^ 15) / 2 ^ 16 ≤ max (a.val : ℤ) b.val := by
  have ha := a.isLt
  have hb := b.isLt
  have hweight : (w.val : ℤ) ≤ 2 ^ 15 - 1 := by omega
  rcases le_total (a.val : ℤ) b.val with hab | hab
  · have hlow : 0 ≤ (b.val - a.val : ℤ) * w.val := mul_nonneg (by omega) (Nat.cast_nonneg _)
    have hhigh : (b.val - a.val : ℤ) * w.val ≤ (b.val - a.val) * (2 ^ 15 - 1) :=
      mul_le_mul_of_nonneg_left hweight (by omega)
    rw [mul_assoc]
    omega
  · have hlow : (b.val - a.val : ℤ) * w.val ≤ 0 :=
      mul_nonpos_of_nonpos_of_nonneg (by omega) (Nat.cast_nonneg _)
    have hhigh : (b.val - a.val : ℤ) * (2 ^ 15 - 1) ≤ (b.val - a.val) * w.val :=
      mul_le_mul_of_nonpos_left hweight (by omega)
    rw [mul_assoc]
    omega

theorem exactLerp_eq (a b : U8) (w : U16) :
    exactLerp a b w = a.val + (2 * (b.val - a.val : ℤ) * w.val + 2 ^ 15) / 2 ^ 16 := by
  have hhalf : ((b.val - a.val : ℤ) * w.val : ℚ) / 2 ^ 15 + 1 / 2 =
      ((2 * (b.val - a.val : ℤ) * w.val + 2 ^ 15 : ℤ) : ℚ) / ((2 ^ 16 : ℕ) : ℚ) := by
    push_cast
    ring
  rw [exactLerp, round_eq, hhalf, Rat.floor_intCast_div_natCast]
  norm_num

theorem toS16_vsublU8 (x y : U8) : toS16 (vsublU8 x y) = (x.val : ℤ) - y.val := by
  have hx := x.isLt
  have hy := y.isLt
  have hval : (vsublU8 x y).val = (65536 - y.val + x.val) % 65536 := by
    simp only [vsublU8, Fin.sub_def, Fin.ofNat_eq_cast, Fin.val_natCast]
    omega
  rw [toS16, hval]
  split <;> omega

/-- Adding the low byte of a delta adds the delta, when the sum is a byte. -/
theorem add_vmovnS16 (a : U8) {delta : ℤ} (hlow : 0 ≤ a.val + delta) (hhigh : a.val + delta < 256) :
    ((a + vmovnS16 delta).val : ℤ) = a.val + delta := by
  simp only [vmovnS16, Fin.val_add, Fin.ofNat_eq_cast, Fin.val_natCast]
  omega

/-- The lanes of `lerp_delta`. -/
theorem lerpDelta_eq {n : ℕ} (a b : Fin n → U8) (w : Fin n → U16) (lane : Fin n)
    (hw : (w lane).val < 2 ^ 15) :
    ((a lane).val : ℤ) + lerpDelta a b w lane = exactLerp (a lane) (b lane) (w lane) := by
  have hbetween := delta_between (a lane) (b lane) (w lane) hw
  have ha := (a lane).isLt
  have hb := (b lane).isLt
  have hweight : toS16 (w lane) = (w lane).val := if_pos hw
  rw [exactLerp_eq, lerpDelta, toS16_vsublU8, hweight, vqrdmulhS16]
  omega

theorem exactLerp_between (a b : U8) (w : U16) (hw : w.val < 2 ^ 15) :
    min (a.val : ℤ) b.val ≤ exactLerp a b w ∧ exactLerp a b w ≤ max (a.val : ℤ) b.val := by
  rw [exactLerp_eq]
  exact delta_between a b w hw

theorem lerp_exact (a b : Fin 8 → U8) (w : Fin 8 → U16) (lane : Fin 8)
    (hw : (w lane).val < 2 ^ 15) :
    ((lerp a b w lane).val : ℤ) = exactLerp (a lane) (b lane) (w lane) := by
  have hbetween := exactLerp_between (a lane) (b lane) (w lane) hw
  have ha := (a lane).isLt
  have hb := (b lane).isLt
  have hdelta := lerpDelta_eq a b w lane hw
  rw [lerp, add_vmovnS16 _ (by omega) (by omega), hdelta]

theorem upperByte_lt {lane : Fin 16} (h : ¬ lane.val < 8) : lane.val - 8 < 8 := by omega

/-- The weight of a lane, of two vectors of weights. -/
def laneWeight (w0 w1 : Fin 8 → U16) (lane : Fin 16) : U16 :=
  if h : lane.val < 8 then w0 ⟨lane, h⟩ else w1 ⟨lane - 8, upperByte_lt h⟩

/-- The even bytes of two vectors of words are the low bytes of their lanes. -/
theorem vuzp1qU8_lane (lo hi : Fin 8 → ℤ) (lane : Fin 16) :
    vuzp1qU8 (vreinterpretqU8S16 lo) (vreinterpretqU8S16 hi) lane =
      if h : lane.val < 8 then vmovnS16 (lo ⟨lane, h⟩)
      else vmovnS16 (hi ⟨lane - 8, upperByte_lt h⟩) := by
  have heven : ∀ (v : Fin 8 → ℤ) (i : Fin 8),
      vreinterpretqU8S16 v (Fin.ofNat 16 (2 * i)) = vmovnS16 (v i) := by
    intro v i
    have hindex : (Fin.ofNat 8 ((Fin.ofNat 16 (2 * i.val)).val / 2) : Fin 8) = i := by
      refine Fin.ext ?_
      have hi := i.isLt
      simp only [Fin.ofNat_eq_cast, Fin.val_natCast]
      omega
    have hlow : (Fin.ofNat 16 (2 * i.val)).val % 2 = 0 := by
      have hi := i.isLt
      simp only [Fin.ofNat_eq_cast, Fin.val_natCast]
      omega
    rw [vreinterpretqU8S16, hindex, hlow, pow_zero, Int.ediv_one, vmovnS16]
  rw [vuzp1qU8]
  split
  · rename_i h
    exact heven lo ⟨lane, h⟩
  · rename_i h
    exact heven hi ⟨lane - 8, by omega⟩

theorem lerpq_exact (a b : U8x16) (w0 w1 : Fin 8 → U16) (lane : Fin 16)
    (hw : (laneWeight w0 w1 lane).val < 2 ^ 15) :
    ((lerpq a b w0 w1 lane).val : ℤ) = exactLerp (a lane) (b lane) (laneWeight w0 w1 lane) := by
  have hbetween := exactLerp_between (a lane) (b lane) (laneWeight w0 w1 lane) hw
  have ha := (a lane).isLt
  have hb := (b lane).isLt
  rw [lerpq, vaddqU8, vuzp1qU8_lane]
  by_cases h : lane.val < 8
  · have hlane : laneWeight w0 w1 lane = w0 ⟨lane, h⟩ := dif_pos h
    rw [hlane] at hw hbetween ⊢
    have hdelta := lerpDelta_eq (vgetLowU8 a) (vgetLowU8 b) w0 ⟨lane, h⟩ hw
    change ((a lane).val : ℤ) + lerpDelta (vgetLowU8 a) (vgetLowU8 b) w0 ⟨lane, h⟩ =
      exactLerp (a lane) (b lane) (w0 ⟨lane, h⟩) at hdelta
    rw [dif_pos h, add_vmovnS16 _ (by omega) (by omega), hdelta]
  · have hlane : laneWeight w0 w1 lane = w1 ⟨lane - 8, by omega⟩ := dif_neg h
    rw [hlane] at hw hbetween ⊢
    have hindex : Fin.natAdd 8 (⟨lane - 8, by omega⟩ : Fin 8) = lane := Fin.ext (by simp; omega)
    have hdelta := lerpDelta_eq (vgetHighU8 a) (vgetHighU8 b) w1 ⟨lane - 8, by omega⟩ hw
    have hahigh : vgetHighU8 a ⟨lane - 8, by omega⟩ = a lane := congrArg a hindex
    have hbhigh : vgetHighU8 b ⟨lane - 8, by omega⟩ = b lane := congrArg b hindex
    rw [hahigh, hbhigh] at hdelta
    rw [dif_neg h, add_vmovnS16 _ (by omega) (by omega), hdelta]

end ResizeGenericU8

open ResizeGenericU8

/-- The widths of a call that takes a generic kernel. -/
theorem ResizeCall.IsGenericU8.widths {r : ResizeCall} (h : r.IsGenericU8) :
    (r.srcWidth ≤ r.dstWidth ∧ 16 ≤ r.srcWidth * r.channels) ∨
      (r.dstWidth < r.srcWidth ∧ r.srcWidth ≤ r.dstWidth * 3 ∧
        ((r.srcWidth ≤ r.dstWidth * 2 ∧ r.channels ≠ 3 ∧ 16 ≤ r.srcWidth * r.channels) ∨
          32 ≤ r.srcWidth * r.channels)) := by
  obtain ⟨⟨himpl, -⟩, hempty, h2, h4, hquarter⟩ := h
  have hratio : ¬(r.channels = 1 ∧ [2, 4].any r.hasRatio) := by
    rintro ⟨hone, hany⟩
    simp only [List.any_cons, List.any_nil, Bool.or_false, Bool.or_eq_true] at hany
    rcases hany with hany | hany
    · exact h2 (by simp [resizeLinearU8Is2x2, hone, hany])
    · exact h4 (by simp [resizeLinearU8Is4x4, hone, hany])
  rw [resizeLinearU8IsImplemented] at himpl
  by_cases hlimit : r.tooLarge ∨ r.channels = 0
  · rw [if_pos hlimit] at himpl
    exact absurd himpl Bool.false_ne_true
  rw [if_neg hlimit, if_neg hempty, if_neg fun hq => hquarter hq.1, if_neg hratio] at himpl
  -- Up, and down.
  split_ifs at himpl with hup hdown hsmall hhalf
  · exact .inl ⟨hup.2, of_decide_eq_true himpl⟩
  · exact .inr ⟨hdown.2.2, hdown.2.1, .inl ⟨hhalf.1, hhalf.2, of_decide_eq_true himpl⟩⟩
  · exact .inr ⟨hdown.2.2, hdown.2.1, .inr (of_decide_eq_true himpl)⟩

/-- A call that takes a generic kernel has the sizes that its generator relies on. -/
theorem ResizeCall.IsGenericU8.sizes {r : ResizeCall} (h : r.IsGenericU8) :
    GenericSizes (genericRatio r) r.channels (decide (r.srcWidth ≤ r.dstWidth)) r.srcWidth
      r.dstWidth := by
  have hwidths := h.widths
  obtain ⟨⟨himpl, -⟩, hempty, h2, h4, hquarter⟩ := h
  obtain ⟨hlarge, hgeneric⟩ := u8_sizes himpl
  obtain ⟨hchannels, hwritable⟩ := hgeneric hempty hquarter h2 h4
  obtain ⟨hsrc, -, hdst, -⟩ := ResizeCall.not_tooLarge_iff.mp hlarge
  have hpos := (ResizeCall.not_isEmpty_iff.mp hempty).1
  have hratio : genericRatio r ∈ [1, 2, 3] := by
    rw [genericRatio]
    split_ifs <;> simp
  -- three vectors are loaded below one half only, or for three channels
  have hthird : genericRatio r = 3 → r.channels ≠ 3 → r.dstWidth * 2 < r.srcWidth := by
    rw [genericRatio]
    split_ifs <;> omega
  have hreadable : kHalfVectorSrcReadSize (genericRatio r) r.channels
      (decide (r.srcWidth ≤ r.dstWidth)) ≤ r.srcWidth * r.channels := by
    rw [kHalfVectorSrcReadSize]
    split
    · rename_i hload
      obtain ⟨htwo, hdown⟩ := hload
      have hdown' : r.dstWidth < r.srcWidth := not_le.mp (of_decide_eq_false hdown)
      rcases hwidths with hup | ⟨-, -, ⟨hhalf, hthree, -⟩ | hwide⟩
      · omega
      · rcases htwo with htwo | htwo
        · have hlt := hthird htwo hthree
          omega
        · exact absurd htwo hthree
      · exact hwide
    · rcases hwidths with ⟨-, hwide⟩ | ⟨-, -, ⟨-, -, hwide⟩ | hwide⟩ <;> omega
  exact ⟨hratio, hchannels, hsrc, hdst, by omega, by omega, hreadable, hwritable⟩

/-- **The arithmetic of the generic kernels.**  For every call that takes one, nothing wraps in
the coordinates, up to one pixel past the end of a row and for vectors of any length; all
lanes hold their exact values; and the interpolation is the exact one, rounded. -/
theorem resizeGenericU8_exact {r : ResizeCall} (hr : r.IsGenericU8) :
    (∀ x ≤ r.dstWidth, alignedScale x r.srcWidth r.dstWidth =
      some (exactAlignedScale x r.srcWidth r.dstWidth)) ∧
    (∀ y < r.dstHeight, alignedScale y r.srcHeight r.dstHeight =
      some (exactAlignedScale y r.srcHeight r.dstHeight)) ∧
    initialCoordinate r.srcWidth r.dstWidth = some (exactInitialCoordinate r.srcWidth r.dstWidth) ∧
    (∀ pixels ≤ 256, coordinateStep pixels r.srcWidth r.dstWidth =
      some (exactCoordinateStep pixels r.srcWidth r.dstWidth : ℤ)) ∧
    (∀ dx ≤ 256, scaleX r.srcWidth r.dstWidth dx = some (exactScaleX r.srcWidth r.dstWidth dx)) ∧
    (∃ c, rowInterpolationConstants (genericRatio r) r.channels
        (decide (r.srcWidth ≤ r.dstWidth)) r.srcWidth r.dstWidth = some c ∧
      c.Exact r.channels r.srcWidth r.dstWidth) ∧
    (∀ (a b : Fin 8 → U8) (w : Fin 8 → U16) (lane : Fin 8), (w lane).val < 2 ^ 15 →
      ((lerp a b w lane).val : ℤ) = exactLerp (a lane) (b lane) (w lane) ∧
      min (a lane) (b lane) ≤ lerp a b w lane ∧ lerp a b w lane ≤ max (a lane) (b lane)) ∧
    ∀ (a b : U8x16) (w0 w1 : Fin 8 → U16) (lane : Fin 16), (laneWeight w0 w1 lane).val < 2 ^ 15 →
      ((lerpq a b w0 w1 lane).val : ℤ) = exactLerp (a lane) (b lane) (laneWeight w0 w1 lane) ∧
      min (a lane) (b lane) ≤ lerpq a b w0 w1 lane ∧
      lerpq a b w0 w1 lane ≤ max (a lane) (b lane) := by
  have h := hr.sizes
  obtain ⟨-, hsrcHeight, -, hdstHeight⟩ := ResizeCall.not_tooLarge_iff.mp (u8_sizes hr.1.1).1
  have hbyte : ∀ (a b x : U8) (w : U16), w.val < 2 ^ 15 → (x.val : ℤ) = exactLerp a b w →
      min a b ≤ x ∧ x ≤ max a b := by
    intro a b x w hw hx
    have hbetween := exactLerp_between a b w hw
    rw [← hx] at hbetween
    simp only [min_le_iff, le_max_iff, Fin.le_def] at hbetween ⊢
    omega
  refine ⟨fun x hx => alignedScale_eq h.srcWidth_lt h.dstWidth_pos h.dstWidth_lt hx,
    fun y hy => alignedScale_eq hsrcHeight (Nat.zero_lt_of_lt hy) hdstHeight hy.le,
    h.initialCoordinate, fun pixels hpixels => h.coordinateStep hpixels,
    fun dx hdx => (h.scaleX hdx).1, rowInterpolationConstants_exact h, ?_, ?_⟩
  · intro a b w lane hw
    have hexact := lerp_exact a b w lane hw
    exact ⟨hexact, hbyte _ _ _ _ hw hexact⟩
  · intro a b w0 w1 lane hw
    have hexact := lerpq_exact a b w0 w1 lane hw
    exact ⟨hexact, hbyte _ _ _ _ hw hexact⟩

/-- Sixteen pixels become twenty-four. -/
theorem resizeGenericU8_exact_sixteen :
    alignedScale 24 16 24 = some (exactAlignedScale 24 16 24) ∧
      ∃ c, rowInterpolationConstants 1 1 true 16 24 = some c ∧ c.Exact 1 16 24 := by
  have h := resizeGenericU8_exact (r := ⟨1, 16, 16, 1, 100, 24, 24, 1, 1⟩)
    ⟨⟨by decide, by decide⟩, by decide, by decide, by decide, by decide⟩
  exact ⟨h.1 24 le_rfl, h.2.2.2.2.2.1⟩

end KleidiCV
