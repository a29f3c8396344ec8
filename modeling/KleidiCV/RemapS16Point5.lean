/-
`remap_s16point5_neon.cpp`, the operations on images of one channel.

Coordinates come with fractions of five bits, and a pixel is interpolated from four
neighbours.  The kernels differ in how they keep the neighbours inside the image.

* `interpolate_ensures` — the weighted sum, without overflow;
* `RemapS16Point5` — an operation by what its lanes read and compute;
* `replicateU8_spec`, `replicateU16_spec`, `constantBorder_spec` — the operations.
-/
import KleidiCV.RemapS16

namespace KleidiCV

/-- `REMAP16POINT5_FRAC_BITS`. -/
def remap16Point5FracBits : ℕ := 5

/-- `REMAP16POINT5_FRAC_MAX`. -/
def remap16Point5FracMax : ℕ := 2 ^ remap16Point5FracBits

/-- `REMAP16POINT5_FRAC_MAX_SQUARE`. -/
def remap16Point5FracMaxSquare : ℕ := remap16Point5FracMax * remap16Point5FracMax

namespace Remap

/-! ### Interpolation -/

section

variable {n v w : ℕ}

/-- `vmull_u16`. -/
abbrev vmullU16 (a b : Fin n → BitVec 16) : Tracked (Fin n → BitVec 32) :=
  Tracked.lanes 32 fun lane => (a lane).toNat * (b lane).toNat

/-- `vmul_u16`. -/
abbrev vmulU16 (a b : Fin n → BitVec 16) : Tracked (Fin n → BitVec 16) :=
  Tracked.lanes 16 fun lane => (a lane).toNat * (b lane).toNat

/-- `vshrn_n_u32`. -/
abbrev vshrnNU32 (shift : ℕ) (a : Fin n → BitVec 32) : Tracked (Fin n → BitVec 16) :=
  Tracked.lanes 16 fun lane => (a lane).toNat / 2 ^ shift

/-- `vuzp1` of lanes seen as pairs of lanes of `w` bits: the lower half of each lane. -/
abbrev vuzp1 (w : ℕ) (low high : Fin n → BitVec v) : Tracked (Fin (2 * n) → BitVec w) :=
  Tracked.lanes w fun lane => (vcombine low high lane).toNat

/-- `vsubq_u16` from `REMAP16POINT5_FRAC_MAX`. -/
def complement (frac : Fin n → BitVec 16) : Tracked (Fin n → BitVec 16) :=
  ⟨fun lane => BitVec.ofNat 16 remap16Point5FracMax - frac lane,
    ∀ lane, (frac lane).toNat ≤ remap16Point5FracMax⟩

/-- `interpolate_horizontal`. -/
def interpolateHorizontal (left right frac nfrac : Fin n → BitVec 16) :
    Tracked (Fin n → BitVec 32) := do
  let product ← vmullU16 nfrac left
  GaussianBlur.vmlal product frac right

/-- `interpolate_vertical`; the pixel values are offset by one half before they are rounded
down. -/
def interpolateVertical (a b frac nfrac : Fin n → BitVec 32) : Tracked (Fin n → BitVec 32) := do
  let bias : Fin n → BitVec 32 := vdupq (BitVec.ofNat 32 (remap16Point5FracMaxSquare / 2))
  let res32 ← GaussianBlur.vmlaq bias a nfrac
  let res32 ← GaussianBlur.vmlaq res32 b frac
  pure fun lane => res32 lane >>> (2 * remap16Point5FracBits)

/-- `interpolate`. -/
def interpolate (a b c d xfrac yfrac nxfrac nyfrac : Fin (2 * 4) → BitVec 16) :
    Tracked (Fin (2 * 4) → BitVec 16) := do
  let line0Low ← interpolateHorizontal (vgetLow a) (vgetLow b) (vgetLow xfrac) (vgetLow nxfrac)
  let line1Low ← interpolateHorizontal (vgetLow c) (vgetLow d) (vgetLow xfrac) (vgetLow nxfrac)
  let line0High ← interpolateHorizontal (vgetHigh a) (vgetHigh b) (vgetHigh xfrac) (vgetHigh nxfrac)
  let line1High ← interpolateHorizontal (vgetHigh c) (vgetHigh d) (vgetHigh xfrac) (vgetHigh nxfrac)
  let yfracLow ← GaussianBlur.vmovl 32 (vgetLow yfrac)
  let nyfracLow ← GaussianBlur.vmovl 32 (vgetLow nyfrac)
  let lo ← interpolateVertical line0Low line1Low yfracLow nyfracLow
  let yfracHigh ← GaussianBlur.vmovl 32 (vgetHigh yfrac)
  let nyfracHigh ← GaussianBlur.vmovl 32 (vgetHigh nyfrac)
  let hi ← interpolateVertical line0High line1High yfracHigh nyfracHigh
  vuzp1 16 lo hi

/-- Weights that add up to 32. -/
theorem weighted_le {f m a b : ℕ} (hf : f ≤ 32) (ha : a ≤ m) (hb : b ≤ m) :
    (32 - f) * a + f * b ≤ 32 * m := by
  have h1 := Nat.mul_le_mul_left (32 - f) ha
  have h2 := Nat.mul_le_mul_left f hb
  have h3 : (32 - f) * m + f * m = 32 * m := by
    rw [← Nat.add_mul]
    congr 1
    omega
  omega

theorem interpolated_eq (xfrac yfrac a b c d : ℕ) :
    interpolated xfrac yfrac a b c d =
      (512 + ((32 - xfrac) * a + xfrac * b) * (32 - yfrac) +
        ((32 - xfrac) * c + xfrac * d) * yfrac) / 1024 := by
  rw [interpolated]
  congr 1
  ring

/-- Sums in 32 bits, and the result in the range of the neighbours. -/
theorem sum_le {f m a b : ℕ} (hf : f ≤ 32) (ha : a ≤ 32 * m) (hb : b ≤ 32 * m) :
    512 + a * (32 - f) + b * f ≤ 512 + 1024 * m := by
  have h := weighted_le hf ha hb
  rw [Nat.mul_comm a, Nat.mul_comm b]
  omega

theorem interpolated_le {xfrac yfrac a b c d m : ℕ} (hx : xfrac ≤ 32) (hy : yfrac ≤ 32) (ha : a ≤ m)
    (hb : b ≤ m) (hc : c ≤ m) (hd : d ≤ m) : interpolated xfrac yfrac a b c d ≤ m := by
  have h := sum_le hy (weighted_le hx ha hb) (weighted_le hx hc hd)
  rw [interpolated_eq]
  omega

theorem complement_ensures {frac : Fin n → BitVec 16} (h : ∀ lane, (frac lane).toNat ≤ 32) :
    (complement frac).Ensures fun nfrac => ∀ lane, (nfrac lane).toNat = 32 - (frac lane).toNat := by
  refine ⟨h, fun lane => ?_⟩
  have hlane := h lane
  simp only [complement, remap16Point5FracMax, remap16Point5FracBits]
  rw [BitVec.toNat_sub]
  simp only [BitVec.toNat_ofNat]
  omega

theorem interpolateHorizontal_ensures {left right frac nfrac : Fin n → BitVec 16}
    (hf : ∀ lane, (frac lane).toNat ≤ 32)
    (hnf : ∀ lane, (nfrac lane).toNat = 32 - (frac lane).toNat) :
    (interpolateHorizontal left right frac nfrac).Ensures fun line => ∀ lane,
      (line lane).toNat =
        (32 - (frac lane).toNat) * (left lane).toNat + (frac lane).toNat * (right lane).toNat := by
  have hbound : ∀ lane, (32 - (frac lane).toNat) * (left lane).toNat +
      (frac lane).toNat * (right lane).toNat ≤ 32 * 65535 := fun lane =>
    weighted_le (hf lane) (by have := (left lane).isLt; omega) (by have := (right lane).isLt; omega)
  refine (Tracked.lanes_ensures fun lane => ?_).bind fun product hproduct => ?_
  · have := hbound lane
    rw [hnf]
    omega
  · simp only [hnf] at hproduct
    refine (Tracked.lanes_ensures fun lane => ?_).imp fun line hline lane => ?_
    · have := hbound lane
      rw [hproduct]
      omega
    · rw [hline, hproduct]

theorem interpolateVertical_ensures {a b frac nfrac : Fin n → BitVec 32}
    (ha : ∀ lane, (a lane).toNat ≤ 32 * 65535) (hb : ∀ lane, (b lane).toNat ≤ 32 * 65535)
    (hf : ∀ lane, (frac lane).toNat ≤ 32)
    (hnf : ∀ lane, (nfrac lane).toNat = 32 - (frac lane).toNat) :
    (interpolateVertical a b frac nfrac).Ensures fun res => ∀ lane,
      (res lane).toNat = (512 + (a lane).toNat * (32 - (frac lane).toNat) +
        (b lane).toNat * (frac lane).toNat) / 1024 := by
  have hbias : ∀ lane : Fin n, (vdupq (BitVec.ofNat 32 (remap16Point5FracMaxSquare / 2)) lane :
      BitVec 32).toNat = 512 := fun _ => rfl
  refine (Tracked.lanes_ensures fun lane => ?_).bind fun sum hsum => ?_
  · have := sum_le (hf lane) (ha lane) (hb lane)
    rw [hbias, hnf]
    omega
  · simp only [hbias, hnf] at hsum
    refine (Tracked.lanes_ensures fun lane => ?_).bind fun res hres => .pure fun lane => ?_
    · have := sum_le (hf lane) (ha lane) (hb lane)
      rw [hsum]
      omega
    · rw [BitVec.toNat_ushiftRight, hres, hsum, Nat.shiftRight_eq_div_pow]
      rfl

theorem vcombine_toNat {low high : Fin n → BitVec v} {f : Fin (2 * n) → ℕ}
    (hlow : ∀ lane, (low lane).toNat = vgetLow f lane)
    (hhigh : ∀ lane, (high lane).toNat = vgetHigh f lane) (lane : Fin (2 * n)) :
    (vcombine low high lane).toNat = f lane :=
  GaussianBlur.vcombine_cases (P := fun lane (x : BitVec v) => x.toNat = f lane) hlow hhigh lane

/-- **The interpolation of eight lanes**, without overflow. -/
theorem interpolate_ensures {a b c d xfrac yfrac nxfrac nyfrac : Fin (2 * 4) → BitVec 16}
    (hx : ∀ lane, (xfrac lane).toNat ≤ 32) (hy : ∀ lane, (yfrac lane).toNat ≤ 32)
    (hnx : ∀ lane, (nxfrac lane).toNat = 32 - (xfrac lane).toNat)
    (hny : ∀ lane, (nyfrac lane).toNat = 32 - (yfrac lane).toNat) :
    (interpolate a b c d xfrac yfrac nxfrac nyfrac).Ensures fun result => ∀ lane,
      (result lane).toNat = interpolated (xfrac lane).toNat (yfrac lane).toNat (a lane).toNat
        (b lane).toNat (c lane).toNat (d lane).toNat := by
  have hwide : ∀ (f : Fin 4 → BitVec 16),
      (GaussianBlur.vmovl 32 f).Ensures fun g => ∀ lane, (g lane).toNat = (f lane).toNat := fun f =>
    Tracked.lanes_ensures fun lane => by have := (f lane).isLt; omega
  have hbound : ∀ {left right : BitVec 16} {f : ℕ}, f ≤ 32 →
      (32 - f) * left.toNat + f * right.toNat ≤ 32 * 65535 := fun {left right f} hf =>
    weighted_le hf (by have := left.isLt; omega) (by have := right.isLt; omega)
  refine (interpolateHorizontal_ensures (fun lane => hx _) fun lane => hnx _).bind
    fun line0Low h0l => ?_
  refine (interpolateHorizontal_ensures (fun lane => hx _) fun lane => hnx _).bind
    fun line1Low h1l => ?_
  refine (interpolateHorizontal_ensures (fun lane => hx _) fun lane => hnx _).bind
    fun line0High h0h => ?_
  refine (interpolateHorizontal_ensures (fun lane => hx _) fun lane => hnx _).bind
    fun line1High h1h => ?_
  refine (hwide _).bind fun yfracLow hyl => (hwide _).bind fun nyfracLow hnyl => ?_
  refine (interpolateVertical_ensures (fun lane => ?_) (fun lane => ?_) (fun lane => ?_)
    fun lane => ?_).bind fun lo hlo => ?_
  · rw [h0l]
    exact hbound (hx _)
  · rw [h1l]
    exact hbound (hx _)
  · rw [hyl]
    exact hy _
  · rw [hnyl, hyl]
    exact hny _
  refine (hwide _).bind fun yfracHigh hyh => (hwide _).bind fun nyfracHigh hnyh => ?_
  refine (interpolateVertical_ensures (fun lane => ?_) (fun lane => ?_) (fun lane => ?_)
    fun lane => ?_).bind fun hi hhi => ?_
  · rw [h0h]
    exact hbound (hx _)
  · rw [h1h]
    exact hbound (hx _)
  · rw [hyh]
    exact hy _
  · rw [hnyh, hyh]
    exact hny _
  have hresult : ∀ lane, (vcombine lo hi lane).toNat = interpolated (xfrac lane).toNat
      (yfrac lane).toNat (a lane).toNat (b lane).toNat (c lane).toNat (d lane).toNat :=
    vcombine_toNat (f := fun lane => interpolated (xfrac lane).toNat (yfrac lane).toNat (a lane).toNat
      (b lane).toNat (c lane).toNat (d lane).toNat)
    (fun lane => by rw [hlo, h0l, h1l, hyl]; exact (interpolated_eq ..).symm)
    fun lane => by rw [hhi, h0h, h1h, hyh]; exact (interpolated_eq ..).symm
  refine (Tracked.lanes_ensures fun lane => ?_).imp fun result h lane => (h lane).trans (hresult lane)
  rw [hresult]
  have hle : ∀ x : BitVec 16, x.toNat ≤ 65535 := fun x => by have := x.isLt; omega
  have := interpolated_le (hx lane) (hy lane) (hle (a lane)) (hle (b lane)) (hle (c lane))
    (hle (d lane))
  omega

end

/-! ### One channel, replicated borders -/

/-- The fractions of the entries: the lower five bits, and the five bits above them. -/
def xFraction (frac : Fin (2 * 4) → BitVec 16) : Fin (2 * 4) → BitVec 16 :=
  vandq frac (vdupq (BitVec.ofNat 16 (remap16Point5FracMax - 1)))

def yFraction (frac : Fin (2 * 4) → BitVec 16) : Fin (2 * 4) → BitVec 16 :=
  vandq (fun lane => frac lane >>> remap16Point5FracBits)
    (vdupq (BitVec.ofNat 16 (remap16Point5FracMax - 1)))

/-- The fraction, but zero where the coordinate is negative. -/
def fractionOrZero (coordinate frac : Fin (2 * 4) → BitVec 16) : Fin (2 * 4) → BitVec 16 :=
  vbslq (vcltqS16 coordinate (vdupq 0)) (vdupq 0) frac

/-- Coordinates clamped to the dimensions of the source image. -/
def clampedS16 (coordinate : Fin (2 * 4) → BitVec 16) (max : BitVec 16) : Fin (2 * 4) → BitVec 16 :=
  vmaxqS16 (vdupq 0) (vminqS16 coordinate (vdupq max))

/-- `load_and_interpolate`: four pixels.  The bytes of each neighbour are put together in
a 64-bit word, 16 bits apart. -/
def loadAndInterpolate (src : ℕ → BitVec 8) (stride : BitVec 16)
    (x0 y0 x1 y1 xfrac yfrac nxfrac nyfrac : Fin 4 → BitVec 16) :
    Traced Tap (Fin 4 → BitVec 16) := do
  let x0Wide ← GaussianBlur.vmovl 32 x0
  let x1Wide ← GaussianBlur.vmovl 32 x1
  let offset ← GaussianBlur.vmlal x0Wide y0 (vdupq stride)
  let acc ← load src x0 y0 offset
  let a := fun lane => (acc lane).setWidth 16
  let offset ← GaussianBlur.vmlal x1Wide y0 (vdupq stride)
  let acc ← load src x1 y0 offset
  let b := fun lane => (acc lane).setWidth 16
  let product ← vmulU16 xfrac b
  let line0 ← GaussianBlur.vmlaq product nxfrac a
  let offset ← GaussianBlur.vmlal x0Wide y1 (vdupq stride)
  let acc ← load src x0 y1 offset
  let c := fun lane => (acc lane).setWidth 16
  let line0Lerpd ← GaussianBlur.vmlal
    (vdupq (BitVec.ofNat 32 (remap16Point5FracMaxSquare / 2))) line0 nyfrac
  let offset ← GaussianBlur.vmlal x1Wide y1 (vdupq stride)
  let acc ← load src x1 y1 offset
  let d := fun lane => (acc lane).setWidth 16
  let product ← vmulU16 xfrac d
  let line1 ← GaussianBlur.vmlaq product nxfrac c
  let sum ← GaussianBlur.vmlal line0Lerpd line1 yfrac
  vshrnNU32 (2 * remap16Point5FracBits) sum

/-- `RemapS16Point5Replicate<uint8_t>`, the vector path.  `x1 = x0 + 1`, except if it is
already `xmax`. -/
def remapS16Point5ReplicateU8 (src : ℕ → BitVec 8) (stride xmax ymax : BitVec 16)
    (mapX mapY frac : Fin (2 * 4) → BitVec 16) : Traced Tap (Fin (2 * 4) → BitVec 8) := do
  let xfrac := fractionOrZero mapX (xFraction frac)
  let yfrac := fractionOrZero mapY (yFraction frac)
  let nxfrac ← complement xfrac
  let nyfrac ← complement yfrac
  let x0 := clampedS16 mapX xmax
  let y0 := clampedS16 mapY ymax
  let x1 := vsubq x0 (vcltqS16 mapX (vdupq xmax))
  let y1 := vsubq y0 (vcltqS16 mapY (vdupq ymax))
  let dstLow ← loadAndInterpolate src stride (vgetLow x0) (vgetLow y0) (vgetLow x1) (vgetLow y1)
    (vgetLow xfrac) (vgetLow yfrac) (vgetLow nxfrac) (vgetLow nyfrac)
  let dstHigh ← loadAndInterpolate src stride (vgetHigh x0) (vgetHigh y0) (vgetHigh x1) (vgetHigh y1)
    (vgetHigh xfrac) (vgetHigh yfrac) (vgetHigh nxfrac) (vgetHigh nyfrac)
  vuzp1 8 dstLow dstHigh

/-- `load_pixels` of `RemapS16Point5Replicate<uint16_t>`, which clamps once more. -/
def loadPixelsClamped (src : ℕ → BitVec 16) (stride xmax ymax : BitVec 16)
    (x y : Fin (2 * 4) → BitVec 16) : Traced Tap (Fin (2 * 4) → BitVec 16) :=
  let xClamped := vminqU16 (vmaxqS16 x (vdupq 0)) (vdupq xmax)
  let yClamped := vminqU16 (vmaxqS16 y (vdupq 0)) (vdupq ymax)
  loadPixels src stride xClamped yClamped

/-- `RemapS16Point5Replicate<uint16_t>`: `prepare_maps` and `transform_pixels`. -/
def remapS16Point5ReplicateU16 (src : ℕ → BitVec 16) (stride xmax ymax : BitVec 16)
    (mapX mapY frac : Fin (2 * 4) → BitVec 16) : Traced Tap (Fin (2 * 4) → BitVec 16) := do
  let xfrac := fractionOrZero mapX (xFraction frac)
  let yfrac := fractionOrZero mapY (yFraction frac)
  let nxfrac ← complement xfrac
  let nyfrac ← complement yfrac
  let x0 := clampedS16 mapX xmax
  let y0 := clampedS16 mapY ymax
  let x1 := vsubq x0 (vcltqS16 mapX (vdupq xmax))
  let y1 := vsubq y0 (vcltqS16 mapY (vdupq ymax))
  let a ← loadPixelsClamped src stride xmax ymax x0 y0
  let b ← loadPixelsClamped src stride xmax ymax x1 y0
  let c ← loadPixelsClamped src stride xmax ymax x0 y1
  let d ← loadPixelsClamped src stride xmax ymax x1 y1
  interpolate a b c d xfrac yfrac nxfrac nyfrac

/-! ### One channel, constant borders -/

/-- `load_pixels_or_constant_border`; the pixels are widened to 16 bits. -/
def loadPixelsOrConstantBorder {v : ℕ} (src : ℕ → BitVec v) (stride width height border : BitVec 16)
    (x y : Fin (2 * 4) → BitVec 16) : Traced Tap (Fin (2 * 4) → BitVec 16) := do
  let inRange := vandq (vcltqU16 x (vdupq width)) (vcltqU16 y (vdupq height))
  let pixels ← loadPixels src stride (vandq inRange x) (vandq inRange y)
  pure (vbslq inRange (fun lane => (pixels lane).setWidth 16) (vdupq border))

/-- What the two specializations of `RemapS16Point5ConstantBorder` have in common. -/
def constantBorderPixels {v : ℕ} (src : ℕ → BitVec v) (stride width height border : BitVec 16)
    (mapX mapY frac : Fin (2 * 4) → BitVec 16) : Traced Tap (Fin (2 * 4) → BitVec 16) := do
  let xfrac := xFraction frac
  let yfrac := yFraction frac
  let nxfrac ← complement xfrac
  let nyfrac ← complement yfrac
  let x1 := vaddq mapX (vdupq 1)
  let y1 := vaddq mapY (vdupq 1)
  let a ← loadPixelsOrConstantBorder src stride width height border mapX mapY
  let b ← loadPixelsOrConstantBorder src stride width height border x1 mapY
  let c ← loadPixelsOrConstantBorder src stride width height border mapX y1
  let d ← loadPixelsOrConstantBorder src stride width height border x1 y1
  interpolate a b c d xfrac yfrac nxfrac nyfrac

/-- `vqmovn_u16`. -/
def vqmovnU16 {n : ℕ} (a : Fin n → BitVec 16) : Fin n → BitVec 8 := fun lane =>
  BitVec.ofNat 8 (min (a lane).toNat 255)

/-- `RemapS16Point5ConstantBorder<uint8_t>`, the vector path. -/
def remapS16Point5ConstantBorderU8 (src : ℕ → BitVec 8) (stride width height border : BitVec 16)
    (mapX mapY frac : Fin (2 * 4) → BitVec 16) : Traced Tap (Fin (2 * 4) → BitVec 8) := do
  let result ← constantBorderPixels src stride width height border mapX mapY frac
  pure (vqmovnU16 result)

/-- `RemapS16Point5ConstantBorder<uint16_t>`. -/
def remapS16Point5ConstantBorderU16 (src : ℕ → BitVec 16) (stride width height border : BitVec 16)
    (mapX mapY frac : Fin (2 * 4) → BitVec 16) : Traced Tap (Fin (2 * 4) → BitVec 16) :=
  constantBorderPixels src stride width height border mapX mapY frac

/-! ### What the kernels do for a pixel -/

section

variable {n v w : ℕ}

theorem xFraction_toNat (frac : Fin (2 * 4) → BitVec 16) (lane : Fin (2 * 4)) :
    (xFraction frac lane).toNat = (frac lane).toNat % 32 := by
  have hmask : (vdupq (BitVec.ofNat 16 (remap16Point5FracMax - 1)) lane : BitVec 16).toNat =
      2 ^ 5 - 1 := rfl
  rw [xFraction, vandq, BitVec.toNat_and, hmask, Nat.and_two_pow_sub_one_eq_mod]

theorem yFraction_toNat (frac : Fin (2 * 4) → BitVec 16) (lane : Fin (2 * 4)) :
    (yFraction frac lane).toNat = (frac lane).toNat / 32 % 32 := by
  have hmask : (vdupq (BitVec.ofNat 16 (remap16Point5FracMax - 1)) lane : BitVec 16).toNat =
      2 ^ 5 - 1 := rfl
  rw [yFraction, vandq, BitVec.toNat_and, hmask, Nat.and_two_pow_sub_one_eq_mod,
    BitVec.toNat_ushiftRight, Nat.shiftRight_eq_div_pow]
  rfl

theorem fractionOrZero_apply (coordinate frac : Fin (2 * 4) → BitVec 16) (lane : Fin (2 * 4)) :
    fractionOrZero coordinate frac lane = if (coordinate lane).slt 0 then 0 else frac lane :=
  vbslq_apply rfl

/-- The fractions of an entry. -/
def xFractionOf (e : MapEntry) : ℕ := e.frac.toNat % 32

def yFractionOf (e : MapEntry) : ℕ := e.frac.toNat / 32 % 32

/-- A fraction, but zero if the coordinate is negative. -/
def zeroBelow (coordinate : BitVec 16) (frac : ℕ) : ℕ := if coordinate.slt 0 then 0 else frac

theorem fractions_toNat (entries : Fin (2 * 4) → MapEntry) (lane : Fin (2 * 4)) :
    (fractionOrZero (fun lane => (entries lane).x) (xFraction fun lane => (entries lane).frac)
        lane).toNat = zeroBelow (entries lane).x (xFractionOf (entries lane)) ∧
      (fractionOrZero (fun lane => (entries lane).y) (yFraction fun lane => (entries lane).frac)
        lane).toNat = zeroBelow (entries lane).y (yFractionOf (entries lane)) := by
  rw [fractionOrZero_apply, fractionOrZero_apply, zeroBelow, zeroBelow]
  constructor
  · split
    · rfl
    · exact xFraction_toNat _ lane
  · split
    · rfl
    · exact yFraction_toNat _ lane

theorem zeroBelow_le (coordinate : BitVec 16) {frac : ℕ} (h : frac < 32) :
    zeroBelow coordinate frac ≤ 32 := by
  rw [zeroBelow]
  split
  · exact Nat.zero_le _
  · exact h.le

/-- The coordinate after `x0`, unless `x` is not below the maximum. -/
def nextUnless (x0 x max : BitVec 16) : BitVec 16 := if x.slt max then x0 + 1 else x0

theorem vsubq_mask (x0 x : Fin n → BitVec 16) (max : BitVec 16) (lane : Fin n) :
    vsubq x0 (vcltqS16 x (vdupq max)) lane = nextUnless (x0 lane) (x lane) max := by
  show x0 lane - (if (x lane).slt max then BitVec.allOnes 16 else 0) = _
  rw [nextUnless]
  split
  · rw [← BitVec.neg_one_eq_allOnes, BitVec.sub_neg]
    rfl
  · exact BitVec.sub_zero _

end

section

variable {src : ℕ → BitVec 8} {stride : BitVec 16}

/-- Sums in 16 bits. -/
theorem line_ensures {n : ℕ} {left right : Fin n → BitVec 8} {frac nfrac : Fin n → BitVec 16}
    (hf : ∀ lane, (frac lane).toNat ≤ 32)
    (hnf : ∀ lane, (nfrac lane).toNat = 32 - (frac lane).toNat) {β : Type}
    {f : (Fin n → BitVec 16) → Traced Tap β} {T : Set Tap} {Q : β → Prop}
    (h : ∀ line, (∀ lane, (line lane).toNat = (32 - (frac lane).toNat) * (left lane).toNat +
      (frac lane).toNat * (right lane).toNat) → (f line).Ensures T Q) :
    (do
      let product ← vmulU16 frac fun lane => (right lane).setWidth 16
      let line ← GaussianBlur.vmlaq product nfrac fun lane => (left lane).setWidth 16
      f line : Traced Tap β).Ensures T Q := by
  have hwide : ∀ x : BitVec 8, (x.setWidth 16).toNat = x.toNat := fun x => by
    rw [BitVec.toNat_setWidth]
    have := x.isLt
    omega
  have hbound : ∀ lane, (32 - (frac lane).toNat) * (left lane).toNat +
      (frac lane).toNat * (right lane).toNat ≤ 32 * 255 := fun lane =>
    weighted_le (hf lane) (by have := (left lane).isLt; omega) (by have := (right lane).isLt; omega)
  refine Traced.Ensures.lift_bind (Tracked.lanes_ensures fun lane => ?_) fun product hproduct => ?_
  · have := hbound lane
    rw [hwide]
    omega
  · simp only [hwide] at hproduct
    refine Traced.Ensures.lift_bind (Tracked.lanes_ensures fun lane => ?_) fun line hline => h line ?_
    · have := hbound lane
      rw [hproduct, hnf, hwide]
      omega
    · intro lane
      rw [hline, hproduct, hnf, hwide, Nat.add_comm]

/-- Four pixels. -/
theorem loadAndInterpolate_ensures {x0 y0 x1 y1 xfrac yfrac nxfrac nyfrac : Fin 4 → BitVec 16}
    (hx : ∀ lane, (xfrac lane).toNat ≤ 32) (hy : ∀ lane, (yfrac lane).toNat ≤ 32)
    (hnx : ∀ lane, (nxfrac lane).toNat = 32 - (xfrac lane).toNat)
    (hny : ∀ lane, (nyfrac lane).toNat = 32 - (yfrac lane).toNat) :
    (loadAndInterpolate src stride x0 y0 x1 y1 xfrac yfrac nxfrac nyfrac).Ensures
      {t | ∃ lane, t ∈ ({pixelTap 1 stride (x0 lane) (y0 lane), pixelTap 1 stride (x1 lane) (y0 lane),
        pixelTap 1 stride (x0 lane) (y1 lane), pixelTap 1 stride (x1 lane) (y1 lane)} : Set Tap)}
      fun pixels => ∀ lane, (pixels lane).toNat =
        interpolated (xfrac lane).toNat (yfrac lane).toNat
          (src ((x0 lane).toNat + (y0 lane).toNat * stride.toNat)).toNat
          (src ((x1 lane).toNat + (y0 lane).toNat * stride.toNat)).toNat
          (src ((x0 lane).toNat + (y1 lane).toNat * stride.toNat)).toNat
          (src ((x1 lane).toNat + (y1 lane).toNat * stride.toNat)).toNat := by
  have hwide : ∀ (f : Fin 4 → BitVec 16),
      (GaussianBlur.vmovl 32 f).Ensures fun g => ∀ lane, (g lane).toNat = (f lane).toNat := fun f =>
    Tracked.lanes_ensures fun lane => by have := (f lane).isLt; omega
  have hoffset : ∀ (x y : Fin 4 → BitVec 16) (xWide : Fin 4 → BitVec 32),
      (∀ lane, (xWide lane).toNat = (x lane).toNat) →
      (GaussianBlur.vmlal xWide y (vdupq stride)).Ensures fun offset => ∀ lane,
        (offset lane).toNat = (x lane).toNat + (y lane).toNat * stride.toNat := by
    intro x y xWide hx
    simp only [GaussianBlur.vmlal, hx]
    exact Tracked.lanes_ensures fun lane => offset_lt _ _ _
  have hbyte : ∀ x : BitVec 8, x.toNat ≤ 255 := fun x => by have := x.isLt; omega
  have hsum : ∀ lane {line0 line1 : ℕ}, line0 ≤ 32 * 255 → line1 ≤ 32 * 255 →
      512 + line0 * (32 - (yfrac lane).toNat) + line1 * (yfrac lane).toNat ≤ 512 + 1024 * 255 :=
    fun lane _ _ h0 h1 => sum_le (hy lane) h0 h1
  have hbias : ∀ lane : Fin 4, (vdupq (BitVec.ofNat 32 (remap16Point5FracMaxSquare / 2)) lane :
      BitVec 32).toNat = 512 := fun _ => rfl
  rw [← union_taps]
  refine Traced.Ensures.lift_bind (hwide x0) fun x0Wide hx0 =>
    Traced.Ensures.lift_bind (hwide x1) fun x1Wide hx1 =>
    Traced.Ensures.lift_bind (hoffset x0 y0 _ hx0) fun offset ho =>
    (loadElements_ensures ho).bind fun a ha =>
    Traced.Ensures.lift_bind (hoffset x1 y0 _ hx1) fun offset ho =>
    (loadElements_ensures ho).bind fun b hb => line_ensures hx hnx fun line0 hline0 =>
    Traced.Ensures.lift_bind (hoffset x0 y1 _ hx0) fun offset ho =>
    (loadElements_ensures ho).bind fun c hc => ?_
  have h0 : ∀ lane, (line0 lane).toNat ≤ 32 * 255 := fun lane => by
    rw [hline0]
    exact weighted_le (hx lane) (hbyte _) (hbyte _)
  refine Traced.Ensures.lift_bind (Tracked.lanes_ensures fun lane => ?_) fun line0Lerpd hlerpd => ?_
  · have := hsum lane (h0 lane) (Nat.zero_le _)
    rw [hbias, hny]
    omega
  refine Traced.Ensures.lift_bind (hoffset x1 y1 _ hx1) fun offset ho => ?_
  rw [← Set.union_empty {t | ∃ lane, pixelTap 1 stride (x1 lane) (y1 lane) = t}]
  refine (loadElements_ensures ho).bind fun d hd => line_ensures hx hnx fun line1 hline1 => ?_
  have h1 : ∀ lane, (line1 lane).toNat ≤ 32 * 255 := fun lane => by
    rw [hline1]
    exact weighted_le (hx lane) (hbyte _) (hbyte _)
  simp only [hbias, hny] at hlerpd
  refine Traced.Ensures.lift_bind (Tracked.lanes_ensures fun lane => ?_) fun sum hsums => ?_
  · have := hsum lane (h0 lane) (h1 lane)
    rw [hlerpd]
    omega
  refine Traced.Ensures.lift ((Tracked.lanes_ensures fun lane => ?_).imp fun pixels hpixels lane => ?_)
  · have := hsum lane (h0 lane) (h1 lane)
    rw [hsums, hlerpd]
    show _ / 1024 < 2 ^ 16
    omega
  · rw [hpixels, hsums, hlerpd, hline0, hline1, ha, hb, hc, hd]
    exact (interpolated_eq ..).symm

end

section

variable {v channels : ℕ}

/-- Coordinates that are clamped once more before they are read. -/
def readClamped (xmax ymax x y : BitVec 16) : BitVec 16 × BitVec 16 :=
  let lowX := if (0 : BitVec 16).slt x then x else 0
  let lowY := if (0 : BitVec 16).slt y then y else 0
  (if lowX.ult xmax then lowX else xmax, if lowY.ult ymax then lowY else ymax)

/-- The kernels for replicated borders, by pixel.  They differ in what is compared with the
maximum, and in where a neighbour is read. -/
def replicatePoint5Sampling (channels : ℕ) (src : ℕ → BitVec v) (stride xmax ymax : BitVec 16)
    (limitX limitY : MapEntry → BitVec 16)
    (readAt : BitVec 16 → BitVec 16 → BitVec 16 × BitVec 16) : Sampling v channels where
  stride := stride
  x0 := fun e => clamped e.x xmax
  y0 := fun e => clamped e.y ymax
  x1 := fun e => nextUnless (clamped e.x xmax) (limitX e) xmax
  y1 := fun e => nextUnless (clamped e.y ymax) (limitY e) ymax
  xfrac := fun e => zeroBelow e.x (xFractionOf e)
  yfrac := fun e => zeroBelow e.y (yFractionOf e)
  readAt := readAt
  sample := fun x y => sourceAt channels src stride (readAt x y).1 (readAt x y).2

/-- `RemapS16Point5Replicate<uint8_t>`, by pixel. -/
def replicateU8Sampling (src : ℕ → BitVec 8) (stride xmax ymax : BitVec 16) : Sampling 8 1 :=
  replicatePoint5Sampling 1 src stride xmax ymax MapEntry.x MapEntry.y readThere

/-- `RemapS16Point5Replicate<uint16_t>`, by pixel. -/
def replicateU16Sampling (src : ℕ → BitVec 16) (stride xmax ymax : BitVec 16) : Sampling 16 1 :=
  replicatePoint5Sampling 1 src stride xmax ymax MapEntry.x MapEntry.y (readClamped xmax ymax)

/-- `RemapS16Point5ConstantBorder` and `RemapS16Point5Constant4ch`, by pixel. -/
def constantBorderPoint5Sampling (channels : ℕ) (src : ℕ → BitVec v)
    (stride width height : BitVec 16) (border : ℕ → BitVec v) : Sampling v channels where
  stride := stride
  x0 := MapEntry.x
  y0 := MapEntry.y
  x1 := fun e => e.x + 1
  y1 := fun e => e.y + 1
  xfrac := xFractionOf
  yfrac := yFractionOf
  readAt := readInside width height
  sample := sourceOrBorder channels src stride width height border

/-- The pixel for an entry, from the number it is. -/
theorem eq_value {k : Sampling v channels} {e : MapEntry} {channel : ℕ} {x : BitVec v}
    (h : x.toNat = k.sum e channel) : x = k.value e channel := by
  rw [Sampling.value, ← h, BitVec.ofNat_toNat, BitVec.setWidth_eq]

/-- The sum is in the range of an element. -/
theorem sum_lt (k : Sampling v channels) {e : MapEntry} (hx : k.xfrac e ≤ 32) (hy : k.yfrac e ≤ 32)
    (channel : ℕ) : k.sum e channel < 2 ^ v := by
  have hpos : 0 < 2 ^ v := Nat.two_pow_pos v
  have hle : ∀ x : BitVec v, x.toNat ≤ 2 ^ v - 1 := fun x => Nat.le_sub_one_of_lt x.isLt
  have h := interpolated_le hx hy (hle (k.sample (k.x0 e) (k.y0 e) channel))
    (hle (k.sample (k.x1 e) (k.y0 e) channel)) (hle (k.sample (k.x0 e) (k.y1 e) channel))
    (hle (k.sample (k.x1 e) (k.y1 e) channel))
  rw [Sampling.sum]
  omega

end

section

variable {stride xmax ymax : BitVec 16} {entries : Fin (2 * 4) → MapEntry}

theorem zeroBelow_x_le (e : MapEntry) : zeroBelow e.x (xFractionOf e) ≤ 32 :=
  zeroBelow_le _ (Nat.mod_lt _ (by decide))

theorem zeroBelow_y_le (e : MapEntry) : zeroBelow e.y (yFractionOf e) ≤ 32 :=
  zeroBelow_le _ (Nat.mod_lt _ (by decide))

/-- **`RemapS16Point5Replicate<uint8_t>`** reads for each lane what its entry says. -/
theorem replicateU8_describes (src : ℕ → BitVec 8) :
    (replicateU8Sampling src stride xmax ymax).Describes entries
      (remapS16Point5ReplicateU8 src stride xmax ymax (fun lane => (entries lane).x)
        (fun lane => (entries lane).y) fun lane => (entries lane).frac) := by
  have hfrac := fractions_toNat entries
  have hx : ∀ lane, (fractionOrZero (fun lane => (entries lane).x)
      (xFraction fun lane => (entries lane).frac) lane).toNat ≤ 32 := fun lane => by
    rw [(hfrac lane).1]
    exact zeroBelow_x_le (entries lane)
  have hy : ∀ lane, (fractionOrZero (fun lane => (entries lane).y)
      (yFraction fun lane => (entries lane).frac) lane).toNat ≤ 32 := fun lane => by
    rw [(hfrac lane).2]
    exact zeroBelow_y_le (entries lane)
  refine describes_one (Traced.Ensures.lift_bind (complement_ensures hx) fun nxfrac hnx =>
    Traced.Ensures.lift_bind (complement_ensures hy) fun nyfrac hny => ?_)
  rw [show {t | ∃ lane, t ∈ (replicateU8Sampling src stride xmax ymax).taps (entries lane)} =
    {t | ∃ lane : Fin 4, t ∈ (replicateU8Sampling src stride xmax ymax).taps
        (entries ⟨lane, by omega⟩)} ∪
      ({t | ∃ lane : Fin 4, t ∈ (replicateU8Sampling src stride xmax ymax).taps
        (entries ⟨4 + lane, by omega⟩)} ∪ ∅) by
    rw [Set.union_empty]
    ext t
    exact exists_lane.symm]
  refine ((loadAndInterpolate_ensures (fun lane => hx _) (fun lane => hy _) (fun lane => hnx _)
    fun lane => hny _).congr ?_).bind fun low hlow =>
    ((loadAndInterpolate_ensures (fun lane => hx _) (fun lane => hy _) (fun lane => hnx _)
      fun lane => hny _).congr ?_).bind fun high hhigh => ?_
  · simp only [vgetLow, vsubq_mask]
    rfl
  · simp only [vgetHigh, vsubq_mask]
    rfl
  -- The sum of either half is that of the entry.
  have hsum : ∀ e, (replicateU8Sampling src stride xmax ymax).sum e 0 =
      interpolated (zeroBelow e.x (xFractionOf e)) (zeroBelow e.y (yFractionOf e))
        (src ((clamped e.x xmax).toNat + (clamped e.y ymax).toNat * stride.toNat)).toNat
        (src ((nextUnless (clamped e.x xmax) e.x xmax).toNat +
          (clamped e.y ymax).toNat * stride.toNat)).toNat
        (src ((clamped e.x xmax).toNat +
          (nextUnless (clamped e.y ymax) e.y ymax).toNat * stride.toNat)).toNat
        (src ((nextUnless (clamped e.x xmax) e.x xmax).toNat +
          (nextUnless (clamped e.y ymax) e.y ymax).toNat * stride.toNat)).toNat := fun e => by
    simp only [← sourceAt_one]
    rfl
  have hresult : ∀ lane, (vcombine low high lane).toNat =
      (replicateU8Sampling src stride xmax ymax).sum (entries lane) 0 := by
    refine vcombine_toNat (fun lane => ?_) fun lane => ?_
    · simp only [hlow, vgetLow, hsum, vsubq_mask, (hfrac _).1, (hfrac _).2]
      rfl
    · simp only [hhigh, vgetHigh, hsum, vsubq_mask, (hfrac _).1, (hfrac _).2]
      rfl
  refine Traced.Ensures.lift ((Tracked.lanes_ensures fun lane => ?_).imp
    fun pixels h lane => eq_value ?_)
  · rw [hresult]
    exact sum_lt _ (zeroBelow_x_le (entries lane)) (zeroBelow_y_le (entries lane)) 0
  · rw [h, hresult]

/-- Four loads and an interpolation, of coordinates that are those of the entries. -/
theorem loads_interpolated {v : ℕ} {k : Sampling v 1}
    {loads : (Fin (2 * 4) → BitVec 16) → (Fin (2 * 4) → BitVec 16) →
      Traced Tap (Fin (2 * 4) → BitVec 16)}
    (hloads : ∀ x y, (loads x y).Ensures {t | ∃ lane, k.tap (x lane) (y lane) = t} fun pixels =>
      ∀ lane, (pixels lane).toNat = (k.sample (x lane) (y lane) 0).toNat)
    {x0 y0 x1 y1 xfrac yfrac : Fin (2 * 4) → BitVec 16} (hx0 : ∀ lane, x0 lane = k.x0 (entries lane))
    (hy0 : ∀ lane, y0 lane = k.y0 (entries lane)) (hx1 : ∀ lane, x1 lane = k.x1 (entries lane))
    (hy1 : ∀ lane, y1 lane = k.y1 (entries lane))
    (hxfrac : ∀ lane, (xfrac lane).toNat = k.xfrac (entries lane))
    (hyfrac : ∀ lane, (yfrac lane).toNat = k.yfrac (entries lane)) (hx : ∀ e, k.xfrac e ≤ 32)
    (hy : ∀ e, k.yfrac e ≤ 32) :
    (do
      let nxfrac ← complement xfrac
      let nyfrac ← complement yfrac
      let a ← loads x0 y0
      let b ← loads x1 y0
      let c ← loads x0 y1
      let d ← loads x1 y1
      interpolate a b c d xfrac yfrac nxfrac nyfrac : Traced Tap _).Ensures
      {t | ∃ lane, t ∈ k.taps (entries lane)}
      fun result => ∀ lane, (result lane).toNat = k.sum (entries lane) 0 := by
  have hx' : ∀ lane, (xfrac lane).toNat ≤ 32 := fun lane => by
    rw [hxfrac]
    exact hx _
  have hy' : ∀ lane, (yfrac lane).toNat ≤ 32 := fun lane => by
    rw [hyfrac]
    exact hy _
  have htaps := union_taps (fun lane : Fin (2 * 4) => k.tap (x0 lane) (y0 lane))
    (fun lane => k.tap (x1 lane) (y0 lane)) (fun lane => k.tap (x0 lane) (y1 lane))
    fun lane => k.tap (x1 lane) (y1 lane)
  simp only [hx0, hy0, hx1, hy1] at htaps
  refine Traced.Ensures.lift_bind (complement_ensures hx') fun nxfrac hnx =>
    Traced.Ensures.lift_bind (complement_ensures hy') fun nyfrac hny => ?_
  refine ((hloads x0 y0).bind fun a ha => (hloads x1 y0).bind fun b hb =>
    (hloads x0 y1).bind fun c hc => (hloads x1 y1).bind fun d hd =>
    Traced.Ensures.lift ((interpolate_ensures hx' hy' hnx hny).imp fun result h lane => ?_)).congr ?_
  · rw [h, ha, hb, hc, hd, hx0, hy0, hx1, hy1, hxfrac, hyfrac]
    rfl
  · simp only [hx0, hy0, hx1, hy1, Set.union_empty]
    exact htaps

/-- **`RemapS16Point5Replicate<uint16_t>`** reads for each lane what its entry says. -/
theorem replicateU16_describes (src : ℕ → BitVec 16) :
    (replicateU16Sampling src stride xmax ymax).Describes entries
      (remapS16Point5ReplicateU16 src stride xmax ymax (fun lane => (entries lane).x)
        (fun lane => (entries lane).y) fun lane => (entries lane).frac) := by
  have hfrac := fractions_toNat entries
  refine describes_one ((loads_interpolated (k := replicateU16Sampling src stride xmax ymax)
    (fun x y => (show (loadPixelsClamped src stride xmax ymax x y).Ensures _ _ from
      loadPixels_ensures _ _).imp fun pixels h lane => ?_) (fun _ => rfl) (fun _ => rfl)
    (vsubq_mask _ _ _) (vsubq_mask _ _ _) (fun lane => (hfrac lane).1) (fun lane => (hfrac lane).2)
    zeroBelow_x_le zeroBelow_y_le).imp fun result h lane => eq_value (h lane))
  rw [h]
  show _ = (sourceAt 1 src stride _ _ 0).toNat
  rw [sourceAt_one]
  rfl

/-- A pixel of the image or the border, widened to 16 bits. -/
theorem loadPixelsOrConstantBorder_ensures {v : ℕ} (hv : v ≤ 16) {src : ℕ → BitVec v}
    {width height : BitVec 16} {border : ℕ → BitVec v} (x y : Fin (2 * 4) → BitVec 16) :
    (loadPixelsOrConstantBorder src stride width height ((border 0).setWidth 16) x y).Ensures
      {t | ∃ lane, (constantBorderPoint5Sampling 1 src stride width height border).tap
        (x lane) (y lane) = t}
      fun pixels => ∀ lane, (pixels lane).toNat =
        ((constantBorderPoint5Sampling 1 src stride width height border).sample (x lane)
          (y lane) 0).toNat := by
  have hwide : ∀ p : BitVec v, (p.setWidth 16).toNat = p.toNat := fun p => by
    rw [BitVec.toNat_setWidth]
    exact Nat.mod_eq_of_lt (p.isLt.trans_le (Nat.pow_le_pow_right Nat.two_pos hv))
  refine ((loadPixels_ensures _ _).congr ?_).bind_pure fun pixels h lane => ?_
  · refine congrArg _ (funext fun t => congrArg _ (funext fun lane => ?_))
    have hread := readInside_apply x y width height lane
    rw [Prod.ext_iff] at hread
    simp only at hread
    rw [hread.1, hread.2]
    rfl
  · have hmask := inRange_apply x y width height lane
    rw [vbslq_apply hmask]
    show _ = (sourceOrBorder 1 src stride width height border (x lane) (y lane) 0).toNat
    rw [sourceOrBorder]
    split
    next hin => rw [hwide, h, vandq_apply hmask, vandq_apply hmask, if_pos hin, if_pos hin, sourceAt_one]
    next => exact hwide (border 0)

theorem constantBorderPixels_ensures {v : ℕ} (hv : v ≤ 16) (src : ℕ → BitVec v)
    (width height : BitVec 16) (border : ℕ → BitVec v) :
    (constantBorderPixels src stride width height ((border 0).setWidth 16)
        (fun lane => (entries lane).x) (fun lane => (entries lane).y)
        fun lane => (entries lane).frac).Ensures
      {t | ∃ lane, t ∈ (constantBorderPoint5Sampling 1 src stride width height border).taps (entries lane)}
      fun result => ∀ lane, (result lane).toNat =
        (constantBorderPoint5Sampling 1 src stride width height border).sum (entries lane)
          0 :=
  loads_interpolated (loadPixelsOrConstantBorder_ensures hv) (fun _ => rfl) (fun _ => rfl)
    (fun _ => rfl) (fun _ => rfl) (xFraction_toNat _) (yFraction_toNat _)
    (fun _ => (Nat.mod_lt _ (by decide)).le) fun _ => (Nat.mod_lt _ (by decide)).le

/-- **`RemapS16Point5ConstantBorder<uint8_t>`** reads for each lane what its entry says. -/
theorem constantBorderU8_describes (src : ℕ → BitVec 8) (width height : BitVec 16)
    (border : ℕ → BitVec 8) :
    (constantBorderPoint5Sampling 1 src stride width height border).Describes entries
      (remapS16Point5ConstantBorderU8 src stride width height ((border 0).setWidth 16)
        (fun lane => (entries lane).x) (fun lane => (entries lane).y)
        fun lane => (entries lane).frac) := by
  refine describes_one ((constantBorderPixels_ensures (by decide) src width height border).bind_pure
    fun result h lane => eq_value ?_)
  have hlt := sum_lt (constantBorderPoint5Sampling 1 src stride width height border)
    (e := entries lane) (Nat.mod_lt _ (by decide)).le (Nat.mod_lt _ (by decide)).le 0
  -- The sum is in the range of a byte, so that the narrowing does not saturate.
  rw [vqmovnU16, h, BitVec.toNat_ofNat, Nat.min_eq_left (by omega), Nat.mod_eq_of_lt hlt]

/-- **`RemapS16Point5ConstantBorder<uint16_t>`** reads for each lane what its entry says. -/
theorem constantBorderU16_describes (src : ℕ → BitVec 16) (width height : BitVec 16)
    (border : ℕ → BitVec 16) :
    (constantBorderPoint5Sampling 1 src stride width height border).Describes entries
      (remapS16Point5ConstantBorderU16 src stride width height ((border 0).setWidth 16)
        (fun lane => (entries lane).x) (fun lane => (entries lane).y)
        fun lane => (entries lane).frac) :=
  describes_one ((constantBorderPixels_ensures le_rfl src width height border).imp
    fun _ h lane => eq_value (h lane))

end

end Remap

end KleidiCV
