/-
Conversions between RGB and YUV444, `rgb_to_yuv444_neon.cpp` and `yuv444_to_rgb_neon.cpp`.

Vectors and single pixels go through different instructions.  The last vector of a row may
overlap the one before it.

* `RgbToYuvAll.vectorPath_ensures`, `RgbToYuvAll.scalarPath_ensures` — both store the same bytes;
* `YuvToRgbAll.vectorPath_ensures`, `YuvToRgbAll.scalarPath_ensures` — the same the other way;
* `PixelPaths.Stores.image` — whole images, whatever pixels the vectors take.
-/
import KleidiCV.ElementOperation
import KleidiCV.YuvLanes

open Loop

namespace KleidiCV

open YuvLanes
open GaussianBlur (vcombine_cases)
open ResizeToQuarter (vreinterpretqU16U8)

/-! ### From RGB to YUV -/

/-- `RGBToYUVAll<BGR, kAlpha>`. -/
structure RgbToYuvAll where
  bgr : Bool
  kAlpha : Bool

namespace RgbToYuvAll

/-- `kRYWeight`. -/
def ryWeight : ℤ := 4899

/-- `kGYWeight`. -/
def gyWeight : ℤ := 9617

/-- `kBYWeight`. -/
def byWeight : ℤ := 1868

/-- `kRVWeight`. -/
def rvWeight : ℤ := 14369

/-- `kBUWeight`. -/
def buWeight : ℤ := 8061

/-- `kWeightScale`. -/
abbrev kWeightScale : ℕ := 14

/-- `half_`. -/
def half : ℤ := (255 / 2 + 1) * 2 ^ kWeightScale

variable (op : RgbToYuvAll)

/-- `r_index_`. -/
def rIndex : ℕ := if op.bgr then 2 else 0

/-- `b_index_`. -/
def bIndex : ℕ := if op.bgr then 0 else 2

/-- `input_channels`. -/
def inputChannels : ℕ := if op.kAlpha then 4 else 3

/-- The lower or the upper eight pixels of a vector, in halfwords. -/
structure Halfwords where
  r : Fin (2 * 4) → BitVec 16
  g : Fin (2 * 4) → BitVec 16
  b : Fin (2 * 4) → BitVec 16

/-- `r_l`, `g_l` and `b_l`, or `r_h`, `g_h` and `b_h`.  With alpha the vectors are loaded as they
are: each holds four pixels. -/
def load (upper : Bool) (src : ℕ → BitVec 8) (ptr : ℕ) : Halfwords :=
  if op.kAlpha then
    let vsrc : ℕ → Fin (2 * 8) → BitVec 8 := fun k lane => src (ptr + 16 * k + lane)
    let rb := if upper then vuzp1 (vsrc 2) (vsrc 3) else vuzp1 (vsrc 0) (vsrc 1)
    let ga := if upper then vuzp2 (vsrc 2) (vsrc 3) else vuzp2 (vsrc 0) (vsrc 1)
    let first : Fin (2 * 4) → BitVec 16 := vreinterpretqU16U8 (vtrn1 rb fun _ => 0)
    let second : Fin (2 * 4) → BitVec 16 := vreinterpretqU16U8 (vtrn2 rb fun _ => 0)
    let g : Fin (2 * 4) → BitVec 16 := vreinterpretqU16U8 (vtrn1 ga fun _ => 0)
    if op.bgr then ⟨second, g, first⟩ else ⟨first, g, second⟩
  else
    let vsrc : ℕ → Fin (2 * 8) → BitVec 8 := vldInterleaved 3 src ptr
    let zip := fun k : ℕ => if upper then vzip2 (vsrc k) fun _ => 0 else vzip1 (vsrc k) fun _ => 0
    ⟨vreinterpretqU16U8 (zip op.rIndex), vreinterpretqU16U8 (zip 1), vreinterpretqU16U8 (zip op.bIndex)⟩

/-- `combine_scaled_s16`. -/
def combineScaledS16 (a b : Fin 4 → BitVec 32) : Tracked (Fin (2 * 4) → BitVec 16) := do
  let low ← vrshrnNS32 kWeightScale a
  let high ← vrshrnNS32 kWeightScale b
  pure (vcombine low high)

/-- `y_ll`, `y_hl`, `y_lh` or `y_hh`. -/
def lumaQuarter (r g b : Fin 4 → BitVec 16) : Tracked (Fin 4 → BitVec 32) := do
  let y ← vmulN 32 r ryWeight
  let y ← vmlaN y g gyWeight
  vmlaN y b byWeight

/-- `y_l` or `y_h`. -/
def lumaHalf (p : Halfwords) : Tracked (Fin (2 * 4) → BitVec 16) := do
  let low ← lumaQuarter (vgetLow p.r) (vgetLow p.g) (vgetLow p.b)
  let high ← lumaQuarter (vgetHigh p.r) (vgetHigh p.g) (vgetHigh p.b)
  combineScaledS16 low high

/-- `u_l` or `u_h`, and `v_l` or `v_h`, from the halfwords of blue and red. -/
def chromaHalf (colour y : Fin (2 * 4) → BitVec 16) (weight : ℤ) :
    Tracked (Fin (2 * 4) → BitVec 16) := do
  let diff := vqsubqS16 colour y
  let start ← vdupqNS32 half
  let low ← vmlaN start (vgetLow diff) weight
  let high ← vmlaN start (vgetHigh diff) weight
  combineScaledS16 low high

/-- `vector_path`. -/
def vectorPath (src : ℕ → BitVec 8) (srcPtr dstPtr : ℕ) (m : ℕ → BitVec 8) :
    Tracked (ℕ → BitVec 8) := do
  let lower := op.load false src srcPtr
  let upper := op.load true src srcPtr
  let yL ← lumaHalf lower
  let yH ← lumaHalf upper
  let uL ← chromaHalf lower.b yL buWeight
  let uH ← chromaHalf upper.b yH buWeight
  let vL ← chromaHalf lower.r yL rvWeight
  let vH ← chromaHalf upper.r yH rvWeight
  let y : Fin (2 * (2 * 4)) → BitVec 8 := vcombine (vqmovunS16 yL) (vqmovunS16 yH)
  let u : Fin (2 * (2 * 4)) → BitVec 8 := vcombine (vqmovunS16 uL) (vqmovunS16 uH)
  let v : Fin (2 * (2 * 4)) → BitVec 8 := vcombine (vqmovunS16 vL) (vqmovunS16 vH)
  pure (vstInterleaved 3 (fun k => if k = 0 then y else if k = 1 then u else v) dstPtr m)

/-- `scalar_path`. -/
def scalarPath (src : ℕ → BitVec 8) (srcPtr dstPtr : ℕ) (m : ℕ → BitVec 8) :
    Tracked (ℕ → BitVec 8) := do
  let r := (src (srcPtr + op.rIndex)).toNat
  let g := (src (srcPtr + 1)).toNat
  let b := (src (srcPtr + op.bIndex)).toNat
  let y ← weighRgb r ryWeight g gyWeight b byWeight
  let y ← roundingShiftRight y kWeightScale
  let diff ← int32 (b - y)
  let u ← int32 (diff * buWeight)
  let u ← int32 (u + half)
  let u ← roundingShiftRight u kWeightScale
  let diff ← int32 (r - y)
  let v ← int32 (diff * rvWeight)
  let v ← int32 (v + half)
  let v ← roundingShiftRight v kWeightScale
  let m := Function.update m dstPtr (Yuv420.saturatingCast y)
  let m := Function.update m (dstPtr + 1) (Yuv420.saturatingCast u)
  pure (Function.update m (dstPtr + 2) (Yuv420.saturatingCast v))

/-! ### What the paths store -/

/-- The luma sample, before it is saturated. -/
def luma (r g b : BitVec 8) : ℤ :=
  (r.toNat * ryWeight + g.toNat * gyWeight + b.toNat * byWeight + 2 ^ 13) / 2 ^ 14

/-- The chroma sample of blue or red, before it is saturated. -/
def chroma (weight : ℤ) (colour : BitVec 8) (y : ℤ) : ℤ :=
  (half + (colour.toNat - y) * weight + 2 ^ 13) / 2 ^ 14

/-- Byte `k` of the pixel of red, green and blue. -/
def pixel (r g b : BitVec 8) (k : ℕ) : BitVec 8 :=
  Yuv420.saturatingCast
    (if k = 0 then luma r g b
    else if k = 1 then chroma buWeight b (luma r g b)
    else chroma rvWeight r (luma r g b))

theorem half_eq : half = 2097152 := by decide

theorem scaled_ensures {x : ℤ} (h : -1000000000 ≤ x ∧ x ≤ 1000000000) :
    (roundingShiftRight x kWeightScale).Ensures (· = (x + 2 ^ 13) / 2 ^ 14) :=
  roundingShiftRight_ensures (by rw [kWeightScale]; omega)

theorem luma_bounds (r g b : BitVec 8) : 0 ≤ luma r g b ∧ luma r g b ≤ 255 := by
  have hr := r.isLt
  have hg := g.isLt
  have hb := b.isLt
  rw [luma, ryWeight, gyWeight, byWeight]
  omega

theorem chroma_bounds {weight y : ℤ} (hw : weight = buWeight ∨ weight = rvWeight)
    (colour : BitVec 8) (hy : 0 ≤ y ∧ y ≤ 255) :
    -5000000 ≤ (colour.toNat - y) * weight ∧ (colour.toNat - y) * weight ≤ 5000000 := by
  have hc := colour.isLt
  rcases hw with rfl | rfl
  · rw [buWeight]
    omega
  · rw [rvWeight]
    omega

theorem lumaQuarter_ensures {r16 g16 b16 : Fin 4 → BitVec 16} {r g b : Fin 4 → BitVec 8}
    (hr : ∀ lane, (r16 lane).toInt = (r lane).toNat) (hg : ∀ lane, (g16 lane).toInt = (g lane).toNat)
    (hb : ∀ lane, (b16 lane).toInt = (b lane).toNat) :
    (lumaQuarter r16 g16 b16).Ensures fun y => ∀ lane, (y lane).toInt =
      (r lane).toNat * ryWeight + (g lane).toNat * gyWeight + (b lane).toNat * byWeight := by
  have hlt : ∀ (x : Fin 4 → BitVec 8) lane, (x lane).toNat < 256 := fun x lane => (x lane).isLt
  refine (vmulN_ensures (by decide) (by decide) hr (by decide) fun lane => ?_).bind fun y hy => ?_
  · have := hlt r lane
    rw [ryWeight]
    omega
  refine (vmlaN_ensures (by decide) (by decide) hy hg (by decide) fun lane => ?_).bind fun y hy => ?_
  · have := hlt r lane
    have := hlt g lane
    rw [ryWeight, gyWeight]
    omega
  refine vmlaN_ensures (by decide) (by decide) hy hb (by decide) fun lane => ?_
  have := hlt r lane
  have := hlt g lane
  have := hlt b lane
  rw [ryWeight, gyWeight, byWeight]
  omega

theorem combineScaledS16_ensures {a b : Fin 4 → BitVec 32} {f : Fin (2 * 4) → ℤ}
    (ha : ∀ lane : Fin 4, (a lane).toInt = f ⟨lane, by omega⟩)
    (hb : ∀ lane : Fin 4, (b lane).toInt = f ⟨4 + lane, by omega⟩)
    (h : ∀ lane, -32768 ≤ (f lane + 2 ^ 13) / 2 ^ 14 ∧ (f lane + 2 ^ 13) / 2 ^ 14 < 32768) :
    (combineScaledS16 a b).Ensures fun s => ∀ lane, (s lane).toInt = (f lane + 2 ^ 13) / 2 ^ 14 := by
  refine (vrshrnNS32_ensures ha fun lane => h _).bind fun low hlow => ?_
  refine (vrshrnNS32_ensures hb fun lane => h _).bind fun high hhigh => .pure ?_
  exact vcombine_cases (P := fun lane (x : BitVec 16) => x.toInt = (f lane + 2 ^ 13) / 2 ^ 14) hlow hhigh

/-- The luma samples of half a vector. -/
theorem lumaHalf_ensures {p : Halfwords} {r g b : Fin (2 * 4) → BitVec 8}
    (hr : ∀ lane, (p.r lane).toInt = (r lane).toNat) (hg : ∀ lane, (p.g lane).toInt = (g lane).toNat)
    (hb : ∀ lane, (p.b lane).toInt = (b lane).toNat) :
    (lumaHalf p).Ensures fun y => ∀ lane, (y lane).toInt = luma (r lane) (g lane) (b lane) := by
  refine (lumaQuarter_ensures (fun lane => hr _) (fun lane => hg _) fun lane => hb _).bind
    fun low hlow => ?_
  refine (lumaQuarter_ensures (fun lane => hr _) (fun lane => hg _) fun lane => hb _).bind
    fun high hhigh => ?_
  refine combineScaledS16_ensures hlow hhigh fun lane => ?_
  obtain ⟨h1, h2⟩ := luma_bounds (r lane) (g lane) (b lane)
  rw [luma] at h1 h2
  omega

/-- The chroma samples of half a vector. -/
theorem chromaHalf_ensures {colour16 y16 : Fin (2 * 4) → BitVec 16} {colour : Fin (2 * 4) → BitVec 8}
    {y : Fin (2 * 4) → ℤ} {weight : ℤ} (hw : weight = buWeight ∨ weight = rvWeight)
    (hc : ∀ lane, (colour16 lane).toInt = (colour lane).toNat) (hy : ∀ lane, (y16 lane).toInt = y lane)
    (hbounds : ∀ lane, 0 ≤ y lane ∧ y lane ≤ 255) :
    (chromaHalf colour16 y16 weight).Ensures fun c => ∀ lane,
      (c lane).toInt = chroma weight (colour lane) (y lane) := by
  have hdiff := vqsubqS16_toInt hc hy fun lane => by
    have := (colour lane).isLt
    have := hbounds lane
    omega
  have hfactor : (-2 : ℤ) ^ (16 - 1) ≤ weight ∧ weight < 2 ^ (16 - 1) := by
    rcases hw with rfl | rfl <;> decide
  have hfit : ∀ lane, -2 ^ (32 - 1) ≤ half + (((colour lane).toNat : ℤ) - y lane) * weight ∧
      half + (((colour lane).toNat : ℤ) - y lane) * weight < 2 ^ (32 - 1) := by
    intro lane
    have := chroma_bounds hw (colour lane) (hbounds lane)
    rw [half_eq]
    omega
  refine (Tracked.slanes_ensures (by decide) fun _ => by decide).bind fun start hstart => ?_
  refine (vmlaN_ensures (by decide) (by decide) hstart (fun lane => hdiff _) (by omega)
    fun lane => hfit _).bind fun low hlow => ?_
  refine (vmlaN_ensures (by decide) (by decide) hstart (fun lane => hdiff _) (by omega)
    fun lane => hfit _).bind fun high hhigh => ?_
  refine combineScaledS16_ensures (f := fun lane => half + ((colour lane).toNat - y lane) * weight)
    hlow hhigh fun lane => ?_
  have := chroma_bounds hw (colour lane) (hbounds lane)
  simp only [half_eq]
  omega

/-- The channels of the pixels in half a vector. -/
theorem load_toInt (upper : Bool) (src : ℕ → BitVec 8) (ptr : ℕ) (lane : Fin 8) :
    let first := ptr + op.inputChannels * (if upper then 8 + lane.val else lane)
    ((op.load upper src ptr).r lane).toInt = (src (first + op.rIndex)).toNat ∧
      ((op.load upper src ptr).g lane).toInt = (src (first + 1)).toNat ∧
      ((op.load upper src ptr).b lane).toInt = (src (first + op.bIndex)).toNat := by
  obtain ⟨bgr, kAlpha⟩ := op
  have hlane := lane.isLt
  cases kAlpha with
  | false =>
    -- Zipped with zeros.
    cases upper with
    | false =>
      refine ⟨(vzip1_toInt (k := 8) _ lane).trans ?_, (vzip1_toInt (k := 8) _ lane).trans ?_,
        (vzip1_toInt (k := 8) _ lane).trans ?_⟩
      all_goals
        simp only [vldInterleaved, inputChannels, Bool.false_eq_true, if_false, Nat.add_assoc]
    | true =>
      refine ⟨(vzip2_toInt (k := 8) _ lane).trans ?_, (vzip2_toInt (k := 8) _ lane).trans ?_,
        (vzip2_toInt (k := 8) _ lane).trans ?_⟩
      all_goals
        simp only [vldInterleaved, inputChannels, Bool.false_eq_true, if_false, if_true,
          Nat.add_assoc]
  | true =>
    -- The even bytes are red and blue, the odd ones green and alpha.
    cases upper with
    | false =>
      obtain ⟨hfirst, hgreen, hsecond⟩ := rgba_toInt (k := 4) src ptr lane
      simp only [inputChannels, if_true, Bool.false_eq_true, if_false]
      cases bgr
      · exact ⟨hfirst, hgreen, hsecond⟩
      · exact ⟨hsecond, hgreen, hfirst⟩
    | true =>
      obtain ⟨hfirst, hgreen, hsecond⟩ := rgba_toInt (k := 4) src (ptr + 16 * 2) lane
      simp only [inputChannels, if_true, Nat.mul_add, ← Nat.add_assoc]
      cases bgr
      · exact ⟨hfirst, hgreen, hsecond⟩
      · exact ⟨hsecond, hgreen, hfirst⟩

/-- Byte `k` that is stored for the pixel at an address. -/
def pixelAt (src : ℕ → BitVec 8) (ptr k : ℕ) : BitVec 8 :=
  pixel (src (ptr + op.rIndex)) (src (ptr + 1)) (src (ptr + op.bIndex)) k

/-- **A vector of pixels.** -/
theorem vectorPath_ensures (src : ℕ → BitVec 8) (srcPtr dstPtr : ℕ) (m : ℕ → BitVec 8) :
    (op.vectorPath src srcPtr dstPtr m).Ensures (· =
      vstInterleaved 3 (fun k (lane : Fin 16) => op.pixelAt src (srcPtr + op.inputChannels * lane) k)
        dstPtr m) := by
  have hlower := op.load_toInt false src srcPtr
  have hupper := op.load_toInt true src srcPtr
  refine (lumaHalf_ensures (fun lane => (hlower lane).1) (fun lane => (hlower lane).2.1)
    fun lane => (hlower lane).2.2).bind fun yL hyL => ?_
  refine (lumaHalf_ensures (fun lane => (hupper lane).1) (fun lane => (hupper lane).2.1)
    fun lane => (hupper lane).2.2).bind fun yH hyH => ?_
  refine (chromaHalf_ensures (.inl rfl) (fun lane => (hlower lane).2.2) hyL
    fun lane => luma_bounds _ _ _).bind fun uL huL => ?_
  refine (chromaHalf_ensures (.inl rfl) (fun lane => (hupper lane).2.2) hyH
    fun lane => luma_bounds _ _ _).bind fun uH huH => ?_
  refine (chromaHalf_ensures (.inr rfl) (fun lane => (hlower lane).1) hyL
    fun lane => luma_bounds _ _ _).bind fun vL hvL => ?_
  refine (chromaHalf_ensures (.inr rfl) (fun lane => (hupper lane).1) hyH
    fun lane => luma_bounds _ _ _).bind fun vH hvH => .pure ?_
  have hy : ∀ lane : Fin 16, vcombine (vqmovunS16 yL) (vqmovunS16 yH) lane =
      op.pixelAt src (srcPtr + op.inputChannels * lane) 0 :=
    vcombine_cases (P := fun lane (x : BitVec 8) =>
      x = op.pixelAt src (srcPtr + op.inputChannels * lane) 0) (vqmovunS16_eq hyL) (vqmovunS16_eq hyH)
  have hu : ∀ lane : Fin 16, vcombine (vqmovunS16 uL) (vqmovunS16 uH) lane =
      op.pixelAt src (srcPtr + op.inputChannels * lane) 1 :=
    vcombine_cases (P := fun lane (x : BitVec 8) =>
      x = op.pixelAt src (srcPtr + op.inputChannels * lane) 1) (vqmovunS16_eq huL) (vqmovunS16_eq huH)
  have hv : ∀ lane : Fin 16, vcombine (vqmovunS16 vL) (vqmovunS16 vH) lane =
      op.pixelAt src (srcPtr + op.inputChannels * lane) 2 :=
    vcombine_cases (P := fun lane (x : BitVec 8) =>
      x = op.pixelAt src (srcPtr + op.inputChannels * lane) 2) (vqmovunS16_eq hvL) (vqmovunS16_eq hvH)
  congr 1
  funext k lane
  by_cases hk0 : k = 0
  · rw [if_pos hk0, hk0]
    exact hy lane
  · rw [if_neg hk0]
    by_cases hk1 : k = 1
    · rw [if_pos hk1, hk1]
      exact hu lane
    · rw [if_neg hk1]
      have hrest : op.pixelAt src (srcPtr + op.inputChannels * lane) k =
          op.pixelAt src (srcPtr + op.inputChannels * lane) 2 := by
        simp only [pixelAt, pixel, if_neg hk0, if_neg hk1]
        rfl
      rw [hrest]
      exact hv lane

/-- **A single pixel.** -/
theorem scalarPath_ensures (src : ℕ → BitVec 8) (srcPtr dstPtr : ℕ) (m : ℕ → BitVec 8) :
    (op.scalarPath src srcPtr dstPtr m).Ensures (· = overwrite m dstPtr 3 (op.pixelAt src srcPtr)) := by
  have hbyte : ∀ x : BitVec 8, 0 ≤ (x.toNat : ℤ) ∧ (x.toNat : ℤ) ≤ 510 := fun x => by
    have := x.isLt
    omega
  have hluma := luma_bounds (src (srcPtr + op.rIndex)) (src (srcPtr + 1)) (src (srcPtr + op.bIndex))
  have hu := chroma_bounds (.inl rfl) (src (srcPtr + op.bIndex)) hluma
  have hv := chroma_bounds (.inr rfl) (src (srcPtr + op.rIndex)) hluma
  have hb := hbyte (src (srcPtr + op.bIndex))
  have hr := hbyte (src (srcPtr + op.rIndex))
  have hscaled := hluma
  rw [luma] at hscaled
  refine (weighRgb_ensures (hbyte _) (hbyte _) (hbyte _) (by decide) (by decide) (by decide)).bind
    fun y hy => ?_
  refine (scaled_ensures (by rw [hy]; omega)).bind fun y' hy' => ?_
  have hlumaEq : y' = luma (src (srcPtr + op.rIndex)) (src (srcPtr + 1)) (src (srcPtr + op.bIndex)) := by
    rw [hy', hy]
    rfl
  rw [hlumaEq]
  refine (int32_ensures (by omega)).bind fun diff hdiff => ?_
  rw [hdiff]
  refine (int32_ensures (by omega)).bind fun u hu' => ?_
  rw [hu']
  refine (int32_ensures (by rw [half_eq]; omega)).bind fun u hu' => ?_
  rw [hu']
  refine (scaled_ensures (by rw [half_eq]; omega)).bind fun u hu' => ?_
  refine (int32_ensures (by omega)).bind fun diff hdiff => ?_
  rw [hdiff]
  refine (int32_ensures (by omega)).bind fun v hv' => ?_
  rw [hv']
  refine (int32_ensures (by rw [half_eq]; omega)).bind fun v hv' => ?_
  rw [hv']
  refine (scaled_ensures (by rw [half_eq]; omega)).bind fun v hv' => .pure ?_
  rw [hu', hv', ← overwrite_three, Int.add_comm _ half, Int.add_comm _ half]
  rfl

end RgbToYuvAll

/-! ### From YUV to RGB -/

/-- `YUVToRGBAll<BGR, kAlpha>`. -/
structure YuvToRgbAll where
  bgr : Bool
  kAlpha : Bool

namespace YuvToRgbAll

/-- `kUBWeight` and `kUnsignedUBWeight`. -/
def ubWeight : ℕ := 33292

/-- `kUGWeight`. -/
def ugWeight : ℤ := -6472

/-- `kVGWeight`. -/
def vgWeight : ℤ := -9519

/-- `kVRWeight`. -/
def vrWeight : ℤ := 18678

/-- `kWeightScale`. -/
abbrev kWeightScale : ℕ := 14

/-- `kPreShift`. -/
abbrev kPreShift : ℕ := 16 - kWeightScale

/-- `kBDelta4`. -/
def bDelta4 : ℤ := (-128 * ubWeight + 2 ^ (kWeightScale - 1)) * 2 ^ kPreShift

/-- `kGDelta4`. -/
def gDelta4 : ℤ := (-128 * ugWeight - 128 * vgWeight + 2 ^ (kWeightScale - 1)) * 2 ^ kPreShift

/-- `kRDelta4`. -/
def rDelta4 : ℤ := (-128 * vrWeight + 2 ^ (kWeightScale - 1)) * 2 ^ kPreShift

variable (op : YuvToRgbAll)

/-- `r_index_`. -/
def rIndex : ℕ := if op.bgr then 2 else 0

/-- `b_index_`. -/
def bIndex : ℕ := if op.bgr then 0 else 2

/-- `output_channels`. -/
def outputChannels : ℕ := if op.kAlpha then 4 else 3

/-- The upper halves of words, added to the luma samples. -/
def addScaled (y : Fin (2 * 4) → BitVec 16) (low high : Fin 4 → BitVec 32) :
    Tracked (Fin (2 * 4) → BitVec 16) :=
  vaddqS y (vuzp2 (vreinterpretqS16S32 low) (vreinterpretqS16S32 high))

/-- `b_l` or `b_h`. -/
def blueHalf (y u4 : Fin (2 * 4) → BitVec 16) : Tracked (Fin (2 * 4) → BitVec 16) := do
  let delta ← vdupqNS32 bDelta4
  let low ← vmullNU16 (vgetLow u4) ubWeight
  let high ← vmullNU16 (vgetHigh u4) ubWeight
  let low ← vaddqS low delta
  let high ← vaddqS high delta
  addScaled y low high

/-- `g_l` or `g_h`. -/
def greenHalf (y u4 v4 : Fin (2 * 4) → BitVec 16) : Tracked (Fin (2 * 4) → BitVec 16) := do
  let delta ← vdupqNS32 gDelta4
  let low ← vmlaN delta (vgetLow u4) ugWeight
  let high ← vmlaN delta (vgetHigh u4) ugWeight
  let low ← vmlaN low (vgetLow v4) vgWeight
  let high ← vmlaN high (vgetHigh v4) vgWeight
  addScaled y low high

/-- `r_l` or `r_h`. -/
def redHalf (y v4 : Fin (2 * 4) → BitVec 16) : Tracked (Fin (2 * 4) → BitVec 16) := do
  let delta ← vdupqNS32 rDelta4
  let low ← vmlaN delta (vgetLow v4) vrWeight
  let high ← vmlaN delta (vgetHigh v4) vrWeight
  addScaled y low high

/-- `vector_path`. -/
def vectorPath (src : ℕ → BitVec 8) (srcPtr dstPtr : ℕ) (m : ℕ → BitVec 8) :
    Tracked (ℕ → BitVec 8) := do
  let vsrc : ℕ → Fin (2 * (2 * 4)) → BitVec 8 := vldInterleaved 3 src srcPtr
  let yL : Fin (2 * 4) → BitVec 16 := vreinterpretqU16U8 (vzip1 (vsrc 0) fun _ => 0)
  let yH : Fin (2 * 4) → BitVec 16 := vreinterpretqU16U8 (vzip2 (vsrc 0) fun _ => 0)
  let u4L ← GaussianBlur.vshllN 16 kPreShift (vgetLow (vsrc 1))
  let u4H ← GaussianBlur.vshllN 16 kPreShift (vgetHigh (vsrc 1))
  let v4L ← GaussianBlur.vshllN 16 kPreShift (vgetLow (vsrc 2))
  let v4H ← GaussianBlur.vshllN 16 kPreShift (vgetHigh (vsrc 2))
  let bL ← blueHalf yL u4L
  let bH ← blueHalf yH u4H
  let gL ← greenHalf yL u4L v4L
  let gH ← greenHalf yH u4H v4H
  let rL ← redHalf yL v4L
  let rH ← redHalf yH v4H
  let b : Fin (2 * (2 * 4)) → BitVec 8 := vcombine (vqmovunS16 bL) (vqmovunS16 bH)
  let g : Fin (2 * (2 * 4)) → BitVec 8 := vcombine (vqmovunS16 gL) (vqmovunS16 gH)
  let r : Fin (2 * (2 * 4)) → BitVec 8 := vcombine (vqmovunS16 rL) (vqmovunS16 rH)
  pure (vstInterleaved op.outputChannels
    (fun k => if k = op.rIndex then r else if k = 1 then g else if k = op.bIndex then b
      else fun _ => 255) dstPtr m)

/-- `scalar_path`. -/
def scalarPath (src : ℕ → BitVec 8) (srcPtr dstPtr : ℕ) (m : ℕ → BitVec 8) :
    Tracked (ℕ → BitVec 8) := do
  let y := (src srcPtr).toNat
  let u ← int32 ((src (srcPtr + 1)).toNat - 128)
  let v ← int32 ((src (srcPtr + 2)).toNat - 128)
  let b ← int32 (u * ubWeight)
  let b ← roundingShiftRight b kWeightScale
  let b ← int32 (y + b)
  let gu ← int32 (u * ugWeight)
  let gv ← int32 (v * vgWeight)
  let g ← int32 (gu + gv)
  let g ← roundingShiftRight g kWeightScale
  let g ← int32 (y + g)
  let r ← int32 (v * vrWeight)
  let r ← roundingShiftRight r kWeightScale
  let r ← int32 (y + r)
  let m := Function.update m (dstPtr + op.rIndex) (Yuv420.saturatingCast r)
  let m := Function.update m (dstPtr + 1) (Yuv420.saturatingCast g)
  let m := Function.update m (dstPtr + op.bIndex) (Yuv420.saturatingCast b)
  pure (if op.kAlpha then Function.update m (dstPtr + 3) 255 else m)

/-! ### What the paths store -/

/-- Red, green and blue before they are saturated. -/
def blue (y u : BitVec 8) : ℤ := y.toNat + ((u.toNat - 128) * ubWeight + 2 ^ 13) / 2 ^ 14

def green (y u v : BitVec 8) : ℤ :=
  y.toNat + ((u.toNat - 128) * ugWeight + (v.toNat - 128) * vgWeight + 2 ^ 13) / 2 ^ 14

def red (y v : BitVec 8) : ℤ := y.toNat + ((v.toNat - 128) * vrWeight + 2 ^ 13) / 2 ^ 14

/-- Byte `k` that is stored for the pixel at an address. -/
def pixelAt (src : ℕ → BitVec 8) (ptr k : ℕ) : BitVec 8 :=
  let y := src ptr
  let u := src (ptr + 1)
  let v := src (ptr + 2)
  if k = op.rIndex then Yuv420.saturatingCast (red y v)
  else if k = 1 then Yuv420.saturatingCast (green y u v)
  else if k = op.bIndex then Yuv420.saturatingCast (blue y u)
  else 255

theorem addScaled_ensures {y16 : Fin (2 * 4) → BitVec 16} {low high : Fin 4 → BitVec 32}
    {y : Fin (2 * 4) → BitVec 8} {f : Fin (2 * 4) → ℤ}
    (hy : ∀ lane, (y16 lane).toInt = (y lane).toNat)
    (hlow : ∀ lane : Fin 4, (low lane).toInt = f ⟨lane, by omega⟩)
    (hhigh : ∀ lane : Fin 4, (high lane).toInt = f ⟨4 + lane, by omega⟩)
    (hf : ∀ lane, -2000000000 ≤ f lane ∧ f lane ≤ 2000000000) :
    (addScaled y16 low high).Ensures fun s => ∀ lane,
      (s lane).toInt = (y lane).toNat + f lane / 65536 := by
  refine vaddqS_ensures (by decide) hy (vuzp2_toInt hlow hhigh) fun lane => ?_
  have := (y lane).isLt
  have := hf lane
  omega

/-- The upper half of four times a number is what is left of it when it is scaled down. -/
theorem div_scaled (x : ℤ) : 4 * x / 65536 = x / 2 ^ 14 := by omega

section

variable {y16 u4 v4 : Fin (2 * 4) → BitVec 16} {y u v : Fin (2 * 4) → BitVec 8}

theorem blueHalf_ensures (hy : ∀ lane, (y16 lane).toInt = (y lane).toNat)
    (hu : ∀ lane, (u4 lane).toNat = (u lane).toNat * 4) :
    (blueHalf y16 u4).Ensures fun s => ∀ lane, (s lane).toInt = blue (y lane) (u lane) := by
  have hdelta : bDelta4 = -17012736 := by decide
  have hlt : ∀ lane, (u lane).toNat < 256 := fun lane => (u lane).isLt
  refine (Tracked.slanes_ensures (by decide) fun _ => by rw [hdelta]; omega).bind
    fun delta hdelta' => ?_
  refine (vmullNU16_ensures (fun lane => hu _) (by decide) fun lane => ?_).bind fun low hlow => ?_
  · have := hlt ⟨lane, by omega⟩
    rw [ubWeight]
    omega
  refine (vmullNU16_ensures (fun lane => hu _) (by decide) fun lane => ?_).bind fun high hhigh => ?_
  · have := hlt ⟨4 + lane, by omega⟩
    rw [ubWeight]
    omega
  refine (vaddqS_ensures (by decide) hlow hdelta' fun lane => ?_).bind fun low hlow => ?_
  · have := hlt ⟨lane, by omega⟩
    rw [ubWeight, hdelta]
    push_cast
    omega
  refine (vaddqS_ensures (by decide) hhigh hdelta' fun lane => ?_).bind fun high hhigh => ?_
  · have := hlt ⟨4 + lane, by omega⟩
    rw [ubWeight, hdelta]
    push_cast
    omega
  refine (addScaled_ensures (f := fun lane => ((u lane).toNat * 4 : ℕ) * ubWeight + bDelta4)
    hy hlow hhigh fun lane => ?_).imp fun s hs lane => ?_
  · have := hlt lane
    rw [ubWeight, hdelta]
    push_cast
    omega
  · rw [hs, blue, ← div_scaled, hdelta, ubWeight]
    push_cast
    omega

/-- Four times a chroma sample, as a signed number. -/
theorem toInt_scaled {x4 : Fin (2 * 4) → BitVec 16} {x : Fin (2 * 4) → BitVec 8}
    (hx : ∀ lane, (x4 lane).toNat = (x lane).toNat * 4) (lane : Fin (2 * 4)) :
    (x4 lane).toInt = (x lane).toNat * 4 := by
  have := (x lane).isLt
  rw [BitVec.toInt_eq_toNat_of_lt (by rw [hx]; omega), hx]
  push_cast
  rfl

theorem greenHalf_ensures (hy : ∀ lane, (y16 lane).toInt = (y lane).toNat)
    (hu : ∀ lane, (u4 lane).toNat = (u lane).toNat * 4)
    (hv : ∀ lane, (v4 lane).toNat = (v lane).toNat * 4) :
    (greenHalf y16 u4 v4).Ensures fun s => ∀ lane,
      (s lane).toInt = green (y lane) (u lane) (v lane) := by
  have hdelta : gDelta4 = 8220160 := by decide
  have hltU : ∀ lane, (u lane).toNat < 256 := fun lane => (u lane).isLt
  have hltV : ∀ lane, (v lane).toNat < 256 := fun lane => (v lane).isLt
  refine (Tracked.slanes_ensures (by decide) fun _ => by rw [hdelta]; omega).bind
    fun delta hdelta' => ?_
  refine (vmlaN_ensures (by decide) (by decide) hdelta' (fun lane => toInt_scaled hu _) (by decide)
    fun lane => ?_).bind fun low hlow => ?_
  · have := hltU ⟨lane, by omega⟩
    rw [ugWeight, hdelta]
    omega
  refine (vmlaN_ensures (by decide) (by decide) hdelta' (fun lane => toInt_scaled hu _) (by decide)
    fun lane => ?_).bind fun high hhigh => ?_
  · have := hltU ⟨4 + lane, by omega⟩
    rw [ugWeight, hdelta]
    omega
  refine (vmlaN_ensures (by decide) (by decide) hlow (fun lane => toInt_scaled hv _) (by decide)
    fun lane => ?_).bind fun low hlow => ?_
  · have := hltU ⟨lane, by omega⟩
    have := hltV ⟨lane, by omega⟩
    rw [ugWeight, vgWeight, hdelta]
    omega
  refine (vmlaN_ensures (by decide) (by decide) hhigh (fun lane => toInt_scaled hv _) (by decide)
    fun lane => ?_).bind fun high hhigh => ?_
  · have := hltU ⟨4 + lane, by omega⟩
    have := hltV ⟨4 + lane, by omega⟩
    rw [ugWeight, vgWeight, hdelta]
    omega
  refine (addScaled_ensures (f := fun lane =>
    gDelta4 + (u lane).toNat * 4 * ugWeight + (v lane).toNat * 4 * vgWeight)
    hy hlow hhigh fun lane => ?_).imp fun s hs lane => ?_
  · have := hltU lane
    have := hltV lane
    rw [ugWeight, vgWeight, hdelta]
    omega
  · rw [hs, green, ← div_scaled, hdelta, ugWeight, vgWeight]
    omega

theorem redHalf_ensures (hy : ∀ lane, (y16 lane).toInt = (y lane).toNat)
    (hv : ∀ lane, (v4 lane).toNat = (v lane).toNat * 4) :
    (redHalf y16 v4).Ensures fun s => ∀ lane, (s lane).toInt = red (y lane) (v lane) := by
  have hdelta : rDelta4 = -9530368 := by decide
  have hlt : ∀ lane, (v lane).toNat < 256 := fun lane => (v lane).isLt
  refine (Tracked.slanes_ensures (by decide) fun _ => by rw [hdelta]; omega).bind
    fun delta hdelta' => ?_
  refine (vmlaN_ensures (by decide) (by decide) hdelta' (fun lane => toInt_scaled hv _) (by decide)
    fun lane => ?_).bind fun low hlow => ?_
  · have := hlt ⟨lane, by omega⟩
    rw [vrWeight, hdelta]
    omega
  refine (vmlaN_ensures (by decide) (by decide) hdelta' (fun lane => toInt_scaled hv _) (by decide)
    fun lane => ?_).bind fun high hhigh => ?_
  · have := hlt ⟨4 + lane, by omega⟩
    rw [vrWeight, hdelta]
    omega
  refine (addScaled_ensures (f := fun lane => rDelta4 + (v lane).toNat * 4 * vrWeight)
    hy hlow hhigh fun lane => ?_).imp fun s hs lane => ?_
  · have := hlt lane
    rw [vrWeight, hdelta]
    omega
  · rw [hs, red, ← div_scaled, hdelta, vrWeight]
    omega

end

/-- **A vector of pixels.** -/
theorem vectorPath_ensures (src : ℕ → BitVec 8) (srcPtr dstPtr : ℕ) (m : ℕ → BitVec 8) :
    (op.vectorPath src srcPtr dstPtr m).Ensures (· =
      vstInterleaved op.outputChannels (fun k (lane : Fin 16) => op.pixelAt src (srcPtr + 3 * lane) k)
        dstPtr m) := by
  have hyL := vzip1_toInt (k := 8) (vldInterleaved 3 src srcPtr 0)
  have hyH := vzip2_toInt (k := 8) (vldInterleaved 3 src srcPtr 0)
  have hshift : ∀ {x : Fin (2 * 4) → BitVec 8}, (GaussianBlur.vshllN 16 kPreShift x).Ensures
      fun s => ∀ lane, (s lane).toNat = (x lane).toNat * 4 := fun {x} =>
    Tracked.lanes_ensures fun lane => by
      have := (x lane).isLt
      rw [kPreShift, kWeightScale]
      omega
  refine hshift.bind fun u4L hu4L => hshift.bind fun u4H hu4H => ?_
  refine hshift.bind fun v4L hv4L => hshift.bind fun v4H hv4H => ?_
  refine (blueHalf_ensures hyL hu4L).bind fun bL hbL => ?_
  refine (blueHalf_ensures hyH hu4H).bind fun bH hbH => ?_
  refine (greenHalf_ensures hyL hu4L hv4L).bind fun gL hgL => ?_
  refine (greenHalf_ensures hyH hu4H hv4H).bind fun gH hgH => ?_
  refine (redHalf_ensures hyL hv4L).bind fun rL hrL => ?_
  refine (redHalf_ensures hyH hv4H).bind fun rH hrH => .pure ?_
  have hb : ∀ lane : Fin 16, vcombine (vqmovunS16 bL) (vqmovunS16 bH) lane =
      Yuv420.saturatingCast (blue (src (srcPtr + 3 * lane)) (src (srcPtr + 3 * lane + 1))) :=
    vcombine_cases (P := fun lane (x : BitVec 8) => x =
      Yuv420.saturatingCast (blue (src (srcPtr + 3 * lane)) (src (srcPtr + 3 * lane + 1))))
      (vqmovunS16_eq hbL) (vqmovunS16_eq hbH)
  have hg : ∀ lane : Fin 16, vcombine (vqmovunS16 gL) (vqmovunS16 gH) lane =
      Yuv420.saturatingCast (green (src (srcPtr + 3 * lane)) (src (srcPtr + 3 * lane + 1))
        (src (srcPtr + 3 * lane + 2))) :=
    vcombine_cases (P := fun lane (x : BitVec 8) => x =
      Yuv420.saturatingCast (green (src (srcPtr + 3 * lane)) (src (srcPtr + 3 * lane + 1))
        (src (srcPtr + 3 * lane + 2)))) (vqmovunS16_eq hgL) (vqmovunS16_eq hgH)
  have hr : ∀ lane : Fin 16, vcombine (vqmovunS16 rL) (vqmovunS16 rH) lane =
      Yuv420.saturatingCast (red (src (srcPtr + 3 * lane)) (src (srcPtr + 3 * lane + 2))) :=
    vcombine_cases (P := fun lane (x : BitVec 8) => x =
      Yuv420.saturatingCast (red (src (srcPtr + 3 * lane)) (src (srcPtr + 3 * lane + 2))))
      (vqmovunS16_eq hrL) (vqmovunS16_eq hrH)
  congr 1
  funext k lane
  simp only [pixelAt]
  split_ifs
  · exact hr lane
  · exact hg lane
  · exact hb lane
  · rfl

/-- The bytes of a pixel, in the order that they are stored in. -/
theorem update_pixel (src : ℕ → BitVec 8) (srcPtr dstPtr : ℕ) (m : ℕ → BitVec 8) :
    let y := src srcPtr
    let u := src (srcPtr + 1)
    let v := src (srcPtr + 2)
    let rgb := Function.update (Function.update (Function.update m (dstPtr + op.rIndex)
      (Yuv420.saturatingCast (red y v))) (dstPtr + 1) (Yuv420.saturatingCast (green y u v)))
      (dstPtr + op.bIndex) (Yuv420.saturatingCast (blue y u))
    (if op.kAlpha then Function.update rgb (dstPtr + 3) 255 else rgb) =
      overwrite m dstPtr op.outputChannels (op.pixelAt src srcPtr) := by
  have hrb : (op.rIndex = 0 ∧ op.bIndex = 2) ∨ (op.rIndex = 2 ∧ op.bIndex = 0) := by
    obtain ⟨bgr, kAlpha⟩ := op
    cases bgr
    · exact .inl ⟨rfl, rfl⟩
    · exact .inr ⟨rfl, rfl⟩
  have hg : 1 ≠ op.rIndex ∧ op.bIndex ≠ op.rIndex ∧ op.bIndex ≠ 1 ∧ 3 ≠ op.rIndex ∧ 3 ≠ op.bIndex := by
    omega
  obtain ⟨h1r, hbr, hb1, h3r, h3b⟩ := hg
  rw [outputChannels, ← overwrite_rgba hrb]
  simp only [pixelAt, if_true, if_neg h1r, if_neg hbr, if_neg hb1, if_neg h3r, if_neg h3b,
    if_neg (show (3 : ℕ) ≠ 1 by decide)]

/-- **A single pixel.** -/
theorem scalarPath_ensures (src : ℕ → BitVec 8) (srcPtr dstPtr : ℕ) (m : ℕ → BitVec 8) :
    (op.scalarPath src srcPtr dstPtr m).Ensures (· =
      overwrite m dstPtr op.outputChannels (op.pixelAt src srcPtr)) := by
  have hy := (src srcPtr).isLt
  have hu := (src (srcPtr + 1)).isLt
  have hv := (src (srcPtr + 2)).isLt
  have hscaled : ∀ {x : ℤ}, -1000000000 ≤ x ∧ x ≤ 1000000000 →
      (roundingShiftRight x kWeightScale).Ensures (· = (x + 2 ^ 13) / 2 ^ 14) := fun h =>
    roundingShiftRight_ensures (by rw [kWeightScale]; omega)
  rw [← update_pixel]
  refine (int32_ensures (by omega)).bind fun u hu' => ?_
  refine (int32_ensures (by omega)).bind fun v hv' => ?_
  subst hu' hv'
  refine (int32_ensures (by rw [ubWeight]; omega)).bind fun b hb => ?_
  refine (hscaled (by rw [hb, ubWeight]; omega)).bind fun b' hb' => ?_
  refine (int32_ensures (by rw [hb', hb, ubWeight]; omega)).bind fun b'' hb'' => ?_
  refine (int32_ensures (by rw [ugWeight]; omega)).bind fun gu hgu => ?_
  refine (int32_ensures (by rw [vgWeight]; omega)).bind fun gv hgv => ?_
  refine (int32_ensures (by rw [hgu, hgv, ugWeight, vgWeight]; omega)).bind fun g hg => ?_
  refine (hscaled (by rw [hg, hgu, hgv, ugWeight, vgWeight]; omega)).bind fun g' hg' => ?_
  refine (int32_ensures (by rw [hg', hg, hgu, hgv, ugWeight, vgWeight]; omega)).bind
    fun g'' hg'' => ?_
  refine (int32_ensures (by rw [vrWeight]; omega)).bind fun r hr => ?_
  refine (hscaled (by rw [hr, vrWeight]; omega)).bind fun r' hr' => ?_
  refine (int32_ensures (by rw [hr', hr, vrWeight]; omega)).bind fun r'' hr'' => .pure ?_
  rw [hb'', hb', hb, hg'', hg', hg, hgu, hgv, hr'', hr', hr]
  rfl

end YuvToRgbAll

/-! ### Images -/

/-- An operation on a source and a destination with interleaved channels: `vector_path` for 16
pixels, `scalar_path` for one. -/
structure PixelPaths where
  srcChannels : ℕ
  dstChannels : ℕ
  vectorPath : (ℕ → BitVec 8) → ℕ → ℕ → (ℕ → BitVec 8) → Tracked (ℕ → BitVec 8)
  scalarPath : (ℕ → BitVec 8) → ℕ → ℕ → (ℕ → BitVec 8) → Tracked (ℕ → BitVec 8)

/-- The operation of `rgb_to_yuv444_u8`. -/
def RgbToYuvAll.paths (op : RgbToYuvAll) : PixelPaths :=
  ⟨op.inputChannels, 3, op.vectorPath, op.scalarPath⟩

/-- The operation of `yuv444_to_rgb_u8`. -/
def YuvToRgbAll.paths (op : YuvToRgbAll) : PixelPaths :=
  ⟨3, op.outputChannels, op.vectorPath, op.scalarPath⟩

namespace PixelPaths

variable (paths : PixelPaths) (src : ℕ → BitVec 8) (b : Buffers)

/-- `vector_path` at a row and column. -/
def vectorAt (row column : ℕ) (s : Tracked (ℕ → BitVec 8)) : Tracked (ℕ → BitVec 8) :=
  s >>= paths.vectorPath src (b.src + row * b.srcStride + column * paths.srcChannels)
    (b.dst + row * b.dstStride + column * paths.dstChannels)

/-- `OperationAdapter`, for an operation that is unrolled once and tries to avoid the tail loop. -/
def adapter : RowOperation (Tracked (ℕ → BitVec 8)) where
  numLanes := 16
  isUnrolledTwice := false
  isUnrolledOnce := true
  tryToAvoidTailLoop := true
  maxVectorsPerBlock := 0
  vectorPath2x := fun row column s =>
    paths.vectorAt src b row (column + 16) (paths.vectorAt src b row column s)
  vectorPath := paths.vectorAt src b
  scalarPath := fun row column s => s >>= paths.scalarPath src
    (b.src + row * b.srcStride + column * paths.srcChannels)
    (b.dst + row * b.dstStride + column * paths.dstChannels)
  onBlockFinished := fun _ s => s

/-- Whether the rows of both images are `is_continuous`. -/
def continuous (width : ℕ) : Bool :=
  b.srcStride == width * paths.srcChannels && b.dstStride == width * paths.dstChannels

/-- `apply_operation_by_rows`. -/
def applyOperationByRows (width height : ℕ) : Tracked (ℕ → BitVec 8) → Tracked (ℕ → BitVec 8) :=
  zipRows (paths.continuous b width) width height (paths.adapter src b).processRow

/-- The same rows with `scalar_path` for every pixel. -/
def applyScalarPath (width height : ℕ) : Tracked (ℕ → BitVec 8) → Tracked (ℕ → BitVec 8) :=
  zipRows (paths.continuous b width) width height
    fun row length => forRange length ((paths.adapter src b).scalarPath row)

/-- Both paths store the bytes `out` for the pixel at an address. -/
structure Stores (out : ℕ → ℕ → BitVec 8) : Prop where
  channels_pos : 0 < paths.dstChannels
  vectorPath_ensures : ∀ srcPtr dstPtr m, (paths.vectorPath src srcPtr dstPtr m).Ensures (· =
    vstInterleaved paths.dstChannels
      (fun k (lane : Fin 16) => out (srcPtr + paths.srcChannels * lane) k) dstPtr m)
  scalarPath_ensures : ∀ srcPtr dstPtr m, (paths.scalarPath src srcPtr dstPtr m).Ensures (· =
    overwrite m dstPtr paths.dstChannels (out srcPtr))

variable {paths src b} {out : ℕ → ℕ → BitVec 8}

/-- **A row**, with vectors or without them. -/
theorem Stores.row (h : paths.Stores src out) (row length : ℕ) (m : ℕ → BitVec 8) :
    let pixels := written (b.dst + row * b.dstStride) paths.dstChannels
      (fun x k => out (b.src + row * b.srcStride + x * paths.srcChannels) k)
    ((paths.adapter src b).processRow row length (pure m)).Ensures (· = pixels length m) ∧
      (forRange length ((paths.adapter src b).scalarPath row) (pure m)).Ensures
        (· = pixels length m) := by
  intro pixels
  have hscalar : ∀ x (s : Tracked (ℕ → BitVec 8)), s.Ensures (· = pixels x m) →
      ((paths.adapter src b).scalarPath row x s).Ensures (· = pixels (x + 1) m) := by
    rintro x s hs
    refine hs.bind fun m' hm' => (h.scalarPath_ensures _ _ m').imp fun m'' hm'' => ?_
    rw [hm'', hm']
    exact written_pixel h.channels_pos fun k _ => rfl
  have hzero : (pure m : Tracked (ℕ → BitVec 8)).Ensures (· = pixels 0 m) := .pure written_zero.symm
  have hvector : ∀ i j (s : Tracked (ℕ → BitVec 8)), i ≤ j → j ≤ i + 16 →
      s.Ensures (· = pixels j m) → (paths.vectorAt src b row i s).Ensures (· = pixels (i + 16) m) := by
    intro i j s hij hj hs
    refine hs.bind fun m' hm' => (h.vectorPath_ensures _ _ m').imp fun m'' hm'' => ?_
    rw [hm'', hm']
    refine written_vector h.channels_pos hij hj fun lane k _ => ?_
    rw [Nat.add_mul, ← Nat.add_assoc, Nat.mul_comm lane.val]
  constructor
  · refine RowOperation.processRow_columns (fun x (s : Tracked _) => s.Ensures (· = pixels x m))
      (show 0 < 16 by decide) hzero (fun i _ s hs => ?_)
      (fun i j hij hj _ _ s hs => hvector i j s hij hj hs) fun i _ _ s hs => hscalar i s hs
    exact hvector (i + 16) (i + 16) _ le_rfl (Nat.le_add_right _ _)
      (hvector i i s le_rfl (Nat.le_add_right _ _) hs)
  · exact forRange_invariant (fun x (s : Tracked _) => s.Ensures (· = pixels x m)) hzero
      fun x _ s hs => hscalar x s hs

/-- **An image**, with vectors or without them. -/
theorem Stores.image (h : paths.Stores src out) (width height : ℕ) (m : ℕ → BitVec 8) :
    ∃ m', paths.applyOperationByRows src b width height (pure m) = pure m' ∧
      paths.applyScalarPath src b width height (pure m) = pure m' := by
  have hrow : ∀ row length (s t : Tracked (ℕ → BitVec 8)), (∃ m', s = pure m' ∧ t = pure m') →
      ∃ m', (paths.adapter src b).processRow row length s = pure m' ∧
        forRange length ((paths.adapter src b).scalarPath row) t = pure m' := by
    rintro row length s t ⟨m', rfl, rfl⟩
    obtain ⟨hvector, hscalar⟩ := h.row (b := b) row length m'
    exact ⟨_, hvector.eq_pure, hscalar.eq_pure⟩
  rw [applyOperationByRows, applyScalarPath, zipRows, zipRows]
  split
  · exact forRange_rel (fun _ s t => ∃ m', s = pure m' ∧ t = pure m') ⟨m, rfl, rfl⟩
      fun row _ s t hst => hrow row _ s t hst
  · exact forRange_rel (fun _ s t => ∃ m', s = pure m' ∧ t = pure m') ⟨m, rfl, rfl⟩
      fun row _ s t hst => hrow row _ s t hst

end PixelPaths

theorem RgbToYuvAll.stores (op : RgbToYuvAll) (src : ℕ → BitVec 8) :
    op.paths.Stores src (op.pixelAt src) :=
  ⟨Nat.succ_pos 2, op.vectorPath_ensures src, op.scalarPath_ensures src⟩

theorem YuvToRgbAll.stores (op : YuvToRgbAll) (src : ℕ → BitVec 8) :
    op.paths.Stores src (op.pixelAt src) := by
  refine ⟨?_, op.vectorPath_ensures src, op.scalarPath_ensures src⟩
  show 0 < op.outputChannels
  rw [outputChannels]
  split <;> decide

end KleidiCV
