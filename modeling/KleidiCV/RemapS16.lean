/-
`remap_s16_neon.cpp`: pixels of an image, taken from coordinates in a map.

Rows of the map are taken eight pixels at a time; the last vector is moved back to end
with the row.  Each pixel that a vector reads is noted with its coordinates, so that a
run tells what it read.  Images are memories of elements, and pointers and strides
count elements; strides in bytes are those of the calls.

* `Tap` — a source pixel that is read;
* `remapRow`, `remapRow_ensures` — `process_row`;
* `remapS16Replicate`, `remapS16ConstantBorder` — the operations of `remap_s16`;
* `remapRows_ensures` — what an operation reads and writes in an image.
-/
import KleidiCV.GaussianBlur
import KleidiCV.Lib.Traced

open Loop

namespace KleidiCV

/-- A source pixel that is read: coordinates, and the offset of its first element. -/
structure Tap where
  x : BitVec 16
  y : BitVec 16
  offset : BitVec 32

namespace Remap

/-! ### Vector arithmetic -/

section

variable {n v w : ℕ}

/-- `vdupq_n`, of a value of the lane's type. -/
def vdupq (x : BitVec w) : Fin n → BitVec w := fun _ => x

/-- `vminq_s16`. -/
def vminqS16 (a b : Fin n → BitVec w) : Fin n → BitVec w := fun lane =>
  if (a lane).slt (b lane) then a lane else b lane

/-- `vmaxq_s16`. -/
def vmaxqS16 (a b : Fin n → BitVec w) : Fin n → BitVec w := fun lane =>
  if (b lane).slt (a lane) then a lane else b lane

/-- `vminq_u16`. -/
def vminqU16 (a b : Fin n → BitVec w) : Fin n → BitVec w := fun lane =>
  if (a lane).ult (b lane) then a lane else b lane

/-- `vcltq_s16`. -/
def vcltqS16 (a b : Fin n → BitVec w) : Fin n → BitVec w := fun lane =>
  if (a lane).slt (b lane) then BitVec.allOnes w else 0

/-- `vcltq_u16`. -/
def vcltqU16 (a b : Fin n → BitVec w) : Fin n → BitVec w := fun lane =>
  if (a lane).ult (b lane) then BitVec.allOnes w else 0

/-- `vandq`. -/
def vandq (a b : Fin n → BitVec w) : Fin n → BitVec w := fun lane => a lane &&& b lane

/-- `vbslq`. -/
def vbslq (mask a b : Fin n → BitVec w) : Fin n → BitVec w := fun lane =>
  (mask lane &&& a lane) ||| (~~~ mask lane &&& b lane)

/-- `vaddq_u16`, of coordinates. -/
def vaddq (a b : Fin n → BitVec w) : Fin n → BitVec w := fun lane => a lane + b lane

/-- `vsubq_u16`, of coordinates and masks. -/
def vsubq (a b : Fin n → BitVec w) : Fin n → BitVec w := fun lane => a lane - b lane

/-- `src_rows_[...]` for the lanes of `offset`. -/
def load (src : ℕ → BitVec v) (x y : Fin n → BitVec 16) (offset : Fin n → BitVec 32) :
    Traced Tap (Fin n → BitVec v) :=
  Traced.note ((List.finRange n).map fun lane => ⟨x lane, y lane, offset lane⟩)
    fun lane => src (offset lane).toNat

/-- Offsets from coordinates, `y * stride / sizeof(ScalarType) + x`, and the pixels
there. -/
def loadPixels (src : ℕ → BitVec v) (stride : BitVec 16) (x y : Fin (2 * 4) → BitVec 16) :
    Traced Tap (Fin (2 * 4) → BitVec v) := do
  let xLow ← GaussianBlur.vmovl 32 (vgetLow x)
  let indicesLow ← GaussianBlur.vmlal xLow (vgetLow y) (vdupq stride)
  let xHigh ← GaussianBlur.vmovl 32 (vgetHigh x)
  let indicesHigh ← GaussianBlur.vmlal xHigh (vgetHigh y) (vdupq stride)
  let low ← load src (vgetLow x) (vgetLow y) indicesLow
  let high ← load src (vgetHigh x) (vgetHigh y) indicesHigh
  pure (vcombine low high)

end

/-! ### Operations -/

/-- `RemapS16Replicate<ScalarType>`, the vector path. -/
def remapS16Replicate {v : ℕ} (src : ℕ → BitVec v) (stride xmax ymax : BitVec 16)
    (mapX mapY : Fin (2 * 4) → BitVec 16) : Traced Tap (Fin (2 * 4) → BitVec v) :=
  let x := vmaxqS16 (vdupq 0) (vminqS16 mapX (vdupq xmax))
  let y := vmaxqS16 (vdupq 0) (vminqS16 mapY (vdupq ymax))
  loadPixels src stride x y

/-- `RemapS16ConstantBorder<ScalarType>`, the vector path; the masks and the border are
narrowed to the width of an element. -/
def remapS16ConstantBorder {v : ℕ} (src : ℕ → BitVec v) (stride width height border : BitVec 16)
    (mapX mapY : Fin (2 * 4) → BitVec 16) : Traced Tap (Fin (2 * 4) → BitVec v) := do
  let inRange := vandq (vcltqU16 mapX (vdupq width)) (vcltqU16 mapY (vdupq height))
  let x := vandq inRange mapX
  let y := vandq inRange mapY
  let pixels ← loadPixels src stride x y
  pure (vbslq (fun lane => (inRange lane).setWidth v) pixels fun _ => border.setWidth v)

/-! ### What the lanes read -/

section

variable {n v : ℕ} {src : ℕ → BitVec v} {stride : BitVec 16}

/-- The tap of a pixel of a number of channels. -/
def pixelTap (channels : ℕ) (stride x y : BitVec 16) : Tap :=
  ⟨x, y, BitVec.ofNat 32 (channels * x.toNat + y.toNat * stride.toNat)⟩

theorem load_ensures {x y : Fin n → BitVec 16} {offset : Fin n → BitVec 32} {at_ : Fin n → ℕ}
    (h : ∀ lane, (offset lane).toNat = at_ lane) :
    (load src x y offset).Ensures {t | ∃ lane, ⟨x lane, y lane, BitVec.ofNat 32 (at_ lane)⟩ = t}
      fun pixels => ∀ lane, pixels lane = src (at_ lane) := by
  refine ⟨trivial, fun t => ?_, fun lane => congrArg src (h lane)⟩
  simp only [load, Traced.note, List.mem_map, List.mem_finRange, true_and, Set.mem_ofPred_eq]
  refine exists_congr fun lane => ?_
  rw [← h, BitVec.ofNat_toNat, BitVec.setWidth_eq]

/-- Pixels of one channel. -/
theorem loadElements_ensures {x y : Fin n → BitVec 16} {offset : Fin n → BitVec 32}
    (h : ∀ lane, (offset lane).toNat = (x lane).toNat + (y lane).toNat * stride.toNat) :
    (load src x y offset).Ensures {t | ∃ lane, pixelTap 1 stride (x lane) (y lane) = t}
      fun pixels => ∀ lane, pixels lane = src ((x lane).toNat + (y lane).toNat * stride.toNat) := by
  refine (load_ensures h).congr ?_
  simp only [pixelTap, Nat.one_mul]

/-- Four pixels for each lane, read one after another. -/
theorem union_taps {ι : Type} (a b c d : ι → Tap) :
    {t | ∃ i, a i = t} ∪ ({t | ∃ i, b i = t} ∪ ({t | ∃ i, c i = t} ∪ {t | ∃ i, d i = t})) =
      {t | ∃ i, t ∈ ({a i, b i, c i, d i} : Set Tap)} := by
  ext t
  simp only [Set.mem_union, Set.mem_ofPred_eq, Set.mem_insert_iff, Set.mem_singleton_iff,
    @eq_comm _ t, exists_or]

/-- Offsets of single elements fit 32 bits. -/
theorem offset_lt (x y stride : BitVec 16) : x.toNat + y.toNat * stride.toNat < 2 ^ 32 := by
  have hx := x.isLt
  have h := Nat.mul_le_mul (show y.toNat ≤ 65535 by have := y.isLt; omega)
    (show stride.toNat ≤ 65535 by have := stride.isLt; omega)
  omega

/-- Lanes of the two halves of a vector. -/
theorem exists_lane {P : Fin (2 * n) → Prop} :
    ((∃ lane : Fin n, P ⟨lane, lowLane_lt lane⟩) ∨ ∃ lane : Fin n, P ⟨n + lane, highLane_lt lane⟩) ↔
      ∃ lane, P lane := by
  constructor
  · rintro (⟨lane, h⟩ | ⟨lane, h⟩)
    · exact ⟨_, h⟩
    · exact ⟨_, h⟩
  · rintro ⟨lane, h⟩
    rcases Nat.lt_or_ge lane n with hlt | hge
    · exact .inl ⟨⟨lane, hlt⟩, h⟩
    · refine .inr ⟨⟨lane - n, by omega⟩, ?_⟩
      rwa [show (⟨n + (lane - n), by omega⟩ : Fin (2 * n)) = lane from Fin.ext (by simp only; omega)]

/-- The elements at the coordinates of eight lanes. -/
theorem loadPixels_ensures (x y : Fin (2 * 4) → BitVec 16) :
    (loadPixels src stride x y).Ensures {t | ∃ lane, pixelTap 1 stride (x lane) (y lane) = t}
      fun pixels => ∀ lane, pixels lane = src ((x lane).toNat + (y lane).toNat * stride.toNat) := by
  have hwide : ∀ (f : Fin 4 → BitVec 16),
      (GaussianBlur.vmovl 32 f).Ensures fun g => ∀ lane, (g lane).toNat = (f lane).toNat := fun f =>
    Tracked.lanes_ensures fun lane => by have := (f lane).isLt; omega
  have hindices : ∀ (x y : Fin 4 → BitVec 16) (xWide : Fin 4 → BitVec 32),
      (∀ lane, (xWide lane).toNat = (x lane).toNat) →
      (GaussianBlur.vmlal xWide y (vdupq stride)).Ensures fun indices => ∀ lane,
        (indices lane).toNat = (x lane).toNat + (y lane).toNat * stride.toNat := by
    intro x y xWide hx
    simp only [GaussianBlur.vmlal, hx]
    exact Tracked.lanes_ensures fun lane => offset_lt _ _ _
  refine Traced.Ensures.lift_bind (hwide _) fun xLow hxl => ?_
  refine Traced.Ensures.lift_bind (hindices _ (vgetLow y) _ hxl) fun indicesLow hil => ?_
  refine Traced.Ensures.lift_bind (hwide _) fun xHigh hxh => ?_
  refine Traced.Ensures.lift_bind (hindices _ (vgetHigh y) _ hxh) fun indicesHigh hih => ?_
  refine ((loadElements_ensures hil).bind fun low hlow =>
    (loadElements_ensures hih).bind_pure fun high hhigh lane => ?_).congr ?_
  · exact GaussianBlur.vcombine_cases (P := fun lane (p : BitVec v) =>
      p = src ((x lane).toNat + (y lane).toNat * stride.toNat)) hlow hhigh lane
  · ext t
    rw [Set.mem_ofPred_eq, ← exists_lane]
    rfl

end

/-! ### Pixels -/

/-- The entry of the maps for a pixel; without a map of fractions they are zero. -/
structure MapEntry where
  x : BitVec 16
  y : BitVec 16
  frac : BitVec 16

/-- What a kernel does for an entry: the coordinates and fractions that it forms, where it
reads for a neighbour, and what it takes the neighbour to be. -/
structure Sampling (v channels : ℕ) where
  stride : BitVec 16
  x0 : MapEntry → BitVec 16
  y0 : MapEntry → BitVec 16
  x1 : MapEntry → BitVec 16
  y1 : MapEntry → BitVec 16
  xfrac : MapEntry → ℕ
  yfrac : MapEntry → ℕ
  readAt : BitVec 16 → BitVec 16 → BitVec 16 × BitVec 16
  sample : BitVec 16 → BitVec 16 → ℕ → BitVec v

/-- The weighted sum of four neighbours, `a` and `b` above `c` and `d`, rounded. -/
def interpolated (xfrac yfrac a b c d : ℕ) : ℕ :=
  ((32 - xfrac) * (32 - yfrac) * a + xfrac * (32 - yfrac) * b + (32 - xfrac) * yfrac * c +
    xfrac * yfrac * d + 512) / 1024

namespace Sampling

variable {v channels : ℕ} (k : Sampling v channels)

/-- The pixel read for a neighbour. -/
def tap (x y : BitVec 16) : Tap := pixelTap channels k.stride (k.readAt x y).1 (k.readAt x y).2

/-- The pixels read for an entry. -/
def taps (e : MapEntry) : Set Tap :=
  {k.tap (k.x0 e) (k.y0 e), k.tap (k.x1 e) (k.y0 e), k.tap (k.x0 e) (k.y1 e),
    k.tap (k.x1 e) (k.y1 e)}

/-- The sum of the neighbours of an entry, in a channel. -/
def sum (e : MapEntry) (channel : ℕ) : ℕ :=
  interpolated (k.xfrac e) (k.yfrac e)
    (k.sample (k.x0 e) (k.y0 e) channel).toNat (k.sample (k.x1 e) (k.y0 e) channel).toNat
    (k.sample (k.x0 e) (k.y1 e) channel).toNat (k.sample (k.x1 e) (k.y1 e) channel).toNat

/-- A channel of the pixel computed for an entry. -/
def value (e : MapEntry) (channel : ℕ) : BitVec v := BitVec.ofNat v (k.sum e channel)

/-- A vector path that does so for the entries of its eight lanes. -/
def Describes (entries : Fin 8 → MapEntry) (path : Traced Tap (Fin (8 * channels) → BitVec v)) :
    Prop :=
  path.Ensures {t | ∃ lane, t ∈ k.taps (entries lane)} fun pixels =>
    ∀ lane : Fin (8 * channels),
      pixels lane = k.value (entries ⟨lane / channels,
        Nat.div_lt_of_lt_mul (lane.2.trans_eq (Nat.mul_comm _ _))⟩) (lane % channels)

end Sampling

/-! ### The operations of `remap_s16` -/

section

variable {n v w : ℕ}

/-- A mask chooses between two vectors. -/
theorem vbslq_apply {p : Prop} [Decidable p] {mask a b : Fin n → BitVec w} {lane : Fin n}
    (h : mask lane = if p then BitVec.allOnes w else 0) :
    vbslq mask a b lane = if p then a lane else b lane := by
  rw [vbslq, h]
  split <;> simp

/-- A coordinate clamped to the dimensions of the source image. -/
def clamped (coordinate max : BitVec 16) : BitVec 16 :=
  let low := if coordinate.slt max then coordinate else max
  if low.slt 0 then 0 else low

/-- A vector path of an operation on one channel. -/
theorem describes_one {k : Sampling v 1} {entries : Fin (2 * 4) → MapEntry}
    {path : Traced Tap (Fin (2 * 4) → BitVec v)}
    (h : path.Ensures {t | ∃ lane, t ∈ k.taps (entries lane)}
      fun pixels => ∀ lane, pixels lane = k.value (entries lane) 0) :
    k.Describes entries path := by
  refine h.imp fun pixels hpixels (lane : Fin (2 * 4)) => ?_
  have hlane : (⟨lane / 1, by omega⟩ : Fin (2 * 4)) = lane := Fin.ext (Nat.div_one _)
  show pixels lane = k.value (entries ⟨lane / 1, _⟩) (lane % 1)
  rw [hlane, Nat.mod_one]
  exact hpixels lane

/-- A neighbour that is read where it is. -/
def readThere (x y : BitVec 16) : BitVec 16 × BitVec 16 := (x, y)

/-- The element of the source at a pixel. -/
def sourceAt (channels : ℕ) (src : ℕ → BitVec v) (stride x y : BitVec 16) (channel : ℕ) : BitVec v :=
  src (channels * x.toNat + y.toNat * stride.toNat + channel)

/-- A neighbour outside the image is not read; the first pixel is read instead. -/
def readInside (width height x y : BitVec 16) : BitVec 16 × BitVec 16 :=
  if x.ult width ∧ y.ult height then (x, y) else (0, 0)

/-- The element at a pixel, or the border outside the image. -/
def sourceOrBorder (channels : ℕ) (src : ℕ → BitVec v) (stride width height : BitVec 16)
    (border : ℕ → BitVec v) (x y : BitVec 16) (channel : ℕ) : BitVec v :=
  if x.ult width ∧ y.ult height then sourceAt channels src stride x y channel else border channel

/-- `RemapS16Replicate`, by pixel. -/
def replicateSampling (channels : ℕ) (src : ℕ → BitVec v) (stride xmax ymax : BitVec 16) :
    Sampling v channels where
  stride := stride
  x0 := fun e => clamped e.x xmax
  y0 := fun e => clamped e.y ymax
  x1 := fun e => clamped e.x xmax
  y1 := fun e => clamped e.y ymax
  xfrac := fun _ => 0
  yfrac := fun _ => 0
  readAt := readThere
  sample := sourceAt channels src stride

/-- `RemapS16ConstantBorder`, by pixel. -/
def constantBorderSampling (channels : ℕ) (src : ℕ → BitVec v) (stride width height : BitVec 16)
    (border : ℕ → BitVec v) : Sampling v channels where
  stride := stride
  x0 := MapEntry.x
  y0 := MapEntry.y
  x1 := MapEntry.x
  y1 := MapEntry.y
  xfrac := fun _ => 0
  yfrac := fun _ => 0
  readAt := readInside width height
  sample := sourceOrBorder channels src stride width height border

theorem interpolated_zero (a b c d : ℕ) : interpolated 0 0 a b c d = a := by
  rw [interpolated]
  omega

/-- Without fractions, the pixel is the first neighbour. -/
theorem value_of_no_fraction {channels : ℕ} (k : Sampling v channels) {e : MapEntry} (hx : k.xfrac e = 0)
    (hy : k.yfrac e = 0) (channel : ℕ) :
    k.value e channel = k.sample (k.x0 e) (k.y0 e) channel := by
  rw [Sampling.value, Sampling.sum, hx, hy, interpolated_zero, BitVec.ofNat_toNat, BitVec.setWidth_eq]

/-- One neighbour only. -/
theorem taps_of_one {channels : ℕ} (k : Sampling v channels) (hx : k.x1 = k.x0) (hy : k.y1 = k.y0) {ι : Type}
    (entries : ι → MapEntry) :
    {t | ∃ i, k.tap (k.x0 (entries i)) (k.y0 (entries i)) = t} = {t | ∃ i, t ∈ k.taps (entries i)} := by
  ext t
  simp only [Sampling.taps, hx, hy, Set.mem_ofPred_eq, Set.mem_insert_iff, Set.mem_singleton_iff,
    or_self, eq_comm (a := t)]

theorem sourceAt_one (src : ℕ → BitVec v) (stride x y : BitVec 16) :
    sourceAt 1 src stride x y 0 = src (x.toNat + y.toNat * stride.toNat) := by
  rw [sourceAt, Nat.one_mul, Nat.add_zero]

theorem remapS16Replicate_describes (src : ℕ → BitVec v) (stride xmax ymax : BitVec 16)
    (entries : Fin (2 * 4) → MapEntry) :
    (replicateSampling 1 src stride xmax ymax).Describes entries
      (remapS16Replicate src stride xmax ymax (fun lane => (entries lane).x) fun lane =>
        (entries lane).y) := by
  refine describes_one (((loadPixels_ensures _ _).congr ?_).imp fun pixels h lane => ?_)
  · exact taps_of_one (replicateSampling 1 src stride xmax ymax) rfl rfl entries
  · rw [h, value_of_no_fraction _ rfl rfl]
    exact (sourceAt_one src stride _ _).symm

/-- The lanes of the mask of the image. -/
theorem inRange_apply (x y : Fin n → BitVec 16) (width height : BitVec 16) (lane : Fin n) :
    vandq (vcltqU16 x (vdupq width)) (vcltqU16 y (vdupq height)) lane =
      if (x lane).ult width ∧ (y lane).ult height then BitVec.allOnes 16 else 0 := by
  show (if (x lane).ult width then BitVec.allOnes 16 else 0) &&&
    (if (y lane).ult height then BitVec.allOnes 16 else 0) = _
  by_cases hx : (x lane).ult width <;> by_cases hy : (y lane).ult height <;> simp [hx, hy]

theorem vandq_apply {p : Prop} [Decidable p] {mask a : Fin n → BitVec w} {lane : Fin n}
    (h : mask lane = if p then BitVec.allOnes w else 0) :
    vandq mask a lane = if p then a lane else 0 := by
  rw [vandq, h]
  split <;> simp

/-- The coordinates that are left of those of a lane. -/
theorem readInside_apply (x y : Fin n → BitVec 16) (width height : BitVec 16) (lane : Fin n) :
    (vandq (vandq (vcltqU16 x (vdupq width)) (vcltqU16 y (vdupq height))) x lane,
      vandq (vandq (vcltqU16 x (vdupq width)) (vcltqU16 y (vdupq height))) y lane) =
      readInside width height (x lane) (y lane) := by
  rw [vandq_apply (inRange_apply x y width height lane),
    vandq_apply (inRange_apply x y width height lane), readInside]
  split <;> rfl

theorem remapS16ConstantBorder_describes (hv : v ≤ 16) (src : ℕ → BitVec v)
    (stride width height : BitVec 16) (border : ℕ → BitVec v) (entries : Fin (2 * 4) → MapEntry) :
    (constantBorderSampling 1 src stride width height border).Describes entries
      (remapS16ConstantBorder src stride width height ((border 0).setWidth 16)
        (fun lane => (entries lane).x) fun lane => (entries lane).y) := by
  refine describes_one (((loadPixels_ensures _ _).congr ?_).bind_pure fun pixels h lane => ?_)
  · rw [← taps_of_one (constantBorderSampling 1 src stride width height border) rfl rfl entries]
    refine congrArg _ (funext fun t => congrArg _ (funext fun lane => ?_))
    have hread := readInside_apply (fun lane => (entries lane).x) (fun lane => (entries lane).y) width
      height lane
    rw [Prod.ext_iff] at hread
    simp only at hread
    rw [hread.1, hread.2]
    rfl
  · have hmask := inRange_apply (fun lane => (entries lane).x) (fun lane => (entries lane).y) width
      height lane
    have hnarrow : (vandq (vcltqU16 (fun lane => (entries lane).x) (vdupq width))
        (vcltqU16 (fun lane => (entries lane).y) (vdupq height)) lane).setWidth v =
        if (entries lane).x.ult width ∧ (entries lane).y.ult height then BitVec.allOnes v else 0 := by
      rw [hmask]
      split
      · ext i hi
        rw [BitVec.getElem_setWidth, BitVec.getLsbD_allOnes, BitVec.getElem_allOnes]
        exact decide_eq_true (by omega)
      · exact BitVec.setWidth_zero ..
    rw [vbslq_apply hnarrow, h, vandq_apply hmask, vandq_apply hmask, value_of_no_fraction _ rfl rfl]
    show _ = sourceOrBorder 1 src stride width height border (entries lane).x (entries lane).y 0
    rw [sourceOrBorder]
    split
    · exact (sourceAt_one src stride _ _).symm
    · show ((border 0).setWidth 16).setWidth v = border 0
      rw [BitVec.setWidth_setWidth_of_le (border 0) hv, BitVec.setWidth_eq]

end

/-! ### Rows -/

/-- What the loops of `process_row` call: the lanes of a column, and the store of the
pixels. -/
def remapStep {v channels : ℕ} (dst : Rows)
    (vectorPath : ℕ → ℕ → Traced Tap (Fin (8 * channels) → BitVec v)) (row column : ℕ)
    (s : Traced Tap (ℕ → BitVec v)) : Traced Tap (ℕ → BitVec v) := do
  let m ← s
  let pixels ← vectorPath row column
  pure (vst1q m (dst.address (row, column * channels)) pixels)

/-- `process_row`. -/
def remapRow {v channels : ℕ} (dst : Rows)
    (vectorPath : ℕ → ℕ → Traced Tap (Fin (8 * channels) → BitVec v)) (row width : ℕ)
    (s : Traced Tap (ℕ → BitVec v)) : Traced Tap (ℕ → BitVec v) :=
  let (loop, columns) :=
    (LoopUnroll.mk' width 8).unrollNTimes 1 (remapStep dst vectorPath row) (0, s)
  let backStep := loop.step - loop.length
  if loop.length ≠ 0 then remapStep dst vectorPath row (columns.1 - backStep) columns.2
  else columns.2

/-- **A row**, of eight pixels at least or none: those that are read are those of its columns. -/
theorem remapRow_ensures {v channels : ℕ} {dst : Rows}
    {vectorPath : ℕ → ℕ → Traced Tap (Fin (8 * channels) → BitVec v)} {row width : ℕ}
    (hwidth : 8 ≤ width ∨ width = 0) {taps : ℕ → Set Tap} {inv : ℕ → (ℕ → BitVec v) → Prop}
    (hstep : ∀ column, column + 8 ≤ width → ∀ c, column ≤ c → c ≤ column + 8 → ∀ m, inv c m →
      (vectorPath row column).Ensures {t | ∃ k, column ≤ k ∧ k < column + 8 ∧ t ∈ taps k}
        fun pixels => inv (column + 8) (vst1q m (dst.address (row, column * channels)) pixels))
    {T : Set Tap} {s : Traced Tap (ℕ → BitVec v)} (hs : s.Ensures T (inv 0)) :
    (remapRow dst vectorPath row width s).Ensures (T ∪ {t | ∃ k < width, t ∈ taps k})
      (inv width) := by
  -- One more vector, which may begin in columns that are done.
  have hmore : ∀ column, column + 8 ≤ width → ∀ c, column ≤ c → c ≤ column + 8 →
      ∀ s : Traced Tap (ℕ → BitVec v), s.Ensures (T ∪ {t | ∃ k < c, t ∈ taps k}) (inv c) →
      (remapStep dst vectorPath row column s).Ensures (T ∪ {t | ∃ k < column + 8, t ∈ taps k})
        (inv (column + 8)) := by
    intro column hcolumn c h1 h2 s hs
    refine (hs.bind fun m hm => (hstep column hcolumn c h1 h2 m hm).bind_pure fun _ h => h).congr ?_
    rw [Set.union_assoc]
    congr 1
    ext t
    constructor
    · rintro (⟨k, hk, ht⟩ | ⟨k, -, hk, ht⟩)
      · exact ⟨k, by omega, ht⟩
      · exact ⟨k, hk, ht⟩
    · rintro ⟨k, hk, ht⟩
      rcases Nat.lt_or_ge k column with hlt | hge
      · exact .inl ⟨k, by omega, ht⟩
      · exact .inr ⟨k, hge, hk, ht⟩
  have hvectors : (forRange (width / 8) (fun i => remapStep dst vectorPath row (i * 8)) s).Ensures
      (T ∪ {t | ∃ k < width / 8 * 8, t ∈ taps k}) (inv (width / 8 * 8)) := by
    refine forRange_invariant (fun i (s : Traced Tap (ℕ → BitVec v)) =>
      s.Ensures (T ∪ {t | ∃ k < i * 8, t ∈ taps k}) (inv (i * 8))) ?_ fun i hi s hs => ?_
    · rw [Nat.zero_mul]
      refine hs.congr ?_
      simp
    · rw [Nat.succ_mul]
      exact hmore (i * 8) (by omega) (i * 8) le_rfl (Nat.le_add_right _ _) s hs
  unfold remapRow
  simp only [LoopUnroll.mk', unrollNTimes_eq, Nat.one_mul, Nat.zero_add]
  split
  · rename_i hrest
    have hlast := hmore (width / 8 * 8 - (8 - width % 8)) (by omega) (width / 8 * 8) (by omega)
      (by omega) _ hvectors
    rwa [show width / 8 * 8 - (8 - width % 8) + 8 = width by omega] at hlast
  · rename_i hrest
    rwa [show width / 8 * 8 = width by omega] at hvectors

/-- `zip_rows`; the rows are joined if all of them are `is_continuous`. -/
def remapRows {v : ℕ} (channels : ℕ) (dst : Rows) (continuous : Bool)
    (vectorPath : ℕ → ℕ → Traced Tap (Fin (8 * channels) → BitVec v)) (width height : ℕ)
    (s : Traced Tap (ℕ → BitVec v)) : Traced Tap (ℕ → BitVec v) :=
  zipRows continuous width height (remapRow dst vectorPath) s

section

variable {v channels : ℕ} {dst : Rows} {entry : ℕ × ℕ → MapEntry} {taps : MapEntry → Set Tap}
  {value : MapEntry → ℕ → BitVec v} {vectorPath : ℕ → ℕ → Traced Tap (Fin (8 * channels) → BitVec v)}

/-- A vector path whose lanes each depend on an entry of the maps: what it reads for the
entry, and the channels of the pixel. -/
def FollowsMap (entry : ℕ × ℕ → MapEntry) (taps : MapEntry → Set Tap)
    (value : MapEntry → ℕ → BitVec v)
    (vectorPath : ℕ → ℕ → Traced Tap (Fin (8 * channels) → BitVec v)) : Prop :=
  ∀ row column, (vectorPath row column).Ensures
    {t | ∃ k, column ≤ k ∧ k < column + 8 ∧ t ∈ taps (entry (row, k))} fun pixels =>
      ∀ lane : Fin (8 * channels),
        pixels lane = value (entry (row, column + lane / channels)) (lane % channels)

/-- The elements of an image, each with its channel of the pixel. -/
def elementValue (channels : ℕ) (entry : ℕ × ℕ → MapEntry) (value : MapEntry → ℕ → BitVec v)
    (p : ℕ × ℕ) : BitVec v :=
  value (entry (p.1, p.2 / channels)) (p.2 % channels)

theorem followsMap {k : Sampling v channels}
    {path : ℕ → ℕ → Traced Tap (Fin (8 * channels) → BitVec v)}
    (h : ∀ row column, k.Describes (fun lane => entry (row, column + lane)) (path row column)) :
    FollowsMap entry k.taps k.value path := by
  intro row column
  refine (h row column).congr ?_
  ext t
  constructor
  · rintro ⟨lane, ht⟩
    exact ⟨column + lane, by omega, by omega, ht⟩
  · rintro ⟨c, h1, h2, ht⟩
    refine ⟨⟨c - column, by omega⟩, ?_⟩
    simp only
    rwa [Nat.add_sub_cancel' h1]

/-- The pixels of a vector as elements of the destination. -/
theorem vector_wrote (hchannels : 0 < channels) {row column : ℕ}
    {pixels : Fin (8 * channels) → BitVec v}
    (hpixels : ∀ lane : Fin (8 * channels),
      pixels lane = value (entry (row, column + lane / channels)) (lane % channels))
    (m : ℕ → BitVec v) :
    Wrote dst.address (elementValue channels entry value)
      {p | ∃ j < 8 * channels, (row, column * channels + j) = p} m
      (vst1q m (dst.address (row, column * channels)) pixels) := by
  obtain ⟨g, heq, hg⟩ := vst1q_eq m (dst.address (row, column * channels)) pixels
  rw [heq]
  refine overwrite_wrote_range (fun j _ => ?_) fun j hj => ?_
  · simp only [Rows.address]
    omega
  · rw [hg ⟨j, hj⟩, hpixels, elementValue, Nat.mul_comm column, Nat.mul_add_div hchannels,
      Nat.mul_add_mod]

variable (dst) in
/-- The rows of an image, one after another. -/
theorem forRows_ensures (hchannels : 0 < channels) (hpath : FollowsMap entry taps value vectorPath)
    {width : ℕ} (height : ℕ) (hwidth : 8 ≤ width ∨ width = 0) (m : ℕ → BitVec v) :
    (forRange height (fun row => remapRow dst vectorPath row width) (pure m)).Ensures
      {t | ∃ p ∈ pixels width height, t ∈ taps (entry p)}
      fun m' => Set.InjOn dst.address (stripeElements (width * channels) 0 height) →
        Wrote dst.address (elementValue channels entry value)
          (stripeElements (width * channels) 0 height) m m' := by
  refine forRange_invariant (fun row (s : Traced Tap (ℕ → BitVec v)) =>
    s.Ensures {t | ∃ p ∈ pixels width row, t ∈ taps (entry p)}
      fun m' => Set.InjOn dst.address (stripeElements (width * channels) 0 height) →
        Wrote dst.address (elementValue channels entry value)
          (stripeElements (width * channels) 0 row) m m') ?_ fun row hrow s hs => ?_
  · refine (Traced.Ensures.pure fun _ => Wrote.refl_of_empty m ?_).congr ?_
    · exact fun p hp => Nat.not_lt_zero _ hp.2.1
    · simp [pixels]
  · -- The row up to a column.
    let inv : ℕ → (ℕ → BitVec v) → Prop := fun c m' =>
      Set.InjOn dst.address (stripeElements (width * channels) 0 height) →
        Wrote dst.address (elementValue channels entry value)
          (stripeElements (width * channels) 0 row ∪ {p | p.1 = row ∧ p.2 < c * channels}) m m'
    refine ((remapRow_ensures hwidth
      (fun column hcolumn c h1 h2 m' (hm : inv c m') => (hpath row column).imp fun px hpx hinj => ?_)
      (hs.imp fun m' hm hinj => (hm hinj).congr ?_)).congr ?_).imp fun m' hm hinj =>
        (hm hinj).congr ?_
    · have hfit : ∀ {b}, b ≤ width → b * channels ≤ width * channels := fun h =>
        Nat.mul_le_mul_right channels h
      have hdone : stripeElements (width * channels) 0 row ∪ {p | p.1 = row ∧ p.2 < c * channels} ⊆
          stripeElements (width * channels) 0 height := by
        have := hfit (show c ≤ width by omega)
        rintro p (⟨-, hp, hp'⟩ | ⟨hp, hp'⟩)
        · exact ⟨Nat.zero_le _, by omega, hp'⟩
        · exact ⟨Nat.zero_le _, by omega, by omega⟩
      have hvector : {p : ℕ × ℕ | ∃ j < 8 * channels, (row, column * channels + j) = p} ⊆
          stripeElements (width * channels) 0 height := by
        have := hfit hcolumn
        rw [Nat.add_mul] at this
        rintro _ ⟨j, hj, rfl⟩
        exact ⟨Nat.zero_le _, hrow, by simp only; omega⟩
      refine ((hm hinj).trans hinj hdone hvector (vector_wrote hchannels hpx m')).congr ?_
      have hbegin := Nat.mul_le_mul_right channels h1
      have hend := Nat.mul_le_mul_right channels h2
      rw [Nat.add_mul] at hend
      ext ⟨r, e⟩
      simp only [Set.mem_union, Set.mem_ofPred_eq, Prod.mk.injEq]
      rw [Nat.add_mul]
      constructor
      · rintro ((hp | ⟨rfl, he⟩) | ⟨j, hj, rfl, rfl⟩)
        · exact .inl hp
        · exact .inr ⟨rfl, by omega⟩
        · exact .inr ⟨rfl, by omega⟩
      · rintro (hp | ⟨rfl, he⟩)
        · exact .inl (.inl hp)
        · rcases Nat.lt_or_ge e (column * channels) with hlt | hge
          · exact .inl (.inr ⟨rfl, by omega⟩)
          · exact .inr ⟨e - column * channels, by omega, rfl, by omega⟩
    · ext p
      simp
    · ext t
      simp only [pixels, Set.mem_union, Set.mem_ofPred_eq]
      constructor
      · rintro (⟨p, ⟨hp, hp'⟩, ht⟩ | ⟨k, hk, ht⟩)
        · exact ⟨p, ⟨by omega, hp'⟩, ht⟩
        · exact ⟨(row, k), ⟨Nat.lt_succ_self row, hk⟩, ht⟩
      · rintro ⟨⟨r, k⟩, ⟨hp, hp'⟩, ht⟩
        rcases Nat.lt_succ_iff_lt_or_eq.mp hp with hlt | rfl
        · exact .inl ⟨(r, k), ⟨hlt, hp'⟩, ht⟩
        · exact .inr ⟨k, hp', ht⟩
    · ext p
      simp only [stripeElements, Set.mem_union, Set.mem_ofPred_eq]
      omega

/-- Elements of joined rows have the addresses and values of the rows they are joined
from. -/
theorem joined_wrote (hchannels : 0 < channels) {width height : ℕ}
    (hstride : dst.stride = width * channels)
    (hentry : ∀ row k, k < width → entry (0, row * width + k) = entry (row, k)) {m m' : ℕ → BitVec v}
    (h : Set.InjOn dst.address (stripeElements (width * height * channels) 0 1) →
      Wrote dst.address (elementValue channels entry value)
        (stripeElements (width * height * channels) 0 1) m m')
    (hinj : Set.InjOn dst.address (stripeElements (width * channels) 0 height)) :
    Wrote dst.address (elementValue channels entry value)
      (stripeElements (width * channels) 0 height) m m' := by
  have haddress : ∀ row e, dst.address (0, row * (width * channels) + e) = dst.address (row, e) := by
    intro row e
    simp only [Rows.address, hstride]
    omega
  have hlength : width * height * channels = width * channels * height := by ring
  -- The row and element that an element of the joined rows comes from.
  have hsplit : ∀ q ∈ stripeElements (width * height * channels) 0 1,
      ∃ p ∈ stripeElements (width * channels) 0 height, (0, p.1 * (width * channels) + p.2) = q := by
    rintro ⟨r, e⟩ ⟨-, hr, he⟩
    rw [hlength] at he
    have hpos : 0 < width * channels := Nat.pos_of_ne_zero fun h0 => by
      rw [h0, Nat.zero_mul] at he
      exact Nat.not_lt_zero _ he
    obtain rfl : r = 0 := Nat.lt_one_iff.mp hr
    refine ⟨(e / (width * channels), e % (width * channels)),
      ⟨Nat.zero_le _, Nat.div_lt_of_lt_mul he, Nat.mod_lt _ hpos⟩, ?_⟩
    rw [Nat.mul_comm, Nat.div_add_mod]
  refine (h ?_).reindex (fun p => (0, p.1 * (width * channels) + p.2)) ?_ hsplit
  · intro q hq q' hq' heq
    obtain ⟨p, hp, rfl⟩ := hsplit q hq
    obtain ⟨p', hp', rfl⟩ := hsplit q' hq'
    rw [haddress, haddress] at heq
    rw [hinj hp hp' heq]
  · rintro ⟨r, e⟩ ⟨-, hr, he⟩
    have hrow := Nat.mul_le_mul_right (width * channels) (Nat.succ_le_of_lt hr)
    rw [Nat.succ_mul, Nat.mul_comm height] at hrow
    have hlast : r * (width * channels) + e < width * height * channels := by
      simp only at he hrow
      omega
    refine ⟨⟨le_rfl, Nat.one_pos, hlast⟩, haddress r e, ?_⟩
    have hcolumn : (r * (width * channels) + e) / channels = r * width + e / channels ∧
        (r * (width * channels) + e) % channels = e % channels := by
      rw [show r * (width * channels) = channels * (r * width) by ring, Nat.mul_add_div hchannels,
        Nat.mul_add_mod]
      exact ⟨rfl, rfl⟩
    simp only [elementValue]
    rw [hcolumn.1, hcolumn.2, hentry r (e / channels) (Nat.div_lt_of_lt_mul (by
      rw [Nat.mul_comm]
      exact he))]

/-- **All rows of an image**, joined or not: the pixels that are read are those of its
map, and every element of the destination is written. -/
theorem remapRows_ensures (hchannels : 0 < channels)
    (hpath : FollowsMap entry taps value vectorPath) {continuous : Bool} {width height : ℕ}
    (hwidth : 8 ≤ width) (hsize : width * height < sizeMod)
    (hstride : continuous = true → dst.stride = width * channels)
    (hentry : continuous = true →
      ∀ row k, k < width → entry (0, row * width + k) = entry (row, k)) (m : ℕ → BitVec v) :
    (remapRows channels dst continuous vectorPath width height (pure m)).Ensures
      {t | ∃ p ∈ pixels width height, t ∈ taps (entry p)}
      fun m' => Set.InjOn dst.address (stripeElements (width * channels) 0 height) →
        Wrote dst.address (elementValue channels entry value)
          (stripeElements (width * channels) 0 height) m m' := by
  rw [remapRows, zipRows_eq continuous hsize]
  cases hc : continuous with
  | false => exact forRows_ensures dst hchannels hpath height (.inl hwidth) m
  | true =>
    have hjoined : 8 ≤ width * height ∨ width * height = 0 := by
      rcases Nat.eq_zero_or_pos height with rfl | hh
      · exact .inr (Nat.mul_zero _)
      · exact .inl (hwidth.trans (Nat.le_mul_of_pos_right _ hh))
    refine ((forRows_ensures dst hchannels hpath 1 hjoined m).congr ?_).imp fun m' h hinj => joined_wrote hchannels (hstride hc) (hentry hc) h hinj
    ext t
    constructor
    · rintro ⟨q, hq, ht⟩
      obtain ⟨p, hp, rfl⟩ := exists_joined hq
      rw [hentry hc p.1 p.2 hp.2] at ht
      exact ⟨p, hp, ht⟩
    · rintro ⟨p, hp, ht⟩
      refine ⟨(0, p.1 * width + p.2), joined_mem hp, ?_⟩
      rwa [hentry hc p.1 p.2 hp.2]

end

end Remap

end KleidiCV
