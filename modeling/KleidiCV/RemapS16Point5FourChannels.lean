/-
`remap_s16point5_neon.cpp`, the operations on images of four channels.

A vector of eight pixels is taken in two halves.  The fractions of a pixel are brought
to the lanes of its channels by zipping a vector with itself, twice.

* `zipped_apply` — which pixel the fraction of a lane belongs to;
* `interpolateQuads_ensures` — four pixels of four channels;
* `replicate4ch_describes`, `constant4ch_describes` — the operations.
-/
import KleidiCV.RemapS16Point5

namespace KleidiCV

namespace Remap

section

variable {n v w : ℕ}

/-- `vzip1q`. -/
def vzip1q (a b : Fin (2 * 4) → BitVec w) : Fin (2 * 4) → BitVec w := fun lane =>
  if lane.val % 2 = 0 then a ⟨lane / 2, by omega⟩ else b ⟨lane / 2, by omega⟩

/-- `vzip2q`. -/
def vzip2q (a b : Fin (2 * 4) → BitVec w) : Fin (2 * 4) → BitVec w := fun lane =>
  if lane.val % 2 = 0 then a ⟨4 + lane / 2, by omega⟩ else b ⟨4 + lane / 2, by omega⟩

/-- `get_offsets_4ch`: `x0` and `x1` are multiplied by 4 because of the channels. -/
def getOffsets4ch (x0 y0 x1 y1 : Fin 4 → BitVec 16) (stride : BitVec 16) :
    Tracked ((Fin 4 → BitVec 32) × (Fin 4 → BitVec 32) × (Fin 4 → BitVec 32) ×
      (Fin 4 → BitVec 32)) := do
  let x0Scaled ← GaussianBlur.vshllN 32 2 x0
  let x1Scaled ← GaussianBlur.vshllN 32 2 x1
  let offsetsA ← GaussianBlur.vmlal x0Scaled y0 (vdupq stride)
  let offsetsB ← GaussianBlur.vmlal x1Scaled y0 (vdupq stride)
  let offsetsC ← GaussianBlur.vmlal x0Scaled y1 (vdupq stride)
  let offsetsD ← GaussianBlur.vmlal x1Scaled y1 (vdupq stride)
  pure (offsetsA, offsetsB, offsetsC, offsetsD)

/-- `load_4px_4ch` and `load_2px_4ch`: the four elements at each offset, in their order. -/
def load4ch (src : ℕ → BitVec v) (x y : Fin n → BitVec 16) (offsets : Fin n → BitVec 32) :
    Traced Tap (Fin (4 * n) → BitVec v) :=
  Traced.note ((List.finRange n).map fun lane => ⟨x lane, y lane, offsets lane⟩)
    fun i => src ((offsets ⟨i / 4, by omega⟩).toNat + i % 4)

/-- The two calls of `interpolate` for four pixels: doubled fractions 00112233 become
quadrupled ones, 00001111 and 22223333. -/
def interpolateQuads (aLow aHigh bLow bHigh cLow cHigh dLow dHigh xfrac2 yfrac2 :
    Fin (2 * 4) → BitVec 16) :
    Tracked ((Fin (2 * 4) → BitVec 16) × (Fin (2 * 4) → BitVec 16)) := do
  let nxfrac2 ← complement xfrac2
  let nyfrac2 ← complement yfrac2
  let res0 ← interpolate aLow bLow cLow dLow (vzip1q xfrac2 xfrac2) (vzip1q yfrac2 yfrac2)
    (vzip1q nxfrac2 nxfrac2) (vzip1q nyfrac2 nyfrac2)
  let res1 ← interpolate aHigh bHigh cHigh dHigh (vzip2q xfrac2 xfrac2) (vzip2q yfrac2 yfrac2)
    (vzip2q nxfrac2 nxfrac2) (vzip2q nyfrac2 nyfrac2)
  pure (res0, res1)

/-- `interpolateQuads` of bytes; the results are narrowed. -/
def interpolateQuadsU8 (a b c d : Fin (2 * 8) → BitVec 8) (xfrac2 yfrac2 : Fin (2 * 4) → BitVec 16) :
    Tracked (Fin (2 * 8) → BitVec 8) := do
  let low := fun (x : Fin (2 * 8) → BitVec 8) (lane : Fin (2 * 4)) => (vgetLow x lane).setWidth 16
  let high := fun (x : Fin (2 * 8) → BitVec 8) (lane : Fin (2 * 4)) => (vgetHigh x lane).setWidth 16
  let (res0, res1) ← interpolateQuads (low a) (high a) (low b) (high b) (low c) (high c) (low d)
    (high d) xfrac2 yfrac2
  vuzp1 8 res0 res1

/-- The parts of `get_coordinates_replicate` and `get_coordinates_constant`. -/
structure Coordinates where
  x0 : Fin (2 * 4) → BitVec 16
  y0 : Fin (2 * 4) → BitVec 16
  x1 : Fin (2 * 4) → BitVec 16
  y1 : Fin (2 * 4) → BitVec 16
  xfrac : Fin (2 * 4) → BitVec 16
  yfrac : Fin (2 * 4) → BitVec 16

/-! ### Replicated borders -/

/-- `get_coordinates_replicate`; the clamped coordinates are compared with the maximum. -/
def getCoordinatesReplicate (mapX mapY frac : Fin (2 * 4) → BitVec 16) (xmax ymax : BitVec 16) :
    Coordinates :=
  let x0 := clampedS16 mapX xmax
  let y0 := clampedS16 mapY ymax
  { x0 := x0
    y0 := y0
    x1 := vsubq x0 (vcltqS16 x0 (vdupq xmax))
    y1 := vsubq y0 (vcltqS16 y0 (vdupq ymax))
    xfrac := fractionOrZero mapX (xFraction frac)
    yfrac := fractionOrZero mapY (yFraction frac) }

/-- One half of the vector path of `RemapS16Point5Replicate4ch<uint8_t>`. -/
def replicate4chHalfU8 (src : ℕ → BitVec 8) (stride : BitVec 16) (x0 y0 x1 y1 : Fin 4 → BitVec 16)
    (xfrac2 yfrac2 : Fin (2 * 4) → BitVec 16) : Traced Tap (Fin (2 * 8) → BitVec 8) := do
  let (offsetsA, offsetsB, offsetsC, offsetsD) ← getOffsets4ch x0 y0 x1 y1 stride
  let a ← load4ch src x0 y0 offsetsA
  let b ← load4ch src x1 y0 offsetsB
  let c ← load4ch src x0 y1 offsetsC
  let d ← load4ch src x1 y1 offsetsD
  interpolateQuadsU8 a b c d xfrac2 yfrac2

/-- One half of the vector path of `RemapS16Point5Replicate4ch<uint16_t>`. -/
def replicate4chHalfU16 (src : ℕ → BitVec 16) (stride : BitVec 16) (x0 y0 x1 y1 : Fin 4 → BitVec 16)
    (xfrac2 yfrac2 : Fin (2 * 4) → BitVec 16) : Traced Tap (Fin (2 * 8) → BitVec 16) := do
  let (offsetsA, offsetsB, offsetsC, offsetsD) ← getOffsets4ch x0 y0 x1 y1 stride
  let low := fun {w : ℕ} (x : Fin (2 * 2) → BitVec w) => vgetLow x
  let high := fun {w : ℕ} (x : Fin (2 * 2) → BitVec w) => vgetHigh x
  let aLow ← load4ch src (low x0) (low y0) (low offsetsA)
  let bLow ← load4ch src (low x1) (low y0) (low offsetsB)
  let cLow ← load4ch src (low x0) (low y1) (low offsetsC)
  let dLow ← load4ch src (low x1) (low y1) (low offsetsD)
  let aHigh ← load4ch src (high x0) (high y0) (high offsetsA)
  let bHigh ← load4ch src (high x1) (high y0) (high offsetsB)
  let cHigh ← load4ch src (high x0) (high y1) (high offsetsC)
  let dHigh ← load4ch src (high x1) (high y1) (high offsetsD)
  let (res0, res1) ← interpolateQuads aLow aHigh bLow bHigh cLow cHigh dLow dHigh xfrac2 yfrac2
  pure (vcombine res0 res1)

/-- The vector path of `RemapS16Point5Replicate4ch`, from its halves. -/
def remapS16Point5Replicate4ch
    (half : (x0 y0 x1 y1 : Fin 4 → BitVec 16) → (xfrac2 yfrac2 : Fin (2 * 4) → BitVec 16) →
      Traced Tap (Fin (2 * 8) → BitVec v))
    (xmax ymax : BitVec 16) (mapX mapY frac : Fin (2 * 4) → BitVec 16) :
    Traced Tap (Fin (8 * 4) → BitVec v) := do
  let p := getCoordinatesReplicate mapX mapY frac xmax ymax
  let low ← half (vgetLow p.x0) (vgetLow p.y0) (vgetLow p.x1) (vgetLow p.y1)
    (vzip1q p.xfrac p.xfrac) (vzip1q p.yfrac p.yfrac)
  let high ← half (vgetHigh p.x0) (vgetHigh p.y0) (vgetHigh p.x1) (vgetHigh p.y1)
    (vzip2q p.xfrac p.xfrac) (vzip2q p.yfrac p.yfrac)
  pure (vcombine low high)

/-- `RemapS16Point5Replicate4ch<uint8_t>`. -/
def remapS16Point5Replicate4chU8 (src : ℕ → BitVec 8) (stride : BitVec 16) :
    (xmax ymax : BitVec 16) → (mapX mapY frac : Fin (2 * 4) → BitVec 16) →
      Traced Tap (Fin (8 * 4) → BitVec 8) :=
  remapS16Point5Replicate4ch (replicate4chHalfU8 src stride)

/-- `RemapS16Point5Replicate4ch<uint16_t>`. -/
def remapS16Point5Replicate4chU16 (src : ℕ → BitVec 16) (stride : BitVec 16) :
    (xmax ymax : BitVec 16) → (mapX mapY frac : Fin (2 * 4) → BitVec 16) →
      Traced Tap (Fin (8 * 4) → BitVec 16) :=
  remapS16Point5Replicate4ch (replicate4chHalfU16 src stride)

/-! ### Constant borders -/

/-- `low16_to_s32` and `hi16_to_s32`: masks of 32 bits. -/
def toS32 (bitset : Fin n → BitVec 16) : Fin n → BitVec 32 := fun lane =>
  (bitset lane).signExtend 32

/-- A mask of a pixel as masks of its elements: all of them are one word. -/
def elementMask (v : ℕ) (bitset : Fin n → BitVec 32) : Fin (4 * n) → BitVec v := fun i =>
  ((bitset ⟨i / 4, by omega⟩).signExtend (4 * v)).extractLsb' (v * (i.val % 4)) v

/-- The part of `load_pixels_u8_4ch_constant` and `load_pixels_u16_4ch_constant` for one
neighbour: offsets out of range are zeroed, and the pixels there replaced by the border. -/
def load4chConstant (src : ℕ → BitVec v) (inRange x y : Fin n → BitVec 16)
    (offsets : Fin n → BitVec 32) (border : Fin (4 * n) → BitVec v) :
    Traced Tap (Fin (4 * n) → BitVec v) := do
  let offsets := vbslq (toS32 inRange) offsets (vdupq 0)
  let pixels ← load4ch src (vandq inRange x) (vandq inRange y) offsets
  pure (vbslq (elementMask v (toS32 inRange)) pixels border)

/-- `v_border_`: the elements of the border value in turn. -/
def borderVector (borderValue : ℕ → BitVec v) : Fin (4 * n) → BitVec v := fun i =>
  borderValue (i % 4)

/-- `get_coordinates_constant`, without the masks. -/
def getCoordinatesConstant (mapX mapY frac : Fin (2 * 4) → BitVec 16) : Coordinates :=
  { x0 := mapX
    y0 := mapY
    x1 := vaddq mapX (vdupq 1)
    y1 := vaddq mapY (vdupq 1)
    xfrac := xFraction frac
    yfrac := yFraction frac }

/-- The masks of `get_coordinates_constant`. -/
def inRange (x y : Fin n → BitVec 16) (width height : BitVec 16) : Fin n → BitVec 16 :=
  vandq (vcltqU16 x (vdupq width)) (vcltqU16 y (vdupq height))

/-- One half of the vector path of `RemapS16Point5Constant4ch<uint8_t>`. -/
def constant4chHalfU8 (src : ℕ → BitVec 8) (stride width height : BitVec 16)
    (borderValue : ℕ → BitVec 8) (x0 y0 x1 y1 : Fin 4 → BitVec 16)
    (xfrac2 yfrac2 : Fin (2 * 4) → BitVec 16) : Traced Tap (Fin (2 * 8) → BitVec 8) := do
  let (offsetsA, offsetsB, offsetsC, offsetsD) ← getOffsets4ch x0 y0 x1 y1 stride
  let border := borderVector borderValue
  let a ← load4chConstant src (inRange x0 y0 width height) x0 y0 offsetsA border
  let b ← load4chConstant src (inRange x1 y0 width height) x1 y0 offsetsB border
  let c ← load4chConstant src (inRange x0 y1 width height) x0 y1 offsetsC border
  let d ← load4chConstant src (inRange x1 y1 width height) x1 y1 offsetsD border
  interpolateQuadsU8 a b c d xfrac2 yfrac2

/-- One half of the vector path of `RemapS16Point5Constant4ch<uint16_t>`. -/
def constant4chHalfU16 (src : ℕ → BitVec 16) (stride width height : BitVec 16)
    (borderValue : ℕ → BitVec 16) (x0 y0 x1 y1 : Fin 4 → BitVec 16)
    (xfrac2 yfrac2 : Fin (2 * 4) → BitVec 16) : Traced Tap (Fin (2 * 8) → BitVec 16) := do
  let (offsetsA, offsetsB, offsetsC, offsetsD) ← getOffsets4ch x0 y0 x1 y1 stride
  let border := borderVector borderValue
  let low := fun {w : ℕ} (x : Fin (2 * 2) → BitVec w) => vgetLow x
  let high := fun {w : ℕ} (x : Fin (2 * 2) → BitVec w) => vgetHigh x
  let aLow ← load4chConstant src (low (inRange x0 y0 width height)) (low x0) (low y0)
    (low offsetsA) border
  let bLow ← load4chConstant src (low (inRange x1 y0 width height)) (low x1) (low y0)
    (low offsetsB) border
  let cLow ← load4chConstant src (low (inRange x0 y1 width height)) (low x0) (low y1)
    (low offsetsC) border
  let dLow ← load4chConstant src (low (inRange x1 y1 width height)) (low x1) (low y1)
    (low offsetsD) border
  let aHigh ← load4chConstant src (high (inRange x0 y0 width height)) (high x0) (high y0)
    (high offsetsA) border
  let bHigh ← load4chConstant src (high (inRange x1 y0 width height)) (high x1) (high y0)
    (high offsetsB) border
  let cHigh ← load4chConstant src (high (inRange x0 y1 width height)) (high x0) (high y1)
    (high offsetsC) border
  let dHigh ← load4chConstant src (high (inRange x1 y1 width height)) (high x1) (high y1)
    (high offsetsD) border
  let (res0, res1) ← interpolateQuads aLow aHigh bLow bHigh cLow cHigh dLow dHigh xfrac2 yfrac2
  pure (vcombine res0 res1)

/-- The vector path of `RemapS16Point5Constant4ch`, from its halves. -/
def remapS16Point5Constant4ch
    (half : (x0 y0 x1 y1 : Fin 4 → BitVec 16) → (xfrac2 yfrac2 : Fin (2 * 4) → BitVec 16) →
      Traced Tap (Fin (2 * 8) → BitVec v))
    (mapX mapY frac : Fin (2 * 4) → BitVec 16) : Traced Tap (Fin (8 * 4) → BitVec v) := do
  let p := getCoordinatesConstant mapX mapY frac
  let low ← half (vgetLow p.x0) (vgetLow p.y0) (vgetLow p.x1) (vgetLow p.y1)
    (vzip1q p.xfrac p.xfrac) (vzip1q p.yfrac p.yfrac)
  let high ← half (vgetHigh p.x0) (vgetHigh p.y0) (vgetHigh p.x1) (vgetHigh p.y1)
    (vzip2q p.xfrac p.xfrac) (vzip2q p.yfrac p.yfrac)
  pure (vcombine low high)

/-- `RemapS16Point5Constant4ch<uint8_t>`. -/
def remapS16Point5Constant4chU8 (src : ℕ → BitVec 8) (stride width height : BitVec 16)
    (borderValue : ℕ → BitVec 8) :
    (mapX mapY frac : Fin (2 * 4) → BitVec 16) → Traced Tap (Fin (8 * 4) → BitVec 8) :=
  remapS16Point5Constant4ch (constant4chHalfU8 src stride width height borderValue)

/-- `RemapS16Point5Constant4ch<uint16_t>`. -/
def remapS16Point5Constant4chU16 (src : ℕ → BitVec 16) (stride width height : BitVec 16)
    (borderValue : ℕ → BitVec 16) :
    (mapX mapY frac : Fin (2 * 4) → BitVec 16) → Traced Tap (Fin (8 * 4) → BitVec 16) :=
  remapS16Point5Constant4ch (constant4chHalfU16 src stride width height borderValue)

/-! ### Lanes of zipped vectors -/

theorem vzip1q_self (x : Fin (2 * 4) → BitVec w) (lane : Fin (2 * 4)) :
    vzip1q x x lane = x ⟨lane / 2, by omega⟩ := by
  rw [vzip1q]
  split <;> rfl

theorem vzip2q_self (x : Fin (2 * 4) → BitVec w) (lane : Fin (2 * 4)) :
    vzip2q x x lane = x ⟨4 + lane / 2, by omega⟩ := by
  rw [vzip2q]
  split <;> rfl

/-- Quadrupled fractions, from doubled ones. -/
theorem zipped_apply {x2 : Fin (2 * 4) → BitVec w} {f : Fin 4 → ℕ}
    (h : ∀ i : Fin (2 * 4), (x2 i).toNat = f ⟨i / 2, by omega⟩) (lane : Fin (2 * 4)) :
    (vzip1q x2 x2 lane).toNat = f ⟨lane / 4, by omega⟩ ∧
      (vzip2q x2 x2 lane).toNat = f ⟨2 + lane / 4, by omega⟩ := by
  rw [vzip1q_self, vzip2q_self, h, h]
  constructor
  · exact congrArg f (Fin.ext (by simp only; omega))
  · exact congrArg f (Fin.ext (by simp only; omega))

/-- Offsets of pixels of four channels fit 32 bits, if the stride is that of an accepted
image. -/
theorem getOffsets4ch_ensures {x0 y0 x1 y1 : Fin 4 → BitVec 16} {stride : BitVec 16}
    (hstride : stride.toNat ≤ 16383) :
    (getOffsets4ch x0 y0 x1 y1 stride).Ensures fun offsets =>
      (∀ lane, (offsets.1 lane).toNat = 4 * (x0 lane).toNat + (y0 lane).toNat * stride.toNat) ∧
      (∀ lane, (offsets.2.1 lane).toNat = 4 * (x1 lane).toNat + (y0 lane).toNat * stride.toNat) ∧
      (∀ lane, (offsets.2.2.1 lane).toNat = 4 * (x0 lane).toNat + (y1 lane).toNat * stride.toNat) ∧
      ∀ lane, (offsets.2.2.2 lane).toNat =
        4 * (x1 lane).toNat + (y1 lane).toNat * stride.toNat := by
  have hscaled : ∀ x : Fin 4 → BitVec 16, (GaussianBlur.vshllN 32 2 x).Ensures fun scaled =>
      ∀ lane, (scaled lane).toNat = 4 * (x lane).toNat := fun x =>
    (Tracked.lanes_ensures fun lane => by have := (x lane).isLt; omega).imp fun scaled h lane => by
      rw [h]
      exact Nat.mul_comm _ 4
  have hoffset : ∀ (x y : Fin 4 → BitVec 16) (scaled : Fin 4 → BitVec 32),
      (∀ lane, (scaled lane).toNat = 4 * (x lane).toNat) →
      (GaussianBlur.vmlal scaled y (vdupq stride)).Ensures fun offsets => ∀ lane,
        (offsets lane).toNat = 4 * (x lane).toNat + (y lane).toNat * stride.toNat := by
    intro x y scaled hx
    simp only [GaussianBlur.vmlal, hx]
    refine Tracked.lanes_ensures fun lane => ?_
    have hx := (x lane).isLt
    have h := Nat.mul_le_mul (show (y lane).toNat ≤ 65535 by have := (y lane).isLt; omega) hstride
    show 4 * (x lane).toNat + (y lane).toNat * stride.toNat < 2 ^ 32
    omega
  exact (hscaled x0).bind fun _ h0 => (hscaled x1).bind fun _ h1 =>
    (hoffset x0 y0 _ h0).bind fun _ ha => (hoffset x1 y0 _ h1).bind fun _ hb =>
    (hoffset x0 y1 _ h0).bind fun _ hc => (hoffset x1 y1 _ h1).bind fun _ hd =>
    .pure ⟨ha, hb, hc, hd⟩

/-- Pixels of four channels. -/
theorem load4ch_ensures {src : ℕ → BitVec v} (stride : BitVec 16) {x y : Fin n → BitVec 16}
    {offsets : Fin n → BitVec 32}
    (h : ∀ lane, (offsets lane).toNat = 4 * (x lane).toNat + (y lane).toNat * stride.toNat) :
    (load4ch src x y offsets).Ensures {t | ∃ lane, pixelTap 4 stride (x lane) (y lane) = t}
      fun pixels => ∀ i : Fin (4 * n), pixels i =
        sourceAt 4 src stride (x ⟨i / 4, by omega⟩) (y ⟨i / 4, by omega⟩) (i % 4) := by
  refine ⟨trivial, fun t => ?_, fun i => ?_⟩
  · simp only [load4ch, Traced.note, List.mem_map, List.mem_finRange, true_and, Set.mem_ofPred_eq]
    refine exists_congr fun lane => ?_
    rw [pixelTap, ← h, BitVec.ofNat_toNat, BitVec.setWidth_eq]
  · simp only [load4ch, Traced.note, h]
    rfl

theorem signExtend_allOnes {u : ℕ} (hu : 0 < u) (w : ℕ) :
    (BitVec.allOnes u).signExtend w = BitVec.allOnes w := by
  ext i hi
  rw [BitVec.getElem_signExtend, BitVec.getElem_allOnes]
  split
  · exact BitVec.getElem_allOnes ..
  · rw [BitVec.msb_allOnes hu]

theorem signExtend_zero (u w : ℕ) : (0 : BitVec u).signExtend w = 0 := by
  show (0#u).signExtend w = 0#w
  rw [BitVec.signExtend_eq_setWidth_of_msb_false BitVec.msb_zero]
  exact BitVec.setWidth_zero ..

/-- The masks of the elements of a pixel. -/
theorem elementMask_apply {p : Fin n → Prop} [DecidablePred p] {bitset : Fin n → BitVec 16}
    (h : ∀ lane, bitset lane = if p lane then BitVec.allOnes 16 else 0) (i : Fin (4 * n)) :
    elementMask v (toS32 bitset) i =
      if p ⟨i / 4, by omega⟩ then BitVec.allOnes v else 0 := by
  have hi : v * (i.val % 4) + v ≤ 4 * v := by
    have := Nat.mul_le_mul_left v (show i.val % 4 + 1 ≤ 4 by omega)
    rw [Nat.mul_succ, Nat.mul_comm v 4] at this
    exact this
  rw [elementMask, toS32, h]
  split
  · rw [signExtend_allOnes (by decide), signExtend_allOnes (by decide)]
    ext j hj
    rw [BitVec.getElem_extractLsb', BitVec.getLsbD_allOnes, BitVec.getElem_allOnes]
    exact decide_eq_true (by omega)
  · rw [signExtend_zero, signExtend_zero]
    ext j hj
    simp

theorem toS32_apply {p : Fin n → Prop} [DecidablePred p] {bitset : Fin n → BitVec 16}
    (h : ∀ lane, bitset lane = if p lane then BitVec.allOnes 16 else 0) (lane : Fin n) :
    toS32 bitset lane = if p lane then BitVec.allOnes 32 else 0 := by
  rw [toS32, h]
  split
  · exact signExtend_allOnes (by decide) 32
  · exact signExtend_zero 16 32

/-- Pixels of four channels, or the border. -/
theorem load4chConstant_ensures {src : ℕ → BitVec v} {stride width height : BitVec 16}
    {border : ℕ → BitVec v} {x y : Fin n → BitVec 16} {offsets : Fin n → BitVec 32}
    (h : ∀ lane, (offsets lane).toNat = 4 * (x lane).toNat + (y lane).toNat * stride.toNat) :
    (load4chConstant src (inRange x y width height) x y offsets (borderVector border)).Ensures
      {t | ∃ lane, (constantBorderPoint5Sampling 4 src stride width height border).tap (x lane)
        (y lane) = t}
      fun pixels => ∀ i : Fin (4 * n), pixels i =
        (constantBorderPoint5Sampling 4 src stride width height border).sample
          (x ⟨i / 4, by omega⟩) (y ⟨i / 4, by omega⟩) (i % 4) := by
  have hmask : ∀ lane, inRange x y width height lane =
      if (x lane).ult width ∧ (y lane).ult height then BitVec.allOnes 16 else 0 :=
    inRange_apply x y width height
  refine ((load4ch_ensures stride fun lane => ?_).congr ?_).bind_pure
    fun pixels hpixels i => ?_
  · rw [vbslq_apply (toS32_apply hmask lane), vandq_apply (hmask lane),
      vandq_apply (hmask lane)]
    split
    · exact h lane
    · simp [vdupq]
  · refine congrArg _ (funext fun t => congrArg _ (funext fun lane => ?_))
    have hread := readInside_apply x y width height lane
    rw [Prod.ext_iff] at hread
    simp only at hread
    rw [inRange, hread.1, hread.2]
    rfl
  · rw [vbslq_apply (elementMask_apply hmask i), hpixels, vandq_apply (hmask _),
      vandq_apply (hmask _)]
    show _ = sourceOrBorder 4 src stride width height border (x _) (y _) (i % 4)
    rw [sourceOrBorder]
    split
    · rfl
    · rfl

end

/-! ### Four pixels -/

section

variable {xfrac2 yfrac2 : Fin (2 * 4) → BitVec 16} {xf yf : Fin 4 → ℕ}

/-- Two vectors of two pixels each. -/
theorem interpolateQuads_ensures {aLow aHigh bLow bHigh cLow cHigh dLow dHigh :
      Fin (2 * 4) → BitVec 16}
    (hx2 : ∀ i : Fin (2 * 4), (xfrac2 i).toNat = xf ⟨i / 2, by omega⟩)
    (hy2 : ∀ i : Fin (2 * 4), (yfrac2 i).toNat = yf ⟨i / 2, by omega⟩) (hx : ∀ lane, xf lane ≤ 32)
    (hy : ∀ lane, yf lane ≤ 32) :
    (interpolateQuads aLow aHigh bLow bHigh cLow cHigh dLow dHigh xfrac2 yfrac2).Ensures fun res =>
      (∀ lane : Fin (2 * 4), (res.1 lane).toNat =
        interpolated (xf ⟨lane / 4, by omega⟩) (yf ⟨lane / 4, by omega⟩) (aLow lane).toNat
          (bLow lane).toNat (cLow lane).toNat (dLow lane).toNat) ∧
      ∀ lane : Fin (2 * 4), (res.2 lane).toNat =
        interpolated (xf ⟨2 + lane / 4, by omega⟩) (yf ⟨2 + lane / 4, by omega⟩) (aHigh lane).toNat
          (bHigh lane).toNat (cHigh lane).toNat (dHigh lane).toNat := by
  have hx2' : ∀ i, (xfrac2 i).toNat ≤ 32 := fun i => by
    rw [hx2]
    exact hx _
  have hy2' : ∀ i, (yfrac2 i).toNat ≤ 32 := fun i => by
    rw [hy2]
    exact hy _
  refine (complement_ensures hx2').bind fun nxfrac2 hnx => (complement_ensures hy2').bind
    fun nyfrac2 hny => ?_
  refine (interpolate_ensures (fun lane => ?_) (fun lane => ?_) (fun lane => ?_)
    fun lane => ?_).bind fun res0 h0 => (interpolate_ensures (fun lane => ?_) (fun lane => ?_)
      (fun lane => ?_) fun lane => ?_).bind fun res1 h1 => .pure ⟨fun lane => ?_, fun lane => ?_⟩
  · rw [vzip1q_self]
    exact hx2' _
  · rw [vzip1q_self]
    exact hy2' _
  · rw [vzip1q_self, vzip1q_self, hnx]
  · rw [vzip1q_self, vzip1q_self, hny]
  · rw [vzip2q_self]
    exact hx2' _
  · rw [vzip2q_self]
    exact hy2' _
  · rw [vzip2q_self, vzip2q_self, hnx]
  · rw [vzip2q_self, vzip2q_self, hny]
  · rw [h0, (zipped_apply hx2 lane).1, (zipped_apply hy2 lane).1]
  · rw [h1, (zipped_apply hx2 lane).2, (zipped_apply hy2 lane).2]

/-- The lanes of four pixels, from those of two and two. -/
theorem quads_apply {v w : ℕ} {res : (Fin (2 * 4) → BitVec w) × (Fin (2 * 4) → BitVec w)}
    {a b c d : Fin (2 * 8) → BitVec v}
    (h : (∀ lane : Fin (2 * 4), (res.1 lane).toNat =
        interpolated (xf ⟨lane / 4, by omega⟩) (yf ⟨lane / 4, by omega⟩) (a ⟨lane, by omega⟩).toNat
          (b ⟨lane, by omega⟩).toNat (c ⟨lane, by omega⟩).toNat (d ⟨lane, by omega⟩).toNat) ∧
      ∀ lane : Fin (2 * 4), (res.2 lane).toNat =
        interpolated (xf ⟨2 + lane / 4, by omega⟩) (yf ⟨2 + lane / 4, by omega⟩)
          (a ⟨8 + lane, by omega⟩).toNat (b ⟨8 + lane, by omega⟩).toNat (c ⟨8 + lane, by omega⟩).toNat
          (d ⟨8 + lane, by omega⟩).toNat) (i : Fin (2 * 8)) :
    (vcombine (n := 8) res.1 res.2 i).toNat = interpolated (xf ⟨i / 4, by omega⟩) (yf ⟨i / 4, by omega⟩)
      (a i).toNat (b i).toNat (c i).toNat (d i).toNat := by
  refine vcombine_toNat (n := 8) (f := fun i : Fin (2 * 8) => interpolated (xf ⟨i / 4, by omega⟩)
    (yf ⟨i / 4, by omega⟩) (a i).toNat (b i).toNat (c i).toNat (d i).toNat) (fun lane => h.1 lane)
    (fun lane => ?_) i
  have hlane : (⟨2 + lane / 4, by omega⟩ : Fin 4) = ⟨(8 + lane) / 4, by omega⟩ :=
    Fin.ext (by simp only; omega)
  have h2 := h.2 lane
  rw [hlane] at h2
  exact h2

/-- Four pixels of bytes. -/
theorem interpolateQuadsU8_ensures {a b c d : Fin (2 * 8) → BitVec 8}
    (hx2 : ∀ i : Fin (2 * 4), (xfrac2 i).toNat = xf ⟨i / 2, by omega⟩)
    (hy2 : ∀ i : Fin (2 * 4), (yfrac2 i).toNat = yf ⟨i / 2, by omega⟩) (hx : ∀ lane, xf lane ≤ 32)
    (hy : ∀ lane, yf lane ≤ 32) :
    (interpolateQuadsU8 a b c d xfrac2 yfrac2).Ensures fun pixels => ∀ i : Fin (2 * 8),
      (pixels i).toNat = interpolated (xf ⟨i / 4, by omega⟩) (yf ⟨i / 4, by omega⟩) (a i).toNat
        (b i).toNat (c i).toNat (d i).toNat := by
  have hwide : ∀ x : BitVec 8, (x.setWidth 16).toNat = x.toNat := fun x => by
    rw [BitVec.toNat_setWidth]
    have := x.isLt
    omega
  have hle : ∀ x : BitVec 8, x.toNat ≤ 255 := fun x => by have := x.isLt; omega
  refine (interpolateQuads_ensures hx2 hy2 hx hy).bind fun res hres => ?_
  simp only [hwide] at hres
  have hquads := quads_apply (a := a) (b := b) (c := c) (d := d) hres
  refine (Tracked.lanes_ensures fun lane => ?_).imp fun pixels h i => (h i).trans (hquads i)
  rw [hquads]
  exact Nat.lt_succ_of_le (interpolated_le (hx _) (hy _) (hle _) (hle _) (hle _) (hle _))

/-- One half of a vector path that reads four pixels and interpolates them. -/
def HalfDescribes {v : ℕ} (k : Sampling v 4)
    (half : (x0 y0 x1 y1 : Fin 4 → BitVec 16) → (xfrac2 yfrac2 : Fin (2 * 4) → BitVec 16) →
      Traced Tap (Fin (2 * 8) → BitVec v)) : Prop :=
  ∀ x0 y0 x1 y1 xfrac2 yfrac2 (xf yf : Fin 4 → ℕ),
    (∀ i : Fin (2 * 4), (xfrac2 i).toNat = xf ⟨i / 2, by omega⟩) →
    (∀ i : Fin (2 * 4), (yfrac2 i).toNat = yf ⟨i / 2, by omega⟩) → (∀ lane, xf lane ≤ 32) →
    (∀ lane, yf lane ≤ 32) →
    (half x0 y0 x1 y1 xfrac2 yfrac2).Ensures
      {t | ∃ lane, t ∈ ({k.tap (x0 lane) (y0 lane), k.tap (x1 lane) (y0 lane),
        k.tap (x0 lane) (y1 lane), k.tap (x1 lane) (y1 lane)} : Set Tap)}
      fun pixels => ∀ i : Fin (2 * 8), (pixels i).toNat =
        interpolated (xf ⟨i / 4, by omega⟩) (yf ⟨i / 4, by omega⟩)
          (k.sample (x0 ⟨i / 4, by omega⟩) (y0 ⟨i / 4, by omega⟩) (i % 4)).toNat
          (k.sample (x1 ⟨i / 4, by omega⟩) (y0 ⟨i / 4, by omega⟩) (i % 4)).toNat
          (k.sample (x0 ⟨i / 4, by omega⟩) (y1 ⟨i / 4, by omega⟩) (i % 4)).toNat
          (k.sample (x1 ⟨i / 4, by omega⟩) (y1 ⟨i / 4, by omega⟩) (i % 4)).toNat

/-- Loads of the pixels of a sampling, at offsets that have been computed. -/
def LoadsPixels {v n : ℕ} (k : Sampling v 4) (stride : BitVec 16)
    (loads : (x y : Fin n → BitVec 16) → (Fin n → BitVec 32) → Traced Tap (Fin (4 * n) → BitVec v)) :
    Prop :=
  ∀ x y offsets,
    (∀ lane, (offsets lane).toNat = 4 * (x lane).toNat + (y lane).toNat * stride.toNat) →
    (loads x y offsets).Ensures {t | ∃ lane, k.tap (x lane) (y lane) = t} fun pixels =>
      ∀ i : Fin (4 * n), pixels i =
        k.sample (x ⟨i / 4, by omega⟩) (y ⟨i / 4, by omega⟩) (i % 4)

variable {stride : BitVec 16}

/-- Bytes, in four loads. -/
theorem halfU8_describes (hstride : stride.toNat ≤ 16383) {k : Sampling 8 4}
    {loads : (x y : Fin 4 → BitVec 16) → (Fin 4 → BitVec 32) →
      Traced Tap (Fin (4 * 4) → BitVec 8)} (hloads : LoadsPixels k stride loads) :
    HalfDescribes k (fun x0 y0 x1 y1 xfrac2 yfrac2 => do
      let (offsetsA, offsetsB, offsetsC, offsetsD) ← getOffsets4ch x0 y0 x1 y1 stride
      let a ← loads x0 y0 offsetsA
      let b ← loads x1 y0 offsetsB
      let c ← loads x0 y1 offsetsC
      let d ← loads x1 y1 offsetsD
      interpolateQuadsU8 a b c d xfrac2 yfrac2) := by
  intro x0 y0 x1 y1 xfrac2 yfrac2 xf yf hx2 hy2 hx hy
  rw [← union_taps, ← Set.union_empty {t | ∃ lane, k.tap (x1 lane) (y1 lane) = t}]
  refine Traced.Ensures.lift_bind (getOffsets4ch_ensures hstride) fun offsets ho => ?_
  refine (hloads _ _ _ ho.1).bind fun a ha => (hloads _ _ _ ho.2.1).bind fun b hb =>
    (hloads _ _ _ ho.2.2.1).bind fun c hc => (hloads _ _ _ ho.2.2.2).bind fun d hd =>
    Traced.Ensures.lift ((interpolateQuadsU8_ensures hx2 hy2 hx hy).imp fun pixels h i => ?_)
  rw [h, ha, hb, hc, hd]

/-- Elements of 16 bits, in loads of two pixels. -/
theorem halfU16_describes (hstride : stride.toNat ≤ 16383) {k : Sampling 16 4}
    {loads : (x y : Fin 2 → BitVec 16) → (Fin 2 → BitVec 32) →
      Traced Tap (Fin (4 * 2) → BitVec 16)} (hloads : LoadsPixels k stride loads) :
    HalfDescribes k (fun x0 y0 x1 y1 xfrac2 yfrac2 => do
      let (offsetsA, offsetsB, offsetsC, offsetsD) ← getOffsets4ch x0 y0 x1 y1 stride
      let aLow ← loads (vgetLow (n := 2) x0) (vgetLow (n := 2) y0) (vgetLow (n := 2) offsetsA)
      let bLow ← loads (vgetLow (n := 2) x1) (vgetLow (n := 2) y0) (vgetLow (n := 2) offsetsB)
      let cLow ← loads (vgetLow (n := 2) x0) (vgetLow (n := 2) y1) (vgetLow (n := 2) offsetsC)
      let dLow ← loads (vgetLow (n := 2) x1) (vgetLow (n := 2) y1) (vgetLow (n := 2) offsetsD)
      let aHigh ← loads (vgetHigh (n := 2) x0) (vgetHigh (n := 2) y0) (vgetHigh (n := 2) offsetsA)
      let bHigh ← loads (vgetHigh (n := 2) x1) (vgetHigh (n := 2) y0) (vgetHigh (n := 2) offsetsB)
      let cHigh ← loads (vgetHigh (n := 2) x0) (vgetHigh (n := 2) y1) (vgetHigh (n := 2) offsetsC)
      let dHigh ← loads (vgetHigh (n := 2) x1) (vgetHigh (n := 2) y1) (vgetHigh (n := 2) offsetsD)
      let (res0, res1) ← interpolateQuads aLow aHigh bLow bHigh cLow cHigh dLow dHigh xfrac2 yfrac2
      pure (vcombine res0 res1)) := by
  intro x0 y0 x1 y1 xfrac2 yfrac2 xf yf hx2 hy2 hx hy
  have hunion : ∀ S0 S1 S2 S3 T0 T1 T2 T3 : Set Tap,
      S0 ∪ (S1 ∪ (S2 ∪ (S3 ∪ (T0 ∪ (T1 ∪ (T2 ∪ (T3 ∪ ∅))))))) =
        (S0 ∪ (S1 ∪ (S2 ∪ S3))) ∪ (T0 ∪ (T1 ∪ (T2 ∪ T3))) := by
    intro S0 S1 S2 S3 T0 T1 T2 T3
    simp only [Set.union_assoc, Set.union_empty]
  refine Traced.Ensures.lift_bind (getOffsets4ch_ensures hstride) fun offsets ho => ?_
  refine ((hloads (vgetLow (n := 2) x0) (vgetLow (n := 2) y0) _ fun _ => ho.1 _).bind fun aLow hal =>
    (hloads (vgetLow (n := 2) x1) (vgetLow (n := 2) y0) _ fun _ => ho.2.1 _).bind fun bLow hbl =>
    (hloads (vgetLow (n := 2) x0) (vgetLow (n := 2) y1) _ fun _ => ho.2.2.1 _).bind fun cLow hcl =>
    (hloads (vgetLow (n := 2) x1) (vgetLow (n := 2) y1) _ fun _ => ho.2.2.2 _).bind fun dLow hdl =>
    (hloads (vgetHigh (n := 2) x0) (vgetHigh (n := 2) y0) _ fun _ => ho.1 _).bind fun aHigh hah =>
    (hloads (vgetHigh (n := 2) x1) (vgetHigh (n := 2) y0) _ fun _ => ho.2.1 _).bind fun bHigh hbh =>
    (hloads (vgetHigh (n := 2) x0) (vgetHigh (n := 2) y1) _ fun _ => ho.2.2.1 _).bind fun cHigh hch =>
    (hloads (vgetHigh (n := 2) x1) (vgetHigh (n := 2) y1) _ fun _ => ho.2.2.2 _).bind fun dHigh hdh =>
    Traced.Ensures.lift_bind (interpolateQuads_ensures hx2 hy2 hx hy) fun res hres =>
    Traced.Ensures.pure fun i => ?_).congr ?_
  · have hhigh : ∀ (f : Fin 4 → BitVec 16) (lane : Fin (2 * 4)),
        vgetHigh (n := 2) f ⟨lane / 4, by omega⟩ = f ⟨(8 + lane) / 4, by omega⟩ := fun f lane =>
      congrArg f (Fin.ext (by simp only; omega))
    have hchannel : ∀ lane : Fin (2 * 4), (8 + lane.val) % 4 = lane % 4 := fun lane => by omega
    refine quads_apply
      (a := fun i => k.sample (x0 ⟨i / 4, by omega⟩) (y0 ⟨i / 4, by omega⟩) (i % 4))
      (b := fun i => k.sample (x1 ⟨i / 4, by omega⟩) (y0 ⟨i / 4, by omega⟩) (i % 4))
      (c := fun i => k.sample (x0 ⟨i / 4, by omega⟩) (y1 ⟨i / 4, by omega⟩) (i % 4))
      (d := fun i => k.sample (x1 ⟨i / 4, by omega⟩) (y1 ⟨i / 4, by omega⟩) (i % 4))
      ⟨fun lane => ?_, fun lane => ?_⟩ i
    · rw [hres.1, hal, hbl, hcl, hdl]
      rfl
    · rw [hres.2, hah, hbh, hch, hdh]
      simp only [hhigh, hchannel]
  · rw [hunion, union_taps, union_taps]
    ext t
    exact exists_lane (P := fun lane : Fin (2 * 2) => t ∈ ({k.tap (x0 lane) (y0 lane),
      k.tap (x1 lane) (y0 lane), k.tap (x0 lane) (y1 lane), k.tap (x1 lane) (y1 lane)} : Set Tap))

/-! ### Vectors of eight pixels -/

variable {v : ℕ} {entries : Fin (2 * 4) → MapEntry}

/-- Both halves of a vector path. -/
theorem halves_describe {k : Sampling v 4}
    {half : (x0 y0 x1 y1 : Fin 4 → BitVec 16) → (xfrac2 yfrac2 : Fin (2 * 4) → BitVec 16) →
      Traced Tap (Fin (2 * 8) → BitVec v)} (hhalf : HalfDescribes k half) {p : Coordinates}
    (hx0 : ∀ lane, p.x0 lane = k.x0 (entries lane)) (hy0 : ∀ lane, p.y0 lane = k.y0 (entries lane))
    (hx1 : ∀ lane, p.x1 lane = k.x1 (entries lane)) (hy1 : ∀ lane, p.y1 lane = k.y1 (entries lane))
    (hxfrac : ∀ lane, (p.xfrac lane).toNat = k.xfrac (entries lane))
    (hyfrac : ∀ lane, (p.yfrac lane).toNat = k.yfrac (entries lane)) (hx : ∀ e, k.xfrac e ≤ 32)
    (hy : ∀ e, k.yfrac e ≤ 32) :
    k.Describes entries (do
      let low ← half (vgetLow p.x0) (vgetLow p.y0) (vgetLow p.x1) (vgetLow p.y1)
        (vzip1q p.xfrac p.xfrac) (vzip1q p.yfrac p.yfrac)
      let high ← half (vgetHigh p.x0) (vgetHigh p.y0) (vgetHigh p.x1) (vgetHigh p.y1)
        (vzip2q p.xfrac p.xfrac) (vzip2q p.yfrac p.yfrac)
      pure (vcombine low high)) := by
  refine ((hhalf _ _ _ _ _ _ (fun lane => k.xfrac (entries ⟨lane, by omega⟩))
    (fun lane => k.yfrac (entries ⟨lane, by omega⟩)) (fun i => ?_) (fun i => ?_) (fun _ => hx _)
    fun _ => hy _).bind fun low hlow => (hhalf _ _ _ _ _ _
      (fun lane => k.xfrac (entries ⟨4 + lane, by omega⟩))
      (fun lane => k.yfrac (entries ⟨4 + lane, by omega⟩)) (fun i => ?_) (fun i => ?_) (fun _ => hx _)
      fun _ => hy _).bind_pure fun high hhigh (lane : Fin (2 * (2 * 8))) => eq_value ?_).congr ?_
  · rw [vzip1q_self, hxfrac]
  · rw [vzip1q_self, hyfrac]
  · rw [vzip2q_self, hxfrac]
  · rw [vzip2q_self, hyfrac]
  · refine vcombine_toNat (f := fun lane : Fin (2 * (2 * 8)) =>
      k.sum (entries ⟨lane / 4, by omega⟩) (lane % 4)) (fun lane => ?_) (fun lane => ?_) lane
    · rw [hlow]
      simp only [vgetLow, hx0, hy0, hx1, hy1]
      rfl
    · have hlane : (⟨4 + lane / 4, by omega⟩ : Fin (2 * 4)) = ⟨(2 * 8 + lane) / 4, by omega⟩ :=
        Fin.ext (by simp only; omega)
      have hchannel : (2 * 8 + lane.val) % 4 = lane % 4 := by omega
      rw [hhigh]
      simp only [vgetHigh, hx0, hy0, hx1, hy1, hlane, hchannel]
      rfl
  · simp only [vgetLow, vgetHigh, hx0, hy0, hx1, hy1]
    ext t
    exact exists_lane (P := fun lane => t ∈ k.taps (entries lane))

/-- `RemapS16Point5Replicate4ch`, by pixel. -/
def replicate4chSampling (src : ℕ → BitVec v) (stride xmax ymax : BitVec 16) : Sampling v 4 :=
  replicatePoint5Sampling 4 src stride xmax ymax (fun e => clamped e.x xmax)
    (fun e => clamped e.y ymax) readThere

theorem replicate4ch_loadsPixels {n : ℕ} (src : ℕ → BitVec v) (stride xmax ymax : BitVec 16) :
    LoadsPixels (n := n) (replicate4chSampling src stride xmax ymax) stride (load4ch src) :=
  fun _ _ _ h => load4ch_ensures _ h

theorem constant4ch_loadsPixels {n : ℕ} (src : ℕ → BitVec v) (stride width height : BitVec 16)
    (border : ℕ → BitVec v) :
    LoadsPixels (n := n) (constantBorderPoint5Sampling 4 src stride width height border) stride
      fun x y offsets =>
        load4chConstant src (inRange x y width height) x y offsets (borderVector border) :=
  fun _ _ _ h => load4chConstant_ensures h

theorem replicate4ch_describes {src : ℕ → BitVec v} {stride xmax ymax : BitVec 16}
    {half : (x0 y0 x1 y1 : Fin 4 → BitVec 16) → (xfrac2 yfrac2 : Fin (2 * 4) → BitVec 16) →
      Traced Tap (Fin (2 * 8) → BitVec v)}
    (hhalf : HalfDescribes (replicate4chSampling src stride xmax ymax) half) :
    (replicate4chSampling src stride xmax ymax).Describes entries
      (remapS16Point5Replicate4ch half xmax ymax (fun lane => (entries lane).x)
        (fun lane => (entries lane).y) fun lane => (entries lane).frac) :=
  halves_describe hhalf (fun _ => rfl) (fun _ => rfl) (vsubq_mask _ _ _) (vsubq_mask _ _ _)
    (fun lane => (fractions_toNat entries lane).1) (fun lane => (fractions_toNat entries lane).2)
    zeroBelow_x_le zeroBelow_y_le

theorem constant4ch_describes {src : ℕ → BitVec v} {stride width height : BitVec 16}
    {border : ℕ → BitVec v}
    {half : (x0 y0 x1 y1 : Fin 4 → BitVec 16) → (xfrac2 yfrac2 : Fin (2 * 4) → BitVec 16) →
      Traced Tap (Fin (2 * 8) → BitVec v)}
    (hhalf : HalfDescribes (constantBorderPoint5Sampling 4 src stride width height border) half) :
    (constantBorderPoint5Sampling 4 src stride width height border).Describes entries
      (remapS16Point5Constant4ch half (fun lane => (entries lane).x) (fun lane => (entries lane).y)
        fun lane => (entries lane).frac) :=
  halves_describe hhalf (fun _ => rfl) (fun _ => rfl) (fun _ => rfl) (fun _ => rfl)
    (xFraction_toNat _) (yFraction_toNat _) (fun _ => (Nat.mod_lt _ (by decide)).le)
    fun _ => (Nat.mod_lt _ (by decide)).le

/-- **`RemapS16Point5Replicate4ch<uint8_t>`** reads for each lane what its entry says. -/
theorem replicate4chU8_describes (hstride : stride.toNat ≤ 16383) (src : ℕ → BitVec 8)
    (xmax ymax : BitVec 16) :
    (replicate4chSampling src stride xmax ymax).Describes entries
      (remapS16Point5Replicate4chU8 src stride xmax ymax (fun lane => (entries lane).x)
        (fun lane => (entries lane).y) fun lane => (entries lane).frac) :=
  replicate4ch_describes (halfU8_describes hstride (replicate4ch_loadsPixels src stride xmax ymax))

/-- **`RemapS16Point5Replicate4ch<uint16_t>`** reads for each lane what its entry says. -/
theorem replicate4chU16_describes (hstride : stride.toNat ≤ 16383) (src : ℕ → BitVec 16)
    (xmax ymax : BitVec 16) :
    (replicate4chSampling src stride xmax ymax).Describes entries
      (remapS16Point5Replicate4chU16 src stride xmax ymax (fun lane => (entries lane).x)
        (fun lane => (entries lane).y) fun lane => (entries lane).frac) :=
  replicate4ch_describes (halfU16_describes hstride (replicate4ch_loadsPixels src stride xmax ymax))

/-- **`RemapS16Point5Constant4ch<uint8_t>`** reads for each lane what its entry says. -/
theorem constant4chU8_describes (hstride : stride.toNat ≤ 16383) (src : ℕ → BitVec 8)
    (width height : BitVec 16) (border : ℕ → BitVec 8) :
    (constantBorderPoint5Sampling 4 src stride width height border).Describes entries
      (remapS16Point5Constant4chU8 src stride width height border (fun lane => (entries lane).x)
        (fun lane => (entries lane).y) fun lane => (entries lane).frac) := by
  have hhalf := halfU8_describes hstride (constant4ch_loadsPixels src stride width height border)
  exact constant4ch_describes hhalf

/-- **`RemapS16Point5Constant4ch<uint16_t>`** reads for each lane what its entry says. -/
theorem constant4chU16_describes (hstride : stride.toNat ≤ 16383) (src : ℕ → BitVec 16)
    (width height : BitVec 16) (border : ℕ → BitVec 16) :
    (constantBorderPoint5Sampling 4 src stride width height border).Describes entries
      (remapS16Point5Constant4chU16 src stride width height border (fun lane => (entries lane).x)
        (fun lane => (entries lane).y) fun lane => (entries lane).frac) := by
  have hhalf := halfU16_describes hstride (constant4ch_loadsPixels src stride width height border)
  exact constant4ch_describes hhalf

end

end Remap

end KleidiCV
