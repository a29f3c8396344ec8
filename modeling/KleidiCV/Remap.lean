/-
`remap_s16` and `remap_s16point5`: the calls, what they read, and what they write.

* `RemapCall`, `remapS16`, `remapS16Point5` — the arguments, and the functions;
* `remapS16_follows`, `remapS16Point5_follows` — what they do, pixel by pixel;
* `Sampling.Inside` — coordinates inside the source, kernel by kernel;
* `remap_reads_iff` — which calls read inside the source only.
-/
import KleidiCV.BorderTypes
import KleidiCV.RemapS16Point5FourChannels

namespace KleidiCV

/-- The arguments of `remap_s16` and `remap_s16point5`, with the memories they point
to; the former has no map of fractions. -/
structure RemapCall (v : ℕ) where
  src : ℕ
  srcStride : ℕ
  srcWidth : ℕ
  srcHeight : ℕ
  dst : ℕ
  dstStride : ℕ
  dstWidth : ℕ
  dstHeight : ℕ
  channels : ℕ
  mapxy : ℕ
  mapxyStride : ℕ
  mapfrac : ℕ
  mapfracStride : ℕ
  borderType : BorderType
  borderValue : Option (ℕ → BitVec v)
  source : ℕ → BitVec v
  coordinates : ℕ → BitVec 16
  fractions : ℕ → BitVec 16

/-- `T`, one of the types that the functions are instantiated for. -/
inductive RemapType
  | u8
  | u16
  deriving DecidableEq

namespace RemapType

/-- The bits of an element. -/
def bits : RemapType → ℕ
  | u8 => 8
  | u16 => 16

/-- `sizeof(T)`. -/
def size : RemapType → ℕ
  | u8 => 1
  | u16 => 2

end RemapType

/-- `remap_s16_is_implemented`. -/
def remapS16IsImplemented (size srcStride srcWidth srcHeight dstWidth : ℕ) (borderType : BorderType)
    (channels : ℕ) : Bool :=
  srcStride / size ≤ 65535 ∧ 8 ≤ dstWidth ∧ srcWidth ≤ 32767 + 1 ∧ srcHeight ≤ 32767 + 1 ∧
    (borderType = .replicate ∨ borderType = .constant) ∧ channels = 1

/-- `remap_s16point5_is_implemented`. -/
def remapS16Point5IsImplemented (size srcStride srcWidth srcHeight dstWidth : ℕ)
    (borderType : BorderType) (channels : ℕ) : Bool :=
  srcStride / size ≤ 65535 / channels ∧ 8 ≤ dstWidth ∧ srcWidth ≤ 32767 + 1 ∧
    srcHeight ≤ 32767 + 1 ∧ (borderType = .replicate ∨ borderType = .constant) ∧
    (channels = 1 ∨ channels = 4)

namespace RemapCall

open Remap

variable {v : ℕ} (size : ℕ) (c : RemapCall v)

/-- `src_rows_`, from its first element. -/
def srcRows : ℕ → BitVec v := fun i => c.source (c.src + i)

/-- `v_src_element_stride_`. -/
def elementStride : BitVec 16 := BitVec.ofNat 16 (c.srcStride / size)

/-- `v_xmax_` and `v_ymax_`. -/
def xmax : BitVec 16 := BitVec.ofNat 16 (sizeSub c.srcWidth 1)

def ymax : BitVec 16 := BitVec.ofNat 16 (sizeSub c.srcHeight 1)

/-- `v_width_` and `v_height_`. -/
def width : BitVec 16 := BitVec.ofNat 16 c.srcWidth

def height : BitVec 16 := BitVec.ofNat 16 c.srcHeight

/-- `*border_value`. -/
def border : ℕ → BitVec v := c.borderValue.getD fun _ => 0

/-- `Rows<T> dst_rows{dst, dst_stride, channels}`. -/
def dstRows : Rows := ⟨c.dst, c.dstStride / size, c.channels⟩

/-- The rows of the maps; `mapxy` has two elements for each pixel. -/
def mapxyRows : Rows := ⟨c.mapxy, c.mapxyStride / 2, 2⟩

def mapfracRows : Rows := ⟨c.mapfrac, c.mapfracStride / 2, 1⟩

/-- The lanes of `vld2q_s16` and `vld1q_u16`. -/
def mapX (row column : ℕ) : Fin (2 * 4) → BitVec 16 := fun lane =>
  c.coordinates (c.mapxyRows.address (row, 2 * (column + lane)))

def mapY (row column : ℕ) : Fin (2 * 4) → BitVec 16 := fun lane =>
  c.coordinates (c.mapxyRows.address (row, 2 * (column + lane) + 1))

def mapFrac (row column : ℕ) : Fin (2 * 4) → BitVec 16 := fun lane =>
  c.fractions (c.mapfracRows.address (row, column + lane))

/-- The checks of `remap_s16` before `remap_s16_is_implemented`. -/
def checks : KleidicvError :=
  if checkPointerAndStride size c.src c.srcStride c.srcHeight ≠ .ok then
    checkPointerAndStride size c.src c.srcStride c.srcHeight
  else if checkPointerAndStride size c.dst c.dstStride c.dstHeight ≠ .ok then
    checkPointerAndStride size c.dst c.dstStride c.dstHeight
  else if checkPointerAndStride 2 c.mapxy c.mapxyStride c.dstHeight ≠ .ok then
    checkPointerAndStride 2 c.mapxy c.mapxyStride c.dstHeight
  else if !checkImageSize c.srcWidth c.srcHeight then .range
  else if !checkImageSize c.dstWidth c.dstHeight then .range
  else if c.borderType = .constant ∧ c.borderValue.isNone then .nullPointer
  else .ok

/-- The checks of `remap_s16point5` before `remap_s16point5_is_implemented`. -/
def checksPoint5 : KleidicvError :=
  if checkPointerAndStride size c.src c.srcStride c.srcHeight ≠ .ok then
    checkPointerAndStride size c.src c.srcStride c.srcHeight
  else if checkPointerAndStride size c.dst c.dstStride c.dstHeight ≠ .ok then
    checkPointerAndStride size c.dst c.dstStride c.dstHeight
  else if checkPointerAndStride 2 c.mapxy c.mapxyStride c.dstHeight ≠ .ok then
    checkPointerAndStride 2 c.mapxy c.mapxyStride c.dstHeight
  else if checkPointerAndStride 2 c.mapfrac c.mapfracStride c.dstHeight ≠ .ok then
    checkPointerAndStride 2 c.mapfrac c.mapfracStride c.dstHeight
  else if !checkImageSize c.srcWidth c.srcHeight then .range
  else if !checkImageSize c.dstWidth c.dstHeight then .range
  else if c.borderType = .constant ∧ c.borderValue.isNone then .nullPointer
  else .ok

/-- Whether the rows of `remap_s16` are `is_continuous`. -/
def continuous : Bool :=
  c.mapxyStride = c.dstWidth * 2 * 2 ∧ c.dstStride = c.dstWidth * c.channels * size

/-- Whether the rows of `remap_s16point5` are `is_continuous`. -/
def continuousPoint5 : Bool :=
  c.mapxyStride = c.dstWidth * 2 * 2 ∧ c.mapfracStride = c.dstWidth * 1 * 2 ∧
    c.dstStride = c.dstWidth * c.channels * size

end RemapCall

open Remap

/-- `remap_s16`. -/
def remapS16 (t : RemapType) (c : RemapCall t.bits) (m : ℕ → BitVec t.bits) :
    KleidicvError × Traced Tap (ℕ → BitVec t.bits) :=
  if c.checks t.size ≠ .ok then (c.checks t.size, pure m)
  else if !remapS16IsImplemented t.size c.srcStride c.srcWidth c.srcHeight c.dstWidth c.borderType
      c.channels then (.notImplemented, pure m)
  else if c.borderType = .constant then
    (.ok, remapRows 1 (c.dstRows t.size) (c.continuous t.size) (fun row column =>
      remapS16ConstantBorder c.srcRows (c.elementStride t.size) c.width c.height
        ((c.border 0).setWidth 16) (c.mapX row column) (c.mapY row column)) c.dstWidth c.dstHeight
      (pure m))
  else
    (.ok, remapRows 1 (c.dstRows t.size) (c.continuous t.size) (fun row column =>
      remapS16Replicate c.srcRows (c.elementStride t.size) c.xmax c.ymax (c.mapX row column)
        (c.mapY row column)) c.dstWidth c.dstHeight (pure m))

/-- `RemapS16Point5ConstantBorder<T>`. -/
def remapS16Point5ConstantBorder : (t : RemapType) → (ℕ → BitVec t.bits) →
    (stride width height border : BitVec 16) → (mapX mapY frac : Fin (2 * 4) → BitVec 16) →
    Traced Tap (Fin (2 * 4) → BitVec t.bits)
  | .u8 => remapS16Point5ConstantBorderU8
  | .u16 => remapS16Point5ConstantBorderU16

/-- `RemapS16Point5Constant4ch<T>`. -/
def remapS16Point5Constant4chOf : (t : RemapType) → (ℕ → BitVec t.bits) →
    (stride width height : BitVec 16) → (ℕ → BitVec t.bits) →
    (mapX mapY frac : Fin (2 * 4) → BitVec 16) → Traced Tap (Fin (8 * 4) → BitVec t.bits)
  | .u8 => remapS16Point5Constant4chU8
  | .u16 => remapS16Point5Constant4chU16

/-- `RemapS16Point5Replicate<T>`. -/
def remapS16Point5Replicate : (t : RemapType) → (ℕ → BitVec t.bits) →
    (stride xmax ymax : BitVec 16) → (mapX mapY frac : Fin (2 * 4) → BitVec 16) →
    Traced Tap (Fin (2 * 4) → BitVec t.bits)
  | .u8 => remapS16Point5ReplicateU8
  | .u16 => remapS16Point5ReplicateU16

/-- `RemapS16Point5Replicate4ch<T>`. -/
def remapS16Point5Replicate4chOf : (t : RemapType) → (ℕ → BitVec t.bits) →
    (stride xmax ymax : BitVec 16) → (mapX mapY frac : Fin (2 * 4) → BitVec 16) →
    Traced Tap (Fin (8 * 4) → BitVec t.bits)
  | .u8 => remapS16Point5Replicate4chU8
  | .u16 => remapS16Point5Replicate4chU16

/-- `remap_s16point5`. -/
def remapS16Point5 (t : RemapType) (c : RemapCall t.bits) (m : ℕ → BitVec t.bits) :
    KleidicvError × Traced Tap (ℕ → BitVec t.bits) :=
  if c.checksPoint5 t.size ≠ .ok then (c.checksPoint5 t.size, pure m)
  else if !remapS16Point5IsImplemented t.size c.srcStride c.srcWidth c.srcHeight c.dstWidth
      c.borderType c.channels then (.notImplemented, pure m)
  else if c.borderType = .constant then
    if c.channels = 1 then
      (.ok, remapRows 1 (c.dstRows t.size) (c.continuousPoint5 t.size)
        (fun row column => remapS16Point5ConstantBorder t c.srcRows (c.elementStride t.size) c.width
          c.height ((c.border 0).setWidth 16) (c.mapX row column) (c.mapY row column)
          (c.mapFrac row column)) c.dstWidth c.dstHeight (pure m))
    else
      (.ok, remapRows 4 (c.dstRows t.size) (c.continuousPoint5 t.size)
        (fun row column => remapS16Point5Constant4chOf t c.srcRows (c.elementStride t.size) c.width
          c.height c.border (c.mapX row column) (c.mapY row column) (c.mapFrac row column))
        c.dstWidth c.dstHeight (pure m))
  else if c.channels = 1 then
    (.ok, remapRows 1 (c.dstRows t.size) (c.continuousPoint5 t.size)
      (fun row column => remapS16Point5Replicate t c.srcRows (c.elementStride t.size) c.xmax c.ymax
        (c.mapX row column) (c.mapY row column) (c.mapFrac row column)) c.dstWidth c.dstHeight
      (pure m))
  else
    (.ok, remapRows 4 (c.dstRows t.size) (c.continuousPoint5 t.size)
      (fun row column => remapS16Point5Replicate4chOf t c.srcRows (c.elementStride t.size) c.xmax
        c.ymax (c.mapX row column) (c.mapY row column) (c.mapFrac row column)) c.dstWidth
      c.dstHeight (pure m))

/-! ### The calls by pixel -/

namespace RemapCall

variable {t : RemapType} (c : RemapCall t.bits)

/-- The entries of the maps for a pixel. -/
def entryS16 (p : ℕ × ℕ) : MapEntry :=
  ⟨c.mapX p.1 p.2 0, c.mapY p.1 p.2 0, 0⟩

def entryPoint5 (p : ℕ × ℕ) : MapEntry :=
  ⟨c.mapX p.1 p.2 0, c.mapY p.1 p.2 0, c.mapFrac p.1 p.2 0⟩

/-- What the kernel of `remap_s16` does for a pixel. -/
def samplingS16 (channels : ℕ) : Sampling t.bits channels :=
  if c.borderType = .constant then
    constantBorderSampling channels c.srcRows (c.elementStride t.size) c.width c.height c.border
  else replicateSampling channels c.srcRows (c.elementStride t.size) c.xmax c.ymax

/-- What the kernel of `remap_s16point5` does for a pixel. -/
def samplingPoint5 (channels : ℕ) : Sampling t.bits channels :=
  if c.borderType = .constant then
    constantBorderPoint5Sampling channels c.srcRows (c.elementStride t.size) c.width c.height
      c.border
  else if channels = 1 then
    replicatePoint5Sampling channels c.srcRows (c.elementStride t.size) c.xmax c.ymax MapEntry.x
      MapEntry.y (if t = .u8 then readThere else readClamped c.xmax c.ymax)
  else
    replicatePoint5Sampling channels c.srcRows (c.elementStride t.size) c.xmax c.ymax
      (fun e => clamped e.x c.xmax) (fun e => clamped e.y c.ymax) readThere

/-- A run that reads and writes what a sampling says for each pixel of the destination. -/
def Follows (entry : ℕ × ℕ → MapEntry) (channels : ℕ) (k : Sampling t.bits channels)
    (m : ℕ → BitVec t.bits) (s : Traced Tap (ℕ → BitVec t.bits)) : Prop :=
  s.Ensures {tap | ∃ p ∈ pixels c.dstWidth c.dstHeight, tap ∈ k.taps (entry p)} fun m' =>
    Set.InjOn (c.dstRows t.size).address (stripeElements (c.dstWidth * channels) 0 c.dstHeight) →
      Wrote (c.dstRows t.size).address (elementValue channels entry k.value)
        (stripeElements (c.dstWidth * channels) 0 c.dstHeight) m m'

theorem size_pos (t : RemapType) : 0 < t.size := by
  cases t <;> decide

theorem bits_le (t : RemapType) : t.bits ≤ 16 := by
  cases t <;> decide

/-- Joined rows have the entries of the rows they are joined from. -/
theorem mapxy_joined (h : c.mapxyStride = c.dstWidth * 2 * 2) (row k : ℕ) :
    c.mapX 0 (row * c.dstWidth + k) 0 = c.mapX row k 0 ∧
      c.mapY 0 (row * c.dstWidth + k) 0 = c.mapY row k 0 := by
  have hstride : c.mapxyRows.stride = c.dstWidth * 2 := by
    show c.mapxyStride / 2 = _
    rw [h, Nat.mul_div_cancel _ Nat.two_pos]
  constructor
  · refine congrArg c.coordinates ?_
    simp only [Rows.address, hstride]
    ring
  · refine congrArg c.coordinates ?_
    simp only [Rows.address, hstride]
    ring

theorem mapfrac_joined (h : c.mapfracStride = c.dstWidth * 1 * 2) (row k : ℕ) :
    c.mapFrac 0 (row * c.dstWidth + k) 0 = c.mapFrac row k 0 := by
  have hstride : c.mapfracRows.stride = c.dstWidth := by
    show c.mapfracStride / 2 = _
    rw [h, Nat.mul_div_cancel _ Nat.two_pos, Nat.mul_one]
  refine congrArg c.fractions ?_
  simp only [Rows.address, hstride]
  ring

theorem dst_joined {channels : ℕ} (hc : channels = c.channels)
    (h : c.dstStride = c.dstWidth * c.channels * t.size) :
    (c.dstRows t.size).stride = c.dstWidth * channels := by
  show c.dstStride / t.size = _
  rw [h, Nat.mul_div_cancel _ (size_pos t), hc]

theorem followsS16 {k : Sampling t.bits 1} (hc : 1 = c.channels)
    {path : ℕ → ℕ → Traced Tap (Fin (8 * 1) → BitVec t.bits)}
    (hpath : ∀ row column, k.Describes (fun lane => c.entryS16 (row, column + lane))
      (path row column)) (hwidth : 8 ≤ c.dstWidth)
    (hsize : checkImageSize c.dstWidth c.dstHeight = true) (m : ℕ → BitVec t.bits) :
    c.Follows c.entryS16 1 k m (remapRows 1 (c.dstRows t.size) (c.continuous t.size) path c.dstWidth
      c.dstHeight (pure m)) := by
  refine remapRows_ensures Nat.one_pos (followsMap hpath) hwidth
    ((checkImageSize_iff.mp hsize).trans_lt (by decide)) (fun h => ?_) (fun h row k _ => ?_) m
  · exact c.dst_joined hc (of_decide_eq_true h).2
  · obtain ⟨hx, hy⟩ := c.mapxy_joined (of_decide_eq_true h).1 row k
    rw [entryS16, hx, hy]
    rfl

theorem followsPoint5 {channels : ℕ} (hpos : 0 < channels) {k : Sampling t.bits channels}
    (hc : channels = c.channels) {path : ℕ → ℕ → Traced Tap (Fin (8 * channels) → BitVec t.bits)}
    (hpath : ∀ row column, k.Describes (fun lane => c.entryPoint5 (row, column + lane))
      (path row column)) (hwidth : 8 ≤ c.dstWidth)
    (hsize : checkImageSize c.dstWidth c.dstHeight = true) (m : ℕ → BitVec t.bits) :
    c.Follows c.entryPoint5 channels k m (remapRows channels (c.dstRows t.size)
      (c.continuousPoint5 t.size) path c.dstWidth c.dstHeight (pure m)) := by
  refine remapRows_ensures hpos (followsMap hpath) hwidth
    ((checkImageSize_iff.mp hsize).trans_lt (by decide)) (fun h => ?_) (fun h row k _ => ?_) m
  · exact c.dst_joined hc (of_decide_eq_true h).2.2
  · obtain ⟨hx, hy⟩ := c.mapxy_joined (of_decide_eq_true h).1 row k
    rw [entryPoint5, hx, hy, c.mapfrac_joined (of_decide_eq_true h).2.1 row k]
    rfl

/-- What the checks promise. -/
structure Accepted (channels : ℕ) : Prop where
  channels_eq : channels = c.channels
  channels_cases : channels = 1 ∨ channels = 4
  borderType_cases : c.borderType = .replicate ∨ c.borderType = .constant
  dstWidth_le : 8 ≤ c.dstWidth
  srcWidth_le : c.srcWidth ≤ 32768
  srcHeight_le : c.srcHeight ≤ 32768
  stride_le : c.srcStride / t.size ≤ 65535 / channels

theorem elementStride_toNat {channels : ℕ} (h : c.Accepted channels) :
    (c.elementStride t.size).toNat = c.srcStride / t.size := by
  have hle := h.stride_le.trans (Nat.div_le_self _ _)
  exact (BitVec.toNat_ofNat _ _).trans (Nat.mod_eq_of_lt (by omega))

theorem elementStride_le (h : c.Accepted 4) : (c.elementStride t.size).toNat ≤ 16383 := by
  rw [c.elementStride_toNat h]
  exact h.stride_le

/-- `remap_s16` follows its map. -/
theorem remapS16_follows {m : ℕ → BitVec t.bits} (h : (remapS16 t c m).1 = .ok) :
    c.Accepted 1 ∧ c.Follows c.entryS16 1 (c.samplingS16 1) m (remapS16 t c m).2 := by
  unfold remapS16 at h ⊢
  split at h
  · contradiction
  next hchecks =>
    rw [if_neg hchecks]
    split at h
    · contradiction
    next himplemented =>
      rw [if_neg himplemented]
      simp only [Bool.not_eq_true', Bool.not_eq_false, remapS16IsImplemented,
        decide_eq_true_eq] at himplemented
      obtain ⟨hstride, hdst, hw, hh, hborder, hchannels⟩ := himplemented
      have hsize : checkImageSize c.dstWidth c.dstHeight = true := by
        by_contra hno
        refine hchecks ?_
        unfold checks
        split_ifs <;> simp_all
      refine ⟨⟨hchannels.symm, .inl rfl, hborder, hdst, hw, hh, hstride⟩, ?_⟩
      split
      next hconstant =>
        rw [samplingS16, if_pos hconstant]
        exact c.followsS16 hchannels.symm (fun row column =>
          remapS16ConstantBorder_describes (bits_le t) _ _ _ _ _ _) hdst hsize m
      next hreplicate =>
        rw [samplingS16, if_neg hreplicate]
        exact c.followsS16 hchannels.symm (fun row column =>
          remapS16Replicate_describes _ _ _ _ _) hdst hsize m

/-- The kernels of `remap_s16point5` by pixel. -/
theorem replicatePoint5_describes (src : ℕ → BitVec t.bits) (stride xmax ymax : BitVec 16)
    (entries : Fin (2 * 4) → MapEntry) :
    (replicatePoint5Sampling 1 src stride xmax ymax MapEntry.x MapEntry.y
      (if t = .u8 then readThere else readClamped xmax ymax)).Describes entries
      (remapS16Point5Replicate t src stride xmax ymax (fun lane => (entries lane).x)
        (fun lane => (entries lane).y) fun lane => (entries lane).frac) := by
  cases t with
  | u8 => exact replicateU8_describes src
  | u16 => exact replicateU16_describes src

theorem constantPoint5_describes (src : ℕ → BitVec t.bits) (stride width height : BitVec 16)
    (border : ℕ → BitVec t.bits) (entries : Fin (2 * 4) → MapEntry) :
    (constantBorderPoint5Sampling 1 src stride width height border).Describes entries
      (remapS16Point5ConstantBorder t src stride width height ((border 0).setWidth 16)
        (fun lane => (entries lane).x) (fun lane => (entries lane).y)
        fun lane => (entries lane).frac) := by
  cases t with
  | u8 => exact constantBorderU8_describes src width height border
  | u16 => exact constantBorderU16_describes src width height border

theorem replicate4chPoint5_describes {src : ℕ → BitVec t.bits} {stride : BitVec 16}
    (hstride : stride.toNat ≤ 16383) (xmax ymax : BitVec 16) (entries : Fin (2 * 4) → MapEntry) :
    (replicate4chSampling src stride xmax ymax).Describes entries
      (remapS16Point5Replicate4chOf t src stride xmax ymax (fun lane => (entries lane).x)
        (fun lane => (entries lane).y) fun lane => (entries lane).frac) := by
  cases t with
  | u8 => exact replicate4chU8_describes hstride src xmax ymax
  | u16 => exact replicate4chU16_describes hstride src xmax ymax

theorem constant4chPoint5_describes {src : ℕ → BitVec t.bits} {stride : BitVec 16}
    (hstride : stride.toNat ≤ 16383) (width height : BitVec 16) (border : ℕ → BitVec t.bits)
    (entries : Fin (2 * 4) → MapEntry) :
    (constantBorderPoint5Sampling 4 src stride width height border).Describes entries
      (remapS16Point5Constant4chOf t src stride width height border (fun lane => (entries lane).x)
        (fun lane => (entries lane).y) fun lane => (entries lane).frac) := by
  cases t with
  | u8 => exact constant4chU8_describes hstride src width height border
  | u16 => exact constant4chU16_describes hstride src width height border

/-- `remap_s16point5` follows its maps. -/
theorem remapS16Point5_follows {m : ℕ → BitVec t.bits} (h : (remapS16Point5 t c m).1 = .ok) :
    ∃ channels, c.Accepted channels ∧
      c.Follows c.entryPoint5 channels (c.samplingPoint5 channels) m (remapS16Point5 t c m).2 := by
  unfold remapS16Point5 at h ⊢
  split at h
  · contradiction
  next hchecks =>
    rw [if_neg hchecks]
    split at h
    · contradiction
    next himplemented =>
      rw [if_neg himplemented]
      simp only [Bool.not_eq_true', Bool.not_eq_false, remapS16Point5IsImplemented,
        decide_eq_true_eq] at himplemented
      obtain ⟨hstride, hdst, hw, hh, hborder, hchannels⟩ := himplemented
      have hsize : checkImageSize c.dstWidth c.dstHeight = true := by
        by_contra hno
        refine hchecks ?_
        unfold checksPoint5
        split_ifs <;> simp_all
      have haccepted : c.Accepted c.channels :=
        ⟨rfl, hchannels, hborder, hdst, hw, hh, hstride⟩
      refine ⟨c.channels, haccepted, ?_⟩
      rcases hchannels with hc | hc
      · rw [if_pos hc, hc, samplingPoint5]
        split
        next hconstant =>
          exact c.followsPoint5 Nat.one_pos hc.symm (fun row column =>
            constantPoint5_describes _ _ _ _ _ _) hdst hsize m
        next hreplicate =>
          exact c.followsPoint5 Nat.one_pos hc.symm (fun row column =>
            replicatePoint5_describes _ _ _ _ _) hdst hsize m
      · have hle : (c.elementStride t.size).toNat ≤ 16383 :=
          c.elementStride_le (hc ▸ haccepted)
        have hone : c.channels ≠ 1 := by omega
        rw [if_neg hone, hc, samplingPoint5]
        split
        next hconstant =>
          exact c.followsPoint5 (by decide) hc.symm (fun row column =>
            constant4chPoint5_describes hle _ _ _ _) hdst hsize m
        next hreplicate =>
          exact c.followsPoint5 (by decide) hc.symm (fun row column =>
            replicate4chPoint5_describes hle _ _ _) hdst hsize m

end RemapCall

/-! ### Coordinates inside the source -/

namespace Remap

section

variable {n : ℕ}

/-- `v_xmax_` of a width, or `v_ymax_` of a height. -/
theorem max_toNat (h0 : 0 < n) (h : n ≤ 32768) : (BitVec.ofNat 16 (sizeSub n 1)).toNat = n - 1 := by
  have hmod : n < sizeMod := h.trans_lt (by decide)
  rw [sizeSub_eq h0 hmod, BitVec.toNat_ofNat]
  omega

theorem toInt_cases (x : BitVec 16) :
    (x.toNat < 32768 ∧ x.toInt = x.toNat) ∨ (32768 ≤ x.toNat ∧ x.toInt = (x.toNat : ℤ) - 65536) := by
  have hx := x.isLt
  rw [BitVec.toInt_eq_toNat_cond]
  split
  · exact .inl ⟨by omega, rfl⟩
  · exact .inr ⟨by omega, by norm_num⟩

theorem max_toInt (h0 : 0 < n) (h : n ≤ 32768) :
    (BitVec.ofNat 16 (sizeSub n 1)).toInt = (n : ℤ) - 1 := by
  have hnat := max_toNat h0 h
  rcases toInt_cases (BitVec.ofNat 16 (sizeSub n 1)) with ⟨-, hint⟩ | ⟨hbig, -⟩
  · rw [hint, hnat]
    omega
  · omega

/-- A clamped coordinate. -/
theorem clamped_toNat (h0 : 0 < n) (h : n ≤ 32768) (x : BitVec 16) :
    ((clamped x (BitVec.ofNat 16 (sizeSub n 1))).toNat : ℤ) = max 0 (min x.toInt (n - 1)) := by
  have hmax := max_toInt h0 h
  have hnat := max_toNat h0 h
  have hzero : (0 : BitVec 16).toInt = 0 := rfl
  rcases toInt_cases x with ⟨hx, hxi⟩ | ⟨hx, hxi⟩
  · unfold clamped
    simp only [BitVec.slt_iff_toInt_lt, hmax]
    split_ifs <;> simp_all <;> omega
  · unfold clamped
    simp only [BitVec.slt_iff_toInt_lt, hmax]
    split_ifs <;> simp_all <;> omega

/-- The coordinate after a clamped one. -/
theorem nextUnless_toNat (h0 : 0 < n) (h : n ≤ 32768) (x limit : BitVec 16) :
    (nextUnless (clamped x (BitVec.ofNat 16 (sizeSub n 1))) limit
        (BitVec.ofNat 16 (sizeSub n 1))).toNat =
      (clamped x (BitVec.ofNat 16 (sizeSub n 1))).toNat +
        if limit.toInt < (n : ℤ) - 1 then 1 else 0 := by
  have hclamped := clamped_toNat h0 h x
  unfold nextUnless
  simp only [BitVec.slt_iff_toInt_lt, max_toInt h0 h]
  split
  · have hone : (1 : BitVec 16).toNat = 1 := rfl
    rw [BitVec.toNat_add, hone]
    omega
  · rw [Nat.add_zero]

theorem clamped_lt (h0 : 0 < n) (h : n ≤ 32768) (x : BitVec 16) :
    (clamped x (BitVec.ofNat 16 (sizeSub n 1))).toNat < n := by
  have hclamped := clamped_toNat h0 h x
  omega

/-- The next coordinate, if the one of the map decides whether there is one: only in a
source of size one can a negative coordinate lead outside. -/
theorem next_lt_iff (h0 : 0 < n) (h : n ≤ 32768) (x : BitVec 16) :
    (nextUnless (clamped x (BitVec.ofNat 16 (sizeSub n 1))) x
        (BitVec.ofNat 16 (sizeSub n 1))).toNat < n ↔ (n = 1 → 0 ≤ x.toInt) := by
  have hclamped := clamped_toNat h0 h x
  rw [nextUnless_toNat h0 h]
  split <;> omega

/-- The next coordinate, if the clamped one decides. -/
theorem next_clamped_lt (h0 : 0 < n) (h : n ≤ 32768) (x : BitVec 16) :
    (nextUnless (clamped x (BitVec.ofNat 16 (sizeSub n 1)))
        (clamped x (BitVec.ofNat 16 (sizeSub n 1))) (BitVec.ofNat 16 (sizeSub n 1))).toNat < n := by
  have hclamped := clamped_toNat h0 h x
  rw [nextUnless_toNat h0 h]
  rcases toInt_cases (clamped x (BitVec.ofNat 16 (sizeSub n 1))) with ⟨h1, h2⟩ | ⟨h1, h2⟩
  · rw [h2]
    split <;> omega
  · omega

theorem ult_clamped_lt (h0 : 0 < n) (h : n ≤ 32768) (z : BitVec 16) :
    (if z.ult (BitVec.ofNat 16 (sizeSub n 1)) then z
      else BitVec.ofNat 16 (sizeSub n 1)).toNat < n := by
  have hnat := max_toNat h0 h
  split
  next hz =>
    rw [BitVec.ult_iff_lt, BitVec.lt_def] at hz
    omega
  next => omega

/-- Coordinates that are clamped when they are read. -/
theorem readClamped_lt {m : ℕ} (h0 : 0 < n) (h : n ≤ 32768) (h0' : 0 < m) (h' : m ≤ 32768)
    (x y : BitVec 16) :
    (readClamped (BitVec.ofNat 16 (sizeSub n 1)) (BitVec.ofNat 16 (sizeSub m 1)) x y).1.toNat < n ∧
      (readClamped (BitVec.ofNat 16 (sizeSub n 1)) (BitVec.ofNat 16 (sizeSub m 1)) x y).2.toNat <
        m := by
  simp only [readClamped]
  exact ⟨ult_clamped_lt h0 h _, ult_clamped_lt h0' h' _⟩

/-- Neighbours outside the image are read at its first pixel. -/
theorem readInside_lt {w h : ℕ} (h0 : 0 < w) (hw : w ≤ 32768) (h0' : 0 < h) (hh : h ≤ 32768)
    (x y : BitVec 16) :
    (readInside (BitVec.ofNat 16 w) (BitVec.ofNat 16 h) x y).1.toNat < w ∧
      (readInside (BitVec.ofNat 16 w) (BitVec.ofNat 16 h) x y).2.toNat < h := by
  have hsize : ∀ {n : ℕ}, n ≤ 32768 → (BitVec.ofNat 16 n).toNat = n := fun hn => by
    rw [BitVec.toNat_ofNat]
    omega
  rw [readInside]
  split
  next hin =>
    rw [BitVec.ult_iff_lt, BitVec.ult_iff_lt, BitVec.lt_def, BitVec.lt_def, hsize hw,
      hsize hh] at hin
    exact hin
  next => exact ⟨h0, h0'⟩

end

/-- What is read for an entry has coordinates inside the source. -/
def Sampling.Inside {v channels : ℕ} (k : Sampling v channels) (w h : ℕ) (e : MapEntry) : Prop :=
  ∀ tap ∈ k.taps e, tap.x.toNat < w ∧ tap.y.toNat < h

theorem Sampling.inside_iff {v channels : ℕ} {k : Sampling v channels} {w h : ℕ} {e : MapEntry}
    (hthere : k.readAt = readThere) :
    k.Inside w h e ↔ ((k.x0 e).toNat < w ∧ (k.x1 e).toNat < w) ∧
      (k.y0 e).toNat < h ∧ (k.y1 e).toNat < h := by
  simp only [Sampling.Inside, Sampling.taps, Set.mem_insert_iff, Set.mem_singleton_iff,
    Sampling.tap, pixelTap, hthere, readThere]
  constructor
  · intro hall
    have ha := hall _ (.inl rfl)
    have hd := hall _ (.inr (.inr (.inr rfl)))
    exact ⟨⟨ha.1, hd.1⟩, ha.2, hd.2⟩
  · rintro ⟨⟨h1, h2⟩, h3, h4⟩ tap (rfl | rfl | rfl | rfl)
    · exact ⟨h1, h3⟩
    · exact ⟨h2, h3⟩
    · exact ⟨h1, h4⟩
    · exact ⟨h2, h4⟩

/-- Whatever the neighbours are, they are read inside. -/
theorem Sampling.inside_of_readAt {v channels : ℕ} {k : Sampling v channels} {w h : ℕ}
    (hread : ∀ x y, (k.readAt x y).1.toNat < w ∧ (k.readAt x y).2.toNat < h) (e : MapEntry) :
    k.Inside w h e := by
  simp only [Sampling.Inside, Sampling.taps, Set.mem_insert_iff, Set.mem_singleton_iff]
  rintro tap (rfl | rfl | rfl | rfl)
  · exact hread _ _
  · exact hread _ _
  · exact hread _ _
  · exact hread _ _

/-- Nothing is inside an empty source. -/
theorem Sampling.Inside.pos {v channels : ℕ} {k : Sampling v channels} {w h : ℕ} {e : MapEntry}
    (hin : k.Inside w h e) : 0 < w ∧ 0 < h := by
  have hfirst := hin _ (.inl rfl)
  omega

end Remap

/-! ### What is read -/

namespace RemapCall

variable {t : RemapType} (c : RemapCall t.bits)

/-- A pixel of the source, and an offset that did not wrap. -/
def InSource (tap : Tap) : Prop :=
  tap.x.toNat < c.srcWidth ∧ tap.y.toNat < c.srcHeight ∧
    tap.offset.toNat = tap.x.toNat * c.channels + tap.y.toNat * (c.srcStride / t.size)

/-- A run that reads nothing but elements of the source. -/
def ReadsInside {α : Type} (s : Traced Tap α) : Prop := ∀ tap ∈ s.trace, c.InSource tap

variable {c} {channels : ℕ} {k : Sampling t.bits channels} {entry : ℕ × ℕ → MapEntry}
  {m : ℕ → BitVec t.bits} {s : Traced Tap (ℕ → BitVec t.bits)}

/-- Offsets are those of the integers. -/
theorem offset_toNat (h : c.Accepted channels) (x y : BitVec 16) :
    (pixelTap channels (c.elementStride t.size) x y).offset.toNat =
      x.toNat * c.channels + y.toNat * (c.srcStride / t.size) := by
  have hx := x.isLt
  have hy := y.isLt
  have hstride := h.stride_le
  have hbound : channels * x.toNat + y.toNat * (c.srcStride / t.size) < 2 ^ 32 := by
    rcases h.channels_cases with rfl | rfl
    · have := Nat.mul_le_mul (show y.toNat ≤ 65535 by omega) hstride
      omega
    · have := Nat.mul_le_mul (show y.toNat ≤ 65535 by omega) hstride
      omega
  rw [pixelTap, c.elementStride_toNat h, BitVec.toNat_ofNat, Nat.mod_eq_of_lt hbound, h.channels_eq,
    Nat.mul_comm]

/-- A run reads inside the source if the neighbours of all pixels are inside. -/
theorem Follows.reads_iff (haccepted : c.Accepted channels)
    (hstride : k.stride = c.elementStride t.size) (hs : c.Follows entry channels k m s) :
    c.ReadsInside s ↔
      ∀ p ∈ pixels c.dstWidth c.dstHeight, k.Inside c.srcWidth c.srcHeight (entry p) := by
  have hoffset : ∀ e, ∀ tap ∈ k.taps e, tap.offset.toNat =
      tap.x.toNat * c.channels + tap.y.toNat * (c.srcStride / t.size) := by
    intro e tap htap
    simp only [Sampling.taps, Set.mem_insert_iff, Set.mem_singleton_iff, Sampling.tap, hstride] at htap
    rcases htap with rfl | rfl | rfl | rfl
    all_goals exact offset_toNat haccepted _ _
  constructor
  · intro hreads p hp tap htap
    obtain ⟨hx, hy, -⟩ := hreads tap ((hs.2.1 tap).mpr ⟨p, hp, htap⟩)
    exact ⟨hx, hy⟩
  · intro hinside tap htap
    obtain ⟨p, hp, hmem⟩ := (hs.2.1 tap).mp htap
    obtain ⟨hx, hy⟩ := hinside p hp tap hmem
    exact ⟨hx, hy, hoffset _ _ hmem⟩

/-- A source without pixels is read outside. -/
theorem Follows.pos (haccepted : c.Accepted channels) (hstride : k.stride = c.elementStride t.size)
    (hs : c.Follows entry channels k m s) (hheight : 0 < c.dstHeight) (hreads : c.ReadsInside s) :
    0 < c.srcWidth ∧ 0 < c.srcHeight := by
  have hwidth := haccepted.dstWidth_le
  have hpixel : (0, 0) ∈ pixels c.dstWidth c.dstHeight := ⟨hheight, by omega⟩
  exact ((hs.reads_iff haccepted hstride).mp hreads _ hpixel).pos

/-- The kernels of `remap_s16` clamp, or read the first pixel instead. -/
theorem samplingS16_inside (haccepted : c.Accepted channels) (hw : 0 < c.srcWidth)
    (hh : 0 < c.srcHeight) (e : MapEntry) :
    (c.samplingS16 channels).Inside c.srcWidth c.srcHeight e := by
  have hwle := haccepted.srcWidth_le
  have hhle := haccepted.srcHeight_le
  rw [samplingS16]
  split
  · exact Sampling.inside_of_readAt (readInside_lt hw hwle hh hhle) e
  · rw [Sampling.inside_iff rfl]
    simp only [replicateSampling, xmax, ymax, clamped_lt hw hwle, clamped_lt hh hhle, and_self]

/-- So do those of `remap_s16point5`, but for `RemapS16Point5Replicate<uint8_t>`: it
compares the coordinate of the map with the maximum, not the clamped one, and in a source
of size one a negative coordinate is below the maximum. -/
theorem samplingPoint5_inside_iff (haccepted : c.Accepted channels) (hw : 0 < c.srcWidth)
    (hh : 0 < c.srcHeight) (e : MapEntry) :
    (c.samplingPoint5 channels).Inside c.srcWidth c.srcHeight e ↔
      (t = .u8 → channels = 1 → c.borderType = .replicate →
        (c.srcWidth = 1 → 0 ≤ e.x.toInt) ∧ (c.srcHeight = 1 → 0 ≤ e.y.toInt)) := by
  have hwle := haccepted.srcWidth_le
  have hhle := haccepted.srcHeight_le
  rw [samplingPoint5]
  split
  next hconstant =>
    refine iff_of_true (Sampling.inside_of_readAt (readInside_lt hw hwle hh hhle) e) ?_
    intro _ _ hreplicate
    rw [hconstant] at hreplicate
    contradiction
  next hborder =>
    have hreplicate := haccepted.borderType_cases.resolve_right hborder
    split
    next hone =>
      split
      next ht =>
        rw [Sampling.inside_iff rfl]
        simp only [replicatePoint5Sampling, xmax, ymax, clamped_lt hw hwle, clamped_lt hh hhle,
          next_lt_iff hw hwle, next_lt_iff hh hhle, true_and, ht, hone, hreplicate, forall_true_left]
      next ht =>
        refine iff_of_true (Sampling.inside_of_readAt ?_ e) fun h => absurd h ht
        simp only [replicatePoint5Sampling, xmax, ymax]
        exact readClamped_lt hw hwle hh hhle
    next hfour =>
      refine iff_of_true ?_ fun _ h => absurd h hfour
      rw [Sampling.inside_iff rfl]
      simp only [replicatePoint5Sampling, xmax, ymax, clamped_lt hw hwle, clamped_lt hh hhle,
        next_clamped_lt hw hwle, next_clamped_lt hh hhle, and_self]

theorem samplingS16_stride (channels : ℕ) :
    (c.samplingS16 channels).stride = c.elementStride t.size := by
  rw [samplingS16]
  split <;> rfl

theorem samplingPoint5_stride (channels : ℕ) :
    (c.samplingPoint5 channels).stride = c.elementStride t.size := by
  rw [samplingPoint5]
  split_ifs <;> rfl

/-- What `remap_s16` reads. -/
theorem remapS16_reads_iff (h : (remapS16 t c m).1 = .ok) (hheight : 0 < c.dstHeight) :
    c.ReadsInside (remapS16 t c m).2 ↔ 0 < c.srcWidth ∧ 0 < c.srcHeight := by
  obtain ⟨haccepted, hs⟩ := c.remapS16_follows h
  refine ⟨hs.pos haccepted (samplingS16_stride 1) hheight, fun ⟨hw, hh⟩ => ?_⟩
  exact (hs.reads_iff haccepted (samplingS16_stride 1)).mpr fun p _ =>
    samplingS16_inside haccepted hw hh (c.entryS16 p)

/-- The condition that the entries of the maps keep `RemapS16Point5Replicate<uint8_t>`
inside the source. -/
def NonnegativeWhereThin (c : RemapCall t.bits) : Prop :=
  ∀ p ∈ pixels c.dstWidth c.dstHeight,
    (c.srcWidth = 1 → 0 ≤ (c.entryPoint5 p).x.toInt) ∧
      (c.srcHeight = 1 → 0 ≤ (c.entryPoint5 p).y.toInt)

/-- What `remap_s16point5` reads. -/
theorem remapS16Point5_reads_iff (h : (remapS16Point5 t c m).1 = .ok) (hheight : 0 < c.dstHeight) :
    c.ReadsInside (remapS16Point5 t c m).2 ↔ (0 < c.srcWidth ∧ 0 < c.srcHeight) ∧
      (t = .u8 → c.channels = 1 → c.borderType = .replicate → c.NonnegativeWhereThin) := by
  obtain ⟨channels, haccepted, hs⟩ := c.remapS16Point5_follows h
  have hreads := hs.reads_iff haccepted (samplingPoint5_stride channels)
  constructor
  · intro hinside
    have hpos := hs.pos haccepted (samplingPoint5_stride channels) hheight hinside
    refine ⟨hpos, fun ht hc hb p hp => ?_⟩
    exact (samplingPoint5_inside_iff haccepted hpos.1 hpos.2 _).mp (hreads.mp hinside p hp) ht
      (haccepted.channels_eq.trans hc) hb
  · rintro ⟨hpos, hthin⟩
    refine hreads.mpr fun p hp => ?_
    refine (samplingPoint5_inside_iff haccepted hpos.1 hpos.2 _).mpr fun ht hc hb => ?_
    exact hthin ht (haccepted.channels_eq.symm.trans hc) hb p hp

end RemapCall

/-- **What the calls read.**  Every element that is read lies in the source, at an offset
that did not wrap, if the source has pixels and, for one channel of bytes and replicated
borders, coordinates are not negative where the source has a single column or row. -/
theorem remap_reads_iff (t : RemapType) (c : RemapCall t.bits) (m : ℕ → BitVec t.bits)
    (hheight : 0 < c.dstHeight) :
    ((remapS16 t c m).1 = .ok →
      (c.ReadsInside (remapS16 t c m).2 ↔ 0 < c.srcWidth ∧ 0 < c.srcHeight)) ∧
    ((remapS16Point5 t c m).1 = .ok →
      (c.ReadsInside (remapS16Point5 t c m).2 ↔ (0 < c.srcWidth ∧ 0 < c.srcHeight) ∧
        (t = .u8 → c.channels = 1 → c.borderType = .replicate → c.NonnegativeWhereThin))) :=
  ⟨fun h => RemapCall.remapS16_reads_iff h hheight,
    fun h => RemapCall.remapS16Point5_reads_iff h hheight⟩

/-- Eight pixels from a source of a size; the coordinates of the maps are all the same. -/
def remapEight (srcWidth srcHeight : ℕ) (coordinate : BitVec 16) : RemapCall 8 where
  src := 64
  srcStride := srcWidth
  srcWidth := srcWidth
  srcHeight := srcHeight
  dst := 512
  dstStride := 8
  dstWidth := 8
  dstHeight := 1
  channels := 1
  mapxy := 1024
  mapxyStride := 32
  mapfrac := 2048
  mapfracStride := 16
  borderType := .replicate
  borderValue := none
  source := fun i => BitVec.ofNat 8 i
  coordinates := fun _ => coordinate
  fractions := fun _ => 0

theorem remap_reads_eight :
    RemapCall.ReadsInside (t := .u8) (remapEight 3 2 (-1))
      (remapS16Point5 .u8 (remapEight 3 2 (-1)) fun _ => 0).2 :=
  ((remap_reads_iff .u8 (remapEight 3 2 (-1)) (fun _ => 0) (by decide)).2 rfl).mpr
    ⟨by decide, fun _ _ _ _ _ => ⟨fun h => absurd h (by decide), fun h => absurd h (by decide)⟩⟩

/-- A source of one pixel, and a map to the left of it and above. -/
theorem remap_reads_outside :
    (remapS16Point5 .u8 (remapEight 1 1 (-1)) fun _ => 0).1 = .ok ∧
      ¬ RemapCall.ReadsInside (t := .u8) (remapEight 1 1 (-1))
        (remapS16Point5 .u8 (remapEight 1 1 (-1)) fun _ => 0).2 := by
  refine ⟨rfl, fun hreads => ?_⟩
  have hthin := (RemapCall.remapS16Point5_reads_iff (t := .u8) (c := remapEight 1 1 (-1)) rfl
    (by decide)).mp hreads
  have hx := (hthin.2 rfl rfl rfl (0, 0) ⟨by decide, by decide⟩).1 rfl
  exact absurd hx (by decide)

end KleidiCV
