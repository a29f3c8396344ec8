/-
The scalable `blur_and_downsample`.

Every other column of two vectors of rounded sums goes to one vector: elements of one, two or
four channels are unzipped at 16, 32 or 64 bits, three channels are loaded apart.

* `horizontalVectorPath2x_wrote`, `horizontalVectorPath3Channel2x_wrote` — two vectors;
* `exact` — the driver, as the workspace relies on it;
* `blurAndDownsampleStripeU8Sc_correct` — every pixel of the destination, written once.
-/
import KleidiCV.BlurAndDownsampleWorkspace
import KleidiCV.ScalableGaussianBlur

open Loop

namespace KleidiCV

open Scalable

namespace ScalableBlurAndDownsample

section

-- What `_x` operations leave in inactive lanes, by place, operation and lane.
variable (vl : VectorLength) (unspecified : ℕ → ℕ → ℕ → BitVec (2 * 8))

/-- `BufferVecTraits::num_lanes()`. -/
abbrev lanes : ℕ := Scalable.numLanes vl 2

/-! ### The vertical pass -/

/-- `vertical_vector_path`, written as the one of `GaussianBlur<uint8_t, 5, true>` is. -/
abbrev verticalVectorPath : (ℕ → Bool) → (ℕ → ℕ → BitVec 8) → ℕ → (ℕ → BitVec 16) → ℕ → BitVec 16 :=
  ScalableBlur5x5.verticalVectorPath (lanes vl) unspecified

/-- `vertical_vector_path_2x`. -/
def verticalVectorPath2x (pg : ℕ → Bool) (src : ℕ → BitVec 8) (srcRows dstRows : Rows)
    (borderOffsets : Offsets) (index : ℕ) (buffer : ℕ → BitVec 16) : ℕ → BitVec 16 :=
  let sourceLanes := Scalable.numLanes vl 1
  let srcRow := fun t => srcRows.ptrAt (borderOffsets.c t) 0 index
  buffer |>
    verticalVectorPath vl unspecified pg (fun t => Sve.svld1 pg src (srcRow t))
      (dstRows.ptrAt 0 0 index) |>
    verticalVectorPath vl unspecified pg (fun t => Sve.svld1 pg src (srcRow t + sourceLanes))
      (dstRows.ptrAt 0 0 (index + sourceLanes))

/-- `vertical_vector_path_1x`. -/
def verticalVectorPath1x (pg : ℕ → Bool) (src : ℕ → BitVec 8) (srcRows dstRows : Rows)
    (borderOffsets : Offsets) (index : ℕ) (buffer : ℕ → BitVec 16) : ℕ → BitVec 16 :=
  verticalVectorPath vl unspecified pg
    (fun t => Sve.svld1 pg src (srcRows.ptrAt (borderOffsets.c t) 0 index))
    (dstRows.ptrAt 0 0 index) buffer

/-- `process_vertical`. -/
def processVertical (width : ℕ) (src : ℕ → BitVec 8) (srcRows dstRows : Rows)
    (borderOffsets : Offsets) (buffer : ℕ → BitVec 16) : ℕ → BitVec 16 :=
  ((LoopUnroll2.start (width * srcRows.channels) (Scalable.numLanes vl 1), buffer) |>
    LoopUnroll2.unrollTwice (fun index =>
      verticalVectorPath2x vl unspecified svptrue src srcRows dstRows borderOffsets index) |>
    LoopUnroll2.unrollOnce (fun index =>
      verticalVectorPath1x vl unspecified svptrue src srcRows dstRows borderOffsets index) |>
    LoopUnroll2.remaining (fun index length =>
      verticalVectorPath1x vl unspecified (svwhilelt index length) src srcRows dstRows borderOffsets
        index)).2

/-! ### The horizontal passes -/

/-- `horizontal_vector_path`, written as the one of `GaussianBlur<uint8_t, 5, true>` is before
it stores. -/
abbrev horizontalVectorPath : (ℕ → Bool) → (ℕ → ℕ → BitVec 16) → ℕ → ℕ → BitVec 16 :=
  ScalableBlur5x5.horizontalSum unspecified

/-- `horizontal_vector_path_2x<Channels>`. -/
def horizontalVectorPath2x (channels : ℕ) (pgSrc0 pgSrc1 : ℕ → Bool) (buffer : ℕ → BitVec 16)
    (srcRows : Rows) (pgDst : ℕ → Bool) (dstRows : Rows) (borderOffsets : Offsets) (index : ℕ)
    (dst : Tallied (BitVec 8)) : Tallied (BitVec 8) :=
  let src := fun t => srcRows.ptrAt 0 (borderOffsets.c t) index
  let res0 := horizontalVectorPath unspecified pgSrc0 (fun t => Sve.svld1 pgSrc0 buffer (src t)) index
  let res1 := horizontalVectorPath unspecified pgSrc1
    (fun t => Sve.svld1 pgSrc1 buffer (src t + lanes vl)) (index + lanes vl)
  let resEvenOnly := Sve.svuzp1 (lanes vl) channels res0 res1
  Sve.svst1b (lanes vl) pgDst (dstRows.ptrAt 0 0 (index / 2)) resEvenOnly dst

/-- `process_horizontal<Channels>`. -/
def processHorizontalUnzipped (channels width : ℕ) (buffer : ℕ → BitVec 16) (srcRows dstRows : Rows)
    (borderOffsets : Offsets) (dst : Tallied (BitVec 8)) : Tallied (BitVec 8) :=
  ((LoopUnroll2.start (width * srcRows.channels) (lanes vl), dst) |>
    LoopUnroll2.unrollTwice (fun index =>
      horizontalVectorPath2x vl unspecified channels svptrue svptrue buffer srcRows svptrue dstRows
        borderOffsets index) |>
    LoopUnroll2.remaining (fun index length =>
      let pgSrc0 := svwhilelt index length
      let pgSrc1 := svwhilelt (index + lanes vl) length
      let dstLength := (width + 1) / 2 * srcRows.channels
      let pgDst := svwhilelt (index / 2) dstLength
      horizontalVectorPath2x vl unspecified channels pgSrc0 pgSrc1 buffer srcRows pgDst dstRows
        borderOffsets index)).2

/-- `horizontal_vector_path_3_channel_2x`. -/
def horizontalVectorPath3Channel2x (pgSrc0 pgSrc1 pgDst : ℕ → Bool) (buffer : ℕ → BitVec 16)
    (srcRows dstRows : Rows) (borderOffsets : Offsets) (column vecStride : ℕ)
    (dst : Tallied (BitVec 8)) : Tallied (BitVec 8) :=
  let src := fun t => srcRows.ptrAt 0 (borderOffsets.c t) (column * 3)
  let srcA := fun t => Sve.svld3 pgSrc0 buffer (src t)
  let srcB := fun t => Sve.svld3 pgSrc1 buffer (src t + vecStride)
  let resA := fun c => horizontalVectorPath unspecified pgSrc0 (fun t => srcA t c) (column + c)
  let resB := fun c => horizontalVectorPath unspecified pgSrc1 (fun t => srcB t c)
    (column + vecStride + c)
  let out := fun c => Sve.svuzp1 (lanes vl) 1 (resA c) (resB c)
  let outU8 := fun c => Sve.svuzp1 (2 * lanes vl) 1 (Sve.svreinterpretU8 (out c))
    (Sve.svreinterpretU8 (out c))
  Sve.svst3 (2 * lanes vl) pgDst (dstRows.ptrAt 0 (column / 2 : ℕ) 0) outU8 dst

/-- `process_horizontal_3channels`. -/
def processHorizontal3Channels (width : ℕ) (buffer : ℕ → BitVec 16) (srcRows dstRows : Rows)
    (borderOffsets : Offsets) (dst : Tallied (BitVec 8)) : Tallied (BitVec 8) :=
  let vecLanes := lanes vl
  let vecStride := vecLanes * 3
  let pgDstAll := svwhilelt 0 vecLanes
  ((LoopUnroll2.start width vecLanes, dst) |>
    LoopUnroll2.unrollTwice (fun column =>
      horizontalVectorPath3Channel2x vl unspecified svptrue svptrue pgDstAll buffer srcRows dstRows
        borderOffsets column vecStride) |>
    LoopUnroll2.remaining (fun column length =>
      let pgSrc0 := svwhilelt column length
      let pgSrc1 := svwhilelt (column + vecLanes) length
      let dstLength := (width + 1) / 2
      let pgDst := svwhilelt (column / 2) dstLength
      horizontalVectorPath3Channel2x vl unspecified pgSrc0 pgSrc1 pgDst buffer srcRows dstRows
        borderOffsets column vecStride)).2

/-- `process_horizontal`. -/
def processHorizontal (width : ℕ) (buffer : ℕ → BitVec 16) (srcRows dstRows : Rows)
    (borderOffsets : Offsets) (dst : Tallied (BitVec 8)) : Tallied (BitVec 8) :=
  match srcRows.channels with
  | 1 => processHorizontalUnzipped vl unspecified 1 width buffer srcRows dstRows borderOffsets dst
  | 2 => processHorizontalUnzipped vl unspecified 2 width buffer srcRows dstRows borderOffsets dst
  | 3 => processHorizontal3Channels vl unspecified width buffer srcRows dstRows borderOffsets dst
  | _ => processHorizontalUnzipped vl unspecified 4 width buffer srcRows dstRows borderOffsets dst

/-- `svptrue_pat_b8(SV_VL1)`. -/
def svptruePatVl1 : ℕ → Bool := fun l => l == 0

/-- `horizontal_border_path`, with the sums of `horizontal_vector_path`. -/
def horizontalBorderPath (pg : ℕ → Bool) (buffer : ℕ → BitVec 16) (srcRows dstRows : Rows)
    (borderOffsets : Offsets) (index : ℕ) (dst : Tallied (BitVec 8)) : Tallied (BitVec 8) :=
  let acc := horizontalVectorPath unspecified pg
    (fun t => Sve.svld1 pg buffer (srcRows.ptrAt 0 (borderOffsets.c t) index)) index
  Sve.svst1b (lanes vl) pg (dstRows.ptrAt 0 0 index) acc dst

/-- `process_horizontal_borders`. -/
def processHorizontalBorders (buffer : ℕ → BitVec 16) (srcRows dstRows : Rows)
    (borderOffsets : Offsets) (dst : Tallied (BitVec 8)) : Tallied (BitVec 8) :=
  forRange srcRows.channels (fun index =>
    horizontalBorderPath vl unspecified (Sve.wide svptruePatVl1) buffer srcRows dstRows borderOffsets
      index) dst

/-- The driver as the workspace sees it. -/
def driver : BlurAndDownsampleDriver where
  processVertical := processVertical vl unspecified
  processHorizontal := processHorizontal vl unspecified
  processHorizontalBorders := processHorizontalBorders vl unspecified

end

variable {vl : VectorLength} {unspecified : ℕ → ℕ → ℕ → BitVec (2 * 8)}

/-- A vertical sum. -/
abbrev Vertical (src : ℕ → BitVec 8) (v : BitVec 16) : Prop :=
  v.toNat = GaussianBlur.convolve BlurAndDownsampleDriver.kernel src

/-! ### The vertical pass, proved -/

/-- Whole vectors in pairs, one, then what is left through a predicate. -/
theorem processVertical_filtered {width y : ℕ} {src : ℕ → BitVec 8} {srcRows bufferRows : Rows}
    {offsets : Offsets} {row : ℕ → ℕ} (hrow : ∀ t < 5, (y : ℤ) + offsets.c t = row t)
    (hbase : bufferRows.ptr = 0) (buffer : ℕ → BitVec 16) :
    ScalableFilter.Filtered Vertical src srcRows row (width * srcRows.channels) buffer
      (width * srcRows.channels)
      (processVertical vl unspecified width src (srcRows.atOffset y 0) bufferRows offsets
        buffer) := by
  have hf : (ScalableBlur5x5.filterType unspecified vl).ComputesOn 5 ScalableBlur5x5.Valid Vertical _ :=
    ScalableBlur5x5.filterType_computesOn vl
  have hchannels : (srcRows.atOffset y 0).channels = srcRows.channels := rfl
  have hdst : ∀ index : ℕ, bufferRows.ptrAt 0 0 index = index := fun index => by
    have := bufferRows.ptrAt_natCast 0 0 index
    simpa [hbase] using this
  -- A vector carries on the row from `index`, wherever its pointers come from.
  have hvector : ∀ {pg k index sources buffer'}, Leading (Scalable.numLanes vl 1) pg k →
      index + k ≤ width * srcRows.channels →
      (∀ t < 5, sources t =
        Sve.svld1 pg src (srcRows.ptr + row t * srcRows.stride + index)) →
      ScalableFilter.Filtered Vertical src srcRows row (width * srcRows.channels) buffer index
        buffer' →
      ScalableFilter.Filtered Vertical src srcRows row (width * srcRows.channels) buffer
        (index + k)
        (verticalVectorPath vl unspecified pg sources (bufferRows.ptrAt 0 0 index) buffer') := by
    intro pg k index sources buffer' hpg hk hsources h
    obtain ⟨g, heq, hg⟩ := hf.verticalVector pg k hpg sources index buffer'
    rw [hdst]
    refine (congrArg _ heq).mpr (h.step hk fun lane hlane => ?_)
    refine hf.vertical_congr _ _ _ (fun t ht => ?_) (hg lane hlane)
    rw [hsources t ht, Sve.svld1_of_lt hpg hlane, Nat.add_assoc]
  have hsource : ∀ t < 5, ∀ pg index, Sve.svld1 pg src
      ((srcRows.atOffset y 0).ptrAt (offsets.c t) 0 index) =
        Sve.svld1 pg src (srcRows.ptr + row t * srcRows.stride + index) := fun t ht pg index =>
    congrArg (Sve.svld1 pg src) (Rows.ptrAt_row (hrow t ht) index)
  have htwice : Unrolled (width * srcRows.channels) (Scalable.numLanes vl 1)
      (ScalableFilter.Filtered Vertical src srcRows row (width * srcRows.channels) buffer)
      (LoopUnroll2.unrollTwice (fun index =>
        verticalVectorPath2x vl unspecified svptrue src (srcRows.atOffset y 0) bufferRows offsets
          index)
        (LoopUnroll2.start (width * srcRows.channels) (Scalable.numLanes vl 1), buffer)) := by
    refine (Unrolled.start ⟨fun e he => absurd he (Nat.not_lt_zero e), fun _ _ => rfl⟩).unrollNTimes
      fun i buffer' hi h => ?_
    have hfirst := hvector leading_ptrue (by omega) (fun t ht => hsource t ht svptrue i) h
    have hsecond := hvector leading_ptrue (by omega) (fun t ht => congrArg (Sve.svld1 svptrue src)
      ((congrArg (· + Scalable.numLanes vl 1) (Rows.ptrAt_row (hrow t ht) i)).trans
        (Nat.add_assoc _ _ _))) hfirst
    rwa [Nat.add_assoc, ← Nat.two_mul] at hsecond
  rw [processVertical, hchannels]
  refine htwice.unrollOnce_remaining hf.sourceLanes_pos _ ?_ (fun _ h => h) ?_
  · intro i buffer' hi h
    rw [verticalVectorPath1x]
    exact hvector leading_ptrue hi (fun t ht => hsource t ht svptrue i) h
  · intro i buffer' hi hlt h
    have hrest := hvector (leading_whilelt hlt.le) (by omega)
      (fun t ht => hsource t ht (svwhilelt i (width * srcRows.channels)) i) h
    rw [Nat.add_sub_cancel' hi.le] at hrest
    rwa [verticalVectorPath1x]

/-! ### The horizontal passes, proved -/

/-- An active lane, whose taps hold `values`. -/
theorem horizontalVectorPath_eq {pg : ℕ → Bool} {l place : ℕ} (hl : pg l = true)
    {sources : ℕ → ℕ → BitVec 16} {values : ℕ → BitVec 16}
    (hsources : ∀ t < 5, sources t l = values t)
    (hvalid : ∀ t < 5, BlurAndDownsampleDriver.Valid (values t)) :
    Sve.narrow 8 (horizontalVectorPath unspecified pg sources place) l =
      BlurAndDownsampleDriver.horizontal values := by
  rw [horizontalVectorPath, ScalableBlur5x5.horizontalSum_spec hl fun t ht =>
    (congrArg ScalableBlur5x5.Valid (hsources t ht)).mpr (hvalid t ht)]
  exact BlurAndDownsampleDriver.horizontal_congr hsources

section

variable {n x z : ℕ} {buffer : ℕ → BitVec 16} {bufferRows dstRows : Rows} {offsets : Offsets}
  {column : ℕ → ℕ} {val : ℕ → BitVec 8}

/-- Two vectors: every other pixel from pixel `2 * m` on, `k` of them. -/
theorem horizontalVectorPath2x_wrote {channels m k : ℕ} {pgSrc0 pgSrc1 pgDst : ℕ → Bool}
    (hcolumn : ∀ t < 5, (x : ℤ) + offsets.c t = column t) (hbase : bufferRows.ptr = 0)
    (hch : bufferRows.channels = channels) (hchannels : dstRows.channels = channels)
    (hvalid : ∀ t < 5, ∀ index < n * channels,
      BlurAndDownsampleDriver.Valid (buffer (column t * channels + index)))
    (hval : ∀ q < (n + 1) / 2, ∀ c < channels,
      BlurAndDownsampleDriver.horizontal (fun t =>
        buffer (column t * channels + (2 * q * channels + c))) =
          val (z * channels + (q * channels + c)))
    (hdst : Leading (lanes vl) pgDst (k * channels)) (hk : m + k ≤ (n + 1) / 2)
    (hsrc0 : ∀ l, 2 * (m * channels) + l < n * channels → pgSrc0 l = true)
    (hsrc1 : ∀ l, 2 * (m * channels) + lanes vl + l < n * channels → pgSrc1 l = true)
    (dst : Tallied (BitVec 8)) :
    WroteOnce (dstRows.ptr + ·) val
      {e | z * channels + m * channels ≤ e ∧ e < z * channels + m * channels + k * channels} dst
      (horizontalVectorPath2x vl unspecified channels pgSrc0 pgSrc1 buffer
        (bufferRows.atOffset 0 x) pgDst (dstRows.atOffset 0 z) offsets (2 * (m * channels)) dst) := by
  have hptr : ∀ t < 5, ∀ i : ℕ, (bufferRows.atOffset 0 x).ptrAt 0 (offsets.c t) i =
      column t * channels + i := fun t ht i => by
    rw [Rows.ptrAt_column (hcolumn t ht), hbase, Nat.zero_add, hch]
  have hout : (dstRows.atOffset 0 z).ptrAt 0 0 (2 * (m * channels) / 2) =
      dstRows.ptr + (z * channels + m * channels) := by
    rw [Nat.mul_div_cancel_left _ two_pos, Rows.ptrAt_element, hchannels]
  rw [horizontalVectorPath2x, hout, Sve.svst1b_eq hdst]
  refine WroteOnce.storeRange (fun l hl => ?_) dst
  -- Lane `l` is channel `c` of pixel `q` of the pair, which is element `e` of the row.
  obtain ⟨q, c, hc, rfl⟩ : ∃ q c, c < channels ∧ q * channels + c = l :=
    ⟨l / channels, l % channels, Nat.mod_lt _ (Nat.pos_of_mul_pos_left (by omega : 0 < k * channels)),
      Nat.div_add_mod' l channels⟩
  have hq : q < k := by
    by_contra hge
    have := Nat.mul_le_mul_right channels (Nat.le_of_not_lt hge)
    omega
  have he : 2 * (m + q) * channels + c < n * channels := pixelByte_lt (by omega) hc
  have hsplit : 2 * (m + q) * channels + c = 2 * (m * channels) + (2 * q * channels + c) := by ring
  rw [show z * channels + m * channels + (q * channels + c) =
    z * channels + ((m + q) * channels + c) by ring, ← hval (m + q) (by omega) c hc]
  have hlane : (q * channels + c) / channels = q ∧ (q * channels + c) % channels = c := by
    rw [Nat.mul_comm q]
    exact ⟨by rw [Nat.mul_add_div (by omega), Nat.div_eq_of_lt hc, Nat.add_zero],
      by rw [Nat.mul_add_mod, Nat.mod_eq_of_lt hc]⟩
  rw [Sve.narrow, Sve.svuzp1, hlane.1, hlane.2]
  dsimp only
  have htaps : ∀ t < 5, BlurAndDownsampleDriver.Valid
      (buffer (column t * channels + (2 * (m + q) * channels + c))) := fun t ht => hvalid t ht _ he
  split
  · rename_i hlt
    have hactive := hsrc0 (2 * q * channels + c) (by omega)
    refine horizontalVectorPath_eq hactive (fun t ht => ?_) htaps
    rw [Sve.svld1, if_pos hactive, hptr t ht, hsplit, Nat.add_assoc]
  · rename_i hge
    have hactive := hsrc1 (2 * q * channels + c - lanes vl) (by omega)
    refine horizontalVectorPath_eq hactive (fun t ht => ?_) htaps
    rw [Sve.svld1, if_pos hactive, hptr t ht, hsplit]
    exact congrArg buffer (by omega)

/-- Pixels of the source are done in pairs, up to index `i`, where a pixel has `unit` indices. -/
def Halved (unit channels z : ℕ) (dstRows : Rows) (val : ℕ → BitVec 8) (dst : Tallied (BitVec 8))
    (i : ℕ) (dst' : Tallied (BitVec 8)) : Prop :=
  ∃ m, i = 2 * (m * unit) ∧ WroteOnce (dstRows.ptr + ·) val
    {e | z * channels ≤ e ∧ e < z * channels + m * channels} dst dst'

theorem Halved.start {unit channels : ℕ} (dst : Tallied (BitVec 8)) :
    Halved unit channels z dstRows val dst 0 dst := by
  refine ⟨0, by simp, WroteOnce.refl_of_empty dst fun e he => ?_⟩
  have hlt := he.2
  rw [Nat.zero_mul] at hlt
  exact Nat.not_lt.mpr he.1 hlt

/-- The columns in bulk, for elements that divide a vector. -/
theorem processHorizontalUnzipped_wrote {channels : ℕ} (hpos : 0 < channels)
    (hdvd : channels ∣ lanes vl)
    (hcolumn : ∀ t < 5, (x : ℤ) + offsets.c t = column t) (hbase : bufferRows.ptr = 0)
    (hch : bufferRows.channels = channels) (hchannels : dstRows.channels = channels)
    (hvalid : ∀ t < 5, ∀ index < n * channels,
      BlurAndDownsampleDriver.Valid (buffer (column t * channels + index)))
    (hval : ∀ q < (n + 1) / 2, ∀ c < channels,
      BlurAndDownsampleDriver.horizontal (fun t =>
        buffer (column t * channels + (2 * q * channels + c))) =
          val (z * channels + (q * channels + c)))
    (dst : Tallied (BitVec 8)) :
    WroteOnce (dstRows.ptr + ·) val
      {e | z * channels ≤ e ∧ e < z * channels + (n + 1) / 2 * channels} dst
      (processHorizontalUnzipped vl unspecified channels n buffer (bufferRows.atOffset 0 x)
        (dstRows.atOffset 0 z) offsets dst) := by
  obtain ⟨p, hp⟩ := hdvd
  have hlanes : lanes vl = p * channels := by rw [hp, Nat.mul_comm]
  have hstep : 0 < lanes vl := numLanes_pos vl (.inr (.inl rfl))
  have hsource : (bufferRows.atOffset 0 x).channels = channels := hch
  -- Counting elements is counting pixels.
  have hle : ∀ a b : ℕ, a * channels ≤ b * channels ↔ a ≤ b := fun a b =>
    Nat.mul_le_mul_right_iff hpos
  have hpiece : ∀ {m k pgSrc0 pgSrc1 pgDst dst'}, Leading (lanes vl) pgDst (k * channels) →
      m + k ≤ (n + 1) / 2 → (∀ l, 2 * (m * channels) + l < n * channels → pgSrc0 l = true) →
      (∀ l, 2 * (m * channels) + lanes vl + l < n * channels → pgSrc1 l = true) →
      WroteOnce (dstRows.ptr + ·) val {e | z * channels ≤ e ∧ e < z * channels + m * channels} dst
        dst' →
      WroteOnce (dstRows.ptr + ·) val
        {e | z * channels ≤ e ∧ e < z * channels + m * channels + k * channels} dst
        (horizontalVectorPath2x vl unspecified channels pgSrc0 pgSrc1 buffer
          (bufferRows.atOffset 0 x) pgDst (dstRows.atOffset 0 z) offsets (2 * (m * channels))
          dst') := by
    intro m k pgSrc0 pgSrc1 pgDst dst' hdst hk hsrc0 hsrc1 h
    exact h.append (horizontalVectorPath2x_wrote hcolumn hbase hch hchannels hvalid hval hdst hk
      hsrc0 hsrc1 dst') (Nat.le_add_right _ _) (Nat.le_add_right _ _)
  have hstart : Halved channels channels z dstRows val dst 0 dst := Halved.start dst
  rw [processHorizontalUnzipped, hsource]
  refine (Unrolled.start hstart).unrollNTimes_remaining (by omega) _ ?_ ?_ ?_
  · rintro i dst' hi ⟨m, rfl, h⟩
    have hmk : 2 * (m + p) ≤ n := (hle _ _).mp (by
      rw [hlanes] at hi
      linarith)
    have hall : Leading (lanes vl) svptrue (p * channels) := by
      rw [← hlanes]
      exact leading_ptrue
    refine ⟨m + p, ?_, (hpiece hall (by omega) (fun _ _ => rfl) (fun _ _ => rfl) h).congr ?_⟩
    · rw [hlanes]
      ring
    · rw [Nat.add_assoc, ← Nat.add_mul]
  · rintro dst' ⟨m, hm, h⟩
    have hn : n = 2 * m := Nat.eq_of_mul_eq_mul_right hpos (by linarith)
    exact h.congr (by rw [show (n + 1) / 2 = m by omega])
  · rintro _ dst' hi hlt ⟨m, rfl, h⟩
    have hm : 2 * m < n := Nat.lt_of_mul_lt_mul_right (a := channels) (by linarith)
    have hn : n < 2 * (m + p) := Nat.lt_of_mul_lt_mul_right (a := channels) (by
      rw [hlanes] at hlt
      linarith)
    have hend : (n + 1) / 2 * channels ≤ m * channels + lanes vl := by
      rw [hlanes, ← Nat.add_mul]
      exact Nat.mul_le_mul_right _ (by omega)
    have hdst : Leading (lanes vl)
        (svwhilelt (2 * (m * channels) / 2) ((n + 1) / 2 * channels))
        (((n + 1) / 2 - m) * channels) := by
      rw [Nat.mul_div_cancel_left _ two_pos, Nat.sub_mul]
      exact leading_whilelt hend
    refine (hpiece hdst (by omega) (fun l hl => decide_eq_true hl) (fun l hl => decide_eq_true hl)
      h).congr ?_
    rw [Nat.add_assoc, ← Nat.add_mul, Nat.add_sub_cancel' (by omega)]

/-- Two vectors of each of three channels: every other pixel from pixel `2 * m` on, `k` of
them. -/
theorem horizontalVectorPath3Channel2x_wrote {m k : ℕ} {pgSrc0 pgSrc1 pgDst : ℕ → Bool}
    (hcolumn : ∀ t < 5, (x : ℤ) + offsets.c t = column t) (hbase : bufferRows.ptr = 0)
    (hch : bufferRows.channels = 3) (hchannels : dstRows.channels = 3)
    (hvalid : ∀ t < 5, ∀ index < n * 3,
      BlurAndDownsampleDriver.Valid (buffer (column t * 3 + index)))
    (hval : ∀ q < (n + 1) / 2, ∀ c < 3,
      BlurAndDownsampleDriver.horizontal (fun t => buffer (column t * 3 + (2 * q * 3 + c))) =
        val (z * 3 + (q * 3 + c)))
    (hdst : Leading (2 * lanes vl) pgDst k) (hlanes : k ≤ lanes vl) (hk : m + k ≤ (n + 1) / 2)
    (hsrc0 : ∀ l, 2 * m + l < n → pgSrc0 l = true)
    (hsrc1 : ∀ l, 2 * m + lanes vl + l < n → pgSrc1 l = true)
    (dst : Tallied (BitVec 8)) :
    WroteOnce (dstRows.ptr + ·) val {e | z * 3 + m * 3 ≤ e ∧ e < z * 3 + m * 3 + k * 3} dst
      (horizontalVectorPath3Channel2x vl unspecified pgSrc0 pgSrc1 pgDst buffer
        (bufferRows.atOffset 0 x) (dstRows.atOffset 0 z) offsets (2 * m) (lanes vl * 3) dst) := by
  have hptr : ∀ t < 5, ∀ i : ℕ, (bufferRows.atOffset 0 x).ptrAt 0 (offsets.c t) i =
      column t * 3 + i := fun t ht i => by
    rw [Rows.ptrAt_column (hcolumn t ht), hbase, Nat.zero_add, hch]
  have hout : (dstRows.atOffset 0 z).ptrAt 0 (2 * m / 2 : ℕ) 0 = dstRows.ptr + (z * 3 + m * 3) := by
    rw [Nat.mul_div_cancel_left _ two_pos, Rows.ptrAt_column (Nat.cast_add z m).symm, hchannels,
      Nat.add_mul, Nat.add_zero]
  rw [horizontalVectorPath3Channel2x, hout]
  dsimp only
  rw [Sve.svst3_eq hdst]
  refine WroteOnce.storeRange (fun j hj => ?_) dst
  -- Byte `j` is channel `c` of lane `l`.
  obtain ⟨l, c, hc, rfl⟩ : ∃ l c, c < 3 ∧ l * 3 + c = j :=
    ⟨j / 3, j % 3, Nat.mod_lt _ (by decide), Nat.div_add_mod' j 3⟩
  have hl : l < k := by omega
  have he : 2 * (m + l) * 3 + c < n * 3 := by omega
  have htaps : ∀ t < 5, BlurAndDownsampleDriver.Valid
      (buffer (column t * 3 + (2 * (m + l) * 3 + c))) := fun t ht => hvalid t ht _ he
  rw [show z * 3 + m * 3 + (l * 3 + c) = z * 3 + ((m + l) * 3 + c) by ring,
    ← hval (m + l) (by omega) c hc, show (l * 3 + c) % 3 = c by omega,
    show (l * 3 + c) / 3 = l by omega, Sve.svuzp1_single, if_pos (by omega),
    Sve.svreinterpretU8_even, Sve.narrow, Sve.svuzp1_single]
  split
  · have hactive := hsrc0 (2 * l) (by omega)
    refine horizontalVectorPath_eq hactive (fun t ht => ?_) htaps
    rw [Sve.svld3, if_pos hactive, hptr t ht]
    exact congrArg buffer (by ring)
  · have hactive := hsrc1 (2 * l - lanes vl) (by omega)
    refine horizontalVectorPath_eq hactive (fun t ht => ?_) htaps
    rw [Sve.svld3, if_pos hactive, hptr t ht]
    exact congrArg buffer (by omega)

/-- The columns in bulk, of three channels. -/
theorem processHorizontal3Channels_wrote
    (hcolumn : ∀ t < 5, (x : ℤ) + offsets.c t = column t) (hbase : bufferRows.ptr = 0)
    (hch : bufferRows.channels = 3) (hchannels : dstRows.channels = 3)
    (hvalid : ∀ t < 5, ∀ index < n * 3,
      BlurAndDownsampleDriver.Valid (buffer (column t * 3 + index)))
    (hval : ∀ q < (n + 1) / 2, ∀ c < 3,
      BlurAndDownsampleDriver.horizontal (fun t => buffer (column t * 3 + (2 * q * 3 + c))) =
        val (z * 3 + (q * 3 + c)))
    (dst : Tallied (BitVec 8)) :
    WroteOnce (dstRows.ptr + ·) val {e | z * 3 ≤ e ∧ e < z * 3 + (n + 1) / 2 * 3} dst
      (processHorizontal3Channels vl unspecified n buffer (bufferRows.atOffset 0 x)
        (dstRows.atOffset 0 z) offsets dst) := by
  have hstep : 0 < lanes vl := numLanes_pos vl (.inr (.inl rfl))
  have hpiece : ∀ {m k pgSrc0 pgSrc1 pgDst dst'}, Leading (2 * lanes vl) pgDst k → k ≤ lanes vl →
      m + k ≤ (n + 1) / 2 → (∀ l, 2 * m + l < n → pgSrc0 l = true) →
      (∀ l, 2 * m + lanes vl + l < n → pgSrc1 l = true) →
      WroteOnce (dstRows.ptr + ·) val {e | z * 3 ≤ e ∧ e < z * 3 + m * 3} dst dst' →
      WroteOnce (dstRows.ptr + ·) val {e | z * 3 ≤ e ∧ e < z * 3 + (m + k) * 3} dst
        (horizontalVectorPath3Channel2x vl unspecified pgSrc0 pgSrc1 pgDst buffer
          (bufferRows.atOffset 0 x) (dstRows.atOffset 0 z) offsets (2 * m) (lanes vl * 3)
          dst') := by
    intro m k pgSrc0 pgSrc1 pgDst dst' hdst hlanes hk hsrc0 hsrc1 h
    rw [Nat.add_mul, ← Nat.add_assoc]
    exact h.append (horizontalVectorPath3Channel2x_wrote hcolumn hbase hch hchannels hvalid
      hval hdst hlanes hk hsrc0 hsrc1 dst') (Nat.le_add_right _ _) (Nat.le_add_right _ _)
  have hstart : Halved 1 3 z dstRows val dst 0 dst := Halved.start dst
  rw [processHorizontal3Channels]
  refine (Unrolled.start hstart).unrollNTimes_remaining (by omega) _ ?_ ?_ ?_
  · rintro i dst' hi ⟨m, rfl, h⟩
    rw [Nat.mul_one] at hi ⊢
    exact ⟨m + lanes vl, by ring, hpiece (leading_whilelt (by omega)) le_rfl (by omega)
      (fun _ _ => rfl) (fun _ _ => rfl) h⟩
  · rintro dst' ⟨m, hm, h⟩
    exact h.congr (by rw [show (n + 1) / 2 = m by omega])
  · rintro _ dst' hi hlt ⟨m, rfl, h⟩
    rw [Nat.mul_one] at hi hlt ⊢
    have hdst : Leading (2 * lanes vl) (svwhilelt (2 * m / 2) ((n + 1) / 2)) ((n + 1) / 2 - m) := by
      rw [Nat.mul_div_cancel_left _ two_pos]
      exact leading_whilelt (by omega)
    have hrest := hpiece hdst (by omega) (by omega) (fun l hl => decide_eq_true hl)
      (fun l hl => decide_eq_true hl) h
    rwa [Nat.add_sub_cancel' (by omega)] at hrest

/-- The channels of one column, one at a time. -/
theorem processHorizontalBorders_wrote
    (hcolumn : ∀ t < 5, (x : ℤ) + offsets.c t = column t) (hbase : bufferRows.ptr = 0)
    (hch : bufferRows.channels = dstRows.channels)
    (hvalid : ∀ t < 5, ∀ index < dstRows.channels,
      BlurAndDownsampleDriver.Valid (buffer (column t * dstRows.channels + index)))
    (hval : ∀ index < dstRows.channels,
      BlurAndDownsampleDriver.horizontal
        (fun t => buffer (column t * dstRows.channels + index)) =
          val (z * dstRows.channels + index))
    (dst : Tallied (BitVec 8)) :
    WroteOnce (dstRows.ptr + ·) val
      {e | z * dstRows.channels ≤ e ∧ e < z * dstRows.channels + dstRows.channels} dst
      (processHorizontalBorders vl unspecified buffer (bufferRows.atOffset 0 x)
        (dstRows.atOffset 0 z) offsets dst) := by
  have hchannels : (bufferRows.atOffset 0 x).channels = dstRows.channels := hch
  have hone : Leading (lanes vl) (Sve.wide svptruePatVl1) 1 :=
    ⟨numLanes_pos vl (.inr (.inl rfl)), fun l _ => by
      rw [Sve.wide, svptruePatVl1]
      exact Bool.eq_iff_iff.mpr (by simp)⟩
  rw [processHorizontalBorders, hchannels]
  refine forRange_invariant (fun index dst' => WroteOnce (dstRows.ptr + ·) val
    {e | z * dstRows.channels ≤ e ∧ e < z * dstRows.channels + index} dst dst') ?_ ?_
  · exact WroteOnce.refl_of_empty dst fun e he => Nat.not_lt.mpr he.1 he.2
  · intro index hindex dst' h
    have hstore : WroteOnce (dstRows.ptr + ·) val
        {e | z * dstRows.channels + index ≤ e ∧ e < z * dstRows.channels + index + 1} dst'
        (horizontalBorderPath vl unspecified (Sve.wide svptruePatVl1) buffer
          (bufferRows.atOffset 0 x) (dstRows.atOffset 0 z) offsets index dst') := by
      rw [horizontalBorderPath, Rows.ptrAt_element, Sve.svst1b_eq hone]
      refine WroteOnce.storeRange (fun l hl => ?_) dst'
      obtain rfl : l = 0 := Nat.lt_one_iff.mp hl
      rw [Nat.add_zero, ← hval index hindex]
      refine horizontalVectorPath_eq rfl (fun t ht => ?_) fun t ht => hvalid t ht index hindex
      rw [Sve.svld1_of_lt hone Nat.one_pos, Rows.ptrAt_column (hcolumn t ht), hbase, Nat.zero_add,
        hch, Nat.add_zero]
    exact h.append hstore (Nat.le_add_right _ _) (Nat.add_le_add_left (Nat.le_succ _) _)

end

/-- One, two and four channels divide a vector. -/
theorem dvd_lanes (vl : VectorLength) {channels : ℕ} (h : channels ∈ [1, 2, 4]) :
    channels ∣ lanes vl := by
  obtain ⟨k, hk, -, heq⟩ := vl.power
  have hlanes : lanes vl = 2 ^ (k - 1) := by
    rw [lanes, Scalable.numLanes, heq, show k = k - 1 + 1 by omega, pow_succ,
      Nat.mul_div_cancel _ two_pos, Nat.add_sub_cancel]
  have hfour : 4 ∣ lanes vl := by
    rw [hlanes, show (4 : ℕ) = 2 ^ 2 from rfl]
    exact Nat.pow_dvd_pow 2 (by omega)
  simp only [List.mem_cons, List.not_mem_nil, or_false] at h
  rcases h with rfl | rfl | rfl
  · exact one_dvd _
  · exact (show 2 ∣ 4 by decide).trans hfour
  · exact hfour

/-- **The driver, as the workspace relies on it.** -/
theorem exact (vl : VectorLength) (unspecified : ℕ → ℕ → ℕ → BitVec (2 * 8)) :
    (driver vl unspecified).Exact where
  processVertical := fun _ _ _ _ _ _ _ hrow hbase buffer e he =>
    (processVertical_filtered hrow hbase buffer).value e he
  processHorizontal := by
    intro n x z buffer bufferRows dstRows offsets column val hcolumn hbase hch hpos hfour hvalid hval
      dst
    have hsource : (bufferRows.atOffset 0 x).channels = dstRows.channels := hch
    have hunzipped : dstRows.channels ∈ [1, 2, 4] →
        WroteOnce (dstRows.ptr + ·) val
          {e | z * dstRows.channels ≤ e ∧
            e < z * dstRows.channels + (n + 1) / 2 * dstRows.channels} dst
          (processHorizontalUnzipped vl unspecified dstRows.channels n buffer
            (bufferRows.atOffset 0 x) (dstRows.atOffset 0 z) offsets dst) := fun hmem =>
      processHorizontalUnzipped_wrote hpos (dvd_lanes vl hmem) hcolumn hbase hch rfl hvalid hval dst
    show WroteOnce _ _ _ _ (processHorizontal vl unspecified n buffer _ _ _ _)
    rw [processHorizontal, hsource]
    obtain h | h | h | h : dstRows.channels = 1 ∨ dstRows.channels = 2 ∨ dstRows.channels = 3 ∨
        dstRows.channels = 4 := by omega
    · simpa only [h] using hunzipped (by simp [h])
    · simpa only [h] using hunzipped (by simp [h])
    · simp only [h] at hvalid hval hch ⊢
      exact processHorizontal3Channels_wrote hcolumn hbase hch h hvalid hval dst
    · simpa only [h] using hunzipped (by simp [h])
  processHorizontalBorders := fun _ _ _ _ _ _ _ _ hcolumn hbase hch hvalid hval dst =>
    processHorizontalBorders_wrote hcolumn hbase hch hvalid hval dst

end ScalableBlurAndDownsample

/-! ### The stripe function -/

/-- `blur_and_downsample_stripe_u8_sc`. -/
def blurAndDownsampleStripeU8Sc (vl : VectorLength) (unspecified : ℕ → ℕ → ℕ → BitVec (2 * 8)) :
    GaussianBlurCall → ℕ → ℕ → FixedBorderType → Option (ℕ → BitVec 8) → (ℕ → BitVec 8) →
    Tallied (BitVec 8) → KleidicvError × Tallied (BitVec 8) :=
  (ScalableBlurAndDownsample.driver vl unspecified).stripe

/-- **Every pixel of the destination is the blurred pixel in the even row and column**, stored
once, however the rows of the source are cut into stripes and whatever the vectors hold in
inactive lanes; nothing else is stored. -/
theorem blurAndDownsampleStripeU8Sc_correct (vl : VectorLength)
    (unspecified : ℕ → ℕ → ℕ → BitVec (2 * 8)) {r : GaussianBlurCall} {borderType : BorderType}
    {b : FixedBorderType} (hvalid : blurAndDownsampleValidate r borderType = .ok b)
    (hstride : (r.width + 1) / 2 * r.channels ≤ r.dstStride) (src : ℕ → BitVec 8)
    (bytes : ℕ × ℕ → ℕ → BitVec 8) :
    (∀ s dst, (blurAndDownsampleStripeU8Sc vl unspecified r s.1 s.2 b (some (bytes s)) src dst).1 =
      .ok) ∧
    ∀ l, IsPartition r.height l → ∀ dst, BlurAndDownsampleDriver.Downsampled r b src dst
      (l.foldl (fun dst s =>
        (blurAndDownsampleStripeU8Sc vl unspecified r s.1 s.2 b (some (bytes s)) src dst).2) dst) := by
  refine ⟨fun s dst => rfl, fun l hl dst => ?_⟩
  exact BlurAndDownsampleDriver.stripes_downsampled (ScalableBlurAndDownsample.exact vl unspecified)
    hvalid hstride hl src bytes dst

/-- Five rows in two stripes, the second one first. -/
theorem blurAndDownsampleStripeU8Sc_correct_small :
    BlurAndDownsampleDriver.Downsampled ⟨100, 10, 200, 6, 5, 5, 2⟩ .reverse
      (fun a => BitVec.ofNat 8 a) ⟨fun _ => 0, fun _ => 0, fun _ => 0⟩
      ([(3, 5), (0, 3)].foldl (fun dst s =>
        (blurAndDownsampleStripeU8Sc ⟨16, 4, by decide⟩ (fun _ _ _ => 77)
          ⟨100, 10, 200, 6, 5, 5, 2⟩ s.1 s.2 .reverse (some fun _ => 7) (fun a => BitVec.ofNat 8 a)
          dst).2) ⟨fun _ => 0, fun _ => 0, fun _ => 0⟩) :=
  (blurAndDownsampleStripeU8Sc_correct ⟨16, 4, by decide⟩ (fun _ _ _ => 77)
    (show blurAndDownsampleValidate ⟨100, 10, 200, 6, 5, 5, 2⟩ .reverse = .ok .reverse by decide)
    (by decide) (fun a => BitVec.ofNat 8 a) (fun _ _ => 7)).2 [(3, 5), (0, 3)]
    ⟨by decide, by simp; omega, fun i (hi : i < 5) => by simp; omega⟩
    ⟨fun _ => 0, fun _ => 0, fun _ => 0⟩

end KleidiCV
