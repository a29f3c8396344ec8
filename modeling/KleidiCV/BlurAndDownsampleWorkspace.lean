/-
`BlurAndDownsampleFilterWorkspace::process`, for any driver.

Only even rows and even columns are filtered: the left border is one column, the right border
another one, and the columns in between are handed to the driver, which takes every other.
The destination counts its stores.

* `BlurAndDownsampleDriver.Exact` — what the three members of a driver do;
* `BlurAndDownsampleDriver.processRow_wrote` — a row of the destination, each element once;
* `BlurAndDownsampleDriver.process_wrote` — the rows of a stripe of the source;
* `BlurAndDownsampleDriver.stripes_wrote` — stripes that make up the source, in any order;
* `BlurAndDownsampleDriver.stripes_downsampled` — the pixels that an accepted call leaves.
-/
import KleidiCV.GaussianBlurFixed
import KleidiCV.Lib.WroteOnce

open Loop

namespace KleidiCV

/-- `align_up`, for an alignment that is a power of two. -/
def alignUp (value alignment : ℕ) : ℕ := (value + alignment - 1) / alignment * alignment

/-- The members of a driver that the workspace calls. -/
structure BlurAndDownsampleDriver where
  processVertical : ℕ → (ℕ → BitVec 8) → Rows → Rows → Offsets → (ℕ → BitVec 16) → ℕ → BitVec 16
  processHorizontal : ℕ → (ℕ → BitVec 16) → Rows → Rows → Offsets → Tallied (BitVec 8) →
    Tallied (BitVec 8)
  processHorizontalBorders : (ℕ → BitVec 16) → Rows → Rows → Offsets → Tallied (BitVec 8) →
    Tallied (BitVec 8)

namespace BlurAndDownsampleDriver

section

variable (driver : BlurAndDownsampleDriver)

/-- `process_horizontal`, of the workspace. -/
def processRow (width : ℕ) (borderType : FixedBorderType) (buffer : ℕ → BitVec 16)
    (bufferRows dstRows : Rows) (dst : Tallied (BitVec 8)) : Tallied (BitVec 8) :=
  let info := FixedBorderInfo5x5.info
  let start := alignUp info.margin 2
  dst |>
    forSteps 0 2 info.margin (fun horizontalIndex =>
      driver.processHorizontalBorders buffer (bufferRows.atOffset 0 horizontalIndex)
        (dstRows.atOffset 0 (horizontalIndex / 2 : ℕ))
        (info.offsetsWithLeftBorder width borderType horizontalIndex)) |>
    driver.processHorizontal (sizeSub width (2 * info.margin)) buffer (bufferRows.atOffset 0 start)
      (dstRows.atOffset 0 (start / 2 : ℕ)) info.offsetsWithoutBorder |>
    forSteps (alignUp (sizeSub width info.margin) 2) 2 width (fun index =>
      driver.processHorizontalBorders buffer (bufferRows.atOffset 0 index)
        (dstRows.atOffset 0 (index / 2 : ℕ)) (info.offsetsWithRightBorder width borderType index))

/-- `process`, on the buffer and the destination. -/
def process (width height yBegin yEnd : ℕ) (src : ℕ → BitVec 8) (srcRows bufferRows dstRows : Rows)
    (borderType : FixedBorderType) (state : (ℕ → BitVec 16) × Tallied (BitVec 8)) :
    (ℕ → BitVec 16) × Tallied (BitVec 8) :=
  let info := FixedBorderInfo5x5.info
  forSteps (alignUp yBegin 2) 2 yEnd (fun verticalIndex (buffer, dst) =>
    let offsets := info.offsetsWithBorder height borderType verticalIndex
    let buffer := driver.processVertical width src (srcRows.atOffset verticalIndex 0) bufferRows
      offsets buffer
    (buffer, driver.processRow width borderType buffer bufferRows
      (dstRows.atOffset (verticalIndex / 2 : ℕ) 0) dst)) state

/-- The binomial kernel. -/
abbrev kernel : List ℕ := [1, 4, 6, 4, 1]

/-- Vertical sums, the values that the horizontal passes are made for. -/
def Valid (v : BitVec 16) : Prop := v.toNat ≤ 255 * kernel.sum

/-- The rounded sum of five vertical sums next to each other. -/
def horizontal (src : ℕ → BitVec 16) : BitVec 8 :=
  BitVec.ofNat 8 (GaussianBlur.normalize kernel (GaussianBlur.convolve kernel src))

/-- What a driver does: vertically sums of the elements above each other, horizontally rounded
sums for every other column, the first one included. -/
structure Exact : Prop where
  processVertical : ∀ (width y : ℕ) (src : ℕ → BitVec 8) (srcRows bufferRows : Rows)
    (offsets : Offsets) (row : ℕ → ℕ), (∀ t < 5, (y : ℤ) + offsets.c t = row t) →
    bufferRows.ptr = 0 → ∀ buffer, ∀ e < width * srcRows.channels,
      (driver.processVertical width src (srcRows.atOffset y 0) bufferRows offsets buffer e).toNat =
        GaussianBlur.convolve kernel fun t => src (srcRows.ptr + row t * srcRows.stride + e)
  processHorizontal : ∀ (width x z : ℕ) (buffer : ℕ → BitVec 16) (bufferRows dstRows : Rows)
    (offsets : Offsets) (column : ℕ → ℕ) (val : ℕ → BitVec 8),
    (∀ t < 5, (x : ℤ) + offsets.c t = column t) → bufferRows.ptr = 0 →
    bufferRows.channels = dstRows.channels → 0 < dstRows.channels → dstRows.channels ≤ 4 →
    (∀ t < 5, ∀ index < width * dstRows.channels,
      Valid (buffer (column t * dstRows.channels + index))) →
    (∀ q < (width + 1) / 2, ∀ c < dstRows.channels,
      horizontal (fun t => buffer (column t * dstRows.channels + (2 * q * dstRows.channels + c))) =
        val (z * dstRows.channels + (q * dstRows.channels + c))) → ∀ dst,
    WroteOnce (dstRows.ptr + ·) val
      {e | z * dstRows.channels ≤ e ∧
        e < z * dstRows.channels + (width + 1) / 2 * dstRows.channels} dst
      (driver.processHorizontal width buffer (bufferRows.atOffset 0 x) (dstRows.atOffset 0 z)
        offsets dst)
  processHorizontalBorders : ∀ (x z : ℕ) (buffer : ℕ → BitVec 16) (bufferRows dstRows : Rows)
    (offsets : Offsets) (column : ℕ → ℕ) (val : ℕ → BitVec 8),
    (∀ t < 5, (x : ℤ) + offsets.c t = column t) → bufferRows.ptr = 0 →
    bufferRows.channels = dstRows.channels →
    (∀ t < 5, ∀ index < dstRows.channels,
      Valid (buffer (column t * dstRows.channels + index))) →
    (∀ index < dstRows.channels,
      horizontal (fun t => buffer (column t * dstRows.channels + index)) =
        val (z * dstRows.channels + index)) → ∀ dst,
    WroteOnce (dstRows.ptr + ·) val
      {e | z * dstRows.channels ≤ e ∧ e < z * dstRows.channels + dstRows.channels} dst
      (driver.processHorizontalBorders buffer (bufferRows.atOffset 0 x) (dstRows.atOffset 0 z)
        offsets dst)

end

variable {driver : BlurAndDownsampleDriver} {width : ℕ} {borderType : FixedBorderType}
  {bufferRows dstRows : Rows} {buffer : ℕ → BitVec 16}

/-- The right border is one column, the last even one. -/
theorem forSteps_right {σ : Type*} (hw : 4 ≤ width) (body : ℕ → σ → σ) (s : σ) :
    forSteps (alignUp (width - 2) 2) 2 width body s = body ((width + 1) / 2 * 2 - 2) s := by
  have hstart : alignUp (width - 2) 2 = (width + 1) / 2 * 2 - 2 := by
    unfold alignUp
    omega
  have hcount : (width - ((width + 1) / 2 * 2 - 2) + 2 - 1) / 2 = 1 := by omega
  rw [forSteps, hstart, hcount]
  rfl

/-- What belongs to element `e` of a row of the destination, for vertical sums `buffer`. -/
def downsampledAt (borderType : FixedBorderType) (width channels : ℕ) (buffer : ℕ → BitVec 16)
    (e : ℕ) : BitVec 8 :=
  horizontal fun t => buffer
    (FixedBorderInfo5x5.info.sample borderType width (2 * (e / channels)) t * channels +
      e % channels)

theorem downsampledAt_pixel {channels c : ℕ} (hc : c < channels) (x : ℕ) :
    downsampledAt borderType width channels buffer (x * channels + c) =
      horizontal fun t => buffer
        (FixedBorderInfo5x5.info.sample borderType width (2 * x) t * channels + c) := by
  rw [downsampledAt, Nat.mul_comm x, Nat.mul_add_mod, Nat.mod_eq_of_lt hc,
    Nat.mul_add_div (by omega), Nat.div_eq_of_lt hc, Nat.add_zero]

theorem horizontal_congr {src src' : ℕ → BitVec 16} (h : ∀ t < 5, src t = src' t) :
    horizontal src = horizontal src' := by
  rw [horizontal, horizontal,
    GaussianBlur.convolve_congr (show ∀ t < kernel.length, src t = src' t from h)]

/-- **A row of the destination, each element once.** -/
theorem processRow_wrote (borderType : FixedBorderType) (hf : driver.Exact) (hw : 4 ≤ width) (hmax : width < 2 ^ 63)
    (hbase : bufferRows.ptr = 0) (hch : bufferRows.channels = dstRows.channels)
    (hpos : 0 < dstRows.channels) (hfour : dstRows.channels ≤ 4)
    (hbuffer : ∀ e < width * dstRows.channels, Valid (buffer e)) (dst : Tallied (BitVec 8)) :
    WroteOnce (dstRows.ptr + ·) (downsampledAt borderType width dstRows.channels buffer)
      {e | e < (width + 1) / 2 * dstRows.channels} dst
      (driver.processRow width borderType buffer bufferRows dstRows dst) := by
  -- A border column at `x = 2 * z`.
  have hborder : ∀ (z : ℕ) (offsets : Offsets) dst,
      FixedBorderInfo5x5.info.Exact width borderType (2 * z) offsets →
      WroteOnce (dstRows.ptr + ·) (downsampledAt borderType width dstRows.channels buffer)
        {e | z * dstRows.channels ≤ e ∧ e < z * dstRows.channels + dstRows.channels} dst
        (driver.processHorizontalBorders buffer (bufferRows.atOffset 0 (2 * z : ℕ))
          (dstRows.atOffset 0 z) offsets dst) := by
    intro z offsets dst hexact
    exact hf.processHorizontalBorders _ _ _ _ _ _ _ _ (hexact.sample_eq hw) hbase hch
      (fun t _ index hindex => hbuffer _
        (pixelByte_lt (FixedBorderInfo5x5.info.sample_lt hw _ t) hindex))
      (fun index hindex => (downsampledAt_pixel hindex z).symm) dst
  have hleft := hborder 0 (FixedBorderInfo5x5.info.offsetsWithLeftBorder width borderType 0) dst
    (FixedBorderInfo.exact_left hw hmax (by decide))
  have hright := fun dst => hborder ((width + 1) / 2 - 1)
    (FixedBorderInfo5x5.info.offsetsWithRightBorder width borderType (2 * ((width + 1) / 2 - 1))) dst
    (FixedBorderInfo.exact_right hw hmax (by omega) (by
      show width ≤ 2 * ((width + 1) / 2 - 1) + 2
      omega))
  have hplain : ∀ t < 5, ((2 : ℕ) : ℤ) + FixedBorderInfo5x5.info.offsetsWithoutBorder.c t =
      (t : ℕ) := by
    intro t ht
    rw [FixedBorderInfo5x5.info.without_eq, plainOffsets_c ht,
      show FixedBorderInfo5x5.info.margin = 2 from rfl]
    omega
  have hinside : ∀ t < 5, ∀ index < (width - 4) * dstRows.channels,
      Valid (buffer (t * dstRows.channels + index)) := by
    intro t ht index hindex
    refine hbuffer _ ?_
    calc t * dstRows.channels + index
        < t * dstRows.channels + (width - 4) * dstRows.channels := by omega
      _ = (t + (width - 4)) * dstRows.channels := (Nat.add_mul _ _ _).symm
      _ ≤ width * dstRows.channels := Nat.mul_le_mul_right _ (by omega)
  have hbulk := fun dst => hf.processHorizontal (width - 4) 2 1 buffer bufferRows dstRows _ _
    (downsampledAt borderType width dstRows.channels buffer) hplain hbase hch hpos hfour hinside
    (fun q hq c hc => by
      rw [← Nat.add_assoc, ← Nat.add_mul, downsampledAt_pixel hc]
      refine horizontal_congr fun t ht => ?_
      have hmargin : FixedBorderInfo5x5.info.margin = 2 := rfl
      rw [FixedBorderInfo.sample_inside (by omega) (by omega) (by omega), hmargin,
        show 2 * (1 + q) + t - 2 = t + 2 * q by omega, Nat.add_mul, Nat.add_assoc]) dst
  have hsub : sizeSub width (2 * FixedBorderInfo5x5.info.margin) = width - 4 :=
    sizeSub_eq hw (hmax.trans (by decide))
  have hsubRight : sizeSub width FixedBorderInfo5x5.info.margin = width - 2 :=
    sizeSub_eq (show 2 ≤ width by omega) (hmax.trans (by decide))
  simp only [processRow, hsub, hsubRight, forSteps_right hw]
  -- Column 0, the columns up to the last one, the last one.
  obtain ⟨n, hn⟩ : ∃ n, (width + 1) / 2 = n + 2 := ⟨(width + 1) / 2 - 2, by omega⟩
  rw [show (width - 4 + 1) / 2 = n by omega, Nat.one_mul] at hbulk
  rw [hn, show n + 2 - 1 = n + 1 by omega] at hright
  have hlast : (n + 1) * dstRows.channels = dstRows.channels + n * dstRows.channels := by ring
  rw [hlast] at hright
  rw [Nat.zero_mul, Nat.zero_add] at hleft
  have hrow := (hleft.append (hbulk _) (Nat.zero_le _) (Nat.le_add_right _ _)).append (hright _)
    (Nat.zero_le _) (Nat.le_add_right _ _)
  rw [hn, show (n + 2) * 2 - 2 = 2 * (n + 1) by omega, Nat.mul_div_cancel_left _ two_pos]
  refine hrow.congr ?_
  ext e
  rw [show (n + 2) * dstRows.channels =
    dstRows.channels + n * dstRows.channels + dstRows.channels by ring]
  simp only [Set.mem_ofPred_eq, Nat.zero_le, true_and]

/-! ### Stripes -/

section

variable {r : GaussianBlurCall} {b : FixedBorderType} {src : ℕ → BitVec 8}

variable (r b src) in
/-- The blurred pixel in an even row and column, for element `p.2` of row `p.1` of the
destination. -/
def downsampled (p : ℕ × ℕ) : BitVec 8 :=
  r.blurred kernel b src (2 * p.1) (2 * (p.2 / r.channels)) (p.2 % r.channels)

/-- The elements of a row of the destination. -/
def rowLength (r : GaussianBlurCall) : ℕ := (r.width + 1) / 2 * r.channels

theorem downsampledAt_eq (hw : 4 ≤ r.width) (hh : 4 ≤ r.height) (hpos : 0 < r.channels) {y : ℕ}
    (hbuffer : ∀ e < r.width * r.channels, (buffer e).toNat = GaussianBlur.convolve kernel fun t =>
      src (r.srcRows.address (FixedBorderInfo5x5.info.sample b r.height (2 * y) t, e))) (e : ℕ) :
    downsampledAt b r.width r.channels buffer e = downsampled r b src (y, e) := by
  have hlength : kernel.length = 2 * FixedBorderInfo5x5.info.margin + 1 := rfl
  rw [downsampledAt, horizontal, convolve_buffer hlength hw hh (Nat.mod_lt e hpos) hbuffer]
  rfl

/-- An even row of the source, and the row of the destination that belongs to it. -/
theorem sourceRow_wrote (hf : driver.Exact) (hw : 4 ≤ r.width) (hwmax : r.width < 2 ^ 63)
    (hh : 4 ≤ r.height) (hhmax : r.height < 2 ^ 63) (hpos : 0 < r.channels) (hfour : r.channels ≤ 4)
    {y : ℕ} (hy : 2 * y < r.height) (buffer : ℕ → BitVec 16) (dst : Tallied (BitVec 8)) :
    WroteOnce r.dstRows.address (downsampled r b src) {p | p.1 = y ∧ p.2 < rowLength r} dst
      (driver.processRow r.width b
        (driver.processVertical r.width src (r.srcRows.atOffset (2 * y : ℕ) 0) r.bufferRows
          (FixedBorderInfo5x5.info.offsetsWithBorder r.height b (2 * y)) buffer)
        r.bufferRows (r.dstRows.atOffset y 0) dst) := by
  have hexact : FixedBorderInfo5x5.info.Exact r.height b (2 * y)
      (FixedBorderInfo5x5.info.offsetsWithBorder r.height b (2 * y)) :=
    FixedBorderInfo.exact_border hh hhmax hy
  have hvertical := hf.processVertical r.width (2 * y) src r.srcRows r.bufferRows _ _
    (hexact.sample_eq hh) rfl buffer
  have hptr : (r.dstRows.atOffset y 0).ptr = r.dstRows.ptr + y * r.dstRows.stride := by
    rw [Rows.atOffset]
    simpa using r.dstRows.ptrAt_natCast y 0 0
  have hvalid : ∀ e < r.width * r.channels, Valid (driver.processVertical r.width src
      (r.srcRows.atOffset (2 * y : ℕ) 0) r.bufferRows
      (FixedBorderInfo5x5.info.offsetsWithBorder r.height b (2 * y)) buffer e) := by
    intro e he
    rw [Valid, hvertical e he]
    refine GaussianBlur.convolve_le fun t _ => ?_
    have := (src (r.srcRows.ptr + FixedBorderInfo5x5.info.sample b r.height (2 * y) t *
      r.srcRows.stride + e)).isLt
    omega
  have hbase : r.bufferRows.ptr = 0 := rfl
  have hch : r.bufferRows.channels = (r.dstRows.atOffset y 0).channels := rfl
  have hrow := processRow_wrote b hf hw hwmax hbase hch hpos hfour hvalid dst
  refine hrow.reindex (fun p => p.2) (fun p hp => ⟨hp.2, ?_, ?_⟩) fun e he =>
    ⟨(y, e), ⟨rfl, he⟩, rfl⟩
  · rw [hptr, Rows.address, hp.1]
  · rw [show p = (y, p.2) from Prod.ext hp.1 rfl]
    exact downsampledAt_eq hw hh hpos hvertical p.2

/-- **The rows of a stripe**, of the even rows of the source, each element once. -/
theorem process_wrote (hf : driver.Exact) (hw : 4 ≤ r.width) (hwmax : r.width < 2 ^ 63)
    (hh : 4 ≤ r.height) (hhmax : r.height < 2 ^ 63) (hpos : 0 < r.channels) (hfour : r.channels ≤ 4)
    (hstride : rowLength r ≤ r.dstStride) {yBegin yEnd : ℕ} (hend : yEnd ≤ r.height)
    (buffer : ℕ → BitVec 16) (dst : Tallied (BitVec 8)) :
    WroteOnce r.dstRows.address (downsampled r b src)
      {p | yBegin ≤ 2 * p.1 ∧ 2 * p.1 < yEnd ∧ p.2 < rowLength r} dst
      (driver.process r.width r.height yBegin yEnd src r.srcRows r.bufferRows r.dstRows b
        (buffer, dst)).2 := by
  have hstart : alignUp yBegin 2 = 2 * ((yBegin + 1) / 2) := by
    unfold alignUp
    omega
  have hinj : Set.InjOn r.dstRows.address {p | p.2 < rowLength r} := Rows.address_injOn hstride
  rw [process, forSteps, hstart]
  generalize hm : (yBegin + 1) / 2 = m
  -- The rows from `m` on, after `t` iterations.
  refine (forRange_invariant (fun t (state : (ℕ → BitVec 16) × Tallied (BitVec 8)) =>
    WroteOnce r.dstRows.address (downsampled r b src)
      {p | m ≤ p.1 ∧ p.1 < m + t ∧ p.2 < rowLength r} dst state.2)
    (WroteOnce.refl_of_empty dst fun p hp => absurd hp.2.1 (Nat.not_lt.mpr hp.1)) ?_).congr ?_
  · rintro t ht ⟨buffer, dst'⟩ h
    rw [show 2 * m + t * 2 = 2 * (m + t) by ring, Nat.mul_div_cancel_left _ two_pos]
    refine (h.trans hinj (fun p hp => hp.2.2) (fun p hp => hp.2) ?_
      (sourceRow_wrote hf hw hwmax hh hhmax hpos hfour (show 2 * (m + t) < r.height by omega) buffer
        dst')).congr ?_
    · refine Set.disjoint_left.mpr fun p hp hp' => ?_
      have := hp.2.1
      have := hp'.1
      omega
    · ext p
      simp only [Set.mem_union, Set.mem_ofPred_eq]
      omega
  · ext p
    simp only [Set.mem_ofPred_eq]
    omega

/-- Stripes that make up the source, in any order; boundaries may be odd. -/
theorem stripes_wrote (hf : driver.Exact) (hw : 4 ≤ r.width) (hwmax : r.width < 2 ^ 63)
    (hh : 4 ≤ r.height) (hhmax : r.height < 2 ^ 63) (hpos : 0 < r.channels) (hfour : r.channels ≤ 4)
    (hstride : rowLength r ≤ r.dstStride) {l : List (ℕ × ℕ)} (hl : IsPartition r.height l)
    (buffer : ℕ × ℕ → ℕ → BitVec 16) (dst : Tallied (BitVec 8)) :
    WroteOnce r.dstRows.address (downsampled r b src)
      {p | p.1 < (r.height + 1) / 2 ∧ p.2 < rowLength r} dst
      (l.foldl (fun dst s => (driver.process r.width r.height s.1 s.2 src r.srcRows r.bufferRows
        r.dstRows b (buffer s, dst)).2) dst) := by
  refine (WroteOnce.partition (Rows.address_injOn hstride) (fun p => 2 * p.1) hl
    (fun s hs dst => ?_) dst).congr ?_
  · exact process_wrote hf hw hwmax hh hhmax hpos hfour hstride (hl.bounds s hs).2 (buffer s) dst
  · ext p
    simp only [Set.mem_ofPred_eq]
    omega

end

/-! ### The stripe function -/

/-- `blur_and_downsample_stripe_u8`; `allocation` is what `malloc` returns. -/
def stripe (driver : BlurAndDownsampleDriver) (r : GaussianBlurCall) (yBegin yEnd : ℕ)
    (borderType : FixedBorderType) (allocation : Option (ℕ → BitVec 8)) (src : ℕ → BitVec 8)
    (dst : Tallied (BitVec 8)) : KleidicvError × Tallied (BitVec 8) :=
  match allocation with
  | none => (.allocation, dst)
  | some bytes =>
    (.ok, (driver.process r.width r.height yBegin yEnd src r.srcRows r.bufferRows r.dstRows borderType
      (bytesAsU16 bytes, dst)).2)

/-- From `dst` to `dst'`, each pixel of the destination was stored once, with the blurred pixel
in the even row and column, and nothing else was. -/
structure Downsampled (r : GaussianBlurCall) (b : FixedBorderType) (src : ℕ → BitVec 8)
    (dst dst' : Tallied (BitVec 8)) : Prop where
  value : ∀ y < (r.height + 1) / 2, ∀ x < (r.width + 1) / 2, ∀ c < r.channels,
    ((dst'.mem (r.dstRows.ptrAt y x c)).toNat : ℤ) =
      Bilinear.roundHalfUp (r.exactBlur kernel b src (2 * y) (2 * x) c)
  once : ∀ y < (r.height + 1) / 2, ∀ x < (r.width + 1) / 2, ∀ c < r.channels,
    dst'.stores (r.dstRows.ptrAt y x c) = dst.stores (r.dstRows.ptrAt y x c) + 1
  frame : ∀ a, (∀ y < (r.height + 1) / 2, ∀ x < (r.width + 1) / 2, ∀ c < r.channels,
    r.dstRows.ptrAt y x c ≠ a) → dst'.mem a = dst.mem a ∧ dst'.stores a = dst.stores a

theorem Downsampled.of_wrote {r : GaussianBlurCall} {b : FixedBorderType} {src : ℕ → BitVec 8}
    {dst dst' : Tallied (BitVec 8)} (h : WroteOnce r.dstRows.address (downsampled r b src)
      {p | p.1 < (r.height + 1) / 2 ∧ p.2 < rowLength r} dst dst') : Downsampled r b src dst dst' := by
  have hptr : ∀ y x c : ℕ, r.dstRows.ptrAt y x c = r.dstRows.address (y, x * r.channels + c) := by
    intro y x c
    rw [Rows.ptrAt_natCast, Rows.address]
    simp only [Nat.add_assoc]
    rfl
  refine ⟨fun y hy x hx c hc => ?_, fun y hy x hx c hc => ?_, fun a ha => ?_⟩
  · have hx' : (x * r.channels + c) / r.channels = x := by
      rw [Nat.mul_comm x, Nat.mul_add_div (by omega), Nat.div_eq_of_lt hc, Nat.add_zero]
    have hc' : (x * r.channels + c) % r.channels = c := by
      rw [Nat.mul_comm x, Nat.mul_add_mod, Nat.mod_eq_of_lt hc]
    rw [hptr, h.wrote.value _ ⟨hy, pixelByte_lt hx hc⟩, downsampled, hx', hc']
    exact blurred_toNat (by decide) (by decide) _ _ _
  · rw [hptr, h.once _ ⟨hy, pixelByte_lt hx hc⟩]
  · have hne : ∀ p ∈ {p : ℕ × ℕ | p.1 < (r.height + 1) / 2 ∧ p.2 < rowLength r},
        r.dstRows.address p ≠ a := by
      rintro ⟨y, e⟩ ⟨hy, he⟩ heq
      have hpos : 0 < r.channels := Nat.pos_of_mul_pos_left (Nat.zero_lt_of_lt he)
      refine ha y hy (e / r.channels) (Nat.div_lt_of_lt_mul ?_) (e % r.channels)
        (Nat.mod_lt _ hpos) ?_
      · rw [Nat.mul_comm]
        exact he
      · rw [hptr, Nat.div_add_mod', heq]
    exact ⟨h.wrote.frame a hne, h.stores a hne⟩

end BlurAndDownsampleDriver

/-! ### Validation -/

/-- `blur_and_downsample_checks`. -/
def blurAndDownsampleChecks (r : GaussianBlurCall) : KleidicvError :=
  if checkPointerAndStride 1 r.src r.srcStride r.height ≠ .ok then
    checkPointerAndStride 1 r.src r.srcStride r.height
  else if checkPointerAndStride 1 r.dst r.dstStride ((r.height + 1) / 2) ≠ .ok then
    checkPointerAndStride 1 r.dst r.dstStride ((r.height + 1) / 2)
  else if !checkImageSize r.width r.height then .range
  else .ok

/-- `blur_and_downsample_validate`. -/
def blurAndDownsampleValidate (r : GaussianBlurCall) (borderType : BorderType) :
    Except KleidicvError FixedBorderType :=
  if r.width < 4 ∨ r.height < 4 ∨ r.channels < 1 ∨ kleidicvMaximumChannelCount < r.channels then
    .error .notImplemented
  else
    match getFixedBorderType borderType with
    | none => .error .notImplemented
    | some fixedBorderType =>
      if blurAndDownsampleChecks r ≠ .ok then .error (blurAndDownsampleChecks r)
      else .ok fixedBorderType

/-- What an accepted call promises. -/
theorem blurAndDownsampleValidate_ok {r : GaussianBlurCall} {borderType : BorderType}
    {b : FixedBorderType} (h : blurAndDownsampleValidate r borderType = .ok b) :
    4 ≤ r.width ∧ 4 ≤ r.height ∧ 1 ≤ r.channels ∧ r.channels ≤ 4 ∧
      r.width * r.height ≤ kleidicvMaxImagePixels := by
  rw [blurAndDownsampleValidate] at h
  cases htype : getFixedBorderType borderType with
  | none => simp [htype] at h
  | some fixedBorderType =>
    simp only [htype] at h
    split_ifs at h with hsize hchecks
    have himage : r.width * r.height ≤ kleidicvMaxImagePixels := by
      rw [blurAndDownsampleChecks] at hchecks
      split_ifs at hchecks with h1 h2 h3
      · exact absurd h1 (not_not_intro (Classical.not_not.mp hchecks))
      · exact absurd h2 (not_not_intro (Classical.not_not.mp hchecks))
      · exact absurd hchecks (by decide)
      · exact checkImageSize_iff.mp (by simpa using h3)
    have hmax : kleidicvMaximumChannelCount = 4 := rfl
    exact ⟨by omega, by omega, by omega, by omega, himage⟩

/-- Stripes that make up the source of an accepted call, in any order. -/
theorem BlurAndDownsampleDriver.stripes_downsampled {driver : BlurAndDownsampleDriver}
    (hf : driver.Exact) {r : GaussianBlurCall} {borderType : BorderType} {b : FixedBorderType}
    (hvalid : blurAndDownsampleValidate r borderType = .ok b)
    (hstride : (r.width + 1) / 2 * r.channels ≤ r.dstStride) {l : List (ℕ × ℕ)}
    (hl : IsPartition r.height l) (src : ℕ → BitVec 8) (bytes : ℕ × ℕ → ℕ → BitVec 8)
    (dst : Tallied (BitVec 8)) :
    BlurAndDownsampleDriver.Downsampled r b src dst
      (l.foldl (fun dst s => (driver.stripe r s.1 s.2 b (some (bytes s)) src dst).2) dst) := by
  obtain ⟨hw, hh, hpos, hfour, himage⟩ := blurAndDownsampleValidate_ok hvalid
  have hmax : kleidicvMaxImagePixels < 2 ^ 63 := by decide
  have hwmax : r.width ≤ r.width * r.height := Nat.le_mul_of_pos_right _ (by omega)
  have hhmax : r.height ≤ r.width * r.height := Nat.le_mul_of_pos_left _ (by omega)
  exact .of_wrote (stripes_wrote hf hw (by omega) hh (by omega) hpos hfour hstride hl
    (fun s => bytesAsU16 (bytes s)) dst)

end KleidiCV
