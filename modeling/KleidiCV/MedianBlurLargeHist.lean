/-
The median filter for large kernels, `median_blur_large_hist_neon.cpp`.

The image is cut into patches of 512 columns.  Every column of a patch has a
histogram of its `ksize` rows, in 16 coarse bins and 256 fine ones; from row to
row one pixel leaves it and one enters.  Along a row, the coarse histogram of
the window is kept up to date, but the 16 fine bins of a coarse bin only when
that bin holds the median: `luc` remembers the column up to which they were.

Counters are 16 bits wide.  The model fails where one would wrap, and where a
search runs past its 16 bins, so that a result means that neither happens.

* `PatchCounts` — what the histograms of the columns count;
* `LookupInv` — what `H` and `luc` hold while a row is processed;
* `computePatchMedian_ends` — the medians of one row of a patch;
* `median_blur_large_hist_medians` — those of a stripe.
-/
import KleidiCV.Lib.Counters
import KleidiCV.MedianBlur

open Loop

namespace KleidiCV

/-- `H` and `luc`: the histogram of the window, and for each coarse bin the
column up to which its fine bins were counted. -/
structure LookupTable where
  coarse : ℕ → ℕ
  fine : ℕ → ℕ → ℕ
  luc : ℕ → ℕ

/-- Both cleared. -/
def LookupTable.empty : LookupTable := ⟨fun _ => 0, fun _ _ => 0, fun _ => 0⟩

/-- `MedianBlurLargeHist`. -/
structure MedianBlurLargeHist where
  patchedCoarse : ℕ → ℕ
  patchedFine : ℕ → ℕ
  lookup : LookupTable

namespace MedianBlurLargeHist

/-- `patch_length`. -/
def patchLengthMax : ℕ := 512

/-- The number of values of `uint16_t`. -/
def u16 : ℕ := 65536

/-- `vld1q_u16(px)` and `vld1q_u16(px + 8)`, as one vector of 16 lanes. -/
def vld1qU16x2 (a : ℕ → ℕ) (px : ℕ) : ℕ → ℕ := fun lane => a (px + lane)

/-- `vaddq_u16` and `vsubq_u16` on such vectors. -/
def vaddqU16x2 (v w : ℕ → ℕ) : Option (ℕ → ℕ) := vadd u16 16 v w

def vsubqU16x2 (v w : ℕ → ℕ) : Option (ℕ → ℕ) := vsub 16 v w

/-- `clear_patched_histogram`. -/
def clearPatchedHistogram (totalPatchSize : ℕ) (s : MedianBlurLargeHist) : MedianBlurLargeHist :=
  { s with
    patchedCoarse := fun i => if i < 16 * totalPatchSize then 0 else s.patchedCoarse i
    patchedFine := fun i => if i < 256 * totalPatchSize then 0 else s.patchedFine i }

/-- `clear_lookup_table`. -/
def clearLookupTable (s : MedianBlurLargeHist) : MedianBlurLargeHist :=
  { s with lookup := .empty }

/-- `scalar_initialize_patched_histogram`; `/ 16` and `% 16` are `>> 4` and
`& 0xF`. -/
def scalarInitializePatchedHistogram (incomingPixel : U8) (channelIdx patchLength patchOffset : ℕ)
    (s : MedianBlurLargeHist) : Option MedianBlurLargeHist := do
  let coarseOffset := 16 * (patchLength * channelIdx + patchOffset) + incomingPixel.val / 16
  let fineOffset := 16 * (patchLength * (16 * channelIdx + incomingPixel.val / 16) + patchOffset) +
    incomingPixel.val % 16
  let patchedCoarse ← increment u16 s.patchedCoarse coarseOffset
  let patchedFine ← increment u16 s.patchedFine fineOffset
  some { s with patchedCoarse := patchedCoarse, patchedFine := patchedFine }

/-- `vector_initialize_patched_histogram`: lane `i` at `patch_offset + i`. -/
def vectorInitializePatchedHistogram (incomingPixels : U8x16)
    (channelIdx patchLength patchOffset : ℕ) (s : MedianBlurLargeHist) :
    Option MedianBlurLargeHist :=
  forRangeM 16
    (fun i => scalarInitializePatchedHistogram (vgetqLaneU8 incomingPixels i) channelIdx patchLength
      (patchOffset + i)) s

/-- `scalar_update_patch_histogram`. -/
def scalarUpdatePatchHistogram (outgoingPixel incomingPixel : U8)
    (channelIdx patchLength patchOffset : ℕ) (s : MedianBlurLargeHist) :
    Option MedianBlurLargeHist := do
  let coarseOffsetBase := 16 * (patchLength * channelIdx + patchOffset)
  let fineOffsetBase := 16 * patchLength * 16 * channelIdx + 16 * patchOffset
  let fineNewOffset := fineOffsetBase + incomingPixel.val % 16 +
    16 * patchLength * (incomingPixel.val / 16)
  let coarseNewOffset := coarseOffsetBase + incomingPixel.val / 16
  let fineOldOffset := fineOffsetBase + outgoingPixel.val % 16 +
    16 * patchLength * (outgoingPixel.val / 16)
  let coarseOldOffset := coarseOffsetBase + outgoingPixel.val / 16
  let patchedCoarse ← increment u16 s.patchedCoarse coarseNewOffset
  let patchedCoarse ← decrement patchedCoarse coarseOldOffset
  let patchedFine ← increment u16 s.patchedFine fineNewOffset
  let patchedFine ← decrement patchedFine fineOldOffset
  some { s with patchedCoarse := patchedCoarse, patchedFine := patchedFine }

/-- `vector_update_patch_histogram`: lane `i` at `patch_offset + i`, with the
same offsets as in the scalar function. -/
def vectorUpdatePatchHistogram (outgoingPixels incomingPixels : U8x16)
    (channelIdx patchLength patchOffset : ℕ) (s : MedianBlurLargeHist) :
    Option MedianBlurLargeHist :=
  forRangeM 16
    (fun i => scalarUpdatePatchHistogram (vgetqLaneU8 outgoingPixels i)
      (vgetqLaneU8 incomingPixels i) channelIdx patchLength (patchOffset + i)) s

/-- `initialize_coarse`, from `px` on. -/
def initializeCoarse (patchedCoarse : ℕ → ℕ) (px kMargin : ℕ) (vCoarse : ℕ → ℕ) :
    Option (ℕ → ℕ) :=
  forRangeM (2 * kMargin) (fun i v => vaddqU16x2 v (vld1qU16x2 patchedCoarse (px + 16 * i))) vCoarse

/-- `initialize_fine`: the fine bins, and `luc`. -/
def initializeFine (patchedFine : ℕ → ℕ) (px patchOffset kMargin totalPatchSpan : ℕ)
    (vFine : ℕ → ℕ) : Option ((ℕ → ℕ) × ℕ) :=
  let start := (patchOffset - kMargin) % u16
  let stop := min (patchOffset + kMargin + 1) totalPatchSpan % u16
  (forRangeM (stop - start)
    (fun i v => vaddqU16x2 v (vld1qU16x2 patchedFine (px + 16 * i))) vFine).map
    fun v => (v, max start stop)

/-- `update_fine`. -/
def updateFine (patchedFine : ℕ → ℕ) (px luc patchOffset kMargin totalPatchSpan : ℕ)
    (vFine : ℕ → ℕ) : Option ((ℕ → ℕ) × ℕ) :=
  let stop := (patchOffset + kMargin + 1) % u16
  (forFromM luc (stop - luc)
    (fun safeLuc v => do
      let v ← vaddqU16x2 v (vld1qU16x2 patchedFine (px + 16 * min safeLuc (totalPatchSpan - 1)))
      vsubqU16x2 v (vld1qU16x2 patchedFine (px + 16 * (safeLuc - (2 * kMargin + 1))))) vFine).map
    fun v => (v, max luc stop)

/-- `find_coarse_index`: the bin, and the count before it. -/
def findCoarseIndex (coarse : ℕ → ℕ) (cdf medianIndex : ℕ) : Option (ℕ × ℕ) :=
  cumulativeSearch sizeMod coarse medianIndex 16 0 cdf

/-- `find_median`. -/
def findMedian (fine : ℕ → ℕ → ℕ) (cdf medianIndex coarseIndex : ℕ) : Option U8 :=
  (cumulativeSearch sizeMod (fine coarseIndex) medianIndex 16 0 cdf).map
    fun r => Fin.ofNat 256 (16 * coarseIndex + r.1)

/-- The fine bins of `coarse_index` for the window around `patch_offset`, and
their `luc`: recounted, or brought up to date. -/
def refreshFine (s : MedianBlurLargeHist) (c coarseIndex patchOffset kMargin totalPatchSpan : ℕ) :
    Option ((ℕ → ℕ) × ℕ) :=
  if s.lookup.luc coarseIndex ≤ patchOffset - kMargin then
    initializeFine s.patchedFine
      (16 * (totalPatchSpan * (16 * c + coarseIndex) + patchOffset - kMargin)) patchOffset kMargin
      totalPatchSpan fun _ => 0
  else
    updateFine s.patchedFine (16 * totalPatchSpan * (16 * c + coarseIndex))
      (s.lookup.luc coarseIndex) patchOffset kMargin totalPatchSpan (s.lookup.fine coarseIndex)

/-- One iteration of `compute_patch_median_from_histogram`. -/
def computePatchMedianStep (h c totalPatchSpan kMargin ksize : ℕ) (dst : Rows) (patchOffset : ℕ)
    (state : (ℕ → ℕ) × MedianBlurLargeHist × Mem) :
    Option ((ℕ → ℕ) × MedianBlurLargeHist × Mem) := do
  let (vCoarse, s, m) := state
  let medianIndex := ksize * ksize / 2
  let vCoarse ← vaddqU16x2 vCoarse (vld1qU16x2 s.patchedCoarse
    (16 * (totalPatchSpan * c + min (patchOffset + kMargin) (totalPatchSpan - 1))))
  let (coarseIndex, cdf) ← findCoarseIndex vCoarse 0 medianIndex
  let (vFine, luc) ← s.refreshFine c coarseIndex patchOffset kMargin totalPatchSpan
  let lookup : LookupTable :=
    { coarse := vCoarse
      fine := Function.update s.lookup.fine coarseIndex vFine
      luc := Function.update s.lookup.luc coarseIndex luc }
  let vCoarse ← vsubqU16x2 vCoarse (vld1qU16x2 s.patchedCoarse
    (16 * (totalPatchSpan * c + (patchOffset - kMargin))))
  let median ← findMedian lookup.fine cdf medianIndex coarseIndex
  some (vCoarse, { s with lookup := lookup },
    Function.update m (dst.ptrAt h (patchOffset - kMargin : ℕ) c) median)

/-- `compute_patch_median_from_histogram`. -/
def computePatchMedianFromHistogram (s : MedianBlurLargeHist) (h c totalPatchSpan kMargin ksize : ℕ)
    (dst : Rows) (m : Mem) : Option (MedianBlurLargeHist × Mem) := do
  let vCoarse ← initializeCoarse s.patchedCoarse (16 * totalPatchSpan * c) kMargin s.lookup.coarse
  let (_, s, m) ← forFromM kMargin (totalPatchSpan - kMargin - kMargin)
    (computePatchMedianStep h c totalPatchSpan kMargin ksize dst) (vCoarse, s, m)
  some (s, m)

section

variable (mem : Mem) (srcRows : Rows)

/-- `initialize_patched_histogram_without_horizontal_borders`. -/
def initializePatchedHistogramWithoutHorizontalBorders (isSingleChannel : Bool)
    (startingWidth kMargin c : ℕ) (validH : ℤ) (totalPatchSpan : ℕ) (s : MedianBlurLargeHist) :
    Option MedianBlurLargeHist := do
  let vectorPart := if isSingleChannel then totalPatchSpan / 16 * 16 else 0
  let s ← forRangeM (vectorPart / 16)
    (fun i =>
      let patchOffset := 16 * i
      let validW := minus (startingWidth + patchOffset) kMargin
      vectorInitializePatchedHistogram (vld1qU8 mem (srcRows.ptrAt validH validW c)) c
        totalPatchSpan patchOffset) s
  forFromM vectorPart (totalPatchSpan - vectorPart)
    (fun patchOffset =>
      let validW := minus (startingWidth + patchOffset) kMargin
      scalarInitializePatchedHistogram (mem (srcRows.ptrAt validH validW c)) c totalPatchSpan
        patchOffset) s

/-- `initialize_patched_histogram_with_horizontal_borders`. -/
def initializePatchedHistogramWithHorizontalBorders (width : ℕ) (borderType : FixedBorderType)
    (startingWidth kMargin c : ℕ) (validH : ℤ) (totalPatchSpan : ℕ) (s : MedianBlurLargeHist) :
    Option MedianBlurLargeHist :=
  forRangeM totalPatchSpan
    (fun patchOffset =>
      let validW :=
        getPhysicalIndex (((startingWidth + patchOffset : ℕ) : ℤ) - kMargin) width borderType
      scalarInitializePatchedHistogram (mem (srcRows.ptrAt validH validW c)) c totalPatchSpan
        patchOffset) s

/-- `update_patch_histogram_without_horizontal_borders`. -/
def updatePatchHistogramWithoutHorizontalBorders (isSingleChannel : Bool)
    (startingWidth kMargin c : ℕ) (validOldH validNewH : ℤ) (totalPatchSpan : ℕ)
    (s : MedianBlurLargeHist) : Option MedianBlurLargeHist := do
  let vectorPart := if isSingleChannel then totalPatchSpan / 16 * 16 else 0
  let s ← forRangeM (vectorPart / 16)
    (fun i =>
      let patchOffset := 16 * i
      let validW := minus (startingWidth + patchOffset) kMargin
      vectorUpdatePatchHistogram (vld1qU8 mem (srcRows.ptrAt validOldH validW c))
        (vld1qU8 mem (srcRows.ptrAt validNewH validW c)) c totalPatchSpan patchOffset) s
  forFromM vectorPart (totalPatchSpan - vectorPart)
    (fun patchOffset =>
      let validW := minus (startingWidth + patchOffset) kMargin
      scalarUpdatePatchHistogram (mem (srcRows.ptrAt validOldH validW c))
        (mem (srcRows.ptrAt validNewH validW c)) c totalPatchSpan patchOffset) s

/-- `update_patch_histogram_with_horizontal_borders`. -/
def updatePatchHistogramWithHorizontalBorders (width : ℕ) (borderType : FixedBorderType)
    (startingWidth kMargin c : ℕ) (validOldH validNewH : ℤ) (totalPatchSpan : ℕ)
    (s : MedianBlurLargeHist) : Option MedianBlurLargeHist :=
  forRangeM totalPatchSpan
    (fun patchOffset =>
      let validW :=
        getPhysicalIndex (((startingWidth + patchOffset : ℕ) : ℤ) - kMargin) width borderType
      scalarUpdatePatchHistogram (mem (srcRows.ptrAt validOldH validW c))
        (mem (srcRows.ptrAt validNewH validW c)) c totalPatchSpan patchOffset) s

/-- How a pass of `process_pixels_...` reads a row: the functions it initialises
and updates the histograms with, for the patch from a column on. -/
structure PatchPass where
  initializeRow : (startingWidth kMargin c : ℕ) → (validH : ℤ) → (totalPatchSpan : ℕ) →
    MedianBlurLargeHist → Option MedianBlurLargeHist
  updateRow : (startingWidth kMargin c : ℕ) → (validOldH validNewH : ℤ) → (totalPatchSpan : ℕ) →
    MedianBlurLargeHist → Option MedianBlurLargeHist

/-- The first row of a patch: the histograms of its columns are built. -/
def processFirstRow (pass : PatchPass) (height startY : ℕ) (shiftedDst : Rows) (ksize : ℕ)
    (borderType : FixedBorderType) (w totalPatchSpan : ℕ) (state : MedianBlurLargeHist × Mem) :
    Option (MedianBlurLargeHist × Mem) :=
  let kMargin := ksize / 2
  forRangeM srcRows.channels
    (fun c (state : MedianBlurLargeHist × Mem) => do
      let s ← forRangeM ksize
        (fun r =>
          let validH := getPhysicalIndex (((startY + r : ℕ) : ℤ) - kMargin) height borderType
          pass.initializeRow w kMargin c validH totalPatchSpan)
        state.1.clearLookupTable
      s.computePatchMedianFromHistogram startY c totalPatchSpan kMargin ksize shiftedDst state.2)
    state

/-- A later row `h` of a patch: they are updated. -/
def processNextRow (pass : PatchPass) (height : ℕ) (shiftedDst : Rows) (ksize : ℕ)
    (borderType : FixedBorderType) (w totalPatchSpan h : ℕ) (state : MedianBlurLargeHist × Mem) :
    Option (MedianBlurLargeHist × Mem) :=
  let kMargin := ksize / 2
  let validOldH := getPhysicalIndex ((h : ℤ) - kMargin - 1) height borderType
  let validNewH := getPhysicalIndex ((h + kMargin : ℕ) : ℤ) height borderType
  forRangeM srcRows.channels
    (fun c (state : MedianBlurLargeHist × Mem) => do
      let s ← pass.updateRow w kMargin c validOldH validNewH totalPatchSpan
        state.1.clearLookupTable
      s.computePatchMedianFromHistogram h c totalPatchSpan kMargin ksize shiftedDst state.2)
    state

/-- One patch of `process_pixels_...`, from column `w` on, for the rows from
`startY` up to `endY`. -/
def processPatch (pass : PatchPass) (height startY endY : ℕ) (dstRows : Rows) (ksize : ℕ)
    (borderType : FixedBorderType) (w totalPatchSpan : ℕ) (state : MedianBlurLargeHist × Mem) :
    Option (MedianBlurLargeHist × Mem) := do
  let shiftedDst : Rows := { dstRows with ptr := dstRows.ptr + w * dstRows.channels }
  let state ← processFirstRow srcRows pass height startY shiftedDst ksize borderType w
    totalPatchSpan (state.1.clearPatchedHistogram (totalPatchSpan * srcRows.channels), state.2)
  forFromM (startY + 1) (endY - (startY + 1))
    (processNextRow srcRows pass height shiftedDst ksize borderType w totalPatchSpan) state

/-- `process_pixels_with_horizontal_borders` and
`process_pixels_without_horizontal_borders`. -/
def processPixels (pass : PatchPass) (height startX startY endX endY : ℕ) (dstRows : Rows)
    (ksize : ℕ) (borderType : FixedBorderType) (state : MedianBlurLargeHist × Mem) :
    Option (MedianBlurLargeHist × Mem) :=
  forRangeM ((endX - startX + (patchLengthMax - 1)) / patchLengthMax)
    (fun i =>
      let w := startX + patchLengthMax * i
      let totalPatchSpan := min (endX - w) patchLengthMax + ksize / 2 * 2
      processPatch srcRows pass height startY endY dstRows ksize borderType w totalPatchSpan)
    state

def withHorizontalBorders (width : ℕ) (borderType : FixedBorderType) : PatchPass where
  initializeRow := initializePatchedHistogramWithHorizontalBorders mem srcRows width borderType
  updateRow := updatePatchHistogramWithHorizontalBorders mem srcRows width borderType

def withoutHorizontalBorders (isSingleChannel : Bool) : PatchPass where
  initializeRow := initializePatchedHistogramWithoutHorizontalBorders mem srcRows isSingleChannel
  updateRow := updatePatchHistogramWithoutHorizontalBorders mem srcRows isSingleChannel

/-- `median_process<is_single_channel>`. -/
def medianProcess (isSingleChannel : Bool) (width height : ℕ) (dstRows : Rows)
    (yBegin yEnd kernelWidth kernelHeight : ℕ) (borderType : FixedBorderType)
    (state : MedianBlurLargeHist × Mem) : Option (MedianBlurLargeHist × Mem) := do
  let kMargin := (kernelWidth - 1) / 2
  let borders := withHorizontalBorders mem srcRows width borderType
  let noBorders := withoutHorizontalBorders mem srcRows isSingleChannel
  let processingLeftWidth := kMargin
  let state ← processPixels srcRows borders height 0 yBegin (0 + processingLeftWidth) yEnd dstRows
    kernelHeight borderType state
  let startingWidth := processingLeftWidth
  let processingCenterWidth := sizeSub width (2 * kMargin)
  let state ← processPixels srcRows noBorders height startingWidth yBegin
    (startingWidth + processingCenterWidth) yEnd dstRows kernelHeight borderType state
  let startingWidth := processingLeftWidth + processingCenterWidth
  let processingRightWidth := sizeSub (sizeSub width processingLeftWidth) processingCenterWidth
  processPixels srcRows borders height startingWidth yBegin (startingWidth + processingRightWidth)
    yEnd dstRows kernelHeight borderType state

end

end MedianBlurLargeHist

/-- `median_blur_large_hist_stripe_u8`, which always returns OK: the destination
afterwards.  `patchedCoarse` and `patchedFine` are what `malloc` gives. -/
def medianBlurLargeHistStripeU8 (mem : Mem) (src : Rows) (m : Mem) (dst : Rows)
    (width height yBegin yEnd kernelWidth kernelHeight : ℕ) (borderType : FixedBorderType)
    (patchedCoarse patchedFine : ℕ → ℕ) : Option Mem :=
  let medianFilter : MedianBlurLargeHist := ⟨patchedCoarse, patchedFine, .empty⟩
  (MedianBlurLargeHist.medianProcess mem src (src.channels == 1) width height dst yBegin yEnd
    kernelWidth kernelHeight borderType (medianFilter, m)).map Prod.snd

/-! ### The histograms of the columns -/

namespace MedianBlurLargeHist

/-- The coarse bin `b` of column `q.2` in channel `q.1`. -/
def coarseIdx (span : ℕ) (q : ℕ × ℕ) (b : ℕ) : ℕ := 16 * (span * q.1 + q.2) + b

/-- The fine bin of the value `v`. -/
def fineIdx (span : ℕ) (q : ℕ × ℕ) (v : ℕ) : ℕ :=
  16 * (span * (16 * q.1 + v / 16) + q.2) + v % 16

/-- The columns of a patch. -/
def patchColumns (channels span : ℕ) : Set (ℕ × ℕ) := {q | q.1 < channels ∧ q.2 < span}

/-- The histograms count the pixels `col` of the columns of a patch. -/
structure PatchCounts (channels span : ℕ) (s : MedianBlurLargeHist)
    (col : ℕ × ℕ → Multiset U8) : Prop where
  coarse : Counts (coarseIdx span) (patchColumns channels span) {b | b < 16} (fun x => x.val / 16)
    s.patchedCoarse col
  fine : Counts (fineIdx span) (patchColumns channels span) {v | v < 256} (fun x => x.val)
    s.patchedFine col

section

variable {channels span : ℕ} {s : MedianBlurLargeHist} {col col' : ℕ × ℕ → Multiset U8}

theorem coarseIdx_distinct :
    Counts.Distinct (coarseIdx span) (patchColumns channels span) {b | b < 16} := by
  rintro ⟨c, p⟩ ⟨-, hp⟩ b hb ⟨c', p'⟩ ⟨-, hp'⟩ b' hb' heq
  simp only [Set.mem_ofPred_eq, coarseIdx] at hb hb' hp hp' heq
  obtain ⟨rfl, rfl⟩ := Counts.eq_of_mul_add_eq hp hp' (by omega : span * c + p = span * c' + p')
  exact ⟨rfl, by omega⟩

theorem fineIdx_distinct :
    Counts.Distinct (fineIdx span) (patchColumns channels span) {v | v < 256} := by
  rintro ⟨c, p⟩ ⟨-, hp⟩ v hv ⟨c', p'⟩ ⟨-, hp'⟩ v' hv' heq
  simp only [Set.mem_ofPred_eq, fineIdx] at hv hv' hp hp' heq
  obtain ⟨hcv, rfl⟩ := Counts.eq_of_mul_add_eq hp hp'
    (by omega : span * (16 * c + v / 16) + p = span * (16 * c' + v' / 16) + p')
  exact ⟨Prod.ext (by simp only; omega) rfl, by omega⟩

theorem PatchCounts.congr (h : PatchCounts channels span s col)
    (hcol : ∀ q ∈ patchColumns channels span, col q = col' q) : PatchCounts channels span s col' :=
  ⟨h.coarse.congr hcol, h.fine.congr hcol⟩

/-- Cleared histograms count nothing. -/
theorem PatchCounts.clear (channels span : ℕ) (s : MedianBlurLargeHist) :
    PatchCounts channels span (s.clearPatchedHistogram (span * channels)) fun _ => 0 := by
  have hcolumn : ∀ c p, c < channels → p < span → span * c + p < span * channels := by
    intro c p hc hp
    have := Nat.mul_le_mul_left span (show c + 1 ≤ channels from hc)
    rw [Nat.mul_succ] at this
    omega
  constructor
  · rintro ⟨c, p⟩ ⟨hc, hp⟩ b hb
    have := hcolumn c p hc hp
    simp only [Set.mem_ofPred_eq] at hb
    rw [Multiset.countP_zero, clearPatchedHistogram]
    exact if_pos (by simp only [coarseIdx]; omega)
  · rintro ⟨c, p⟩ ⟨hc, hp⟩ v hv
    simp only [Set.mem_ofPred_eq] at hc hp hv
    have h1 := Nat.mul_le_mul_left span (show 16 * c + v / 16 + 1 ≤ 16 * channels by omega)
    rw [Nat.mul_succ, show span * (16 * channels) = 16 * (span * channels) by ring] at h1
    rw [Multiset.countP_zero, clearPatchedHistogram]
    exact if_pos (by simp only [fineIdx]; omega)

/-- A pixel comes into a column. -/
theorem PatchCounts.scalarInitialize_ends {c p : ℕ} (h : PatchCounts channels span s col)
    (hc : c < channels) (hp : p < span) {x : U8} (hcard : Multiset.card (col (c, p)) + 1 < u16) :
    Ends (scalarInitializePatchedHistogram x c span p s) fun s' => s'.lookup = s.lookup ∧
      PatchCounts channels span s' (Function.update col (c, p) (col (c, p) + {x})) := by
  have hx := x.isLt
  refine (h.coarse.increment_ends coarseIdx_distinct (q := (c, p)) ⟨hc, hp⟩ (x := x)
    (by simp only [Set.mem_ofPred_eq]; omega) hcard).bind fun patchedCoarse hcoarse => ?_
  refine (h.fine.increment_ends fineIdx_distinct (q := (c, p)) ⟨hc, hp⟩ (x := x) hx hcard).bind
    fun patchedFine hfine => ?_
  exact Ends.some ⟨rfl, hcoarse, hfine⟩

/-- A pixel comes into a column and one goes. -/
theorem PatchCounts.scalarUpdate_ends {c p : ℕ} (h : PatchCounts channels span s col)
    (hc : c < channels) (hp : p < span) {old new : U8} {t : Multiset U8}
    (ht : col (c, p) + {new} = t + {old}) (hcard : Multiset.card (col (c, p)) + 1 < u16) :
    Ends (scalarUpdatePatchHistogram old new c span p s) fun s' => s'.lookup = s.lookup ∧
      PatchCounts channels span s' (Function.update col (c, p) t) := by
  have hold := old.isLt
  have hnew := new.isLt
  have hfineIdx : ∀ v, 16 * span * 16 * c + 16 * p + v % 16 + 16 * span * (v / 16) =
      fineIdx span (c, p) v := fun v => by
    simp only [fineIdx]
    ring
  have hupdate : ∀ u, Function.update (Function.update col (c, p) u) (c, p) t =
      Function.update col (c, p) t := fun u => Function.update_idem _ _ _
  rw [scalarUpdatePatchHistogram]
  simp only [hfineIdx]
  refine (h.coarse.increment_ends coarseIdx_distinct (q := (c, p)) ⟨hc, hp⟩ (x := new)
    (by simp only [Set.mem_ofPred_eq]; omega) hcard).bind fun a ha => ?_
  refine (ha.decrement_ends coarseIdx_distinct (q := (c, p)) ⟨hc, hp⟩ (x := old)
    (by simp only [Set.mem_ofPred_eq]; omega)
    ((Function.update_self _ _ _).trans ht)).bind fun patchedCoarse hcoarse => ?_
  refine (h.fine.increment_ends fineIdx_distinct (q := (c, p)) ⟨hc, hp⟩ (x := new) hnew hcard).bind
    fun b hb => ?_
  refine (hb.decrement_ends fineIdx_distinct (q := (c, p)) ⟨hc, hp⟩ (x := old) hold
    ((Function.update_self _ _ _).trans ht)).bind fun patchedFine hfine => ?_
  rw [hupdate] at hcoarse hfine
  exact Ends.some ⟨rfl, hcoarse, hfine⟩

/-- The columns below `n` of channel `c` are replaced. -/
def replaceColumns (col : ℕ × ℕ → Multiset U8) (c n : ℕ) (new : ℕ → Multiset U8) :
    ℕ × ℕ → Multiset U8 :=
  fun q => if q.1 = c ∧ q.2 < n then new q.2 else col q

/-- What a loop over the columns of channel `c` has done before column `n`. -/
def ColumnsDone (channels span : ℕ) (s : MedianBlurLargeHist) (col : ℕ × ℕ → Multiset U8) (c : ℕ)
    (new : ℕ → Multiset U8) (n : ℕ) (s' : MedianBlurLargeHist) : Prop :=
  s'.lookup = s.lookup ∧ PatchCounts channels span s' (replaceColumns col c n new)

theorem PatchCounts.columnsDone_zero (h : PatchCounts channels span s col) (c : ℕ)
    (new : ℕ → Multiset U8) : ColumnsDone channels span s col c new 0 s :=
  ⟨rfl, h.congr fun q _ => by simp [replaceColumns]⟩

/-- A column that has not been replaced. -/
theorem replaceColumns_self (col : ℕ × ℕ → Multiset U8) (c n : ℕ) (new : ℕ → Multiset U8) :
    replaceColumns col c n new (c, n) = col (c, n) := by
  simp [replaceColumns]

/-- One column more. -/
theorem ColumnsDone.succ {c n : ℕ} {new : ℕ → Multiset U8} {s' s'' : MedianBlurLargeHist}
    (h : ColumnsDone channels span s col c new n s')
    (hstep : s''.lookup = s'.lookup ∧ PatchCounts channels span s''
      (Function.update (replaceColumns col c n new) (c, n) (new n))) :
    ColumnsDone channels span s col c new (n + 1) s'' := by
  refine ⟨hstep.1.trans h.1, hstep.2.congr ?_⟩
  rintro ⟨c', p⟩ -
  by_cases hq : (c', p) = (c, n)
  · obtain ⟨rfl, rfl⟩ := Prod.mk.inj hq
    simp [replaceColumns]
  · rw [Function.update_of_ne hq]
    have hiff : (c' = c ∧ p < n) ↔ c' = c ∧ p < n + 1 := by
      constructor
      · exact fun h => ⟨h.1, by omega⟩
      · rintro ⟨rfl, hp⟩
        refine ⟨rfl, lt_of_le_of_ne (Nat.lt_succ_iff.mp hp) fun heq => hq ?_⟩
        rw [heq]
    simp only [replaceColumns, hiff]

/-- A loop in blocks of 16 columns, and the columns after it one by one. -/
theorem columnsDone_blocks {c vectorPart : ℕ} {new : ℕ → Multiset U8}
    {block step : ℕ → MedianBlurLargeHist → Option MedianBlurLargeHist}
    (hdvd : 16 ∣ vectorPart) (hle : vectorPart ≤ span) (h : PatchCounts channels span s col)
    (hblock : ∀ i < vectorPart / 16, ∀ s',
      ColumnsDone channels span s col c new (16 * i) s' →
        Ends (block i s') (ColumnsDone channels span s col c new (16 * (i + 1))))
    (hstep : ∀ p, vectorPart ≤ p → p < span → ∀ s', ColumnsDone channels span s col c new p s' →
      Ends (step p s') (ColumnsDone channels span s col c new (p + 1))) :
    Ends ((forRangeM (vectorPart / 16) block s).bind
      (forFromM vectorPart (span - vectorPart) step)) (ColumnsDone channels span s col c new span) := by
  refine (Ends.forRangeM (fun i => ColumnsDone channels span s col c new (16 * i))
    (h.columnsDone_zero c new) hblock).bind fun s' hs' => ?_
  rw [Nat.mul_div_cancel' hdvd] at hs'
  have := Ends.forFromM (ColumnsDone channels span s col c new) (n := span - vectorPart) hs'
    fun p hp hp' t ht => hstep p hp (by omega) t ht
  rwa [Nat.add_sub_cancel' hle] at this

/-- A column of a channel is initialised or updated as it should be, before and
after its neighbours. -/
theorem ColumnsDone.scalarInitialize_ends {c p : ℕ} {new : ℕ → Multiset U8}
    {s' : MedianBlurLargeHist} (h : ColumnsDone channels span s col c new p s')
    (hc : c < channels) (hp : p < span) (hcard : Multiset.card (col (c, p)) + 1 < u16) {x : U8}
    (hx : new p = col (c, p) + {x}) :
    Ends (scalarInitializePatchedHistogram x c span p s')
      (ColumnsDone channels span s col c new (p + 1)) := by
  rw [← replaceColumns_self col c p new] at hcard
  refine (h.2.scalarInitialize_ends hc hp hcard).mono fun s'' hs'' => h.succ ?_
  rwa [replaceColumns_self, ← hx] at hs''

theorem ColumnsDone.scalarUpdate_ends {c p : ℕ} {new : ℕ → Multiset U8}
    {s' : MedianBlurLargeHist} (h : ColumnsDone channels span s col c new p s')
    (hc : c < channels) (hp : p < span) (hcard : Multiset.card (col (c, p)) + 1 < u16) {x y : U8}
    (hx : col (c, p) + {y} = new p + {x}) :
    Ends (scalarUpdatePatchHistogram x y c span p s')
      (ColumnsDone channels span s col c new (p + 1)) := by
  rw [← replaceColumns_self col c p new] at hcard hx
  exact (h.2.scalarUpdate_ends hc hp hx hcard).mono fun s'' hs'' => h.succ hs''

end

/-! ### Rows of pixels -/

/-- The pass reads the rows of the extended image, from its column `w` on. -/
structure PatchPass.Correct (pass : PatchPass) (I : MedianImage) (w span : ℕ) : Prop where
  initializeRow : ∀ {s col c} (new : ℕ → Multiset U8) (t : ℕ), PatchCounts I.dst.channels span s col →
    c < I.dst.channels → (∀ p < span, Multiset.card (col (c, p)) + 1 < u16) →
    (∀ p < span, new p = col (c, p) + {I.extended c t (w + p)}) →
    Ends (pass.initializeRow w I.margin c (I.rowIndex t) span s)
      (ColumnsDone I.dst.channels span s col c new span)
  updateRow : ∀ {s col c} (new : ℕ → Multiset U8) (t t' : ℕ), PatchCounts I.dst.channels span s col →
    c < I.dst.channels → (∀ p < span, Multiset.card (col (c, p)) + 1 < u16) →
    (∀ p < span, col (c, p) + {I.extended c t' (w + p)} = new p + {I.extended c t (w + p)}) →
    Ends (pass.updateRow w I.margin c (I.rowIndex t) (I.rowIndex t') span s)
      (ColumnsDone I.dst.channels span s col c new span)

/-- Near the borders, and everywhere else. -/
theorem withHorizontalBorders_correct (I : MedianImage) {w span : ℕ}
    (hspan : w + span ≤ I.width + 2 * I.margin) :
    (withHorizontalBorders I.mem I.src I.width I.borderType).Correct I w span := by
  have hcolumn : ∀ p < span, getPhysicalIndex (((w + p : ℕ) : ℤ) - I.margin) I.width I.borderType =
      I.columnIndex (w + p) := fun p hp => by
    have h1 := I.margin_le_width
    have h2 := I.margin_pos
    exact I.getPhysicalIndex_column (by omega)
  constructor
  · intro s col c new t h hc hcard hnew
    refine Ends.forRangeM _ (h.columnsDone_zero c new) fun p hp s' hs' => ?_
    simp only [hcolumn p hp]
    exact hs'.scalarInitialize_ends hc hp (hcard p hp) (hnew p hp)
  · intro s col c new t t' h hc hcard hnew
    refine Ends.forRangeM _ (h.columnsDone_zero c new) fun p hp s' hs' => ?_
    simp only [hcolumn p hp]
    exact hs'.scalarUpdate_ends hc hp (hcard p hp) (hnew p hp)

/-- Between the borders, where 16 columns of a single channel are one vector. -/
theorem withoutHorizontalBorders_correct (I : MedianImage) {w span : ℕ} (hw : I.margin ≤ w)
    (hspan : w + span ≤ I.width + I.margin) :
    (withoutHorizontalBorders I.mem I.src (I.src.channels == 1)).Correct I w span := by
  have hwidth := I.width_lt
  have hmargin := I.margin_le_width
  have hcolumn : ∀ p < span, minus (w + p) I.margin = (w + p - I.margin : ℕ) := fun p hp => by
    rw [minus_eq (by omega) (by omega)]
    omega
  have hpixel : ∀ c t p, p < span → I.mem (I.src.ptrAt (I.rowIndex t) (minus (w + p) I.margin) c) =
      I.extended c t (w + p) := fun c t p hp => by
    rw [MedianImage.extended, I.columnIndex_eq (by omega) (by omega), hcolumn p hp]
  have hlane : ∀ c t p l, I.src.channels = 1 → l < 16 → p + l < span →
      vgetqLaneU8 (vld1qU8 I.mem (I.src.ptrAt (I.rowIndex t) (minus (w + p) I.margin) c)) l =
        I.extended c t (w + (p + l)) := fun c t p l hch hl hp => by
    obtain ⟨r, -, hr⟩ := I.exists_rowIndex t
    rw [vgetqLaneU8_vld1qU8 _ _ hl, ← hpixel c t (p + l) hp, hcolumn p (by omega),
      ← Nat.add_assoc, Nat.add_assoc w, hcolumn (p + l) hp, hr, Rows.ptrAt_natCast,
      Rows.ptrAt_natCast, hch]
    congr 1
    omega
  have hpart : ∀ b : Bool, (if b = true then span / 16 * 16 else 0) ≤ span ∧
      16 ∣ if b = true then span / 16 * 16 else 0 := by
    intro b
    cases b with
    | false => simp
    | true => exact ⟨Nat.div_mul_le_self _ _, Dvd.intro_left _ rfl⟩
  -- A block lies inside the patch, and there is one only if there is one channel.
  have hblock : ∀ i, i < (if (I.src.channels == 1) = true then span / 16 * 16 else 0) / 16 →
      I.src.channels = 1 ∧ 16 * i + 16 ≤ span := by
    intro i hi
    split at hi
    · rename_i hch
      exact ⟨by simpa using hch, by omega⟩
    · omega
  constructor
  · intro s col c new t h hc hcard hnew
    refine columnsDone_blocks (hpart _).2 (hpart _).1 h (fun i hi s' hs' => ?_)
      fun p _ hp s' hs' => ?_
    · obtain ⟨hch, hend⟩ := hblock i hi
      refine Ends.forRangeM
        (fun l => ColumnsDone I.dst.channels span s col c new (16 * i + l)) hs' fun l hl t ht => ?_
      rw [hlane c _ _ l hch hl (by omega)]
      exact ht.scalarInitialize_ends hc (by omega) (hcard _ (by omega)) (hnew _ (by omega))
    · rw [hpixel c t p hp]
      exact hs'.scalarInitialize_ends hc hp (hcard p hp) (hnew p hp)
  · intro s col c new t t' h hc hcard hnew
    refine columnsDone_blocks (hpart _).2 (hpart _).1 h (fun i hi s' hs' => ?_)
      fun p _ hp s' hs' => ?_
    · obtain ⟨hch, hend⟩ := hblock i hi
      refine Ends.forRangeM
        (fun l => ColumnsDone I.dst.channels span s col c new (16 * i + l)) hs' fun l hl t ht => ?_
      rw [hlane c _ _ l hch hl (by omega), hlane c _ _ l hch hl (by omega)]
      exact ht.scalarUpdate_ends hc (by omega) (hcard _ (by omega)) (hnew _ (by omega))
    · rw [hpixel c t p hp, hpixel c t' p hp]
      exact hs'.scalarUpdate_ends hc hp (hcard p hp) (hnew p hp)

/-! ### The window along a row -/

section

variable {channels span m k : ℕ} {s : MedianBlurLargeHist} {col : ℕ × ℕ → Multiset U8}

/-- A vector of coarse counts. -/
abbrev CoarseLanes (v : ℕ → ℕ) (w : Multiset U8) : Prop :=
  Lanes 16 (fun l (x : U8) => x.val / 16 = l) v w

/-- A vector of the fine counts of one coarse bin. -/
abbrev FineLanes (coarseIndex : ℕ) (v : ℕ → ℕ) (w : Multiset U8) : Prop :=
  Lanes 16 (fun l (x : U8) => x.val = 16 * coarseIndex + l) v w

theorem PatchCounts.coarseLanes (h : PatchCounts channels span s col) {c p : ℕ}
    (hc : c < channels) (hp : p < span) :
    CoarseLanes (vld1qU16x2 s.patchedCoarse (16 * (span * c + p))) (col (c, p)) :=
  fun l hl => h.coarse (c, p) ⟨hc, hp⟩ l hl

theorem PatchCounts.fineLanes (h : PatchCounts channels span s col) {c p coarseIndex : ℕ}
    (hc : c < channels) (hp : p < span) (hi : coarseIndex < 16) :
    FineLanes coarseIndex (vld1qU16x2 s.patchedFine (16 * (span * (16 * c + coarseIndex) + p)))
      (col (c, p)) := by
  intro l hl
  have := h.fine (c, p) ⟨hc, hp⟩ (16 * coarseIndex + l) (by simp only [Set.mem_ofPred_eq]; omega)
  rwa [fineIdx, show (16 * coarseIndex + l) / 16 = coarseIndex by omega,
    show (16 * coarseIndex + l) % 16 = l by omega] at this

variable {C : ℕ → Multiset U8} {patchOffset : ℕ}

/-- `initialize_coarse` and `initialize_fine` add up columns. -/
theorem addColumns_ends {p : ℕ → U8 → Prop} [∀ l, DecidablePred (p l)] {a : ℕ → ℕ} {px j n : ℕ}
    (hlanes : ∀ i < n, Lanes 16 p (vld1qU16x2 a (px + 16 * i)) (C (j + i)))
    (hcard : ∀ q, j ≤ q → q < j + n → Multiset.card (C q) = k) (hk : n * k < u16) :
    Ends (forRangeM n (fun i v => vaddqU16x2 v (vld1qU16x2 a (px + 16 * i))) fun _ => 0)
      fun v => Lanes 16 p v (windowSum C j n) := by
  refine Ends.forRangeM (fun i v => Lanes 16 p v (windowSum C j i)) Lanes.zero
    fun i hi v hv => ?_
  rw [windowSum.succ]
  refine hv.vadd_ends (hlanes i hi) ?_
  rw [← Multiset.card_add, ← windowSum.succ,
    card_windowSum fun q hq hq' => hcard q hq (by omega)]
  exact (Nat.mul_le_mul_right k hi).trans_lt hk

theorem initializeFine_ends {p : ℕ → U8 → Prop} [∀ l, DecidablePred (p l)] {a : ℕ → ℕ} {px : ℕ}
    (hm : m ≤ patchOffset) (hspan : patchOffset + m < span) (h16 : span < u16)
    (hlanes : ∀ i < 2 * m + 1,
      Lanes 16 p (vld1qU16x2 a (px + 16 * i)) (C (patchOffset - m + i)))
    (hcard : ∀ q < span, Multiset.card (C q) = k) (hk : (2 * m + 1) * k < u16) :
    Ends (initializeFine a px patchOffset m span fun _ => 0) fun r =>
      r.2 = patchOffset + m + 1 ∧ Lanes 16 p r.1 (windowSum C (patchOffset - m) (2 * m + 1)) := by
  have h1 : (patchOffset - m) % u16 = patchOffset - m := Nat.mod_eq_of_lt (by omega)
  have h2 : min (patchOffset + m + 1) span % u16 = patchOffset + m + 1 := by
    rw [Nat.mod_eq_of_lt] <;> omega
  simp only [initializeFine, h1, h2]
  rw [show patchOffset + m + 1 - (patchOffset - m) = 2 * m + 1 by omega]
  exact (addColumns_ends hlanes (fun q _ hq => hcard q (by omega)) hk).map
    fun v hv => ⟨by simp only; omega, hv⟩

theorem updateFine_ends {p : ℕ → U8 → Prop} [∀ l, DecidablePred (p l)] {a : ℕ → ℕ} {px luc : ℕ}
    {vFine : ℕ → ℕ} (hspan : patchOffset + m < span) (h16 : span < u16)
    (hlanes : ∀ q < span, Lanes 16 p (vld1qU16x2 a (px + 16 * q)) (C q))
    (hcard : ∀ q < span, Multiset.card (C q) = k) (hk : (2 * m + 1) * k + k < u16)
    (hluc : 2 * m + 1 ≤ luc) (hluc' : luc ≤ patchOffset + m)
    (hv : Lanes 16 p vFine (windowSum C (luc - (2 * m + 1)) (2 * m + 1))) :
    Ends (updateFine a px luc patchOffset m span vFine) fun r =>
      r.2 = patchOffset + m + 1 ∧ Lanes 16 p r.1 (windowSum C (patchOffset - m) (2 * m + 1)) := by
  have h1 : (patchOffset + m + 1) % u16 = patchOffset + m + 1 := Nat.mod_eq_of_lt (by omega)
  simp only [updateFine, h1]
  have hloop := Ends.forFromM (fun l v => Lanes 16 p v (windowSum C (l - (2 * m + 1)) (2 * m + 1)))
    (a := luc) (n := patchOffset + m + 1 - luc)
    (f := fun safeLuc v => (vaddqU16x2 v (vld1qU16x2 a (px + 16 * min safeLuc (span - 1)))).bind
      fun v => vsubqU16x2 v (vld1qU16x2 a (px + 16 * (safeLuc - (2 * m + 1))))) hv
    (by
      intro l hl hl' v hv
      rw [min_eq_left (by omega)]
      have hfit : Multiset.card (windowSum C (l - (2 * m + 1)) (2 * m + 1)) +
          Multiset.card (C l) < u16 := by
        rw [card_windowSum (k := k) fun q _ hq => hcard q (by omega), hcard l (by omega)]
        exact hk
      refine (hv.vadd_ends (hlanes l (by omega)) hfit).bind fun v' hv' => ?_
      -- The window moves on by one column.
      have hslide := windowSum.slide C (l - (2 * m + 1)) (2 * m + 1)
      rw [show l - (2 * m + 1) + 1 = l + 1 - (2 * m + 1) by omega,
        show l - (2 * m + 1) + (2 * m + 1) = l by omega, add_comm] at hslide
      rw [← hslide] at hv'
      exact hv'.vsub_ends (hlanes _ (by omega)))
  rw [show luc + (patchOffset + m + 1 - luc) = patchOffset + m + 1 by omega,
    show patchOffset + m + 1 - (2 * m + 1) = patchOffset - m by omega] at hloop
  exact hloop.map fun v hv => ⟨by simp only; omega, hv⟩

/-- `find_coarse_index` finds the block of 16 values that holds the element of
rank `r`. -/
theorem findCoarseIndex_ends {v : ℕ → ℕ} {w : Multiset U8} {r : ℕ} (hv : CoarseLanes v w)
    (hr : r < Multiset.card w) (hcard : Multiset.card w < sizeMod) :
    Ends (findCoarseIndex v 0 r) fun q => q.1 < 16 ∧
      q.2 = w.countP (fun x => x.val < 16 * q.1) ∧ q.2 ≤ r ∧
      r < w.countP fun x => x.val < 16 * q.1 + 16 := by
  have hall : w.countP (fun x : U8 => x.val / 16 < 0 + 16) = Multiset.card w :=
    (countP_block_lt w _).trans (countP_lt_256 w)
  have hzero : w.countP (fun x : U8 => x.val / 16 < 0) = 0 := by simp
  have := histogramSearch_ends (fun x : U8 => x.val / 16) v sizeMod (s := w) (a := 0) (i := 0)
    (n := 16) (r := r)
    (fun t ht => by simpa only [Nat.zero_add] using hv t ht) (by omega) (by omega) hcard
  rw [hzero] at this
  refine this.mono ?_
  rintro q ⟨j, hj, rfl, hle, hlt⟩
  simp only [Nat.zero_add, countP_block_lt, Nat.mul_add, Nat.mul_one] at hle hlt ⊢
  exact ⟨hj, trivial, hle, hlt⟩

/-- `find_median` finds the element of rank `r` in that block. -/
theorem findMedian_ends {fine : ℕ → ℕ → ℕ} {w : Multiset U8} {coarseIndex r : ℕ}
    (hi : coarseIndex < 16) (hv : FineLanes coarseIndex (fine coarseIndex) w)
    (hle : w.countP (fun x => x.val < 16 * coarseIndex) ≤ r)
    (hlt : r < w.countP fun x => x.val < 16 * coarseIndex + 16)
    (hcard : Multiset.card w < sizeMod) :
    Ends (findMedian fine (w.countP fun x => x.val < 16 * coarseIndex) r coarseIndex)
      fun x => x = rankElement w r := by
  have := histogramSearch_ends (fun x : U8 => x.val) (fine coarseIndex) sizeMod (s := w)
    (a := 16 * coarseIndex) (i := 0) (n := 16) (r := r)
    (fun t ht => by simpa only [Nat.zero_add] using hv t ht) hle hlt hcard
  refine this.map ?_
  rintro q ⟨j, hj, rfl, h1, h2⟩
  rw [Nat.zero_add]
  exact (rankElement_eq_ofNat (by omega) h1 h2).symm

/-- Before column `patchOffset` of a row: the coarse counts of the window
without its last column, and fine counts of the windows that ended at `luc`. -/
structure LookupInv (C : ℕ → Multiset U8) (m patchOffset : ℕ) (vCoarse : ℕ → ℕ)
    (lookup : LookupTable) : Prop where
  coarse : CoarseLanes vCoarse (windowSum C (patchOffset - m) (2 * m))
  /-- A bin that was used holds the window that ended at its `luc`; none ends
  behind the one processed last. -/
  fine : ∀ i < 16, lookup.luc i = 0 ∨
    2 * m + 1 ≤ lookup.luc i ∧ lookup.luc i ≤ patchOffset + m ∧
      FineLanes i (lookup.fine i) (windowSum C (lookup.luc i - (2 * m + 1)) (2 * m + 1))

/-- The fine counts of the bin that holds the median, recounted or brought up to
date. -/
theorem LookupInv.refreshFine_ends {vCoarse : ℕ → ℕ} {c i : ℕ}
    (h : LookupInv (fun p => col (c, p)) m patchOffset vCoarse s.lookup)
    (hs : PatchCounts channels span s col) (hc : c < channels) (hi : i < 16)
    (hm : m ≤ patchOffset) (hspan : patchOffset + m < span) (h16 : span < u16)
    (hcard : ∀ q < span, Multiset.card (col (c, q)) = 2 * m + 1)
    (hk : (2 * m + 1) * (2 * m + 1) + (2 * m + 1) < u16) :
    Ends (s.refreshFine c i patchOffset m span) fun r =>
      r.2 = patchOffset + m + 1 ∧
        FineLanes i r.1 (windowSum (fun p => col (c, p)) (patchOffset - m) (2 * m + 1)) := by
  unfold refreshFine
  split
  · refine initializeFine_ends (C := fun p => col (c, p)) (k := 2 * m + 1) hm hspan h16
      (fun j hj => ?_) hcard (by omega)
    have := hs.fineLanes hc (p := patchOffset - m + j) (by omega) hi
    rwa [show 16 * (span * (16 * c + i) + (patchOffset - m + j)) =
      16 * (span * (16 * c + i) + patchOffset - m) + 16 * j by omega] at this
  · rename_i hfresh
    rcases h.fine i hi with hzero | ⟨hluc, hluc', hlanes⟩
    · rw [hzero] at hfresh
      exact absurd (Nat.zero_le _) hfresh
    · refine updateFine_ends (C := fun p => col (c, p)) (k := 2 * m + 1) hspan h16
        (fun q hq => ?_) hcard hk hluc hluc' hlanes
      have := hs.fineLanes hc hq hi
      rwa [show 16 * (span * (16 * c + i) + q) = 16 * span * (16 * c + i) + 16 * q by ring] at this

/-- One iteration of `compute_patch_median_from_histogram`. -/
theorem computePatchMedianStep_ends {vCoarse : ℕ → ℕ} {c h : ℕ} {dst : Rows} {M : Mem}
    (hinv : LookupInv (fun p => col (c, p)) m patchOffset vCoarse s.lookup)
    (hs : PatchCounts channels span s col) (hc : c < channels) (hm : m ≤ patchOffset)
    (hspan : patchOffset + m < span) (h16 : span < u16)
    (hcard : ∀ q < span, Multiset.card (col (c, q)) = 2 * m + 1)
    (hk : (2 * m + 1) * (2 * m + 1) + (2 * m + 1) < u16) :
    Ends (computePatchMedianStep h c span m (2 * m + 1) dst patchOffset (vCoarse, s, M)) fun r =>
      LookupInv (fun p => col (c, p)) m (patchOffset + 1) r.1 r.2.1.lookup ∧
      PatchCounts channels span r.2.1 col ∧
      r.2.2 = Function.update M (dst.ptrAt h (patchOffset - m : ℕ) c)
        (rankElement (windowSum (fun p => col (c, p)) (patchOffset - m) (2 * m + 1))
          ((2 * m + 1) * (2 * m + 1) / 2)) := by
  have hcardW : Multiset.card (windowSum (fun p => col (c, p)) (patchOffset - m) (2 * m + 1)) =
      (2 * m + 1) * (2 * m + 1) := card_windowSum fun q _ hq => hcard q (by omega)
  have hsize : (2 * m + 1) * (2 * m + 1) < sizeMod := by
    have : u16 < sizeMod := by decide
    omega
  have hrank : (2 * m + 1) * (2 * m + 1) / 2 < (2 * m + 1) * (2 * m + 1) :=
    Nat.div_lt_self (Nat.mul_pos (by omega) (by omega)) (by omega)
  rw [computePatchMedianStep]
  -- The last column of the window comes in.
  rw [min_eq_left (show patchOffset + m ≤ span - 1 by omega)]
  have hlast := windowSum.succ (fun p => col (c, p)) (patchOffset - m) (2 * m)
  rw [show patchOffset - m + 2 * m = patchOffset + m by omega] at hlast
  have hfit : Multiset.card (windowSum (fun p => col (c, p)) (patchOffset - m) (2 * m)) +
      Multiset.card (col (c, patchOffset + m)) < u16 := by
    rw [← Multiset.card_add, ← hlast, hcardW]
    omega
  refine (hinv.coarse.vadd_ends (hs.coarseLanes hc hspan) hfit).bind fun vCoarse' hcoarse => ?_
  rw [← hlast] at hcoarse
  refine (findCoarseIndex_ends hcoarse (hcardW ▸ hrank) (hcardW ▸ hsize)).bind ?_
  rintro ⟨i, cdf⟩ ⟨hi, hcdf, hle, hlt⟩
  simp only at hi hcdf hle hlt
  subst hcdf
  refine (hinv.refreshFine_ends hs hc hi hm hspan h16 hcard hk).bind ?_
  rintro ⟨vFine, luc⟩ ⟨rfl, hfine⟩
  -- The first column goes.
  rw [windowSum.succ', add_comm] at hcoarse
  refine (hcoarse.vsub_ends (hs.coarseLanes hc (by omega))).bind fun vCoarse'' hcoarse' => ?_
  refine (findMedian_ends hi (by simpa only [Function.update_self] using hfine) hle hlt
    (hcardW ▸ hsize)).bind fun x hx => ?_
  refine Ends.some ⟨⟨?_, fun i' hi' => ?_⟩, ⟨hs.coarse, hs.fine⟩, by rw [hx]⟩
  · rwa [show patchOffset + 1 - m = patchOffset - m + 1 by omega]
  · by_cases hsame : i' = i
    · subst hsame
      refine .inr ?_
      simp only [Function.update_self]
      refine ⟨by omega, by omega, ?_⟩
      rwa [show patchOffset + m + 1 - (2 * m + 1) = patchOffset - m by omega]
    · simp only [Function.update_of_ne hsame]
      exact (hinv.fine i' hi').imp_right fun ⟨h1, h2, h3⟩ => ⟨h1, by omega, h3⟩

end

/-- **One row of a patch.**  The columns of channel `c` hold the rows of the
windows of row `y`; their medians are written. -/
theorem computePatchMedian_ends (I : MedianImage) {s : MedianBlurLargeHist}
    {col : ℕ × ℕ → Multiset U8} {w n c y : ℕ} (M : Mem)
    (hs : PatchCounts I.dst.channels (n + I.margin * 2) s col) (hlookup : s.lookup = .empty)
    (hc : c < I.dst.channels) (hn : w + n ≤ I.width) (h16 : n + I.margin * 2 < u16)
    (hk : I.ksize * I.ksize + I.ksize < u16)
    (hcol : ∀ p < n + I.margin * 2,
      col (c, p) = windowSum (fun t => {I.extended c t (w + p)}) y I.ksize) :
    Ends (computePatchMedianFromHistogram s y c (n + I.margin * 2) I.margin
        I.ksize { I.dst with ptr := I.dst.ptr + w * I.dst.channels } M) fun r =>
      PatchCounts I.dst.channels (n + I.margin * 2) r.1 col ∧
      I.Computes (I.pixels fun y' x' c' => y' = y ∧ (w ≤ x' ∧ x' < w + n) ∧ c' = c) M r.2 := by
  have hcard : ∀ q < n + I.margin * 2, Multiset.card (col (c, q)) = 2 * I.margin + 1 :=
    fun q hq => by rw [hcol q hq, card_column, MedianImage.ksize]
  rw [MedianImage.ksize] at hk
  -- A pixel of the patch, its address and its window.
  have haddress : ∀ j, ({ I.dst with ptr := I.dst.ptr + w * I.dst.channels } : Rows).ptrAt y
      (j : ℕ) c = I.address (y, (w + j) * I.dst.channels + c) := fun j => by
    rw [Rows.ptrAt_natCast, MedianImage.address]
    ring
  have hwindow : ∀ j < n, windowSum (fun p => col (c, p)) j (2 * I.margin + 1) =
      medianWindow (I.extended c) y (w + j) I.ksize := fun j hj => by
    simp only [medianWindow, windowSum, MedianImage.ksize]
    refine Finset.sum_congr rfl fun i hi => ?_
    have := Finset.mem_range.mp hi
    rw [hcol (j + i) (by omega), Nat.add_assoc]
    rfl
  have hstart : ∀ v, CoarseLanes v (windowSum (fun p => col (c, p)) 0 (2 * I.margin)) →
      LookupInv (fun p => col (c, p)) I.margin I.margin v s.lookup :=
    fun v hv => ⟨by rwa [Nat.sub_self], fun i _ => .inl (by rw [hlookup]; rfl)⟩
  rw [computePatchMedianFromHistogram, hlookup]
  refine (addColumns_ends (p := fun l (x : U8) => x.val / 16 = l) (C := fun p => col (c, p))
    (k := 2 * I.margin + 1) (j := 0) (n := 2 * I.margin)
    (fun i hi => ?_) (fun q _ hq => hcard q (by omega)) ?_).bind fun v hv => ?_
  · have := hs.coarseLanes hc (p := i) (by omega)
    rwa [Nat.zero_add, show 16 * (n + I.margin * 2) * c + 16 * i =
      16 * ((n + I.margin * 2) * c + i) by ring]
  · have : 2 * I.margin * (2 * I.margin + 1) ≤ (2 * I.margin + 1) * (2 * I.margin + 1) :=
      Nat.mul_le_mul_right _ (by omega)
    omega
  have hloop := Ends.forFromM
    (fun patchOffset (r : (ℕ → ℕ) × MedianBlurLargeHist × Mem) =>
      LookupInv (fun p => col (c, p)) I.margin patchOffset r.1 r.2.1.lookup ∧
      PatchCounts I.dst.channels (n + I.margin * 2) r.2.1 col ∧
      I.Computes (I.pixels fun y' x' c' =>
        y' = y ∧ (w ≤ x' ∧ x' < w + (patchOffset - I.margin)) ∧ c' = c) M r.2.2)
    (a := I.margin) (n := n) (s := (v, s, M))
    (f := computePatchMedianStep y c (n + I.margin * 2) I.margin I.ksize
      { I.dst with ptr := I.dst.ptr + w * I.dst.channels })
    ⟨hstart v hv, hs, .refl M fun _ _ _ _ _ h => by omega⟩ (by
      rintro patchOffset hp hp' ⟨v', s', M'⟩ ⟨hinv, hs', hM⟩
      refine (computePatchMedianStep_ends hinv hs' hc hp (by omega) h16 hcard hk).mono ?_
      rintro ⟨v'', s'', M''⟩ ⟨hinv', hs'', hM''⟩
      refine ⟨hinv', hs'', ?_⟩
      simp only at hM''
      rw [hM'', haddress, hwindow _ (by omega)]
      refine hM.trans (MedianImage.Computes.update (by omega) hc M') fun y' x' c' _ _ => ?_
      constructor <;> intro h <;> omega)
  rw [show n + I.margin * 2 - I.margin - I.margin = n by omega]
  refine hloop.bind ?_
  rintro ⟨v', s', M'⟩ ⟨-, hs', hM⟩
  rw [Nat.add_sub_cancel_left] at hM
  exact Ends.some ⟨hs', hM⟩

/-! ### Patches -/

/-- The rows of the windows of row `y`, in column `q.2` of a patch and channel
`q.1`. -/
def windowColumn (I : MedianImage) (w y : ℕ) (q : ℕ × ℕ) : Multiset U8 :=
  windowSum (fun t => {I.extended q.1 t (w + q.2)}) y I.ksize

section

variable {I : MedianImage} {w n : ℕ} {pass : PatchPass}

/-- The first row of a patch, one channel. -/
theorem initializeRows_ends {c y : ℕ} {s : MedianBlurLargeHist} {col : ℕ × ℕ → Multiset U8}
    (hpass : pass.Correct I w n) (hc : c < I.dst.channels) (hmargin : 2 ≤ I.margin)
    (hy : y ≤ I.height) (hk : I.ksize < u16) (hs : PatchCounts I.dst.channels n s col)
    (hzero : ∀ p, col (c, p) = 0) :
    Ends (forRangeM I.ksize
        (fun r => pass.initializeRow w I.margin c
          (getPhysicalIndex (((y + r : ℕ) : ℤ) - I.margin) I.height I.borderType) n) s)
      fun s' => s'.lookup = s.lookup ∧ PatchCounts I.dst.channels n s'
        fun q => if q.1 = c then windowColumn I w y q else col q := by
  have hheight := I.margin_le_height
  have hks : I.ksize = 2 * I.margin + 1 := rfl
  refine Ends.forRangeM (fun r s' => s'.lookup = s.lookup ∧ PatchCounts I.dst.channels n s'
    fun q => if q.1 = c then windowSum (fun t => {I.extended q.1 t (w + q.2)}) y r else col q)
    ⟨rfl, hs.congr ?_⟩ fun r hr s' hs' => ?_
  · rintro ⟨c', p⟩ -
    by_cases hsame : c' = c
    · subst hsame
      simp [hzero]
    · simp [hsame]
  · rw [I.getPhysicalIndex_row (by omega)]
    refine (hpass.initializeRow
      (fun p => windowSum (fun t => {I.extended c t (w + p)}) y (r + 1)) (y + r) hs'.2 hc
      (fun p _ => ?_) fun p _ => ?_).mono fun s'' hs'' => ⟨hs''.1.trans hs'.1, hs''.2.congr ?_⟩
    · rw [if_pos rfl, card_column]
      omega
    · rw [if_pos rfl, windowSum.succ]
    · rintro ⟨c', p⟩ ⟨-, hp⟩
      by_cases hsame : c' = c
      · subst hsame
        simp only [replaceColumns, true_and, if_true]
        exact if_pos hp
      · simp [replaceColumns, hsame]

/-- The columns of the channels below `c` show row `y'`, the others row `y`. -/
def channelColumns (I : MedianImage) (w y y' c : ℕ) (q : ℕ × ℕ) : Multiset U8 :=
  if q.1 < c then windowColumn I w y' q else windowColumn I w y q

theorem channelColumns_congr {y y' c : ℕ} {s : MedianBlurLargeHist}
    {span : ℕ} (hs : PatchCounts I.dst.channels span s
      fun q => if q.1 = c then windowColumn I w y' q else channelColumns I w y y' c q) :
    PatchCounts I.dst.channels span s (channelColumns I w y y' (c + 1)) := by
  refine hs.congr fun q _ => ?_
  simp only [channelColumns]
  split_ifs <;> first | rfl | omega

/-- The windows move on by one row. -/
theorem updateRow_ends {c y : ℕ} {s : MedianBlurLargeHist} (hpass : pass.Correct I w n)
    (hc : c < I.dst.channels) (hy : y + 1 < I.height) (hk : I.ksize + 1 < u16)
    (hs : PatchCounts I.dst.channels n s (channelColumns I w y (y + 1) c)) :
    Ends (pass.updateRow w I.margin c
        (getPhysicalIndex (((y + 1 : ℕ) : ℤ) - I.margin - 1) I.height I.borderType)
        (getPhysicalIndex ((y + 1 + I.margin : ℕ) : ℤ) I.height I.borderType) n s)
      fun s' => s'.lookup = s.lookup ∧
        PatchCounts I.dst.channels n s' (channelColumns I w y (y + 1) (c + 1)) := by
  have hheight := I.margin_le_height
  have hmargin := I.margin_pos
  have hold : ((y + 1 : ℕ) : ℤ) - I.margin - 1 = (y : ℕ) - I.margin := by omega
  have hnew : ((y + 1 + I.margin : ℕ) : ℤ) = ((y + I.ksize : ℕ) : ℤ) - I.margin := by
    simp only [MedianImage.ksize]
    omega
  have hks : I.ksize = 2 * I.margin + 1 := rfl
  rw [hold, hnew, I.getPhysicalIndex_row (by omega), I.getPhysicalIndex_row (by omega)]
  have hself : ∀ p, channelColumns I w y (y + 1) c (c, p) = windowColumn I w y (c, p) := fun p =>
    if_neg (lt_irrefl c)
  refine (hpass.updateRow (fun p => windowColumn I w (y + 1) (c, p)) y (y + I.ksize) hs hc
    (fun p _ => ?_) fun p _ => ?_).mono
    fun s' hs' => ⟨hs'.1, channelColumns_congr (hs'.2.congr ?_)⟩
  · rw [hself, windowColumn, card_column]
    omega
  · rw [hself, windowColumn, ← windowSum.slide, add_comm]
    rfl
  · rintro ⟨c', p⟩ ⟨-, hp⟩
    by_cases hsame : c' = c
    · subst hsame
      simp only [replaceColumns, true_and, if_true]
      exact if_pos hp
    · simp [replaceColumns, hsame]

/-- The bounds under which no counter wraps. -/
structure Fits (I : MedianImage) : Prop where
  margin : 2 ≤ I.margin
  counters : I.ksize * I.ksize + I.ksize < u16
  columns : patchLengthMax + I.margin * 2 < u16

theorem Fits.ksize_lt (h : Fits I) : I.ksize + 1 < u16 := by
  have h1 := h.counters
  have h2 : I.ksize * 1 ≤ I.ksize * I.ksize :=
    Nat.mul_le_mul_left _ (by simp only [MedianImage.ksize]; omega)
  have h3 := h.columns
  simp only [MedianImage.ksize, patchLengthMax] at h1 h2 h3 ⊢
  omega

/-- The first row of a patch, all channels. -/
theorem processFirstRow_ends {y : ℕ} {s : MedianBlurLargeHist} (M : Mem) (hI : Fits I)
    (hpass : pass.Correct I w (n + I.margin * 2)) (hn : n ≤ patchLengthMax) (hwn : w + n ≤ I.width)
    (hy : y ≤ I.height) (hs : PatchCounts I.dst.channels (n + I.margin * 2) s fun _ => 0) :
    Ends (processFirstRow I.src pass I.height y
        { I.dst with ptr := I.dst.ptr + w * I.dst.channels } I.ksize I.borderType w
        (n + I.margin * 2) (s, M)) fun state =>
      PatchCounts I.dst.channels (n + I.margin * 2) state.1 (windowColumn I w y) ∧
      I.Computes (I.pixels fun y' x' _ => y' = y ∧ w ≤ x' ∧ x' < w + n) M state.2 := by
  have hk := hI.ksize_lt
  have hcolumns := hI.columns
  simp only [processFirstRow, I.ksize_half, I.src_channels]
  refine (Ends.forRangeM (fun c (state : MedianBlurLargeHist × Mem) =>
    PatchCounts I.dst.channels (n + I.margin * 2) state.1
      (fun q => if q.1 < c then windowColumn I w y q else 0) ∧
    I.Computes (I.pixels fun y' x' c' => y' = y ∧ (w ≤ x' ∧ x' < w + n) ∧ c' < c) M state.2)
    ⟨hs.congr (by simp), .refl M fun _ _ _ _ _ h => by omega⟩ ?_).mono ?_
  · rintro c hc ⟨t, M'⟩ ⟨ht, hM⟩
    have hclear : PatchCounts I.dst.channels (n + I.margin * 2) t.clearLookupTable
        (fun q => if q.1 < c then windowColumn I w y q else 0) := ⟨ht.coarse, ht.fine⟩
    refine (initializeRows_ends (y := y) hpass hc hI.margin hy (by omega) hclear (by simp)).bind
      fun t' ht' => ?_
    have hcol : PatchCounts I.dst.channels (n + I.margin * 2) t'
        (fun q => if q.1 < c + 1 then windowColumn I w y q else 0) := ht'.2.congr fun q _ => by
      split_ifs <;> first | rfl | omega
    refine (computePatchMedian_ends I M' hcol ht'.1 hc hwn (by omega) hI.counters
      fun p _ => if_pos (Nat.lt_succ_self c)).mono fun r hr => ⟨hr.1, hM.trans hr.2 ?_⟩
    intro y' x' c' _ _
    constructor <;> intro h <;> omega
  · rintro ⟨t, M'⟩ ⟨ht, hM⟩
    refine ⟨ht.congr fun q hq => if_pos hq.1, hM.congr fun y' x' c' _ hc' => ?_⟩
    constructor <;> intro h <;> omega

/-- A later row of a patch, all channels. -/
theorem processNextRow_ends {y : ℕ} {s : MedianBlurLargeHist} (M : Mem) (hI : Fits I)
    (hpass : pass.Correct I w (n + I.margin * 2)) (hn : n ≤ patchLengthMax) (hwn : w + n ≤ I.width)
    (hy : y + 1 < I.height)
    (hs : PatchCounts I.dst.channels (n + I.margin * 2) s (windowColumn I w y)) :
    Ends (processNextRow I.src pass I.height
        { I.dst with ptr := I.dst.ptr + w * I.dst.channels } I.ksize I.borderType w
        (n + I.margin * 2) (y + 1) (s, M)) fun state =>
      PatchCounts I.dst.channels (n + I.margin * 2) state.1 (windowColumn I w (y + 1)) ∧
      I.Computes (I.pixels fun y' x' _ => y' = y + 1 ∧ w ≤ x' ∧ x' < w + n) M state.2 := by
  have hcolumns := hI.columns
  simp only [processNextRow, I.ksize_half, I.src_channels]
  refine (Ends.forRangeM (fun c (state : MedianBlurLargeHist × Mem) =>
    PatchCounts I.dst.channels (n + I.margin * 2) state.1 (channelColumns I w y (y + 1) c) ∧
    I.Computes (I.pixels fun y' x' c' => y' = y + 1 ∧ (w ≤ x' ∧ x' < w + n) ∧ c' < c) M state.2)
    ⟨hs.congr (by simp [channelColumns]), .refl M fun _ _ _ _ _ h => by omega⟩ ?_).mono ?_
  · rintro c hc ⟨t, M'⟩ ⟨ht, hM⟩
    have hclear : PatchCounts I.dst.channels (n + I.margin * 2) t.clearLookupTable
        (channelColumns I w y (y + 1) c) := ⟨ht.coarse, ht.fine⟩
    refine (updateRow_ends hpass hc hy hI.ksize_lt hclear).bind fun t' ht' => ?_
    refine (computePatchMedian_ends I M' ht'.2 ht'.1 hc hwn (by omega) hI.counters
      fun p _ => if_pos (Nat.lt_succ_self c)).mono fun r hr => ⟨hr.1, hM.trans hr.2 ?_⟩
    intro y' x' c' _ _
    constructor <;> intro h <;> omega
  · rintro ⟨t, M'⟩ ⟨ht, hM⟩
    refine ⟨ht.congr fun q hq => if_pos hq.1, hM.congr fun y' x' c' _ hc' => ?_⟩
    constructor <;> intro h <;> omega

/-- **One patch.**  The first row of the stripe is written in any case. -/
theorem processPatch_ends {startY endY : ℕ} {s : MedianBlurLargeHist} (M : Mem) (hI : Fits I)
    (hpass : pass.Correct I w (n + I.margin * 2)) (hn : n ≤ patchLengthMax) (hwn : w + n ≤ I.width)
    (hstart : startY ≤ I.height) (hend : endY ≤ I.height) :
    Ends (processPatch I.src pass I.height startY endY I.dst I.ksize I.borderType w
        (n + I.margin * 2) (s, M)) fun state =>
      I.Computes (I.pixels fun y x _ => (startY ≤ y ∧ y < max endY (startY + 1)) ∧
        w ≤ x ∧ x < w + n) M state.2 := by
  rw [processPatch, I.src_channels]
  refine (processFirstRow_ends M hI hpass hn hwn hstart (PatchCounts.clear _ _ s)).bind ?_
  rintro ⟨t, M'⟩ ⟨ht, hM⟩
  refine (Ends.forFromM (fun h (state : MedianBlurLargeHist × Mem) =>
    PatchCounts I.dst.channels (n + I.margin * 2) state.1 (windowColumn I w (h - 1)) ∧
    I.Computes (I.pixels fun y x _ => (startY ≤ y ∧ y < h) ∧ w ≤ x ∧ x < w + n) M state.2)
    ⟨?_, hM.congr fun y x c _ _ => ?_⟩ ?_).mono fun state hstate => ?_
  · rwa [Nat.add_sub_cancel]
  · constructor <;> intro h <;> omega
  · rintro h hh hh' ⟨t, M'⟩ ⟨ht, hM⟩
    obtain ⟨y, rfl⟩ : ∃ y, h = y + 1 := ⟨h - 1, by omega⟩
    refine (processNextRow_ends (y := y) M' hI hpass hn hwn (by omega) ht).mono ?_
    rintro ⟨t', M''⟩ ⟨ht', hM'⟩
    refine ⟨ht', hM.trans hM' fun y' x c _ _ => ?_⟩
    constructor <;> intro h <;> omega
  · rw [show startY + 1 + (endY - (startY + 1)) = max endY (startY + 1) by omega] at hstate
    exact hstate.2

/-- The columns from `startX` up to `endX`, patch by patch. -/
theorem processPixels_ends {startX endX startY endY : ℕ} {s : MedianBlurLargeHist} (M : Mem)
    (hI : Fits I)
    (hpass : ∀ w n, startX ≤ w → w + n ≤ endX → pass.Correct I w (n + I.margin * 2))
    (hend : startX ≤ endX) (hwidth : endX ≤ I.width) (hstartY : startY ≤ I.height)
    (hendY : endY ≤ I.height) :
    Ends (processPixels I.src pass I.height startX startY endX endY I.dst I.ksize I.borderType
        (s, M)) fun state =>
      I.Computes (I.pixels fun y x _ => (startY ≤ y ∧ y < max endY (startY + 1)) ∧
        startX ≤ x ∧ x < endX) M state.2 := by
  simp only [processPixels, I.ksize_half]
  refine (Ends.forRangeM (fun i (state : MedianBlurLargeHist × Mem) =>
    I.Computes (I.pixels fun y x _ => (startY ≤ y ∧ y < max endY (startY + 1)) ∧
      startX ≤ x ∧ x < min endX (startX + patchLengthMax * i)) M state.2)
    (.refl M fun y x c _ _ h => by omega) ?_).mono fun state hstate => hstate.congr ?_
  · rintro i hi ⟨t, M'⟩ hM
    have hi' : startX + patchLengthMax * i < endX := by
      simp only [patchLengthMax] at hi ⊢
      omega
    refine (processPatch_ends M' hI (hpass _ _ (Nat.le_add_right _ _) (by omega))
      (Nat.min_le_right _ _) (by omega) hstartY hendY).mono fun state hstate =>
        hM.trans hstate fun y x c _ _ => ?_
    simp only [patchLengthMax] at hi' ⊢
    constructor <;> intro h <;> omega
  · intro y x c _ _
    simp only [patchLengthMax]
    constructor <;> intro h <;> omega

end

/-- **The median filter on a stripe.**  Without a row to process, the first row
of the stripe is written all the same. -/
theorem medianProcess_ends (I : MedianImage) {yBegin yEnd : ℕ} {s : MedianBlurLargeHist} (M : Mem)
    (hI : Fits I) (hbegin : yBegin ≤ I.height) (hend : yEnd ≤ I.height) :
    Ends (medianProcess I.mem I.src (I.src.channels == 1) I.width I.height I.dst yBegin yEnd I.ksize
        I.ksize I.borderType (s, M)) fun state =>
      I.Computes (I.stripe yBegin (max yEnd (yBegin + 1))) M state.2 := by
  have hwidth := I.margin_le_width
  have hlt := I.width_lt
  have hmargin : (I.ksize - 1) / 2 = I.margin := by
    rw [MedianImage.ksize]
    omega
  have hmod : I.width < sizeMod := hlt.trans (by decide)
  have hcenter : sizeSub I.width (2 * I.margin) = I.width - 2 * I.margin := sizeSub_eq hwidth hmod
  have hright : sizeSub (sizeSub I.width I.margin) (I.width - 2 * I.margin) = I.margin := by
    rw [sizeSub_eq (by omega) hmod, sizeSub_eq (by omega) (by omega)]
    omega
  simp only [medianProcess, hmargin, hcenter, hright]
  refine (processPixels_ends M hI (fun w n _ hn => withHorizontalBorders_correct I (by omega))
    (Nat.zero_le _) (by omega) hbegin hend).bind ?_
  rintro ⟨t, M1⟩ h1
  refine (processPixels_ends M1 hI
    (fun w n hw hn => withoutHorizontalBorders_correct I hw (by omega))
    (Nat.le_add_right _ _) (by omega) hbegin hend).bind ?_
  rintro ⟨t, M2⟩ h2
  refine (processPixels_ends M2 hI (fun w n _ hn => withHorizontalBorders_correct I (by omega))
    (Nat.le_add_right _ _) (by omega) hbegin hend).mono fun state h3 =>
      ((h1.trans h2 fun y x c _ _ => Iff.rfl).trans h3 fun y x c hx _ => ?_)
  constructor <;> intro h <;> omega

/-- Kernels of the sizes that are processed here. -/
theorem fits_of_ksize {I : MedianImage} (h : 5 ≤ I.ksize) (h' : I.ksize ≤ 255) : Fits I := by
  have hks : I.ksize = 2 * I.margin + 1 := rfl
  have hsquare : I.ksize * I.ksize ≤ 255 * 255 := Nat.mul_le_mul h' h'
  refine ⟨by omega, ?_, ?_⟩
  · simp only [u16]
    omega
  · simp only [patchLengthMax, u16]
    omega

end MedianBlurLargeHist

/-- The stripe function ends, and has written the medians of its rows, or those
of its first row if it has none. -/
theorem medianBlurLargeHistStripeU8_ends (I : MedianImage) {yBegin yEnd : ℕ} (m : Mem)
    (patchedCoarse patchedFine : ℕ → ℕ) (hk : 5 ≤ I.ksize) (hk' : I.ksize ≤ 255)
    (hbegin : yBegin ≤ I.height) (hend : yEnd ≤ I.height) :
    Ends (medianBlurLargeHistStripeU8 I.mem I.src m I.dst I.width I.height yBegin yEnd I.ksize
        I.ksize I.borderType patchedCoarse patchedFine)
      (I.Computes (I.stripe yBegin (max yEnd (yBegin + 1))) m) :=
  (MedianBlurLargeHist.medianProcess_ends I m (MedianBlurLargeHist.fits_of_ksize hk hk') hbegin
    hend).map fun _ h => h

/-- **Large kernels are filtered.**  For every accepted image and every stripe
with a row, `median_blur_large_hist_stripe_u8` ends, with no counter wrapped and
no search past its bins, and has written the medians of the stripe. -/
theorem median_blur_large_hist_medians {mem m : Mem} {src dst : Rows}
    {width height kernelWidth kernelHeight yBegin yEnd : ℕ} {borderType : BorderType}
    {b : FixedBorderType} (patchedCoarse patchedFine : ℕ → ℕ)
    (hvalid : medianBlurValidate src.ptr dst.ptr width height dst.channels kernelWidth kernelHeight
      borderType = .ok b)
    (hchannels : src.channels = dst.channels) (hpos : 1 ≤ dst.channels)
    (hstride : width * dst.channels ≤ dst.stride) (hkernel : 17 ≤ kernelWidth)
    (hstripe : yBegin < yEnd) (hheight : yEnd ≤ height) :
    ∃ m', medianBlurLargeHistStripeU8 mem src m dst width height yBegin yEnd kernelWidth
        kernelHeight b patchedCoarse patchedFine = some m' ∧
      MediansWritten mem src dst width height b kernelWidth yBegin yEnd m m' := by
  have h255 := (medianBlurValidate_ok hvalid).2.2.1
  obtain ⟨I, rfl, rfl, rfl, rfl, rfl, rfl, rfl, rfl⟩ :=
    exists_medianImage mem hvalid hchannels hpos hstride
  obtain ⟨m', hrun, hm'⟩ := medianBlurLargeHistStripeU8_ends I m patchedCoarse patchedFine
    (by omega) h255 (hstripe.le.trans hheight) hheight
  rw [max_eq_left (show yBegin + 1 ≤ yEnd from hstripe)] at hm'
  exact ⟨m', hrun, hm'.mediansWritten⟩

/-- The second row of an image of 17 rows and 20 columns, at a kernel of 17 × 17. -/
theorem median_blur_large_hist_medians_secondRow :
    ∃ m', medianBlurLargeHistStripeU8 (fun a => Fin.ofNat 256 (a * a)) ⟨1000, 20, 1⟩ (fun _ => 0)
        ⟨2000, 32, 1⟩ 20 17 1 2 17 17 .reflect (fun _ => 0) (fun _ => 0) = some m' ∧
      MediansWritten (fun a => Fin.ofNat 256 (a * a)) ⟨1000, 20, 1⟩ ⟨2000, 32, 1⟩ 20 17 .reflect 17
        1 2 (fun _ => 0) m' :=
  median_blur_large_hist_medians _ _
    (show medianBlurValidate 1000 2000 20 17 1 17 17 .reflect = .ok .reflect by decide) rfl (by decide)
    (by decide) (by decide) (by decide) (by decide)

end KleidiCV
