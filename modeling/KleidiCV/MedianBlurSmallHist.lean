/-
The median filter for kernels of medium size, `median_blur_small_hist_neon.cpp`.

The image is walked down column by column: at the left and right borders one
sample at a time, in between 16 bytes at a time, with one histogram for every
lane.  From row to row, `ksize` samples enter a histogram and `ksize` leave it.

Counters and running sums are 8 bits wide.  The model fails where a fine counter
or a sum would wrap and where a search leaves the histogram; the coarse counters
of the lanes are updated by differences modulo 256, as in the source.

* `HistCounts` — what the histograms of one or 16 lanes count;
* `scalarFindMedian_ends`, `vectorFindMedian_ends` — both searches find the
  median, of all lanes at once in the second;
* `HistogramOps.Correct` — what a pass must do at one place;
* `median_blur_small_hist_medians` — the medians of a stripe.
-/
import KleidiCV.Lib.Counters
import KleidiCV.MedianBlur

open Loop

namespace KleidiCV

/-- `MedianBlurSmallHist`: `fine` has 4096 counters and `coarse` 256, in the
vector passes 16 for every bin. -/
structure MedianBlurSmallHist where
  fine : ℕ → ℕ
  coarse : ℕ → ℕ

namespace MedianBlurSmallHist

/-- The number of values of `uint8_t`. -/
def u8 : ℕ := 256

/-- `scalar_clear_histogram`. -/
def scalarClearHistogram (s : MedianBlurSmallHist) : MedianBlurSmallHist where
  fine := fun i => if i < 256 then 0 else s.fine i
  coarse := fun i => if i < 16 then 0 else s.coarse i

/-- `vector_clear_histogram`. -/
def vectorClearHistogram (s : MedianBlurSmallHist) : MedianBlurSmallHist where
  fine := fun i => if i < 4096 then 0 else s.fine i
  coarse := fun i => if i < 256 then 0 else s.coarse i

/-- `scalar_initialize_histogram`; `/ 16` is `>> 4`. -/
def scalarInitializeHistogram (incomingPixel : U8) (s : MedianBlurSmallHist) :
    Option MedianBlurSmallHist := do
  let fine ← increment u8 s.fine incomingPixel.val
  let coarse ← increment u8 s.coarse (incomingPixel.val / 16)
  some ⟨fine, coarse⟩

/-- `vec_coarse[i]`. -/
def vecCoarse (coarse : ℕ → ℕ) (i : ℕ) : U8x16 := fun lane => Fin.ofNat 256 (coarse (16 * i + lane))

/-- `vec_coarse[i] = v`. -/
def setVecCoarse (coarse : ℕ → ℕ) (i : ℕ) (v : U8x16) : ℕ → ℕ := fun a =>
  if h : 16 * i ≤ a ∧ a < 16 * i + 16 then (v ⟨a - 16 * i, by omega⟩).val else coarse a

/-- `vector_initialize_histogram`; `vceqzq_u8` compares with bin 0. -/
def vectorInitializeHistogram (incomingPixels : U8x16) (s : MedianBlurSmallHist) :
    Option MedianBlurSmallHist := do
  let fine ← forRangeM 16
    (fun i fine => increment u8 fine ((vgetqLaneU8 incomingPixels i).val * 16 + i)) s.fine
  let incomingPixels := vshrqN4U8 incomingPixels
  let coarse := forRange 16
    (fun i coarse => setVecCoarse coarse i
      (vsubqU8 (vecCoarse coarse i) (vceqqU8 incomingPixels (vdupqNU8 (Fin.ofNat 256 i))))) s.coarse
  some ⟨fine, coarse⟩

/-- `scalar_update_histogram`. -/
def scalarUpdateHistogram (incomingPixel outgoingPixel : U8) (s : MedianBlurSmallHist) :
    Option MedianBlurSmallHist :=
  if incomingPixel ≠ outgoingPixel then do
    let fine ← increment u8 s.fine incomingPixel.val
    let coarse ← increment u8 s.coarse (incomingPixel.val / 16)
    let fine ← decrement fine outgoingPixel.val
    let coarse ← decrement coarse (outgoingPixel.val / 16)
    some ⟨fine, coarse⟩
  else some s

/-- `vector_update_histogram`. -/
def vectorUpdateHistogram (incomingPixels outgoingPixels : U8x16) (s : MedianBlurSmallHist) :
    Option MedianBlurSmallHist := do
  let fine ← forRangeM 16
    (fun i fine => do
      let fine ← increment u8 fine ((vgetqLaneU8 incomingPixels i).val * 16 + i)
      decrement fine ((vgetqLaneU8 outgoingPixels i).val * 16 + i)) s.fine
  let incomingPixels := vshrqN4U8 incomingPixels
  let outgoingPixels := vshrqN4U8 outgoingPixels
  let coarse := forRange 16
    (fun i coarse =>
      let index := vdupqNU8 (Fin.ofNat 256 i)
      let delta := vsubqU8 (vceqqU8 outgoingPixels index) (vceqqU8 incomingPixels index)
      setVecCoarse coarse i (vaddqU8 (vecCoarse coarse i) delta)) s.coarse
  some ⟨fine, coarse⟩

/-- `scalar_find_median`.  The coarse scan compares in `int`, the fine scan in
`uint8_t`. -/
def scalarFindMedian (s : MedianBlurSmallHist) (ksize : ℕ) : Option U8 := do
  let targetCdf := ksize * ksize / 2 % u8
  let (coarseIndex, cumulativeSum) ← cumulativeSearch (2 ^ 31) s.coarse targetCdf 16 0 0
  let (fineIndex, _) ← cumulativeSearch u8 s.fine targetCdf (256 - coarseIndex * 16)
    (coarseIndex * 16) cumulativeSum
  some (Fin.ofNat 256 fineIndex)

/-- `any_lane_set`. -/
def anyLaneSet (v : U8x16) : Bool := vmaxvqU32 (vreinterpretqU32U8 v) ≠ 0

/-- `all_lane_set`. -/
def allLaneSet (v : U8x16) : Bool := vminvqU32 (vreinterpretqU32U8 v) = 0xffffffff

/-- `vcgtq_u8`, on vectors of counters. -/
def vcgtqU8 (v : ℕ → ℕ) (target : ℕ) : U8x16 := fun lane => if target < v lane then 255 else 0

/-- Vector `i` of a histogram. -/
def histogramVector (a : ℕ → ℕ) (i : ℕ) : ℕ → ℕ := fun lane => a (16 * i + lane)

/-- The coarse pass of `vector_find_median`, from bin `coarseIndex` on. -/
def vectorCoarsePass (coarse : ℕ → ℕ) (targetCdf : ℕ) : ℕ → ℕ → (ℕ → ℕ) → Option (ℕ × (ℕ → ℕ))
  | 0, _, _ => none
  | n + 1, coarseIndex, cumulativeSum => do
    let cumulativeSumNext ← vadd u8 16 cumulativeSum (histogramVector coarse coarseIndex)
    if anyLaneSet (vcgtqU8 cumulativeSumNext targetCdf) then some (coarseIndex, cumulativeSum)
    else vectorCoarsePass coarse targetCdf n (coarseIndex + 1) cumulativeSumNext

/-- The fine pass of `vector_find_median`, from bin `fineIndex` on. -/
def vectorFinePass (fine : ℕ → ℕ) (targetCdf : ℕ) :
    ℕ → ℕ → (ℕ → ℕ) → U8x16 → U8x16 → Option U8x16
  | 0, _, _, _, _ => none
  | n + 1, fineIndex, cumulativeSum, medianResult, laneFoundMask => do
    let cumulativeSum ← vadd u8 16 cumulativeSum (histogramVector fine fineIndex)
    let stillSearchingMask := vceqzqU8 laneFoundMask
    let medianResult :=
      vbslqU8 stillSearchingMask (vdupqNU8 (Fin.ofNat 256 fineIndex)) medianResult
    let laneFoundMask := vorrqU8 laneFoundMask (vcgtqU8 cumulativeSum targetCdf)
    if allLaneSet laneFoundMask then some medianResult
    else vectorFinePass fine targetCdf n (fineIndex + 1) cumulativeSum medianResult laneFoundMask

/-- `vector_find_median`. -/
def vectorFindMedian (s : MedianBlurSmallHist) (ksize : ℕ) : Option U8x16 := do
  let targetCdf := ksize * ksize / 2 % u8
  let (coarseIndex, cumulativeSum) ← vectorCoarsePass s.coarse targetCdf 16 0 fun _ => 0
  vectorFinePass s.fine targetCdf (256 - coarseIndex * 16) (coarseIndex * 16) cumulativeSum
    (vdupqNU8 0) (vdupqNU8 0)

/-- What `process_pixels_...` does at one place of the row: with a sample, or
with 16 bytes. -/
structure HistogramOps where
  clear : MedianBlurSmallHist → MedianBlurSmallHist
  /-- The samples of row `valid_h` in column `c` of the window come in. -/
  initializeAt : (validH : ℤ) → (c : ℕ) → MedianBlurSmallHist → Option MedianBlurSmallHist
  /-- Those of row `valid_new_h` come in, those of row `valid_old_h` go. -/
  updateAt : (validNewH validOldH : ℤ) → (c : ℕ) → MedianBlurSmallHist → Option MedianBlurSmallHist
  /-- The medians are found and written to row `h`. -/
  writeMedian : (h : ℕ) → MedianBlurSmallHist → Mem → Option Mem

section

variable (mem : Mem) (srcRows : Rows)

/-- Column `w`, channel `ch`. -/
def withHorizontalBorders (dstRows : Rows) (width ksize : ℕ) (borderType : FixedBorderType)
    (w ch : ℕ) : HistogramOps where
  clear := scalarClearHistogram
  initializeAt := fun validH c =>
    let validW := getPhysicalIndex (((w + c : ℕ) : ℤ) - (ksize / 2 : ℕ)) width borderType
    scalarInitializeHistogram (mem (srcRows.ptrAt validH validW ch))
  updateAt := fun validNewH validOldH c =>
    let validW := getPhysicalIndex (((w + c : ℕ) : ℤ) - (ksize / 2 : ℕ)) width borderType
    scalarUpdateHistogram (mem (srcRows.ptrAt validNewH validW ch))
      (mem (srcRows.ptrAt validOldH validW ch))
  writeMedian := fun h s m =>
    (s.scalarFindMedian ksize).map fun medianValue =>
      Function.update m (dstRows.ptrAt h w ch) medianValue

/-- `&src_rows[vertical_index * src_rows.stride() + horizontal_index]`. -/
def byteAt (rows : Rows) (verticalIndex : ℤ) (horizontalIndex : ℕ) : ℕ :=
  (rows.ptr + (verticalIndex * rows.stride + horizontalIndex)).toNat

/-- The 16 bytes from byte `w` on. -/
def withoutHorizontalBorders (dstRows : Rows) (ksize w : ℕ) : HistogramOps where
  clear := vectorClearHistogram
  initializeAt := fun verticalIndex c =>
    let horizontalIndex := sizeSub (w + c * srcRows.channels) (ksize / 2 * srcRows.channels)
    vectorInitializeHistogram (vld1qU8 mem (byteAt srcRows verticalIndex horizontalIndex))
  updateAt := fun verticalIndexNew verticalIndexOld c =>
    let horizontalIndex := sizeSub (w + c * srcRows.channels) (ksize / 2 * srcRows.channels)
    vectorUpdateHistogram (vld1qU8 mem (byteAt srcRows verticalIndexNew horizontalIndex))
      (vld1qU8 mem (byteAt srcRows verticalIndexOld horizontalIndex))
  writeMedian := fun h s m =>
    (s.vectorFindMedian ksize).map fun medianValue => vst1qU8 m (byteAt dstRows h w) medianValue

/-- The first row at one place. -/
def processFirstRow (ops : HistogramOps) (height startY ksize : ℕ) (borderType : FixedBorderType)
    (state : MedianBlurSmallHist × Mem) : Option (MedianBlurSmallHist × Mem) := do
  let kMargin := ksize / 2
  let s ← forRangeM ksize
    (fun r =>
      let validH := getPhysicalIndex (((startY + r : ℕ) : ℤ) - kMargin) height borderType
      forRangeM ksize fun c => ops.initializeAt validH c) (ops.clear state.1)
  let m ← ops.writeMedian startY s state.2
  some (s, m)

/-- A later row `h`. -/
def processNextRow (ops : HistogramOps) (height ksize : ℕ) (borderType : FixedBorderType) (h : ℕ)
    (state : MedianBlurSmallHist × Mem) : Option (MedianBlurSmallHist × Mem) := do
  let kMargin := ksize / 2
  let validNewH := getPhysicalIndex ((h + kMargin : ℕ) : ℤ) height borderType
  let validOldH := getPhysicalIndex ((h : ℤ) - kMargin - 1) height borderType
  let s ← forRangeM ksize (fun c => ops.updateAt validNewH validOldH c) state.1
  let m ← ops.writeMedian h s state.2
  some (s, m)

/-- All rows from `startY` up to `endY` at one place. -/
def processPlace (ops : HistogramOps) (height startY endY ksize : ℕ) (borderType : FixedBorderType)
    (state : MedianBlurSmallHist × Mem) : Option (MedianBlurSmallHist × Mem) := do
  let state ← processFirstRow ops height startY ksize borderType state
  forFromM (startY + 1) (endY - (startY + 1)) (processNextRow ops height ksize borderType) state

/-- `process_pixels_with_horizontal_borders`. -/
def processPixelsWithHorizontalBorders (width height startX startY endX endY : ℕ) (dstRows : Rows)
    (ksize : ℕ) (borderType : FixedBorderType) (state : MedianBlurSmallHist × Mem) :
    Option (MedianBlurSmallHist × Mem) :=
  forFromM startX (endX - startX)
    (fun w => forRangeM srcRows.channels fun ch =>
      processPlace (withHorizontalBorders mem srcRows dstRows width ksize borderType w ch) height
        startY endY ksize borderType) state

/-- `process_pixels_without_horizontal_borders`. -/
def processPixelsWithoutHorizontalBorders (height startX startY endX endY : ℕ) (dstRows : Rows)
    (ksize : ℕ) (borderType : FixedBorderType) (state : MedianBlurSmallHist × Mem) :
    Option (MedianBlurSmallHist × Mem) :=
  forRangeM ((endX - startX + 15) / 16)
    (fun i => processPlace (withoutHorizontalBorders mem srcRows dstRows ksize (startX + 16 * i))
      height startY endY ksize borderType) state

end

end MedianBlurSmallHist

/-- `median_blur_small_hist_stripe_u8`, which always returns OK: the destination
afterwards. -/
def medianBlurSmallHistStripeU8 (mem : Mem) (src : Rows) (m : Mem) (dst : Rows)
    (width height yBegin yEnd kernelWidth kernelHeight : ℕ) (borderType : FixedBorderType) :
    Option Mem := do
  let medianFilter : MedianBlurSmallHist := ⟨fun _ => 0, fun _ => 0⟩
  let kMargin := kernelWidth / 2
  let processingLeftWidth := kMargin
  let state ← MedianBlurSmallHist.processPixelsWithHorizontalBorders mem src width height 0 yBegin
    (0 + processingLeftWidth) yEnd dst kernelHeight borderType (medianFilter, m)
  let startingWidth := processingLeftWidth
  let processingCenterWidth := sizeSub width (2 * kMargin) / 16 * 16
  let state ← MedianBlurSmallHist.processPixelsWithoutHorizontalBorders mem src height
    (startingWidth * src.channels) yBegin ((processingCenterWidth + startingWidth) * src.channels)
    yEnd dst kernelHeight borderType state
  let startingWidth := processingLeftWidth + processingCenterWidth
  let processingRightWidth := sizeSub (sizeSub width processingLeftWidth) processingCenterWidth
  let (_, m) ← MedianBlurSmallHist.processPixelsWithHorizontalBorders mem src width height
    startingWidth yBegin (startingWidth + processingRightWidth) yEnd dst kernelHeight borderType
    state
  some m

/-! ### What the histograms count -/

namespace MedianBlurSmallHist

/-- Where the counter of bin `b` stands for lane `l`, in histograms of `n` lanes. -/
def laneIdx (n l b : ℕ) : ℕ := n * b + l

/-- The histograms of `n` lanes count the samples `col l` of every lane `l`. -/
structure HistCounts (n : ℕ) (s : MedianBlurSmallHist) (col : ℕ → Multiset U8) : Prop where
  coarse : Counts (laneIdx n) {l | l < n} {b | b < 16} (fun x : U8 => x.val / 16) s.coarse col
  fine : Counts (laneIdx n) {l | l < n} {v | v < 256} (fun x : U8 => x.val) s.fine col

section

variable {n : ℕ} {s : MedianBlurSmallHist} {col col' : ℕ → Multiset U8}

theorem laneIdx_one (b : ℕ) : laneIdx 1 0 b = b := by
  rw [laneIdx, Nat.one_mul, Nat.add_zero]

theorem laneIdx_distinct {B : Set ℕ} : Counts.Distinct (laneIdx n) {l | l < n} B := by
  intro l hl b _ l' hl' b' _ heq
  obtain ⟨rfl, rfl⟩ := Counts.eq_of_mul_add_eq hl hl' heq
  exact ⟨rfl, rfl⟩

theorem HistCounts.congr (h : HistCounts n s col) (hcol : ∀ l < n, col l = col' l) :
    HistCounts n s col' :=
  ⟨h.coarse.congr hcol, h.fine.congr hcol⟩

/-- Cleared histograms count nothing. -/
theorem HistCounts.scalarClear (s : MedianBlurSmallHist) :
    HistCounts 1 s.scalarClearHistogram fun _ => 0 := by
  constructor
  · intro l hl b hb
    simp only [Set.mem_ofPred_eq] at hl hb
    rw [Multiset.countP_zero]
    exact if_pos (by simp only [laneIdx]; omega)
  · intro l hl v hv
    simp only [Set.mem_ofPred_eq] at hl hv
    rw [Multiset.countP_zero]
    exact if_pos (by simp only [laneIdx]; omega)

theorem HistCounts.vectorClear (s : MedianBlurSmallHist) :
    HistCounts 16 s.vectorClearHistogram fun _ => 0 := by
  constructor
  · intro l hl b hb
    simp only [Set.mem_ofPred_eq] at hl hb
    rw [Multiset.countP_zero]
    exact if_pos (by simp only [laneIdx]; omega)
  · intro l hl v hv
    simp only [Set.mem_ofPred_eq] at hl hv
    rw [Multiset.countP_zero]
    exact if_pos (by simp only [laneIdx]; omega)

/-! ### A sample comes, a sample goes -/

/-- A sample comes. -/
theorem HistCounts.scalarInitialize_ends (h : HistCounts 1 s col) (x : U8)
    (hcard : Multiset.card (col 0) + 1 < u8) :
    Ends (scalarInitializeHistogram x s) fun s' => HistCounts 1 s' fun l => col l + {x} := by
  have hx := x.isLt
  have hsame : ∀ l < 1, Function.update col 0 (col 0 + {x}) l = col l + {x} := by
    intro l hl
    rw [Nat.lt_one_iff.mp hl, Function.update_self]
  have hfine := h.fine.increment_ends laneIdx_distinct (q := 0) Nat.one_pos (x := x) hx hcard
  have hcoarse := h.coarse.increment_ends laneIdx_distinct (q := 0) Nat.one_pos (x := x)
    (by simp only [Set.mem_ofPred_eq]; omega) hcard
  simp only [laneIdx_one] at hfine hcoarse
  refine hfine.bind fun fine hf => hcoarse.bind fun coarse hc => ?_
  exact Ends.some ⟨hc.congr hsame, hf.congr hsame⟩

/-- A sample comes and one goes; if they are the same, nothing is done. -/
theorem HistCounts.scalarUpdate_ends (h : HistCounts 1 s col) {x y : U8} (t : ℕ → Multiset U8)
    (ht : col 0 + {x} = t 0 + {y}) (hcard : Multiset.card (col 0) + 1 < u8) :
    Ends (scalarUpdateHistogram x y s) fun s' => HistCounts 1 s' t := by
  have hx := x.isLt
  have hy := y.isLt
  unfold scalarUpdateHistogram
  split
  · have hsame : ∀ l < 1, Function.update (Function.update col 0 (col 0 + {x})) 0 (t 0) l = t l := by
      intro l hl
      rw [Nat.lt_one_iff.mp hl, Function.update_self]
    have hself : Function.update col 0 (col 0 + {x}) 0 = t 0 + {y} := by
      rw [Function.update_self, ht]
    have hfine := h.fine.increment_ends laneIdx_distinct (q := 0) Nat.one_pos (x := x) hx hcard
    have hcoarse := h.coarse.increment_ends laneIdx_distinct (q := 0) Nat.one_pos (x := x)
      (by simp only [Set.mem_ofPred_eq]; omega) hcard
    simp only [laneIdx_one] at hfine hcoarse
    refine hfine.bind fun fine hf => hcoarse.bind fun coarse hc => ?_
    have hfine' := hf.decrement_ends laneIdx_distinct (q := 0) Nat.one_pos (x := y) hy hself
    have hcoarse' := hc.decrement_ends laneIdx_distinct (q := 0) Nat.one_pos (x := y)
      (by simp only [Set.mem_ofPred_eq]; omega) hself
    simp only [laneIdx_one] at hfine' hcoarse'
    refine hfine'.bind fun fine' hf' => hcoarse'.bind fun coarse' hc' => ?_
    exact Ends.some ⟨hc'.congr hsame, hf'.congr hsame⟩
  · rename_i hxy
    rw [not_not.mp hxy] at ht
    refine Ends.some (h.congr fun l hl => ?_)
    rw [Nat.lt_one_iff.mp hl]
    exact add_right_cancel ht

/-- The lanes below `i` have been brought from `col` to `t`. -/
def lanesDone (col t : ℕ → Multiset U8) (i l : ℕ) : Multiset U8 := if l < i then t l else col l

theorem lanesDone_self (col t : ℕ → Multiset U8) (i : ℕ) : lanesDone col t i i = col i :=
  if_neg (lt_irrefl i)

theorem lanesDone_succ (col t : ℕ → Multiset U8) (i l : ℕ) :
    Function.update (lanesDone col t i) i (t i) l = lanesDone col t (i + 1) l := by
  by_cases hl : l = i
  · subst hl
    rw [Function.update_self, lanesDone, if_pos (Nat.lt_succ_self l)]
  · rw [Function.update_of_ne hl, lanesDone, lanesDone]
    exact if_congr (by omega) rfl rfl

/-- The fine counters of all lanes: a sample comes. -/
theorem HistCounts.fineIncrement_ends (h : HistCounts 16 s col) (x : ℕ → U8)
    (hcard : ∀ l < 16, Multiset.card (col l) + 1 < u8) :
    Ends (forRangeM 16 (fun i fine => increment u8 fine ((x i).val * 16 + i)) s.fine) fun fine =>
      Counts (laneIdx 16) {l | l < 16} {v | v < 256} (fun x : U8 => x.val) fine
        fun l => col l + {x l} := by
  refine (Ends.forRangeM (fun i fine => Counts (laneIdx 16) {l | l < 16} {v | v < 256}
    (fun x : U8 => x.val) fine (lanesDone col (fun l => col l + {x l}) i))
    (h.fine.congr fun l _ => rfl) fun i hi fine hf => ?_).mono fun fine hf =>
      hf.congr fun l hl => if_pos hl
  have hstep := hf.increment_ends laneIdx_distinct (q := i) hi (x := x i) (x i).isLt
    (show _ < u8 by rw [lanesDone_self]; exact hcard i hi)
  rw [laneIdx, Nat.mul_comm, lanesDone_self] at hstep
  exact hstep.mono fun fine' hf' => hf'.congr fun l _ => lanesDone_succ col _ i l

/-- The fine counters of all lanes: a sample comes and one goes. -/
theorem HistCounts.fineUpdate_ends (h : HistCounts 16 s col) (x y : ℕ → U8) (t : ℕ → Multiset U8)
    (ht : ∀ l < 16, col l + {x l} = t l + {y l})
    (hcard : ∀ l < 16, Multiset.card (col l) + 1 < u8) :
    Ends (forRangeM 16 (fun i fine => (increment u8 fine ((x i).val * 16 + i)).bind fun fine =>
        decrement fine ((y i).val * 16 + i)) s.fine) fun fine =>
      Counts (laneIdx 16) {l | l < 16} {v | v < 256} (fun x : U8 => x.val) fine t := by
  refine (Ends.forRangeM (fun i fine => Counts (laneIdx 16) {l | l < 16} {v | v < 256}
    (fun x : U8 => x.val) fine (lanesDone col t i))
    (h.fine.congr fun l _ => rfl) fun i hi fine hf => ?_).mono fun fine hf =>
      hf.congr fun l hl => if_pos hl
  have hstep := hf.increment_ends laneIdx_distinct (q := i) hi (x := x i) (x i).isLt
    (show _ < u8 by rw [lanesDone_self]; exact hcard i hi)
  rw [laneIdx, Nat.mul_comm, lanesDone_self] at hstep
  refine hstep.bind fun fine' hf' => ?_
  have hstep' := hf'.decrement_ends laneIdx_distinct (q := i) hi (x := y i) (y i).isLt
    ((Function.update_self _ _ _).trans (ht i hi))
  rw [laneIdx, Nat.mul_comm, Function.update_idem] at hstep'
  exact hstep'.mono fun fine'' hf'' => hf''.congr fun l _ => lanesDone_succ col t i l

/-- Each vector of coarse counters is replaced by a function of itself. -/
theorem forRange_setVecCoarse (coarse : ℕ → ℕ) (f : ℕ → U8x16 → U8x16) {b l : ℕ} (hb : b < 16)
    (hl : l < 16) :
    forRange 16 (fun i coarse => setVecCoarse coarse i (f i (vecCoarse coarse i))) coarse
      (16 * b + l) = (f b (vecCoarse coarse b) ⟨l, hl⟩).val := by
  have key := forRange_invariant (fun i c => ∀ b < 16, ∀ l (hl : l < 16), c (16 * b + l) =
      if b < i then (f b (vecCoarse coarse b) ⟨l, hl⟩).val else coarse (16 * b + l))
    (n := 16) (f := fun i coarse => setVecCoarse coarse i (f i (vecCoarse coarse i)))
    (s := coarse) (fun b _ l _ => (if_neg (Nat.not_lt_zero b)).symm) fun i hi c hc b hb l hl => by
      have hvec : vecCoarse c i = vecCoarse coarse i := by
        funext lane
        rw [vecCoarse, vecCoarse, hc i hi lane lane.isLt, if_neg (lt_irrefl i)]
      rw [setVecCoarse]
      by_cases hsame : b = i
      · subst hsame
        rw [dif_pos ⟨by omega, by omega⟩, if_pos (Nat.lt_succ_self b), hvec]
        exact congrArg (fun lane => (f b (vecCoarse coarse b) lane).val)
          (Fin.ext (Nat.add_sub_cancel_left _ _))
      · rw [dif_neg (by omega), hc b hb l hl]
        exact if_congr (by omega) rfl rfl
  rw [key b hb l hl, if_pos hb]

/-- A lane of a comparison of the upper halves of samples with bin `b`. -/
theorem vceqq_bin (v : U8x16) {b : ℕ} (hb : b < 16) (lane : Fin 16) :
    vceqqU8 (vshrqN4U8 v) (vdupqNU8 (Fin.ofNat 256 b)) lane =
      if (v lane).val / 16 = b then 255 else 0 := by
  have hv := (v lane).isLt
  refine if_congr ?_ rfl rfl
  simp only [vshrqN4U8, vdupqNU8, Fin.ext_iff, Fin.ofNat]
  rw [Nat.mod_eq_of_lt (by omega), Nat.mod_eq_of_lt (by omega)]

theorem vgetqLaneU8_mk (v : U8x16) {l : ℕ} (hl : l < 16) : v ⟨l, hl⟩ = vgetqLaneU8 v l := by
  rw [vgetqLaneU8]
  congr 1
  exact Fin.ext (Nat.mod_eq_of_lt hl).symm

/-- A sample comes in every lane. -/
theorem HistCounts.vectorInitialize_ends (h : HistCounts 16 s col) (v : U8x16)
    (hcard : ∀ l < 16, Multiset.card (col l) + 1 < u8) :
    Ends (vectorInitializeHistogram v s) fun s' =>
      HistCounts 16 s' fun l => col l + {vgetqLaneU8 v l} := by
  refine (h.fineIncrement_ends (vgetqLaneU8 v) hcard).bind fun fine hf => Ends.some ⟨?_, hf⟩
  intro l hl b hb
  have hl' : l < 16 := hl
  have hb' : b < 16 := hb
  have hcount : s.coarse (16 * b + l) = (col l).countP fun x : U8 => x.val / 16 = b :=
    h.coarse l hl b hb
  have hle := Multiset.countP_le_card (fun x : U8 => x.val / 16 = b) (col l)
  have hfit := hcard l hl'
  simp only [u8] at hfit
  refine (forRange_setVecCoarse s.coarse (fun i vec => vsubqU8 vec
    (vceqqU8 (vshrqN4U8 v) (vdupqNU8 (Fin.ofNat 256 i)))) hb' hl').trans ?_
  rw [vsubqU8, vceqq_bin v hb', Counts.countP_add_singleton, vecCoarse, hcount,
    vgetqLaneU8_mk v hl']
  split <;> simp only [Fin.sub_def, Fin.ofNat, Fin.isValue] <;> omega

/-- A sample comes and one goes in every lane. -/
theorem HistCounts.vectorUpdate_ends (h : HistCounts 16 s col) (v w : U8x16) (t : ℕ → Multiset U8)
    (ht : ∀ l < 16, col l + {vgetqLaneU8 v l} = t l + {vgetqLaneU8 w l})
    (hcard : ∀ l < 16, Multiset.card (col l) + 1 < u8) :
    Ends (vectorUpdateHistogram v w s) fun s' => HistCounts 16 s' t := by
  refine (h.fineUpdate_ends (vgetqLaneU8 v) (vgetqLaneU8 w) t ht hcard).bind
    fun fine hf => Ends.some ⟨?_, hf⟩
  intro l hl b hb
  have hl' : l < 16 := hl
  have hb' : b < 16 := hb
  have hcount : s.coarse (16 * b + l) = (col l).countP fun x : U8 => x.val / 16 = b :=
    h.coarse l hl b hb
  have hle := Multiset.countP_le_card (fun x : U8 => x.val / 16 = b) (col l)
  have hfit := hcard l hl'
  simp only [u8] at hfit
  have hbin := congrArg (Multiset.countP fun x : U8 => x.val / 16 = b) (ht l hl')
  rw [Counts.countP_add_singleton, Counts.countP_add_singleton] at hbin
  refine (forRange_setVecCoarse s.coarse (fun i vec => vaddqU8 vec
    (vsubqU8 (vceqqU8 (vshrqN4U8 w) (vdupqNU8 (Fin.ofNat 256 i)))
      (vceqqU8 (vshrqN4U8 v) (vdupqNU8 (Fin.ofNat 256 i))))) hb' hl').trans ?_
  rw [vaddqU8, vsubqU8, vceqq_bin v hb', vceqq_bin w hb', vecCoarse, hcount,
    vgetqLaneU8_mk v hl', vgetqLaneU8_mk w hl']
  -- The difference modulo 256 is that of the counts.
  split at hbin <;> split at hbin <;>
    simp only [*, if_true, if_false, Fin.sub_def, Fin.add_def, Fin.ofNat, Fin.isValue] <;> omega

/-! ### The searches -/

/-- `scalar_find_median` finds the element of middle rank. -/
theorem HistCounts.scalarFindMedian_ends {k : ℕ} (h : HistCounts 1 s col)
    (hcard : Multiset.card (col 0) = k * k) (hk : 0 < k) (hfit : k * k < u8) :
    Ends (s.scalarFindMedian k) fun x => x = rankElement (col 0) (k * k / 2) := by
  have hsquare : 0 < k * k := Nat.mul_pos hk hk
  have htarget : k * k / 2 % u8 = k * k / 2 := Nat.mod_eq_of_lt (by omega)
  have hzero : (col 0).countP (fun x : U8 => x.val / 16 < 0) = 0 := by simp
  have hall : (col 0).countP (fun x : U8 => x.val / 16 < 0 + 16) = k * k :=
    (countP_block_lt _ _).trans ((countP_lt_256 _).trans hcard)
  simp only [u8] at hfit
  have hcoarse := histogramSearch_ends (fun x : U8 => x.val / 16) s.coarse (2 ^ 31) (s := col 0)
    (a := 0) (i := 0) (n := 16) (r := k * k / 2)
    (fun t ht => by simpa only [laneIdx_one, Nat.zero_add] using h.coarse 0 Nat.one_pos t ht)
    (by omega) (by omega) (by omega)
  rw [hzero] at hcoarse
  rw [scalarFindMedian, htarget]
  refine hcoarse.bind ?_
  rintro _ ⟨j, hj, rfl, hle, hlt⟩
  rw [Nat.zero_add] at hle hlt ⊢
  rw [countP_block_lt] at hle hlt ⊢
  have hend : 16 * j + (256 - j * 16) = 256 := by omega
  have hfine := histogramSearch_ends (fun x : U8 => x.val) s.fine u8 (s := col 0)
    (a := 16 * j) (i := j * 16) (n := 256 - j * 16) (r := k * k / 2)
    (fun t ht => by
      have := h.fine 0 Nat.one_pos (16 * j + t) (by simp only [Set.mem_ofPred_eq]; omega)
      rw [laneIdx_one] at this
      rwa [Nat.mul_comm j])
    hle (by rw [hend, countP_lt_256]; omega) (by simp only [u8]; omega)
  refine hfine.bind ?_
  rintro _ ⟨t, ht, rfl, hle', hlt'⟩
  rw [Nat.mul_comm 16 j] at hle' hlt'
  exact Ends.some (rankElement_eq_ofNat (by omega) hle' hlt').symm

theorem anyLaneSet_iff (v : U8x16) : anyLaneSet v = true ↔ ∃ lane, v lane ≠ 0 := by
  simp [anyLaneSet, vmaxvqU32_eq_zero_iff]

theorem allLaneSet_iff (v : U8x16) : allLaneSet v = true ↔ ∀ lane, v lane = 255 := by
  simp [allLaneSet, vminvqU32_eq_full_iff]

/-- The coarse pass stops at a bin below which no lane has its median. -/
theorem HistCounts.vectorCoarsePass_ends {r : ℕ} (h : HistCounts 16 s col)
    (hcard : ∀ l < 16, Multiset.card (col l) < u8) (hr : r < Multiset.card (col 0)) :
    ∀ n i v, i + n = 16 → (∀ l < 16, v l = (col l).countP fun x => x.val < 16 * i) →
      (∀ l < 16, (col l).countP (fun x => x.val < 16 * i) ≤ r) →
      Ends (vectorCoarsePass s.coarse r n i v) fun q => q.1 < 16 ∧
        (∀ l < 16, q.2 l = (col l).countP fun x => x.val < 16 * q.1) ∧
        ∀ l < 16, (col l).countP (fun x => x.val < 16 * q.1) ≤ r := by
  intro n
  induction n with
  | zero =>
    intro i v hi _ hle
    have hlast := hle 0 (by omega)
    rw [show 16 * i = 256 by omega, countP_lt_256] at hlast
    omega
  | succ n ih =>
    intro i v hi hv hle
    have hnext : ∀ l < 16, v l + histogramVector s.coarse i l =
        (col l).countP fun x => x.val < 16 * (i + 1) := by
      intro l hl
      have hbin : histogramVector s.coarse i l = (col l).countP fun x : U8 => x.val / 16 = i :=
        h.coarse l hl i (by simp only [Set.mem_ofPred_eq]; omega)
      rw [hv l hl, hbin, ← countP_block_lt, ← countP_block_lt, countP_lt_eq_sum,
        countP_lt_eq_sum _ _ (i + 1), Finset.sum_range_succ]
    rw [vectorCoarsePass]
    refine (vadd_ends_lanewise hnext fun l hl =>
      (Multiset.countP_le_card _ _).trans_lt (hcard l hl)).bind fun w hw => ?_
    split
    · exact Ends.some ⟨by omega, hv, hle⟩
    · rename_i hstop
      refine ih (i + 1) w (by omega) hw fun l hl => ?_
      by_contra hgt
      refine hstop ((anyLaneSet_iff _).mpr ⟨⟨l, hl⟩, ?_⟩)
      rw [vcgtqU8, if_pos (by simp only [hw l hl]; omega)]
      decide

/-- Before bin `i` of the fine pass, a lane has either found its median, or the
median is not below `i`. -/
def FoundInv (col : ℕ → Multiset U8) (r i : ℕ) (medianResult laneFoundMask : U8x16) : Prop :=
  ∀ lane : Fin 16, ((col lane).countP (fun x => x.val < i) ≤ r ∧ laneFoundMask lane = 0) ∨
    laneFoundMask lane = 255 ∧ medianResult lane = rankElement (col lane) r

/-- One bin of the fine pass. -/
theorem FoundInv.succ {r i : ℕ} {medianResult laneFoundMask : U8x16} {w : ℕ → ℕ}
    (h : FoundInv col r i medianResult laneFoundMask) (hi : i < 256)
    (hw : ∀ l < 16, w l = (col l).countP fun x => x.val < i + 1) :
    FoundInv col r (i + 1)
      (vbslqU8 (vceqzqU8 laneFoundMask) (vdupqNU8 (Fin.ofNat 256 i)) medianResult)
      (vorrqU8 laneFoundMask (vcgtqU8 w r)) := by
  intro lane
  rcases h lane with ⟨hle, hmask⟩ | ⟨hmask, hresult⟩
  · have hsearching : vceqzqU8 laneFoundMask lane = 255 := by
      rw [vceqzqU8, vceqqU8, hmask]
      rfl
    rw [vorrqU8, hmask, vcgtqU8, hw lane lane.isLt]
    split
    · rename_i hgt
      refine .inr ⟨by decide, ?_⟩
      rw [vbslqU8_of_set _ _ hsearching]
      exact (rankElement_eq_ofNat hi hle hgt).symm
    · rename_i hgt
      exact .inl ⟨not_lt.mp hgt, by decide⟩
  · have hfound : vceqzqU8 laneFoundMask lane = 0 := by
      rw [vceqzqU8, vceqqU8, hmask]
      rfl
    rw [vbslqU8_of_clear _ _ hfound, vorrqU8, hmask, vcgtqU8]
    refine .inr ⟨?_, hresult⟩
    split <;> decide

/-- The fine pass ends when all lanes have found their medians. -/
theorem HistCounts.vectorFinePass_ends {r : ℕ} (h : HistCounts 16 s col)
    (hcard : ∀ l < 16, Multiset.card (col l) < u8) (hr : ∀ l < 16, r < Multiset.card (col l)) :
    ∀ n i v medianResult laneFoundMask, i + n = 256 →
      (∀ l < 16, v l = (col l).countP fun x => x.val < i) →
      FoundInv col r i medianResult laneFoundMask →
      (∃ l < 16, (col l).countP (fun x => x.val < i) ≤ r) →
      Ends (vectorFinePass s.fine r n i v medianResult laneFoundMask) fun x =>
        ∀ lane : Fin 16, x lane = rankElement (col lane) r := by
  intro n
  induction n with
  | zero =>
    rintro i v _ _ hi - - ⟨l, hl, hle⟩
    rw [show i = 256 by omega, countP_lt_256] at hle
    exact absurd (hr l hl) (by omega)
  | succ n ih =>
    intro i v medianResult laneFoundMask hi hv hinv _
    have hnext : ∀ l < 16, v l + histogramVector s.fine i l =
        (col l).countP fun x => x.val < i + 1 := by
      intro l hl
      have hbin : histogramVector s.fine i l = (col l).countP fun x : U8 => x.val = i :=
        h.fine l hl i (by simp only [Set.mem_ofPred_eq]; omega)
      rw [hv l hl, hbin, countP_lt_eq_sum, countP_lt_eq_sum _ _ (i + 1), Finset.sum_range_succ]
    rw [vectorFinePass]
    refine (vadd_ends_lanewise hnext fun l hl =>
      (Multiset.countP_le_card _ _).trans_lt (hcard l hl)).bind fun w hw => ?_
    have hinv' := hinv.succ (by omega) hw
    simp only
    split
    · rename_i hall
      refine Ends.some fun lane => ?_
      rcases hinv' lane with ⟨-, hmask⟩ | ⟨-, hresult⟩
      · rw [(allLaneSet_iff _).mp hall lane] at hmask
        exact absurd hmask (by decide)
      · exact hresult
    · rename_i hall
      refine ih (i + 1) w _ _ (by omega) hw hinv' ?_
      rw [allLaneSet_iff, not_forall] at hall
      obtain ⟨lane, hlane⟩ := hall
      rcases hinv' lane with ⟨hle, -⟩ | ⟨hmask, -⟩
      · exact ⟨lane, lane.isLt, hle⟩
      · exact absurd hmask hlane

/-- `vector_find_median` finds the elements of middle rank of all lanes. -/
theorem HistCounts.vectorFindMedian_ends {k : ℕ} (h : HistCounts 16 s col)
    (hcard : ∀ l < 16, Multiset.card (col l) = k * k) (hk : 0 < k) (hfit : k * k < u8) :
    Ends (s.vectorFindMedian k) fun x =>
      ∀ lane : Fin 16, x lane = rankElement (col lane) (k * k / 2) := by
  have hsquare : 0 < k * k := Nat.mul_pos hk hk
  have htarget : k * k / 2 % u8 = k * k / 2 := Nat.mod_eq_of_lt (by omega)
  have hfit' : ∀ l < 16, Multiset.card (col l) < u8 := fun l hl => (hcard l hl).trans_lt hfit
  have hrank : ∀ l < 16, k * k / 2 < Multiset.card (col l) := fun l hl => by
    rw [hcard l hl]
    omega
  rw [vectorFindMedian, htarget]
  refine (h.vectorCoarsePass_ends hfit' (hrank 0 (by omega)) 16 0 _ rfl (fun l _ => by simp)
    fun l _ => by simp).bind ?_
  rintro ⟨coarseIndex, cumulativeSum⟩ ⟨hindex, hsum, hle⟩
  simp only at hindex hsum hle
  rw [Nat.mul_comm 16] at hsum hle
  exact h.vectorFinePass_ends hfit' hrank _ _ _ _ _ (by omega) hsum
    (fun lane => .inl ⟨hle lane lane.isLt, rfl⟩) ⟨0, by omega, hle 0 (by omega)⟩

end

/-! ### One place -/

/-- The sample of row `t` in column `c` of the windows of byte `q`. -/
def sample (I : MedianImage) (t q c : ℕ) : U8 :=
  I.extended (q % I.dst.channels) t (q / I.dst.channels + c)

/-- The `r` samples from row `y` on in column `c` of these windows. -/
def sampleColumn (I : MedianImage) (y r q c : ℕ) : Multiset U8 :=
  windowSum (fun t => {sample I t q c}) y r

/-- The window of byte `q` of row `y`. -/
def byteWindow (I : MedianImage) (y q : ℕ) : Multiset U8 :=
  windowSum (sampleColumn I y I.ksize q) 0 I.ksize

theorem rankElement_byteWindow (I : MedianImage) (y q : ℕ) :
    rankElement (byteWindow I y q) (I.ksize * I.ksize / 2) = I.median (y, q) := by
  rw [MedianImage.median, medianAt, byteWindow, medianWindow]
  congr 1
  simp only [windowSum, Nat.zero_add]
  rfl

theorem card_sampleColumn (I : MedianImage) (y r q c : ℕ) :
    Multiset.card (sampleColumn I y r q c) = r := by
  simp [sampleColumn, windowSum]

theorem card_byteWindow (I : MedianImage) (y q : ℕ) :
    Multiset.card (byteWindow I y q) = I.ksize * I.ksize :=
  card_windowSum fun _ _ _ => card_sampleColumn I y _ q _

/-- The bytes from `q` up to `q + n` of row `y`. -/
def rowBytes (I : MedianImage) (y q n : ℕ) : Set (ℕ × ℕ) :=
  I.pixels fun y' x c => y' = y ∧ q ≤ x * I.dst.channels + c ∧ x * I.dst.channels + c < q + n

/-- A pass computes the medians of `n` bytes from byte `q` on. -/
structure HistogramOps.Correct (ops : HistogramOps) (I : MedianImage) (n q : ℕ) : Prop where
  clear : ∀ s, HistCounts n (ops.clear s) fun _ => 0
  initializeAt : ∀ {s col} (t c : ℕ), HistCounts n s col → c < I.ksize →
    (∀ l < n, Multiset.card (col l) + 1 < u8) →
    Ends (ops.initializeAt (I.rowIndex t) c s) fun s' =>
      HistCounts n s' fun l => col l + {sample I t (q + l) c}
  updateAt : ∀ {s col} (new : ℕ → Multiset U8) (t t' c : ℕ), HistCounts n s col → c < I.ksize →
    (∀ l < n, Multiset.card (col l) + 1 < u8) →
    (∀ l < n, col l + {sample I t (q + l) c} = new l + {sample I t' (q + l) c}) →
    Ends (ops.updateAt (I.rowIndex t) (I.rowIndex t') c s) fun s' => HistCounts n s' new
  writeMedian : ∀ {s} (y : ℕ) (M : Mem), HistCounts n s (fun l => byteWindow I y (q + l)) →
    Ends (ops.writeMedian y s M) fun M' => I.Computes (rowBytes I y q n) M M'

section

variable {I : MedianImage}

/-- A byte of a row, by its pixel. -/
theorem byte_div_mod {x c : ℕ} (hc : c < I.dst.channels) :
    (x * I.dst.channels + c) / I.dst.channels = x ∧
      (x * I.dst.channels + c) % I.dst.channels = c := by
  rw [Nat.mul_comm, Nat.mul_add_div (Nat.zero_lt_of_lt hc), Nat.div_eq_of_lt hc, Nat.add_zero,
    Nat.mul_add_mod, Nat.mod_eq_of_lt hc]
  exact ⟨rfl, rfl⟩

/-- Near the borders, one sample at a time. -/
theorem withHorizontalBorders_correct {w ch : ℕ} (hfit : I.ksize * I.ksize < u8) (hw : w < I.width)
    (hch : ch < I.dst.channels) :
    (withHorizontalBorders I.mem I.src I.dst I.width I.ksize I.borderType w ch).Correct I 1
      (w * I.dst.channels + ch) := by
  have hmargin := I.margin_pos
  have hwidth := I.margin_le_width
  have hks : I.ksize = 2 * I.margin + 1 := rfl
  obtain ⟨hdiv, hmod⟩ := byte_div_mod (I := I) (x := w) hch
  have hsample : ∀ t c, c < I.ksize → I.mem (I.src.ptrAt (I.rowIndex t)
      (getPhysicalIndex (((w + c : ℕ) : ℤ) - (I.ksize / 2 : ℕ)) I.width I.borderType) ch) =
        sample I t (w * I.dst.channels + ch + 0) c := fun t c hc => by
    rw [I.ksize_half, I.getPhysicalIndex_column (by omega), sample, Nat.add_zero, hdiv, hmod]
    rfl
  refine ⟨fun s => .scalarClear s, fun t c hs hc hcard => ?_,
    fun new t t' c hs hc hcard hnew => ?_, fun y M hs => ?_⟩
  · simp only [withHorizontalBorders, hsample t c hc]
    refine (hs.scalarInitialize_ends _ (hcard 0 Nat.one_pos)).mono fun s' hs' =>
      hs'.congr fun l hl => ?_
    rw [Nat.lt_one_iff.mp hl]
  · simp only [withHorizontalBorders, hsample t c hc, hsample t' c hc]
    exact hs.scalarUpdate_ends new (hnew 0 Nat.one_pos) (hcard 0 Nat.one_pos)
  · refine (hs.scalarFindMedian_ends (card_byteWindow I y _) (by omega) hfit).map ?_
    rintro x rfl
    rw [Nat.add_zero, rankElement_byteWindow, MedianImage.median_pixel hch,
      MedianImage.ptrAt_eq_address]
    refine (MedianImage.Computes.update hw hch M).congr fun y' x c _ hc => ?_
    rw [Nat.mul_comm w, Nat.mul_comm x]
    constructor
    · rintro ⟨rfl, rfl, rfl⟩
      exact ⟨rfl, le_rfl, Nat.lt_succ_self _⟩
    · rintro ⟨rfl, h1, h2⟩
      obtain ⟨rfl, rfl⟩ := Counts.eq_of_mul_add_eq hc hch
        (show I.dst.channels * x + c = I.dst.channels * w + ch by omega)
      exact ⟨rfl, rfl, rfl⟩

/-- Between the borders, 16 bytes at a time. -/
theorem withoutHorizontalBorders_correct {w : ℕ} (hfit : I.ksize * I.ksize < u8)
    (hlow : I.margin * I.dst.channels ≤ w)
    (hhigh : w + 16 + I.margin * I.dst.channels ≤ I.width * I.dst.channels)
    (hsize : 2 * (I.width * I.dst.channels) < sizeMod) :
    (withoutHorizontalBorders I.mem I.src I.dst I.ksize w).Correct I 16 w := by
  have hpos : 0 < I.dst.channels := I.channels_pos
  have hks : I.ksize = 2 * I.margin + 1 := rfl
  have hsample : ∀ t c, c < I.ksize → ∀ l < 16, vgetqLaneU8 (vld1qU8 I.mem (byteAt I.src
      (I.rowIndex t) (sizeSub (w + c * I.src.channels) (I.ksize / 2 * I.src.channels)))) l =
        sample I t (w + l) c := fun t c hc l hl => by
    obtain ⟨r, -, hr⟩ := I.exists_rowIndex t
    -- Byte `w + l` belongs to pixel `x`, between the borders.
    obtain ⟨x, e, he, hq⟩ : ∃ x e, e < I.dst.channels ∧ w + l = x * I.dst.channels + e :=
      ⟨(w + l) / I.dst.channels, (w + l) % I.dst.channels, Nat.mod_lt _ hpos,
        (Nat.div_add_mod' _ _).symm⟩
    have hx : I.margin ≤ x := by
      by_contra hlt
      have := Nat.mul_le_mul_right I.dst.channels (show x + 1 ≤ I.margin by omega)
      rw [Nat.succ_mul] at this
      omega
    have hx' : x + I.margin < I.width := by
      by_contra hge
      have := Nat.mul_le_mul_right I.dst.channels (not_lt.mp hge)
      rw [Nat.add_mul] at this
      omega
    obtain ⟨hdiv, hmod⟩ := byte_div_mod (I := I) (x := x) he
    obtain ⟨x, rfl⟩ := Nat.exists_eq_add_of_le hx
    have hcmul : c * I.dst.channels ≤ I.width * I.dst.channels :=
      Nat.mul_le_mul_right _ (by have := I.margin_le_width; omega)
    rw [vgetqLaneU8_vld1qU8 _ _ hl, I.src_channels, I.ksize_half,
      sizeSub_eq (by omega) (by omega), sample, hq, hdiv, hmod, MedianImage.extended,
      I.columnIndex_eq (by omega) (by omega), hr, Rows.ptrAt_natCast, I.src_channels,
      show I.margin + x + c - I.margin = x + c by omega, byteAt]
    congr 1
    rw [Nat.add_mul] at hq
    rw [Nat.add_mul]
    omega
  refine ⟨fun s => .vectorClear s, fun t c hs hc hcard => ?_,
    fun new t t' c hs hc hcard hnew => ?_, fun y M hs => ?_⟩
  · refine (hs.vectorInitialize_ends _ hcard).mono fun s' hs' => hs'.congr fun l hl => ?_
    rw [hsample t c hc l hl]
  · refine hs.vectorUpdate_ends _ _ new (fun l hl => ?_) hcard
    rw [hsample t c hc l hl, hsample t' c hc l hl]
    exact hnew l hl
  · refine (hs.vectorFindMedian_ends (fun l _ => card_byteWindow I y _) (by omega) hfit).map
      fun x hx => ?_
    have haddress : byteAt I.dst y w = I.address (y, w) := by
      simp only [byteAt, MedianImage.address]
      omega
    rw [haddress]
    constructor
    · rintro ⟨y', q⟩ hq
      obtain ⟨x', hx', c, hc, rfl⟩ := MedianImage.exists_pixel hq.1
      obtain ⟨rfl, h1, h2⟩ := (MedianImage.mem_pixels hx' hc).mp hq
      obtain ⟨l, hl⟩ := Nat.exists_eq_add_of_le h1
      have haddr : I.address (y', x' * I.dst.channels + c) = I.address (y', w) + l := by
        simp only [MedianImage.address]
        omega
      rw [haddr, hl, vst1qU8_lane M _ x ⟨l, by omega⟩, hx, rankElement_byteWindow]
    · intro a ha
      refine vst1qU8_of_not_mem _ _ fun hin => ?_
      obtain ⟨l, hl⟩ := Nat.exists_eq_add_of_le hin.1
      have hlt : w + l < I.width * I.dst.channels := by omega
      obtain ⟨x', hx', c, hc, hq⟩ := MedianImage.exists_pixel hlt
      refine ha (y, w + l) ?_ (by rw [hl]; simp only [MedianImage.address]; omega)
      rw [hq]
      exact (MedianImage.mem_pixels hx' hc).mpr ⟨rfl, by omega, by omega⟩

/-! ### The rows at one place -/

section

variable {ops : HistogramOps} {n q y : ℕ} {s : MedianBlurSmallHist}

/-- A window whose columns below `c` have one row more than the others is not
full yet. -/
theorem card_growing {c r : ℕ} (hc : c < I.ksize) (hr : r < I.ksize) :
    Multiset.card (windowMix (sampleColumn I y r q) (sampleColumn I y (r + 1) q) 0 I.ksize c) <
      I.ksize * I.ksize := by
  obtain ⟨d, hd⟩ := Nat.exists_eq_add_of_le hc.le
  rw [windowMix, Multiset.card_add, card_windowSum fun _ _ _ => card_sampleColumn I y _ q _,
    card_windowSum fun _ _ _ => card_sampleColumn I y _ q _]
  calc c * (r + 1) + (I.ksize - c) * r = I.ksize * r + c := by
        rw [hd, Nat.add_sub_cancel_left]
        ring
    _ < I.ksize * r + I.ksize := by omega
    _ = I.ksize * (r + 1) := (Nat.mul_succ _ _).symm
    _ ≤ I.ksize * I.ksize := Nat.mul_le_mul_left _ hr

/-- A window whose columns below `c` have moved on. -/
theorem card_moving {c : ℕ} (hc : c < I.ksize) :
    Multiset.card (windowMix (sampleColumn I y I.ksize q) (sampleColumn I (y + 1) I.ksize q) 0
      I.ksize c) = I.ksize * I.ksize := by
  rw [windowMix, Multiset.card_add, card_windowSum fun _ _ _ => card_sampleColumn I (y + 1) _ q _,
    card_windowSum fun _ _ _ => card_sampleColumn I y _ q _, ← Nat.add_mul,
    Nat.add_sub_cancel' hc.le]

/-- The window of the first row, row by row and column by column. -/
theorem initializeRows_ends (hops : ops.Correct I n q) (hfit : I.ksize * I.ksize + 1 < u8)
    (hmargin : 2 ≤ I.margin) (hy : y ≤ I.height) :
    Ends (forRangeM I.ksize
        (fun r => forRangeM I.ksize fun c => ops.initializeAt
          (getPhysicalIndex (((y + r : ℕ) : ℤ) - I.margin) I.height I.borderType) c) (ops.clear s))
      fun s' => HistCounts n s' fun l => byteWindow I y (q + l) := by
  have hheight := I.margin_le_height
  have hks : I.ksize = 2 * I.margin + 1 := rfl
  refine Ends.forRangeM (fun r s' => HistCounts n s' fun l =>
    windowSum (sampleColumn I y r (q + l)) 0 I.ksize) ((hops.clear s).congr fun l _ => ?_)
    fun r hr s' hs' => ?_
  · simp [windowSum, sampleColumn]
  rw [I.getPhysicalIndex_row (by omega)]
  refine (Ends.forRangeM (fun c s' => HistCounts n s' fun l =>
    windowMix (sampleColumn I y r (q + l)) (sampleColumn I y (r + 1) (q + l)) 0 I.ksize c)
    (hs'.congr fun l _ => (windowMix.zero _ _ _ _).symm) fun c hc t ht => ?_).mono
    fun t ht => ht.congr fun l _ => windowMix.self _ _ _ _
  refine (hops.initializeAt (y + r) c ht hc fun l _ => ?_).mono fun t' ht' =>
    ht'.congr fun l _ => ?_
  · have := card_growing (I := I) (y := y) (q := q + l) hc hr
    omega
  · have hstep := windowMix.succ (a := 0) (f := sampleColumn I y r (q + l))
      (g := sampleColumn I y (r + 1) (q + l)) hc (x := {sample I (y + r) (q + l) c}) (y := 0)
      (by rw [add_zero, Nat.zero_add, sampleColumn, sampleColumn, windowSum.succ])
    rw [hstep, add_zero]

/-- The windows move on by one row. -/
theorem updateRow_ends (hops : ops.Correct I n q) (hfit : I.ksize * I.ksize + 1 < u8)
    (hy : y + 1 < I.height) (hs : HistCounts n s fun l => byteWindow I y (q + l)) :
    Ends (forRangeM I.ksize
        (fun c => ops.updateAt
          (getPhysicalIndex ((y + 1 + I.margin : ℕ) : ℤ) I.height I.borderType)
          (getPhysicalIndex (((y + 1 : ℕ) : ℤ) - I.margin - 1) I.height I.borderType) c) s)
      fun s' => HistCounts n s' fun l => byteWindow I (y + 1) (q + l) := by
  have hheight := I.margin_le_height
  have hmargin := I.margin_pos
  have hks : I.ksize = 2 * I.margin + 1 := rfl
  have hold : ((y + 1 : ℕ) : ℤ) - I.margin - 1 = (y : ℕ) - I.margin := by omega
  have hnew : ((y + 1 + I.margin : ℕ) : ℤ) = ((y + I.ksize : ℕ) : ℤ) - I.margin := by omega
  rw [hold, hnew, I.getPhysicalIndex_row (by omega), I.getPhysicalIndex_row (by omega)]
  refine (Ends.forRangeM (fun c s' => HistCounts n s' fun l =>
    windowMix (sampleColumn I y I.ksize (q + l)) (sampleColumn I (y + 1) I.ksize (q + l)) 0
      I.ksize c)
    (hs.congr fun l _ => (windowMix.zero _ _ _ _).symm) fun c hc t ht => ?_).mono
    fun t ht => ht.congr fun l _ => windowMix.self _ _ _ _
  refine hops.updateAt _ (y + I.ksize) y c ht hc (fun l _ => ?_) fun l _ => ?_
  · rw [card_moving hc]
    exact hfit
  · refine windowMix.succ hc ?_
    rw [Nat.zero_add, sampleColumn, sampleColumn, ← windowSum.slide, add_comm]

/-- All rows of a stripe at one place; the first row is written in any case. -/
theorem processPlace_ends {startY endY : ℕ} (M : Mem) (hops : ops.Correct I n q)
    (hfit : I.ksize * I.ksize + 1 < u8) (hmargin : 2 ≤ I.margin) (hstart : startY ≤ I.height)
    (hend : endY ≤ I.height) :
    Ends (processPlace ops I.height startY endY I.ksize I.borderType (s, M)) fun state =>
      I.Computes (I.pixels fun y x c => (startY ≤ y ∧ y < max endY (startY + 1)) ∧
        q ≤ x * I.dst.channels + c ∧ x * I.dst.channels + c < q + n) M state.2 := by
  have hfirst : Ends (processFirstRow ops I.height startY I.ksize I.borderType (s, M))
      fun state => HistCounts n state.1 (fun l => byteWindow I startY (q + l)) ∧
        I.Computes (rowBytes I startY q n) M state.2 := by
    rw [processFirstRow, I.ksize_half]
    refine (initializeRows_ends hops hfit hmargin hstart).bind fun s' hs' => ?_
    exact (hops.writeMedian startY M hs').bind fun M' hM' => Ends.some ⟨hs', hM'⟩
  rw [processPlace]
  refine hfirst.bind ?_
  rintro ⟨t, M'⟩ ⟨ht, hM⟩
  refine (Ends.forFromM (fun h (state : MedianBlurSmallHist × Mem) =>
    HistCounts n state.1 (fun l => byteWindow I (h - 1) (q + l)) ∧
    I.Computes (I.pixels fun y x c => (startY ≤ y ∧ y < h) ∧
      q ≤ x * I.dst.channels + c ∧ x * I.dst.channels + c < q + n) M state.2)
    ⟨?_, hM.congr fun y x c _ _ => ?_⟩ ?_).mono fun state hstate => ?_
  · rwa [Nat.add_sub_cancel]
  · constructor <;> intro h <;> omega
  · rintro h hh hh' ⟨t, M'⟩ ⟨ht, hM⟩
    obtain ⟨y, rfl⟩ : ∃ y, h = y + 1 := ⟨h - 1, by omega⟩
    rw [processNextRow, I.ksize_half]
    refine (updateRow_ends hops hfit (by omega) ht).bind fun t' ht' => ?_
    refine (hops.writeMedian (y + 1) M' ht').bind fun M'' hM' => Ends.some ⟨ht', ?_⟩
    refine hM.trans hM' fun y' x c _ _ => ?_
    constructor <;> intro h <;> omega
  · rw [show startY + 1 + (endY - (startY + 1)) = max endY (startY + 1) by omega] at hstate
    exact hstate.2

end

/-! ### All places of a stripe -/

variable {s : MedianBlurSmallHist} {startX endX startY endY : ℕ}

theorem byte_lt_iff {x w c : ℕ} (hc : c < I.dst.channels) :
    x * I.dst.channels + c < w * I.dst.channels ↔ x < w := by
  rw [← Nat.div_lt_iff_lt_mul (Nat.zero_lt_of_lt hc), (byte_div_mod hc).1]

/-- The left and the right columns, sample by sample. -/
theorem processPixelsWithHorizontalBorders_ends (M : Mem) (hfit : I.ksize * I.ksize + 1 < u8)
    (hmargin : 2 ≤ I.margin) (hX : startX ≤ endX) (hwidth : endX ≤ I.width)
    (hstart : startY ≤ I.height) (hend : endY ≤ I.height) :
    Ends (processPixelsWithHorizontalBorders I.mem I.src I.width I.height startX startY endX endY
        I.dst I.ksize I.borderType (s, M)) fun state =>
      I.Computes (I.pixels fun y x _ => (startY ≤ y ∧ y < max endY (startY + 1)) ∧
        startX ≤ x ∧ x < endX) M state.2 := by
  rw [processPixelsWithHorizontalBorders, I.src_channels]
  refine (Ends.forFromM (fun w (state : MedianBlurSmallHist × Mem) =>
    I.Computes (I.pixels fun y x _ => (startY ≤ y ∧ y < max endY (startY + 1)) ∧
      startX ≤ x ∧ x < w) M state.2)
    (.refl M fun y x c _ _ h => by omega) ?_).mono fun state hstate => ?_
  · rintro w hw hw' ⟨t, M'⟩ hM
    refine (Ends.forRangeM (fun ch (state : MedianBlurSmallHist × Mem) =>
      I.Computes (I.pixels fun y x c => (startY ≤ y ∧ y < max endY (startY + 1)) ∧
        startX ≤ x ∧ (x < w ∨ x = w ∧ c < ch)) M state.2)
      (hM.congr fun y x c _ _ => by constructor <;> intro h <;> omega) ?_).mono
      fun state hstate => hstate.congr fun y x c _ hc => by constructor <;> intro h <;> omega
    rintro ch hch ⟨t', M''⟩ hM'
    refine (processPlace_ends M'' (withHorizontalBorders_correct (w := w) (by omega) (by omega) hch)
      hfit hmargin hstart hend).mono fun state hstate => hM'.trans hstate fun y x c _ hc => ?_
    -- A place of one byte is a sample.
    have hplace : (w * I.dst.channels + ch ≤ x * I.dst.channels + c ∧
        x * I.dst.channels + c < w * I.dst.channels + ch + 1) ↔ x = w ∧ c = ch := by
      constructor
      · intro h
        rw [Nat.mul_comm, Nat.mul_comm x] at h
        exact Counts.eq_of_mul_add_eq hc hch (by omega)
      · rintro ⟨rfl, rfl⟩
        exact ⟨le_rfl, Nat.lt_succ_self _⟩
    rw [hplace]
    constructor <;> intro h <;> omega
  · rwa [show startX + (endX - startX) = endX by omega] at hstate

/-- The columns between them, in vectors of 16 bytes. -/
theorem processPixelsWithoutHorizontalBorders_ends {d : ℕ} (M : Mem)
    (hfit : I.ksize * I.ksize + 1 < u8) (hmargin : 2 ≤ I.margin)
    (hd : I.margin + 16 * d + I.margin ≤ I.width)
    (hsize : 2 * (I.width * I.dst.channels) < sizeMod) (hstart : startY ≤ I.height)
    (hend : endY ≤ I.height) :
    Ends (processPixelsWithoutHorizontalBorders I.mem I.src I.height (I.margin * I.dst.channels)
        startY ((16 * d + I.margin) * I.dst.channels) endY I.dst I.ksize I.borderType (s, M))
      fun state => I.Computes (I.pixels fun y x _ => (startY ≤ y ∧ y < max endY (startY + 1)) ∧
        I.margin ≤ x ∧ x < I.margin + 16 * d) M state.2 := by
  have hbytes : (16 * d + I.margin) * I.dst.channels =
      I.margin * I.dst.channels + 16 * (d * I.dst.channels) := by ring
  have hwidth : I.margin * I.dst.channels + 16 * (d * I.dst.channels) +
      I.margin * I.dst.channels ≤ I.width * I.dst.channels := by
    calc I.margin * I.dst.channels + 16 * (d * I.dst.channels) + I.margin * I.dst.channels
        = (I.margin + 16 * d + I.margin) * I.dst.channels := by ring
      _ ≤ I.width * I.dst.channels := Nat.mul_le_mul_right _ hd
  rw [processPixelsWithoutHorizontalBorders, hbytes, Nat.add_sub_cancel_left,
    show (16 * (d * I.dst.channels) + 15) / 16 = d * I.dst.channels by omega]
  refine (Ends.forRangeM (fun i (state : MedianBlurSmallHist × Mem) =>
    I.Computes (I.pixels fun y x c => (startY ≤ y ∧ y < max endY (startY + 1)) ∧
      I.margin * I.dst.channels ≤ x * I.dst.channels + c ∧
      x * I.dst.channels + c < I.margin * I.dst.channels + 16 * i) M state.2)
    (.refl M fun y x c _ _ h => by omega) ?_).mono fun state hstate => hstate.congr ?_
  · rintro i hi ⟨t, M'⟩ hM
    refine (processPlace_ends M' (withoutHorizontalBorders_correct (by omega) (by omega) (by omega)
      hsize) hfit hmargin hstart hend).mono fun state hstate => hM.trans hstate fun y x c _ _ => ?_
    constructor <;> intro h <;> omega
  · intro y x c _ hc
    have hlow := byte_lt_iff (I := I) (x := x) (w := I.margin) hc
    have hhigh := byte_lt_iff (I := I) (x := x) (w := 16 * d + I.margin) hc
    rw [hbytes] at hhigh
    constructor <;> intro h <;> omega

end

end MedianBlurSmallHist

/-- The stripe function ends, and has written the medians of its rows, or those
of its first row if it has none. -/
theorem medianBlurSmallHistStripeU8_ends (I : MedianImage) {yBegin yEnd : ℕ} (m : Mem)
    (hk : 5 ≤ I.ksize) (hk' : I.ksize ≤ 15) (hsize : 2 * (I.width * I.dst.channels) < sizeMod)
    (hbegin : yBegin ≤ I.height) (hend : yEnd ≤ I.height) :
    Ends (medianBlurSmallHistStripeU8 I.mem I.src m I.dst I.width I.height yBegin yEnd I.ksize
        I.ksize I.borderType)
      (I.Computes (I.stripe yBegin (max yEnd (yBegin + 1))) m) := by
  have hwidth := I.margin_le_width
  have hlt := I.width_lt
  have hks : I.ksize = 2 * I.margin + 1 := rfl
  have hmargin : 2 ≤ I.margin := by omega
  have hsquare : I.ksize * I.ksize ≤ 15 * 15 := Nat.mul_le_mul hk' hk'
  have hfit : I.ksize * I.ksize + 1 < MedianBlurSmallHist.u8 := by
    simp only [MedianBlurSmallHist.u8]
    omega
  have hmod : I.width < sizeMod := hlt.trans (by decide)
  -- The number of vectors between the borders.
  obtain ⟨d, hd⟩ : ∃ d, sizeSub I.width (2 * I.margin) / 16 = d := ⟨_, rfl⟩
  have hcenter : I.margin + 16 * d + I.margin ≤ I.width := by
    rw [sizeSub_eq hwidth hmod] at hd
    omega
  have hright : sizeSub (sizeSub I.width I.margin) (16 * d) = I.width - I.margin - 16 * d := by
    rw [sizeSub_eq (by omega) hmod, sizeSub_eq (by omega) (by omega)]
  simp only [medianBlurSmallHistStripeU8, I.ksize_half, hd, I.src_channels, Nat.mul_comm d 16,
    hright]
  refine (MedianBlurSmallHist.processPixelsWithHorizontalBorders_ends m hfit hmargin
    (Nat.zero_le _) (by omega) hbegin hend).bind ?_
  rintro ⟨t, M1⟩ h1
  refine (MedianBlurSmallHist.processPixelsWithoutHorizontalBorders_ends M1 hfit hmargin hcenter
    hsize hbegin hend).bind ?_
  rintro ⟨t, M2⟩ h2
  refine (MedianBlurSmallHist.processPixelsWithHorizontalBorders_ends M2 hfit hmargin
    (Nat.le_add_right _ _) (by omega) hbegin hend).bind ?_
  rintro ⟨t, M3⟩ h3
  refine Ends.some ((h1.trans h2 fun y x c _ _ => Iff.rfl).trans h3 fun y x c hx _ => ?_)
  constructor <;> intro h <;> omega

/-- **Medium kernels are filtered.**  For every accepted image and every stripe
with a row, `median_blur_small_hist_stripe_u8` ends, with no counter or sum
beyond 255, and has written the medians of the stripe. -/
theorem median_blur_small_hist_medians {mem m : Mem} {src dst : Rows}
    {width height kernelWidth kernelHeight yBegin yEnd : ℕ} {borderType : BorderType}
    {b : FixedBorderType}
    (hvalid : medianBlurValidate src.ptr dst.ptr width height dst.channels kernelWidth kernelHeight
      borderType = .ok b)
    (hchannels : src.channels = dst.channels) (hpos : 1 ≤ dst.channels)
    (hstride : width * dst.channels ≤ dst.stride) (hkernel : 9 ≤ kernelWidth)
    (hkernel' : kernelWidth ≤ 15) (hstripe : yBegin < yEnd) (hheight : yEnd ≤ height) :
    ∃ m', medianBlurSmallHistStripeU8 mem src m dst width height yBegin yEnd kernelWidth
        kernelHeight b = some m' ∧
      MediansWritten mem src dst width height b kernelWidth yBegin yEnd m m' := by
  have hsize := rowBytes_lt_of_validate hvalid
  obtain ⟨I, rfl, rfl, rfl, rfl, rfl, rfl, rfl, rfl⟩ :=
    exists_medianImage mem hvalid hchannels hpos hstride
  obtain ⟨m', hrun, hm'⟩ := medianBlurSmallHistStripeU8_ends I m (by omega) hkernel' hsize
    (hstripe.le.trans hheight) hheight
  rw [max_eq_left (show yBegin + 1 ≤ yEnd from hstripe)] at hm'
  exact ⟨m', hrun, hm'.mediansWritten⟩

/-- Rows 2 and 3 of an image of 10 rows of 30 pixels with two channels. -/
theorem median_blur_small_hist_medians_twoRows :
    ∃ m', medianBlurSmallHistStripeU8 (fun a => Fin.ofNat 256 (a * a)) ⟨1000, 60, 2⟩ (fun _ => 0)
        ⟨2000, 64, 2⟩ 30 10 2 4 9 9 .wrap = some m' ∧
      MediansWritten (fun a => Fin.ofNat 256 (a * a)) ⟨1000, 60, 2⟩ ⟨2000, 64, 2⟩ 30 10 .wrap 9 2 4
        (fun _ => 0) m' :=
  median_blur_small_hist_medians
    (show medianBlurValidate 1000 2000 30 10 2 9 9 .wrap = .ok .wrap by decide) rfl (by decide)
    (by decide) (by decide) (by decide) (by decide) (by decide)

end KleidiCV
