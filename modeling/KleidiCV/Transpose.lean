/-
`kleidicv_transpose` on Neon and its threaded version.

Out of place the source columns become destination rows.  The threaded version
cuts the source columns into batches, each of which is a call of its own.

* `transposeBatch_wrote` — a call on some of the columns;
* `batches_eq` — batches that cover all columns, in any order;
* `kleidicvTranspose_correct` — the entry points.
-/
import KleidiCV.Multithreading
import KleidiCV.Operations
import KleidiCV.RotateTranspose
import KleidiCV.UnaryOperation

open Loop

namespace KleidiCV

/-- The functions `transpose_to_dst` passes to `rotate_transpose_rect`. -/
def transposeMap : RectMap where
  reverseRows := false
  vectorDstRowFromSrcCol := fun hindex _ => hindex
  vectorDstColFromSrcRow := fun vindex _ => vindex
  scalarDstRowFromSrcCol := fun hindex _ => hindex
  scalarDstColFromSrcRow := fun vindex _ => vindex
  verticalDstColBase := fun vindex => vindex
  rowIndex := fun index _ => index
  scalarStore := fun h v _ _ => (h, v)

/-- `transpose_to_dst`. -/
def transposeToDst (sz P width height : ℕ) (srcRows dstRows : PixelRows) (m : Mem) :
    KleidicvError × Mem :=
  rotateTransposeRect sz P transposeMap width height srcRows dstRows m

/-- `CopyNonOverlappingRows::copy_rows`, from the temporary memory `tmp`. -/
def copyNonOverlappingRows (width height : ℕ) (tmp : Mem) (src dst : PixelRows) (m : Mem) : Mem :=
  zipRows (src.stride == width * src.pixel && dst.stride == width * dst.pixel) width height
    (fun row length m => overwrite m (dst.atPixel row 0).base (length * dst.pixel) fun j =>
      tmp ((src.atPixel row 0).base + j)) m

/-- `std::swap` of two pixels, scalar by scalar. -/
def swapPixels (rows : PixelRows) (i j : ℕ) (m : Mem) : Mem :=
  swapRanges (rows.atPixel i j).base rows.pixel (rows.atPixel j i).base m

/-- `transpose_in_place` and `transpose_in_place_3ch`. -/
def transposeInPlace (sz P width : ℕ) (dataRows : PixelRows) (m : Mem) : KleidicvError × Mem :=
  let numOfLanes := numLanes sz
  let rowIndex := fun index _ => index
  let tile := fun (srcRows dstRows : PixelRows) (srcMem m : Mem) =>
    if P = 3 then rotateTransposeTile3ch sz false srcRows dstRows rowIndex srcMem m
    else rotateTransposeTile sz false srcRows dstRows rowIndex srcMem m
  (.ok, ((LoopUnroll2.start width numOfLanes, m) |>
    LoopUnroll2.unrollOnce (fun vindex m =>
      -- Tiles on the diagonal.
      let m := tile (dataRows.atPixel vindex vindex) (dataRows.atPixel vindex vindex) m m
      if vindex + numOfLanes < width then
        (({ LoopUnroll2.start width numOfLanes with
            index := min (vindex + numOfLanes) width }, m) |>
          LoopUnroll2.unrollOnce (fun hindex m =>
            let tmpRows : PixelRows := ⟨0, numOfLanes * dataRows.pixel, dataRows.pixel⟩
            let tmp := tile (dataRows.atPixel vindex hindex) tmpRows m fun _ => 0
            let m := tile (dataRows.atPixel hindex vindex) (dataRows.atPixel vindex hindex) m m
            copyNonOverlappingRows numOfLanes numOfLanes tmp tmpRows
              (dataRows.atPixel hindex vindex) m) |>
          LoopUnroll2.remaining (fun hindex finalHindex =>
            forFrom vindex numOfLanes fun i =>
              forFrom hindex (finalHindex - hindex) fun j => swapPixels dataRows i j)).2
      else m) |>
    LoopUnroll2.remaining (fun vindex finalVindex =>
      -- Only the top right half needs to be indexed.
      forFrom vindex (finalVindex - vindex) fun i =>
        forFrom (i + 1) (finalVindex - (i + 1)) fun j => swapPixels dataRows i j)).2)

/-- The checks that `transpose<T>` and `rotate<T>` make, for scalars of `sz`
bytes. -/
def rotateTransposeChecks (sz : ℕ) (b : Buffers) (srcWidth srcHeight : ℕ) : KleidicvError :=
  if sz ≠ 1 ∧ isMisaligned sz b.src then .alignment
  else if sz ≠ 1 ∧ isMisaligned sz b.dst then .alignment
  else if checkPointerAndStride sz b.src b.srcStride srcHeight ≠ .ok then
    checkPointerAndStride sz b.src b.srcStride srcHeight
  else if checkPointerAndStride sz b.dst b.dstStride srcWidth ≠ .ok then
    checkPointerAndStride sz b.dst b.dstStride srcWidth
  else if !checkImageSize srcWidth srcHeight then .range
  else .ok

/-- The source as rows of pixels of `p` bytes. -/
def Buffers.srcRows (b : Buffers) (p : ℕ) : PixelRows := ⟨b.src, b.srcStride, p⟩

/-- The destination as rows of pixels of `p` bytes. -/
def Buffers.dstRows (b : Buffers) (p : ℕ) : PixelRows := ⟨b.dst, b.dstStride, p⟩

/-- `transpose<T, k3Channels>`. -/
def transposeScalar (sz P : ℕ) (b : Buffers) (srcWidth srcHeight : ℕ) (m : Mem) :
    KleidicvError × Mem :=
  let error := rotateTransposeChecks sz b srcWidth srcHeight
  if error ≠ .ok then (error, m)
  else if b.src = b.dst then
    if srcWidth ≠ srcHeight then (.notImplemented, m)
    else transposeInPlace sz P srcWidth (b.dstRows (P * sz)) m
  else transposeToDst sz P srcWidth srcHeight (b.srcRows (P * sz)) (b.dstRows (P * sz)) m

/-- `kleidicv_transpose`. -/
def kleidicvTranspose (b : Buffers) (srcWidth srcHeight pixelSize : ℕ) (m : Mem) :
    KleidicvError × Mem :=
  match pixelSize with
  | 1 => transposeScalar 1 1 b srcWidth srcHeight m
  | 2 => transposeScalar 2 1 b srcWidth srcHeight m
  | 4 => transposeScalar 4 1 b srcWidth srcHeight m
  | 8 => transposeScalar 8 1 b srcWidth srcHeight m
  | 3 => transposeScalar 1 3 b srcWidth srcHeight m
  | 6 => transposeScalar 2 3 b srcWidth srcHeight m
  | _ => (.notImplemented, m)

/-- The callback of `kleidicv_thread_transpose`. -/
def transposeBatch (b : Buffers) (srcHeight pixelSize begin_ end_ : ℕ) (m : Mem) :
    KleidicvError × Mem :=
  kleidicvTranspose
    { b with src := b.src + begin_ * pixelSize, dst := b.dst + begin_ * b.dstStride }
    (sizeSub end_ begin_) srcHeight pixelSize m

/-- `kleidicv_thread_transpose`. -/
def kleidicvThreadTranspose (b : Buffers) (srcWidth srcHeight pixelSize : ℕ)
    (mt : Multithreading (taskCount srcWidth 64)) (m : Mem) : KleidicvError × Mem :=
  if b.src = b.dst then
    if srcWidth ≠ srcHeight then (.notImplemented, m)
    else kleidicvTranspose b srcWidth srcHeight pixelSize m
  else if pixelSize ∉ [1, 2, 3, 6, 4, 8] then (.notImplemented, m)
  else runParallelBatches (transposeBatch b srcHeight pixelSize) srcWidth 64 mt m

/-! ### Placement -/

/-- Destination rows do not overlap, and source and destination share no
byte. -/
structure TransposePlacement (b : Buffers) (srcWidth srcHeight p : ℕ) : Prop where
  rows : srcHeight * p ≤ b.dstStride ∨ srcWidth ≤ 1
  disjoint : ∀ r < srcWidth, ∀ c < srcHeight * p, ∀ r' < srcHeight, ∀ c' < srcWidth * p,
    b.dstAt (r, c) ≠ b.srcAt (r', c')

/-- The bytes of a square do not overlap. -/
theorem byteAt_injOn {n p : ℕ} {rows : PixelRows} (hpixel : rows.pixel = p)
    (hrows : n * p ≤ rows.stride ∨ n ≤ 1) :
    Set.InjOn rows.byteAt (rectPart 0 n 0 n p) := by
  rintro ⟨y, x, k⟩ ⟨hy, hx, hk⟩ ⟨y', x', k'⟩ ⟨hy', hx', hk'⟩ heq
  simp only at hy hx hk hy' hx' hk'
  simp only [PixelRows.byteAt, hpixel] at heq
  have hbyte := pixelByte_lt hx.2 hk
  have hbyte' := pixelByte_lt hx'.2 hk'
  have hrow : ((y, x * p + k) : ℕ × ℕ) = (y', x' * p + k') := by
    rcases hrows with hs | h1
    · exact eq_of_row_major hs hbyte hbyte' (by simp only; omega)
    · obtain rfl : y = y' := by omega
      exact Prod.ext rfl (by simp only; omega)
  obtain ⟨rfl, hbytes⟩ := Prod.mk.inj hrow
  have hpixel : ((x, k) : ℕ × ℕ) = (x', k') := eq_of_row_major le_rfl hk hk' hbytes
  obtain ⟨rfl, rfl⟩ := Prod.mk.inj hpixel
  rfl

theorem TransposePlacement.apart {b : Buffers} {srcWidth srcHeight p : ℕ} {toRow toCol : ℕ → ℕ}
    (hb : TransposePlacement b srcWidth srcHeight p)
    (hrow : ∀ x < srcWidth, toRow x < srcWidth) (hcol : ∀ y < srcHeight, toCol y < srcHeight)
    (hrowInj : ∀ x < srcWidth, ∀ x' < srcWidth, toRow x = toRow x' → x = x')
    (hcolInj : ∀ y < srcHeight, ∀ y' < srcHeight, toCol y = toCol y' → y = y') :
    Apart (b.srcRows p) (b.dstRows p) srcWidth srcHeight p toRow toCol := by
  have htarget : ∀ q, targetAt (b.dstRows p) toRow toCol q =
      b.dstAt (toRow q.2.1, toCol q.1 * p + q.2.2) := by
    rintro ⟨y, x, k⟩
    simp only [targetAt, PixelRows.byteAt, Buffers.dstRows, Buffers.dstAt]
    omega
  have hsource : ∀ q, (b.srcRows p).byteAt q = b.srcAt (q.1, q.2.1 * p + q.2.2) := by
    rintro ⟨y, x, k⟩
    simp only [PixelRows.byteAt, Buffers.srcRows, Buffers.srcAt]
    omega
  refine ⟨rfl, rfl, ?_, ?_⟩
  · rintro ⟨y, x, k⟩ ⟨hy, hx, hk⟩ ⟨y', x', k'⟩ ⟨hy', hx', hk'⟩ heq
    simp only at hy hx hk hy' hx' hk'
    rw [htarget, htarget] at heq
    have hbyte := pixelByte_lt (hcol y hy.2) hk
    have hbyte' := pixelByte_lt (hcol y' hy'.2) hk'
    have hpos : ((toRow x, toCol y * p + k) : ℕ × ℕ) = (toRow x', toCol y' * p + k') := by
      simp only [Buffers.dstAt] at heq
      rcases hb.rows with hs | h1
      · exact eq_of_row_major hs hbyte hbyte' (by simp only; omega)
      · have hr := hrow x hx.2
        have hr' := hrow x' hx'.2
        have hsame : toRow x = toRow x' := by omega
        rw [hsame] at heq
        exact Prod.ext hsame (by simp only; omega)
    obtain ⟨hr, hbytes⟩ := Prod.mk.inj hpos
    have hpixel : ((toCol y, k) : ℕ × ℕ) = (toCol y', k') := eq_of_row_major le_rfl hk hk' hbytes
    obtain ⟨hc, rfl⟩ := Prod.mk.inj hpixel
    rw [hrowInj x hx.2 x' hx'.2 hr, hcolInj y hy.2 y' hy'.2 hc]
  · rintro ⟨y, x, k⟩ ⟨hy, hx, hk⟩ ⟨y', x', k'⟩ ⟨hy', hx', hk'⟩
    rw [htarget, hsource]
    exact hb.disjoint _ (hrow x hx.2) _ (pixelByte_lt (hcol y hy.2) hk) _ hy'.2 _
      (pixelByte_lt hx'.2 hk')

theorem transposeMap_sends (numOfLanes width height : ℕ) :
    Sends transposeMap numOfLanes width height id id := by
  refine ⟨?_, ?_, ?_⟩
  · intro v h t i _ _ _ _
    exact ⟨rfl, rfl⟩
  · intro v col row _ _ _ _
    exact ⟨Nat.zero_add col, rfl⟩
  · intro col row _ _ _
    exact ⟨rfl, Nat.zero_add row⟩

/-! ### Checks -/

/-- What `rotateTransposeChecks` lets through. -/
structure ChecksPassed (sz : ℕ) (b : Buffers) (srcWidth srcHeight : ℕ) : Prop where
  srcAligned : sz ≠ 1 → b.src % sz = 0
  dstAligned : sz ≠ 1 → b.dst % sz = 0
  src_ne : b.src ≠ 0
  srcStrideAligned : sz ≠ 1 → 1 < srcHeight → b.srcStride % sz = 0
  dst_ne : b.dst ≠ 0
  dstStrideAligned : sz ≠ 1 → 1 < srcWidth → b.dstStride % sz = 0
  size : srcWidth * srcHeight ≤ kleidicvMaxImagePixels

theorem checkPointerAndStride_ok {sz pointer stride height : ℕ} :
    checkPointerAndStride sz pointer stride height = .ok ↔
      pointer ≠ 0 ∧ (sz ≠ 1 → 1 < height → stride % sz = 0) := by
  unfold checkPointerAndStride isMisaligned
  by_cases h0 : pointer = 0
  · simp [h0]
  · rw [if_neg h0]
    by_cases h : sz ≠ 1 ∧ 1 < height ∧ (stride % sz != 0) = true
    · rw [if_pos h]
      simp only [reduceCtorEq, false_iff, not_and]
      intro _ hall
      exact bne_iff_ne.mp h.2.2 (hall h.1 h.2.1)
    · rw [if_neg h]
      simp only [true_iff]
      refine ⟨h0, fun h1 h2 => ?_⟩
      by_contra hne
      exact h ⟨h1, h2, bne_iff_ne.mpr hne⟩

theorem rotateTransposeChecks_ok {sz : ℕ} {b : Buffers} {srcWidth srcHeight : ℕ} :
    rotateTransposeChecks sz b srcWidth srcHeight = .ok ↔ ChecksPassed sz b srcWidth srcHeight := by
  constructor
  · intro h
    unfold rotateTransposeChecks at h
    split_ifs at h with h1 h2 h3 h4 h5
    · exact absurd h h3
    · exact absurd h h4
    · have hs := checkPointerAndStride_ok.mp (not_not.mp h3)
      have hd := checkPointerAndStride_ok.mp (not_not.mp h4)
      refine ⟨fun hsz => ?_, fun hsz => ?_, hs.1, hs.2, hd.1, hd.2,
        checkImageSize_iff.mp (by simpa using h5)⟩
      · by_contra hne
        exact h1 ⟨hsz, bne_iff_ne.mpr hne⟩
      · by_contra hne
        exact h2 ⟨hsz, bne_iff_ne.mpr hne⟩
  · intro h
    have hs := checkPointerAndStride_ok.mpr ⟨h.src_ne, h.srcStrideAligned⟩
    have hd := checkPointerAndStride_ok.mpr ⟨h.dst_ne, h.dstStrideAligned⟩
    have h1 : ¬(sz ≠ 1 ∧ isMisaligned sz b.src = true) := fun hcon =>
      bne_iff_ne.mp hcon.2 (h.srcAligned hcon.1)
    have h2 : ¬(sz ≠ 1 ∧ isMisaligned sz b.dst = true) := fun hcon =>
      bne_iff_ne.mp hcon.2 (h.dstAligned hcon.1)
    simp only [rotateTransposeChecks, if_neg h1, if_neg h2, hs, hd, checkImageSize_iff.mpr h.size,
      ne_eq, not_true_eq_false, if_false, Bool.not_true, Bool.false_eq_true]

theorem ChecksPassed.width_le {sz : ℕ} {b : Buffers} {srcWidth srcHeight : ℕ}
    (h : ChecksPassed sz b srcWidth srcHeight) (h0 : 0 < srcHeight) :
    srcWidth ≤ kleidicvMaxImagePixels :=
  (Nat.le_mul_of_pos_right _ h0).trans h.size

/-- A call on some columns of an accepted image passes the checks too. -/
theorem ChecksPassed.columns {sz : ℕ} {b : Buffers} {srcWidth srcHeight : ℕ}
    (h : ChecksPassed sz b srcWidth srcHeight) (n row : ℕ) {width' : ℕ} (hw : width' ≤ srcWidth)
    (hrow : srcWidth ≤ 1 → row = 0) :
    ChecksPassed sz { b with src := b.src + n * sz, dst := b.dst + row * b.dstStride } width'
      srcHeight := by
  refine ⟨fun hsz => ?_, fun hsz => ?_, ?_, h.srcStrideAligned, ?_, fun hsz hw' => ?_, ?_⟩
  · rw [Nat.add_mul_mod_self_right]
    exact h.srcAligned hsz
  · rcases Nat.lt_or_ge 1 srcWidth with h1 | h1
    · obtain ⟨k, hk⟩ := Nat.dvd_of_mod_eq_zero (h.dstStrideAligned hsz h1)
      simp only [hk]
      rw [Nat.mul_left_comm, Nat.add_mul_mod_self_left]
      exact h.dstAligned hsz
    · simp only [hrow h1, Nat.zero_mul, Nat.add_zero]
      exact h.dstAligned hsz
  · have := h.src_ne
    simp only
    omega
  · have := h.dst_ne
    simp only
    omega
  · exact h.dstStrideAligned hsz (by omega)
  · exact (Nat.mul_le_mul_right _ hw).trans h.size

/-! ### Calls and batches -/

section

variable {sz P srcWidth srcHeight pixelSize begin_ end_ : ℕ} {b : Buffers} {m m' : Mem}

/-- A pixel size that is not turned away has its own scalar type. -/
theorem kleidicvTranspose_format
    (hok : (kleidicvTranspose b srcWidth srcHeight pixelSize m).1 = .ok) :
    ∃ sz P, ScalarSize sz ∧ (P = 1 ∨ P = 3) ∧ pixelSize = P * sz ∧
      pixelSize ∈ [1, 2, 3, 6, 4, 8] ∧
      ∀ b srcWidth srcHeight m, kleidicvTranspose b srcWidth srcHeight pixelSize m =
        transposeScalar sz P b srcWidth srcHeight m := by
  unfold kleidicvTranspose at hok
  split at hok
  · exact ⟨1, 1, .inl rfl, .inl rfl, rfl, by decide, fun _ _ _ _ => rfl⟩
  · exact ⟨2, 1, .inr (.inl rfl), .inl rfl, rfl, by decide, fun _ _ _ _ => rfl⟩
  · exact ⟨4, 1, .inr (.inr (.inl rfl)), .inl rfl, rfl, by decide, fun _ _ _ _ => rfl⟩
  · exact ⟨8, 1, .inr (.inr (.inr rfl)), .inl rfl, rfl, by decide, fun _ _ _ _ => rfl⟩
  · exact ⟨1, 3, .inl rfl, .inr rfl, rfl, by decide, fun _ _ _ _ => rfl⟩
  · exact ⟨2, 3, .inr (.inl rfl), .inr rfl, rfl, by decide, fun _ _ _ _ => rfl⟩
  · exact KleidicvError.noConfusion hok

/-- Calls without a pixel, or with more than an image may have, write nothing. -/
theorem transposeScalar_noop (hsz : ScalarSize sz) (hP : P = 1 ∨ P = 3)
    (h : srcWidth = 0 ∨ srcHeight = 0 ∨ kleidicvMaxImagePixels < srcWidth * srcHeight) :
    (transposeScalar sz P b srcWidth srcHeight m).2 = m := by
  unfold transposeScalar
  simp only
  by_cases herror : rotateTransposeChecks sz b srcWidth srcHeight = .ok
  · have hsize := (rotateTransposeChecks_ok.mp herror).size
    rw [herror, if_neg (by decide)]
    have hempty : srcWidth = 0 ∨ srcHeight = 0 := by omega
    split_ifs with h1 h2
    · rfl
    · obtain rfl : srcWidth = 0 := by omega
      simp only [transposeInPlace, LoopUnroll2.start, LoopUnroll2.unrollOnce,
        LoopUnroll2.unrollNTimes, LoopUnroll2.remaining, LoopUnroll2.remainingLength,
        Bool.false_and, Bool.false_eq_true, if_false, Nat.sub_self, Nat.zero_div, forRange_zero,
        Nat.zero_mul, Nat.add_zero, ne_eq, not_true_eq_false]
    · exact rotateTransposeRect_empty hsz hP (transposeMap_sends _ _ _) hempty _ _ _ _
  · rw [if_pos herror]

/-- The callback writes its columns of the transposed image. -/
theorem transposeBatch_wrote {p : ℕ} (hsz : ScalarSize sz) (hP : P = 1 ∨ P = 3) (hp : p = P * sz)
    (hb : TransposePlacement b srcWidth srcHeight p)
    (hc : ChecksPassed sz b srcWidth srcHeight) (hle : begin_ ≤ end_) (hend : end_ ≤ srcWidth)
    (hread : ∀ q ∈ rectPart 0 srcHeight 0 srcWidth p,
      m' ((b.srcRows p).byteAt q) = m ((b.srcRows p).byteAt q)) :
    Wrote (targetAt (b.dstRows p) id id) (fun q => m ((b.srcRows p).byteAt q))
      (rectPart 0 srcHeight begin_ end_ p) m'
      (transposeScalar sz P
        { b with src := b.src + begin_ * p, dst := b.dst + begin_ * b.dstStride }
        (end_ - begin_) srcHeight m').2 := by
  have ha : Apart (b.srcRows p) (b.dstRows p) srcWidth srcHeight p id id :=
    hb.apart (fun _ h => h) (fun _ h => h) (fun _ _ _ _ h => h) fun _ _ _ _ h => h
  by_cases hempty : end_ - begin_ = 0 ∨ srcHeight = 0
  · rw [transposeScalar_noop hsz hP (by omega)]
    refine (Wrote.refl m').congr (Set.eq_empty_of_forall_notMem ?_).symm
    rintro ⟨y, x, k⟩ ⟨hy, hx, -⟩
    simp only at hy hx
    omega
  · have hpos : 0 < p := hp ▸ Nat.mul_pos (by omega) hsz.pos
    have hrow : srcWidth ≤ 1 → begin_ = 0 := by omega
    have hsub := hc.columns (begin_ * P) begin_ (show end_ - begin_ ≤ srcWidth by omega) hrow
    rw [Nat.mul_assoc, ← hp] at hsub
    -- Source and destination of the call do not start at the same byte.
    have hne : b.src + begin_ * p ≠ b.dst + begin_ * b.dstStride := by
      intro heq
      have hbyte := Nat.mul_le_mul_right p (show begin_ + 1 ≤ srcWidth by omega)
      rw [Nat.succ_mul] at hbyte
      refine hb.disjoint begin_ (by omega) 0 (Nat.mul_pos (by omega) hpos) 0 (by omega)
        (begin_ * p) (by omega) ?_
      simp only [Buffers.dstAt, Buffers.srcAt]
      omega
    simp only [transposeScalar, rotateTransposeChecks_ok.mpr hsub, ne_eq, not_true_eq_false,
      if_false, if_neg hne, ← hp]
    refine columns_wrote hsz hP hp ha hend (transposeMap_sends _ _ _) rfl rfl ?_ ?_ hread
    · intro y x k
      simp only [PixelRows.byteAt, Buffers.srcRows]
      ring
    · intro y _ x _ k
      simp only [targetAt, PixelRows.byteAt, Buffers.dstRows, id]
      ring

/-- `m'` holds every pixel of the source at the row given by its column and the
column given by its row, and is `m` elsewhere. -/
def ImageSent (b : Buffers) (srcWidth srcHeight p : ℕ) (toRow toCol : ℕ → ℕ) (m m' : Mem) : Prop :=
  Wrote (targetAt (b.dstRows p) toRow toCol) (fun q => m ((b.srcRows p).byteAt q))
    (rectPart 0 srcHeight 0 srcWidth p) m m'

/-- Ranges of columns that together are all of the image. -/
structure ColumnsCovered (srcWidth : ℕ) (l : List (ℕ × ℕ)) : Prop where
  bounds : ∀ r ∈ l, r.1 ≤ r.2 ∧ r.2 ≤ srcWidth
  cover : ∀ x < srcWidth, ∃ r ∈ l, r.1 ≤ x ∧ x < r.2

/-- A wrapped number of columns is more than an image may have. -/
theorem sizeSub_wrapped {count : ℕ} (h : count < 64) (h0 : 0 < srcHeight) :
    kleidicvMaxImagePixels < sizeSub count 64 * srcHeight := by
  have hbig : kleidicvMaxImagePixels < sizeSub count 64 := by
    unfold sizeSub kleidicvMaxImagePixels sizeMod
    omega
  exact hbig.trans_le (Nat.le_mul_of_pos_right _ h0)

/-- Batches that write their columns, and nothing when there are no rows or too
many columns, give the whole image in any order. -/
theorem batches_eq {toRow toCol : ℕ → ℕ} {p : ℕ} {whole : Mem}
    (ha : Apart (b.srcRows p) (b.dstRows p) srcWidth srcHeight p toRow toCol)
    (hwhole : ImageSent b srcWidth srcHeight p toRow toCol m whole) {f : ℕ → ℕ → Mem → Mem}
    (hnoop : ∀ b' e' m', srcHeight = 0 ∨ kleidicvMaxImagePixels < sizeSub e' b' * srcHeight →
      f b' e' m' = m')
    (hf : ∀ b' e', b' ≤ e' → e' ≤ srcWidth → 0 < srcHeight → ∀ m',
      (∀ q ∈ rectPart 0 srcHeight 0 srcWidth p,
        m' ((b.srcRows p).byteAt q) = m ((b.srcRows p).byteAt q)) →
      Wrote (targetAt (b.dstRows p) toRow toCol) (fun q => m ((b.srcRows p).byteAt q))
        (rectPart 0 srcHeight b' e' p) m' (f b' e' m'))
    {l : List (ℕ × ℕ)} (hl : ∀ r ∈ l, r.2 ≤ srcWidth ∧ (r.1 ≤ r.2 ∨ r.1 = 64 ∧ srcWidth < 64))
    (hcover : ∀ x < srcWidth, ∃ r ∈ l, r.1 ≤ x ∧ x < r.2) :
    l.foldl (fun m r => f r.1 r.2 m) m = whole := by
  refine Wrote.eq_of (columnBatches_wrote ha (fun r hr => (hl r hr).1) hcover
    fun r hr m' hread => ?_) hwhole
  have hend := (hl r hr).1
  rcases Nat.eq_zero_or_pos srcHeight with h0 | h0
  · rw [hnoop r.1 r.2 m' (.inl h0)]
    refine (Wrote.refl m').congr (Set.eq_empty_of_forall_notMem ?_).symm
    rintro ⟨y, x, k⟩ ⟨hy, -, -⟩
    simp only at hy
    omega
  · rcases Nat.lt_or_ge r.2 r.1 with hlt | hle
    · obtain ⟨h1, h2⟩ := (hl r hr).2.resolve_left (by omega)
      rw [hnoop r.1 r.2 m' (.inr (h1 ▸ sizeSub_wrapped (by omega) h0))]
      refine (Wrote.refl m').congr (Set.eq_empty_of_forall_notMem ?_).symm
      rintro ⟨y, x, k⟩ ⟨-, hx, -⟩
      simp only at hx
      omega
    · exact hf r.1 r.2 hle hend h0 m' hread

/-- So does the threaded version, under every schedule. -/
theorem threadedBatches_eq {toRow toCol : ℕ → ℕ} {p sz : ℕ} {whole : Mem}
    (ha : Apart (b.srcRows p) (b.dstRows p) srcWidth srcHeight p toRow toCol)
    (hc : ChecksPassed sz b srcWidth srcHeight)
    (hwhole : ImageSent b srcWidth srcHeight p toRow toCol m whole)
    {f : ℕ → ℕ → Mem → KleidicvError × Mem}
    (hnoop : ∀ b' e' m', srcHeight = 0 ∨ kleidicvMaxImagePixels < sizeSub e' b' * srcHeight →
      (f b' e' m').2 = m')
    (hf : ∀ b' e', b' ≤ e' → e' ≤ srcWidth → 0 < srcHeight → ∀ m',
      (∀ q ∈ rectPart 0 srcHeight 0 srcWidth p,
        m' ((b.srcRows p).byteAt q) = m ((b.srcRows p).byteAt q)) →
      Wrote (targetAt (b.dstRows p) toRow toCol) (fun q => m ((b.srcRows p).byteAt q))
        (rectPart 0 srcHeight b' e' p) m' (f b' e' m').2)
    (mt : Multithreading (taskCount srcWidth 64)) :
    (runParallelBatches f srcWidth 64 mt m).2 = whole := by
  rw [runParallelBatches_state]
  rcases Nat.eq_zero_or_pos srcHeight with h0 | h0
  · have hsame := batches_eq ha hwhole (l := [(0, srcWidth)]) hnoop hf
      (fun r hr => by
        rw [List.mem_singleton.mp hr]
        exact ⟨le_rfl, .inl (Nat.zero_le _)⟩)
      fun x hx => ⟨(0, srcWidth), List.mem_singleton.mpr rfl, Nat.zero_le x, hx⟩
    simp only [List.foldl_cons, List.foldl_nil, hnoop _ _ _ (.inl h0)] at hsame ⊢
    rw [← hsame]
    exact List.foldl_fixed _
  · have hmax : kleidicvMaxImagePixels < sizeMod := by decide
    have hwidth := hc.width_le h0
    exact batches_eq ha hwhole hnoop hf (parallelBatches_bounds (by omega) (by decide) mt.tasks)
      fun x hx => parallelBatches_cover (by omega) (by decide) (by decide) mt.tasks hx

/-- What is promised of an accepted out-of-place transpose. -/
structure TransposeCorrect (b : Buffers) (srcWidth srcHeight pixelSize : ℕ) (m : Mem) : Prop where
  transposed : ∃ m', kleidicvTranspose b srcWidth srcHeight pixelSize m = (.ok, m') ∧
    ImageSent b srcWidth srcHeight pixelSize id id m m'
  any_order : ∀ l, ColumnsCovered srcWidth l →
    l.foldl (fun m r => (transposeBatch b srcHeight pixelSize r.1 r.2 m).2) m =
      (kleidicvTranspose b srcWidth srcHeight pixelSize m).2
  threaded : ∀ mt, (kleidicvThreadTranspose b srcWidth srcHeight pixelSize mt m).2 =
    (kleidicvTranspose b srcWidth srcHeight pixelSize m).2

/-- **Transpose sends source pixel `(i, j)` to `(j, i)`**, and so do batches of
columns in any order and the threaded version under every schedule. -/
theorem kleidicvTranspose_correct (hb : TransposePlacement b srcWidth srcHeight pixelSize)
    (hne : b.src ≠ b.dst) (hok : (kleidicvTranspose b srcWidth srcHeight pixelSize m).1 = .ok) :
    TransposeCorrect b srcWidth srcHeight pixelSize m := by
  obtain ⟨sz, P, hsz, hP, hp, hsize, hformat⟩ := kleidicvTranspose_format hok
  have hpos : 0 < pixelSize := hp ▸ Nat.mul_pos (by omega) hsz.pos
  have hc : ChecksPassed sz b srcWidth srcHeight := by
    rw [hformat, transposeScalar] at hok
    by_contra hcon
    rw [← rotateTransposeChecks_ok] at hcon
    simp only [if_pos hcon] at hok
    exact hcon hok
  have ha : Apart (b.srcRows pixelSize) (b.dstRows pixelSize) srcWidth srcHeight pixelSize id id :=
    hb.apart (fun _ h => h) (fun _ h => h) (fun _ _ _ _ h => h) fun _ _ _ _ h => h
  have hwhole : ImageSent b srcWidth srcHeight pixelSize id id m
      (kleidicvTranspose b srcWidth srcHeight pixelSize m).2 := by
    have h := transposeBatch_wrote hsz hP hp hb hc (Nat.zero_le srcWidth) le_rfl
      fun q _ => (rfl : m _ = m _)
    simp only [Nat.zero_mul, Nat.add_zero, Nat.sub_zero] at h
    rw [hformat]
    exact h
  have hnoop : ∀ b' e' m', srcHeight = 0 ∨
      kleidicvMaxImagePixels < sizeSub e' b' * srcHeight →
      (transposeBatch b srcHeight pixelSize b' e' m').2 = m' := fun b' e' m' h => by
    rw [transposeBatch, hformat]
    exact transposeScalar_noop hsz hP (.inr h)
  have hbatch : ∀ b' e', b' ≤ e' → e' ≤ srcWidth → 0 < srcHeight → ∀ m',
      (∀ q ∈ rectPart 0 srcHeight 0 srcWidth pixelSize,
        m' ((b.srcRows pixelSize).byteAt q) = m ((b.srcRows pixelSize).byteAt q)) →
      Wrote (targetAt (b.dstRows pixelSize) id id) (fun q => m ((b.srcRows pixelSize).byteAt q))
        (rectPart 0 srcHeight b' e' pixelSize) m'
        (transposeBatch b srcHeight pixelSize b' e' m').2 := by
    intro b' e' hle hend h0 m' hread
    have hmax : kleidicvMaxImagePixels < sizeMod := by decide
    rw [transposeBatch, hformat, sizeSub_eq hle (by have := hc.width_le h0; omega)]
    exact transposeBatch_wrote hsz hP hp hb hc hle hend hread
  refine ⟨⟨_, Prod.ext hok rfl, hwhole⟩, fun l hl => ?_, fun mt => ?_⟩
  · exact batches_eq ha hwhole hnoop hbatch
      (fun r hr => ⟨(hl.bounds r hr).2, .inl (hl.bounds r hr).1⟩) hl.cover
  · rw [kleidicvThreadTranspose, if_neg hne, if_neg (not_not.mpr hsize)]
    exact threadedBatches_eq ha hc hwhole hnoop hbatch mt

end

end KleidiCV
