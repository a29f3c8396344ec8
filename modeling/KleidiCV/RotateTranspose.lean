/-
The driver that transpose and rotate share: tiles, overlapping tail tiles and
scalar remainders over a whole rectangle.

Where a source row or column goes is left to a `RectMap`, the functions the
source passes to `rotate_transpose_rect`.

* `Sends` — the functions of a `RectMap` agree on one target for every pixel;
* `tile_wrote`, `scalar_wrote` — what a tile and a scalar remainder write;
* `rotateTransposeRect_wrote` — the whole rectangle.
-/
import KleidiCV.LoopUnroll2
import KleidiCV.RotateTransposeTile

open Loop

namespace KleidiCV

/-- `Rows` of pixels of any size: the first byte, the stride, and the bytes of a
pixel. -/
structure PixelRows where
  base : ℕ
  stride : ℕ
  pixel : ℕ

/-- `Rows::at`. -/
def PixelRows.atPixel (rows : PixelRows) (row column : ℕ) : PixelRows :=
  { rows with base := rows.base + row * rows.stride + column * rows.pixel }

/-- The functions passed to `rotate_transpose_rect`. -/
structure RectMap where
  reverseRows : Bool
  vectorDstRowFromSrcCol : ℕ → ℕ → ℕ
  vectorDstColFromSrcRow : ℕ → ℕ → ℕ
  scalarDstRowFromSrcCol : ℕ → ℕ → ℕ
  scalarDstColFromSrcRow : ℕ → ℕ → ℕ
  verticalDstColBase : ℕ → ℕ
  rowIndex : ℕ → ℕ → ℕ
  /-- Row and column that `scalar_store` writes, from `col`, `row`, `height` and
  `row_width`. -/
  scalarStore : ℕ → ℕ → ℕ → ℕ → ℕ × ℕ

/-- `rotate_transpose_tile`; the source rows are those of `srcMem`. -/
def rotateTransposeTile (sz : ℕ) (reverseRows : Bool) (srcRows dstRows : PixelRows)
    (rowIndex : ℕ → ℕ → ℕ) (srcMem m : Mem) : Mem :=
  let numOfLanes := numLanes sz
  let trnResult := tileRecursive sz numOfLanes reverseRows
    (fun row => vld1qU8 srcMem (srcRows.atPixel row 0).base) (Nat.log2 numOfLanes - 1)
  forRange numOfLanes (fun index m =>
    vst1qU8 m (dstRows.atPixel (rowIndex index numOfLanes) 0).base (trnResult index)) m

/-- `rotate_transpose_tile_3ch`. -/
def rotateTransposeTile3ch (sz : ℕ) (reverseRows : Bool) (srcRows dstRows : PixelRows)
    (rowIndex : ℕ → ℕ → ℕ) (srcMem m : Mem) : Mem :=
  let numOfLanes := numLanes sz
  let dstC := fun c : Fin 3 => tileRecursive sz numOfLanes reverseRows
    (fun row => vld3q sz srcMem (srcRows.atPixel row 0).base c) (Nat.log2 numOfLanes - 1)
  forRange numOfLanes (fun index m =>
    vst3q sz m (dstRows.atPixel (rowIndex index numOfLanes) 0).base fun c => dstC c index) m

/-- `rotate_transpose_tile_dispatch`. -/
def rotateTransposeTileDispatch (sz P : ℕ) (reverseRows : Bool) (srcRows dstRows : PixelRows)
    (rowIndex : ℕ → ℕ → ℕ) (m : Mem) : Mem :=
  if P = 3 then rotateTransposeTile3ch sz reverseRows srcRows dstRows rowIndex m m
  else rotateTransposeTile sz reverseRows srcRows dstRows rowIndex m m

/-- `rotate_transpose_scalar`; a value is given to `store` by its address. -/
def rotateTransposeScalar (srcRows dstRows : PixelRows) (height width : ℕ)
    (store : PixelRows → ℕ → ℕ → ℕ → ℕ → Mem → Mem) (m : Mem) : Mem :=
  forRange height (fun vindex => forRange width fun hindex =>
    store dstRows hindex vindex height (srcRows.atPixel vindex hindex).base) m

/-- `rotate_transpose_rect`. -/
def rotateTransposeRect (sz P : ℕ) (map : RectMap) (rectWidth rectHeight : ℕ)
    (srcRows dstRows : PixelRows) (m : Mem) : KleidicvError × Mem :=
  let numOfLanes := numLanes sz
  let store := fun segmentWidth (rows : PixelRows) h v height value m =>
    let target := map.scalarStore h v height segmentWidth
    copyN value (P * sz) (rows.atPixel target.1 target.2).base m
  let rotateVectorTile := fun vindex hindex =>
    rotateTransposeTileDispatch sz P map.reverseRows (srcRows.atPixel vindex hindex)
      (dstRows.atPixel (map.vectorDstRowFromSrcCol hindex numOfLanes)
        (map.vectorDstColFromSrcRow vindex numOfLanes)) map.rowIndex
  let rotateScalarSegment := fun vindex hindex finalHindex =>
    let segmentWidth := finalHindex - hindex
    rotateTransposeScalar (srcRows.atPixel vindex hindex)
      (dstRows.atPixel (map.scalarDstRowFromSrcCol hindex finalHindex)
        (map.scalarDstColFromSrcRow vindex numOfLanes)) numOfLanes segmentWidth (store segmentWidth)
  let handleLaneNumberOfRows := fun vindex m =>
    ((LoopUnroll2.startAvoidingTail rectWidth numOfLanes, m) |>
      LoopUnroll2.unrollOnce (fun hindex => rotateVectorTile vindex hindex) |>
      -- Needed even with `TryToAvoidTailLoop`.
      LoopUnroll2.remaining (fun hindex finalHindex =>
        rotateScalarSegment vindex hindex finalHindex)).2
  (.ok, ((LoopUnroll2.startAvoidingTail rectHeight numOfLanes, m) |>
    LoopUnroll2.unrollOnce handleLaneNumberOfRows |>
    LoopUnroll2.remaining (fun vindex finalVindex =>
      rotateTransposeScalar (srcRows.atPixel vindex 0)
        (dstRows.atPixel 0 (map.verticalDstColBase vindex)) (finalVindex - vindex) rectWidth
        (store rectWidth))).2)

/-! ### Where pixels go -/

/-- Source row `y` goes to column `toCol y`, source column `x` to row `toRow x`. -/
structure Sends (map : RectMap) (numOfLanes width height : ℕ) (toRow toCol : ℕ → ℕ) : Prop where
  tile : ∀ v h t i, v + numOfLanes ≤ height → h + numOfLanes ≤ width → t < numOfLanes →
    i < numOfLanes →
    map.vectorDstRowFromSrcCol h numOfLanes + map.rowIndex t numOfLanes = toRow (h + t) ∧
    map.vectorDstColFromSrcRow v numOfLanes + i =
      toCol (v + if map.reverseRows then numOfLanes - 1 - i else i)
  segment : ∀ v col row, v + numOfLanes ≤ height → width < numOfLanes → col < width →
    row < numOfLanes →
    map.scalarDstRowFromSrcCol 0 width + (map.scalarStore col row numOfLanes width).1 = toRow col ∧
    map.scalarDstColFromSrcRow v numOfLanes + (map.scalarStore col row numOfLanes width).2 =
      toCol (v + row)
  vertical : ∀ col row, height < numOfLanes → col < width → row < height →
    (map.scalarStore col row height width).1 = toRow col ∧
    map.verticalDstColBase 0 + (map.scalarStore col row height width).2 = toCol row

/-- Byte `k` of the source pixel at row `q.1` and column `q.2.1`. -/
def PixelRows.byteAt (rows : PixelRows) (q : ℕ × ℕ × ℕ) : ℕ :=
  rows.base + q.1 * rows.stride + q.2.1 * rows.pixel + q.2.2

/-- The byte of the destination for a byte of the source. -/
def targetAt (rows : PixelRows) (toRow toCol : ℕ → ℕ) (q : ℕ × ℕ × ℕ) : ℕ :=
  rows.byteAt (toRow q.2.1, toCol q.1, q.2.2)

/-- The bytes of the pixels of a rectangle. -/
def rectPart (v v' h h' p : ℕ) : Set (ℕ × ℕ × ℕ) :=
  {q | (v ≤ q.1 ∧ q.1 < v') ∧ (h ≤ q.2.1 ∧ q.2.1 < h') ∧ q.2.2 < p}

/-- Destination pixels do not overlap, nor do source and destination. -/
structure Apart (srcRows dstRows : PixelRows) (width height p : ℕ) (toRow toCol : ℕ → ℕ) : Prop where
  srcPixel : srcRows.pixel = p
  dstPixel : dstRows.pixel = p
  injOn : Set.InjOn (targetAt dstRows toRow toCol) (rectPart 0 height 0 width p)
  disjoint : ∀ q ∈ rectPart 0 height 0 width p, ∀ r ∈ rectPart 0 height 0 width p,
    targetAt dstRows toRow toCol q ≠ srcRows.byteAt r

section

variable {sz P width height p : ℕ} {srcRows dstRows : PixelRows} {toRow toCol : ℕ → ℕ}
  {map : RectMap} {m m' : Mem}

theorem rectPart_subset {v v' h h' : ℕ} (hv : v' ≤ height) (hh : h' ≤ width) :
    rectPart v v' h h' p ⊆ rectPart 0 height 0 width p := by
  rintro ⟨y, x, k⟩ ⟨hy, hx, hk⟩
  exact ⟨⟨Nat.zero_le y, hy.2.trans_le hv⟩, ⟨Nat.zero_le x, hx.2.trans_le hh⟩, hk⟩

/-- The source keeps its values. -/
theorem Apart.read (ha : Apart srcRows dstRows width height p toRow toCol)
    {v : ℕ × ℕ × ℕ → U8} {S : Set (ℕ × ℕ × ℕ)} (hS : S ⊆ rectPart 0 height 0 width p)
    (h : Wrote (targetAt dstRows toRow toCol) v S m m') {q : ℕ × ℕ × ℕ}
    (hq : q ∈ rectPart 0 height 0 width p) : m' (srcRows.byteAt q) = m (srcRows.byteAt q) :=
  h.read fun r hr heq => ha.disjoint r (hS hr) q hq heq

theorem tileRow_lt (reverseRows : Bool) {i : ℕ} (hi : i < numLanes sz) :
    tileRow sz reverseRows i < numLanes sz := by
  unfold tileRow
  split <;> omega

theorem tileRow_tileRow (reverseRows : Bool) {i : ℕ} (hi : i < numLanes sz) :
    tileRow sz reverseRows (tileRow sz reverseRows i) = i := by
  cases reverseRows with
  | false => rfl
  | true =>
    simp only [tileRow, if_true]
    omega

/-- What vector `t` of a tile holds once it is stored; the source is in a memory of its own. -/
theorem tile_store_from (hsz : ScalarSize sz) (hP : P = 1 ∨ P = 3) (reverseRows : Bool)
    (srcRows dstRows : PixelRows) (rowIndex : ℕ → ℕ → ℕ) (srcMem m : Mem) :
    (if P = 3 then rotateTransposeTile3ch sz reverseRows srcRows dstRows rowIndex srcMem m
      else rotateTransposeTile sz reverseRows srcRows dstRows rowIndex srcMem m) =
      forRange (numLanes sz) (fun t m' =>
        overwrite m' (dstRows.atPixel (rowIndex t (numLanes sz)) 0).base
          (numLanes sz * (P * sz)) fun j =>
            srcMem (srcRows.base + tileRow sz reverseRows (j / (P * sz)) * srcRows.stride +
              (t * (P * sz) + j % (P * sz)))) m := by
  have hmul := hsz.numLanes_mul
  have hpos := hsz.pos
  have hfit : ∀ {i r}, i < numLanes sz → r < sz → (laneByte sz i r).val = i * sz + r := by
    intro i r hi hr
    refine Nat.mod_eq_of_lt ?_
    have := Nat.mul_le_mul_right sz (Nat.succ_le_of_lt hi)
    rw [Nat.succ_mul, hmul] at this
    omega
  rcases hP with rfl | rfl
  · rw [if_neg (by decide), rotateTransposeTile]
    refine forRange_congr (fun t ht m' => ?_) m
    rw [vst1qU8_eq, Nat.one_mul, hmul]
    refine overwrite_congr fun j hj => ?_
    have hi : j / sz < numLanes sz := Nat.div_lt_of_lt_mul (by rw [Nat.mul_comm, hmul]; exact hj)
    have hr : j % sz < sz := Nat.mod_lt _ hpos
    rw [show Fin.ofNat 16 j = laneByte sz (j / sz) (j % sz) by rw [laneByte, Nat.div_add_mod'],
      tileRecursive_transposed hsz reverseRows _ ht hi hr, vld1qU8, hfit ht hr]
    simp only [PixelRows.atPixel, Nat.zero_mul, Nat.add_zero]
  · rw [if_pos rfl, rotateTransposeTile3ch]
    refine forRange_congr (fun t ht m' => ?_) m
    rw [vst3q, show numLanes sz * (3 * sz) = 48 by rw [Nat.mul_left_comm, hmul]]
    refine overwrite_congr fun j hj => ?_
    have hdiv : j / sz / 3 = j / (3 * sz) := by rw [Nat.div_div_eq_div_mul, Nat.mul_comm]
    have hi : j / (3 * sz) < numLanes sz := by
      refine Nat.div_lt_of_lt_mul ?_
      rw [Nat.mul_comm, Nat.mul_left_comm, hmul]
      exact hj
    have hr : j % sz < sz := Nat.mod_lt _ hpos
    have hmod : j % (3 * sz) = j / sz % 3 * sz + j % sz := by
      rw [Nat.mul_comm 3 sz, Nat.mod_mul, Nat.mul_comm sz, Nat.add_comm]
    have hlane : (t * sz + j % sz) / sz = t ∧ (t * sz + j % sz) % sz = j % sz := by
      rw [Nat.mul_comm, Nat.mul_add_div hpos, Nat.div_eq_of_lt hr, Nat.mul_add_mod, Nat.mod_mod]
      exact ⟨Nat.add_zero t, rfl⟩
    rw [hdiv, show Fin.ofNat 16 (j / (3 * sz) * sz + j % sz) =
        laneByte sz (j / (3 * sz)) (j % sz) from rfl]
    simp only
    rw [tileRecursive_transposed hsz reverseRows _ ht hi hr, vld3q, hfit ht hr, hlane.1, hlane.2, hmod]
    simp only [PixelRows.atPixel, Nat.zero_mul, Nat.add_zero, Fin.val_ofNat, Nat.mod_mod]
    congr 2
    ring

theorem tile_store (hsz : ScalarSize sz) (hP : P = 1 ∨ P = 3) (reverseRows : Bool)
    (srcRows dstRows : PixelRows) (rowIndex : ℕ → ℕ → ℕ) (m : Mem) :
    rotateTransposeTileDispatch sz P reverseRows srcRows dstRows rowIndex m =
      forRange (numLanes sz) (fun t m' =>
        overwrite m' (dstRows.atPixel (rowIndex t (numLanes sz)) 0).base
          (numLanes sz * (P * sz)) fun j =>
            m (srcRows.base + tileRow sz reverseRows (j / (P * sz)) * srcRows.stride +
              (t * (P * sz) + j % (P * sz)))) m :=
  tile_store_from hsz hP reverseRows srcRows dstRows rowIndex m m

/-- A tile writes the target bytes of its pixels. -/
theorem tile_wrote (hsz : ScalarSize sz) (hP : P = 1 ∨ P = 3) (hp : p = P * sz)
    (ha : Apart srcRows dstRows width height p toRow toCol)
    (hsend : Sends map (numLanes sz) width height toRow toCol) {v h : ℕ}
    (hv : v + numLanes sz ≤ height) (hh : h + numLanes sz ≤ width)
    (hread : ∀ q ∈ rectPart 0 height 0 width p, m' (srcRows.byteAt q) = m (srcRows.byteAt q)) :
    Wrote (targetAt dstRows toRow toCol) (fun q => m (srcRows.byteAt q))
      (rectPart v (v + numLanes sz) h (h + numLanes sz) p) m'
      (rotateTransposeTileDispatch sz P map.reverseRows (srcRows.atPixel v h)
        (dstRows.atPixel (map.vectorDstRowFromSrcCol h (numLanes sz))
          (map.vectorDstColFromSrcRow v (numLanes sz))) map.rowIndex m') := by
  have hpos : 0 < p := hp ▸ Nat.mul_pos (by omega) hsz.pos
  have hmem : ∀ {i t k}, i < numLanes sz → t < numLanes sz → k < p →
      (v + tileRow sz map.reverseRows i, h + t, k) ∈ rectPart 0 height 0 width p := by
    intro i t k hi ht hk
    have := tileRow_lt map.reverseRows hi
    exact ⟨⟨Nat.zero_le _, by simp only; omega⟩, ⟨Nat.zero_le _, by simp only; omega⟩, hk⟩
  rw [tile_store hsz hP, ← hp]
  refine (Wrote.forRange ha.injOn
    (fun t => rectPart v (v + numLanes sz) (h + t) (h + t + 1) p)
    (fun t ht => rectPart_subset hv (by omega)) m' fun t ht m'' _ => ?_).congr ?_
  · -- Byte `i * p + k` of vector `t` belongs to the pixel at row `tileRow i`.
    have htarget : ∀ i k, i < numLanes sz →
        targetAt dstRows toRow toCol (v + tileRow sz map.reverseRows i, h + t, k) =
          ((dstRows.atPixel (map.vectorDstRowFromSrcCol h (numLanes sz))
            (map.vectorDstColFromSrcRow v (numLanes sz))).atPixel
              (map.rowIndex t (numLanes sz)) 0).base + (i * p + k) := by
      intro i k hi
      obtain ⟨hrow, hcol⟩ := hsend.tile v h t i hv hh ht hi
      have hcol' : toCol (v + tileRow sz map.reverseRows i) =
          map.vectorDstColFromSrcRow v (numLanes sz) + i := hcol.symm
      simp only [targetAt, PixelRows.byteAt, PixelRows.atPixel, ← hrow, hcol', ha.dstPixel]
      ring
    have hvalue : ∀ i k, i < numLanes sz → k < p →
        m' ((srcRows.atPixel v h).base +
          tileRow sz map.reverseRows i * (srcRows.atPixel v h).stride + (t * p + k)) =
        m (srcRows.byteAt (v + tileRow sz map.reverseRows i, h + t, k)) := by
      intro i k hi hk
      rw [← hread _ (hmem hi ht hk)]
      congr 1
      simp only [PixelRows.byteAt, PixelRows.atPixel, ha.srcPixel]
      ring
    refine overwrite_wrote ?_ fun j hj => ?_
    · rintro ⟨y, x, k⟩ ⟨hy, hx, hk⟩
      simp only at hy hx hk
      obtain rfl : x = h + t := by omega
      obtain ⟨i, rfl⟩ := Nat.exists_eq_add_of_le hy.1
      have hi : i < numLanes sz := by omega
      have hlt := tileRow_lt map.reverseRows hi
      have hback := tileRow_tileRow map.reverseRows hi
      have hle := Nat.mul_le_mul_right p (Nat.succ_le_of_lt hlt)
      rw [Nat.succ_mul] at hle
      refine ⟨tileRow sz map.reverseRows i * p + k, by omega, ?_, ?_⟩
      · rw [← htarget _ k hlt, hback]
      · have hdiv : (tileRow sz map.reverseRows i * p + k) / p = tileRow sz map.reverseRows i := by
          rw [Nat.mul_comm, Nat.mul_add_div hpos, Nat.div_eq_of_lt hk, Nat.add_zero]
        have hmod : (tileRow sz map.reverseRows i * p + k) % p = k := by
          rw [Nat.mul_comm, Nat.mul_add_mod, Nat.mod_eq_of_lt hk]
        rw [hdiv, hmod, hvalue _ k hlt hk, hback]
    · have hi : j / p < numLanes sz := Nat.div_lt_of_lt_mul (by rwa [Nat.mul_comm])
      have hlt := tileRow_lt map.reverseRows hi
      refine ⟨(v + tileRow sz map.reverseRows (j / p), h + t, j % p), ?_, ?_⟩
      · exact ⟨⟨Nat.le_add_right _ _, by simp only; omega⟩, ⟨le_rfl, Nat.lt_succ_self _⟩,
          Nat.mod_lt _ hpos⟩
      · rw [htarget _ _ hi, Nat.div_add_mod']
  · ext ⟨y, x, k⟩
    simp only [Set.mem_iUnion, rectPart, Set.mem_ofPred_eq, exists_prop]
    constructor
    · rintro ⟨t, ht, hy, hx, hk⟩
      exact ⟨hy, by omega, hk⟩
    · rintro ⟨hy, hx, hk⟩
      exact ⟨x - h, by omega, hy, by omega, hk⟩

/-- One pixel is stored at its target. -/
theorem storePixel_wrote (hpos : 0 < p) (ha : Apart srcRows dstRows width height p toRow toCol)
    {y x : ℕ} (hy : y < height) (hx : x < width)
    (hread : ∀ q ∈ rectPart 0 height 0 width p, m' (srcRows.byteAt q) = m (srcRows.byteAt q)) :
    Wrote (targetAt dstRows toRow toCol) (fun q => m (srcRows.byteAt q))
      (rectPart y (y + 1) x (x + 1) p) m'
      (copyN (srcRows.byteAt (y, x, 0)) p (targetAt dstRows toRow toCol (y, x, 0)) m') := by
  have hmem : ∀ {k}, k < p → (y, x, k) ∈ rectPart 0 height 0 width p := fun hk =>
    ⟨⟨Nat.zero_le y, hy⟩, ⟨Nat.zero_le x, hx⟩, hk⟩
  have hsrc : ∀ k, srcRows.byteAt (y, x, k) = srcRows.byteAt (y, x, 0) + k := fun _ => rfl
  have hdst : ∀ k, targetAt dstRows toRow toCol (y, x, k) =
      targetAt dstRows toRow toCol (y, x, 0) + k := fun _ => rfl
  rw [copyN_eq]
  · refine overwrite_wrote ?_ fun k hk => ⟨(y, x, k), ?_, hdst k⟩
    · rintro ⟨y', x', k⟩ ⟨hy', hx', hk⟩
      simp only at hy' hx' hk
      obtain rfl : y' = y := by omega
      obtain rfl : x' = x := by omega
      exact ⟨k, hk, hdst k, by rw [← hsrc, hread _ (hmem hk)]⟩
    · exact ⟨⟨le_rfl, Nat.lt_succ_self y⟩, ⟨le_rfl, Nat.lt_succ_self x⟩, hk⟩
  · refine (ranges_disjoint hpos hpos fun i hi j hj heq => ?_).symm
    rw [← hdst, ← hsrc] at heq
    exact ha.disjoint _ (hmem hi) _ (hmem hj) heq

variable (map) in
/-- Storing a rectangle pixel by pixel. -/
theorem scalar_wrote (v h n w row column segmentWidth : ℕ) (hpos : 0 < P * sz) (hp : p = P * sz)
    (ha : Apart srcRows dstRows width height p toRow toCol)
    (hv : v + n ≤ height) (hh : h + w ≤ width)
    (hstore : ∀ col < w, ∀ r < n,
      row + (map.scalarStore col r n segmentWidth).1 = toRow (h + col) ∧
      column + (map.scalarStore col r n segmentWidth).2 = toCol (v + r))
    (hread : ∀ q ∈ rectPart 0 height 0 width p, m' (srcRows.byteAt q) = m (srcRows.byteAt q)) :
    Wrote (targetAt dstRows toRow toCol) (fun q => m (srcRows.byteAt q))
      (rectPart v (v + n) h (h + w) p) m'
      (rotateTransposeScalar (srcRows.atPixel v h) (dstRows.atPixel row column) n w
        (fun rows h v height value m =>
          copyN value (P * sz) (rows.atPixel (map.scalarStore h v height segmentWidth).1
            (map.scalarStore h v height segmentWidth).2).base m) m') := by
  rw [← hp] at hpos ⊢
  have hsub : ∀ {S : Set (ℕ × ℕ × ℕ)} {m'' : Mem}, S ⊆ rectPart 0 height 0 width p →
      Wrote (targetAt dstRows toRow toCol) (fun q => m (srcRows.byteAt q)) S m' m'' →
      ∀ q ∈ rectPart 0 height 0 width p, m'' (srcRows.byteAt q) = m (srcRows.byteAt q) :=
    fun hS hw q hq => (ha.read hS hw hq).trans (hread q hq)
  refine (Wrote.forRange ha.injOn (fun r => rectPart (v + r) (v + r + 1) h (h + w) p)
    (fun r hr => rectPart_subset (by omega) hh) m' fun r hr m1 hm1 => ?_).congr ?_
  · have hread1 := hsub (Set.iUnion₂_subset fun r' hr' => rectPart_subset (by omega) hh) hm1
    refine (Wrote.forRange ha.injOn
      (fun col => rectPart (v + r) (v + r + 1) (h + col) (h + col + 1) p)
      (fun col hcol => rectPart_subset (by omega) (by omega)) m1 fun col hcol m2 hm2 => ?_).congr ?_
    · have hread2 : ∀ q ∈ rectPart 0 height 0 width p,
          m2 (srcRows.byteAt q) = m (srcRows.byteAt q) := fun q hq =>
        (ha.read (Set.iUnion₂_subset fun c hc => rectPart_subset (by omega) (by omega)) hm2
          hq).trans (hread1 q hq)
      have h1 := storePixel_wrote hpos ha (show v + r < height by omega)
        (show h + col < width by omega) hread2
      obtain ⟨hrow, hcol'⟩ := hstore col hcol r hr
      convert h1 using 2
      · simp only [PixelRows.byteAt, PixelRows.atPixel, ha.srcPixel]
        ring
      · simp only [targetAt, PixelRows.byteAt, PixelRows.atPixel, ha.dstPixel, ← hrow, ← hcol']
        ring
    · ext ⟨y, x, k⟩
      simp only [Set.mem_iUnion, rectPart, Set.mem_ofPred_eq, exists_prop]
      constructor
      · rintro ⟨c, hc, hy, hx, hk⟩
        exact ⟨hy, by omega, hk⟩
      · rintro ⟨hy, hx, hk⟩
        exact ⟨x - h, by omega, hy, by omega, hk⟩
  · ext ⟨y, x, k⟩
    simp only [Set.mem_iUnion, rectPart, Set.mem_ofPred_eq, exists_prop]
    constructor
    · rintro ⟨r, hr, hy, hx, hk⟩
      exact ⟨by omega, hx, hk⟩
    · rintro ⟨hy, hx, hk⟩
      exact ⟨y - v, by omega, by omega, hx, hk⟩

/-- A row of tiles, or of scalars where the rectangle is narrower than a tile. -/
theorem laneRows_wrote (hsz : ScalarSize sz) (hP : P = 1 ∨ P = 3) (hp : p = P * sz)
    (ha : Apart srcRows dstRows width height p toRow toCol)
    (hsend : Sends map (numLanes sz) width height toRow toCol) {v : ℕ}
    (hv : v + numLanes sz ≤ height)
    (hread : ∀ q ∈ rectPart 0 height 0 width p, m' (srcRows.byteAt q) = m (srcRows.byteAt q)) :
    Wrote (targetAt dstRows toRow toCol) (fun q => m (srcRows.byteAt q))
      (rectPart v (v + numLanes sz) 0 width p) m'
      ((LoopUnroll2.startAvoidingTail width (numLanes sz), m') |>
        LoopUnroll2.unrollOnce (fun hindex =>
          rotateTransposeTileDispatch sz P map.reverseRows (srcRows.atPixel v hindex)
            (dstRows.atPixel (map.vectorDstRowFromSrcCol hindex (numLanes sz))
              (map.vectorDstColFromSrcRow v (numLanes sz))) map.rowIndex) |>
        LoopUnroll2.remaining (fun hindex finalHindex =>
          rotateTransposeScalar (srcRows.atPixel v hindex)
            (dstRows.atPixel (map.scalarDstRowFromSrcCol hindex finalHindex)
              (map.scalarDstColFromSrcRow v (numLanes sz))) (numLanes sz) (finalHindex - hindex)
            fun rows h v height value m =>
              copyN value (P * sz)
                (rows.atPixel (map.scalarStore h v height (finalHindex - hindex)).1
                  (map.scalarStore h v height (finalHindex - hindex)).2).base m)).2 := by
  have hpos : 0 < P * sz := Nat.mul_pos (by omega) hsz.pos
  have hsub : ∀ {h h'}, h' ≤ width →
      rectPart v (v + numLanes sz) h h' p ⊆ rectPart 0 height 0 width p :=
    fun hh => rectPart_subset hv hh
  refine unrollOnce_remaining_avoidingTail
    (fun j s => Wrote (targetAt dstRows toRow toCol) (fun q => m (srcRows.byteAt q))
      (rectPart v (v + numLanes sz) 0 j p) m' s) hsz.numLanes_pos ?_ ?_ ?_
  · refine (Wrote.refl m').congr ?_
    ext ⟨y, x, k⟩
    simp [rectPart]
  · intro i j m'' hij hji hi hm''
    have hread'' : ∀ q ∈ rectPart 0 height 0 width p,
        m'' (srcRows.byteAt q) = m (srcRows.byteAt q) := fun q hq =>
      (ha.read (hsub (by omega)) hm'' hq).trans (hread q hq)
    refine (hm''.trans ha.injOn (hsub (by omega)) (hsub hi)
      (tile_wrote hsz hP hp ha hsend hv hi hread'')).congr ?_
    ext ⟨y, x, k⟩
    simp only [rectPart, Set.mem_union, Set.mem_ofPred_eq]
    omega
  · intro hnarrow
    have h := scalar_wrote map v 0 (numLanes sz) width (map.scalarDstRowFromSrcCol 0 width)
      (map.scalarDstColFromSrcRow v (numLanes sz)) width hpos hp ha hv (Nat.zero_add width).le
      (fun col hcol r hr => by
        rw [Nat.zero_add]
        exact hsend.segment v col r hv hnarrow hcol hr) hread
    rwa [Nat.zero_add] at h

/-- **Every byte of the rectangle is written to its target**, whatever tiles,
overlapping tiles and scalar remainders it is cut into. -/
theorem rotateTransposeRect_wrote (hsz : ScalarSize sz) (hP : P = 1 ∨ P = 3) (hp : p = P * sz)
    (ha : Apart srcRows dstRows width height p toRow toCol)
    (hsend : Sends map (numLanes sz) width height toRow toCol) :
    Wrote (targetAt dstRows toRow toCol) (fun q => m (srcRows.byteAt q))
      (rectPart 0 height 0 width p) m
      (rotateTransposeRect sz P map width height srcRows dstRows m).2 := by
  have hpos : 0 < P * sz := Nat.mul_pos (by omega) hsz.pos
  refine unrollOnce_remaining_avoidingTail
    (fun j s => Wrote (targetAt dstRows toRow toCol) (fun q => m (srcRows.byteAt q))
      (rectPart 0 j 0 width p) m s) hsz.numLanes_pos ?_ ?_ ?_
  · refine (Wrote.refl m).congr ?_
    ext ⟨y, x, k⟩
    simp [rectPart]
  · intro i j m' hij hji hi hm'
    have hsub : ∀ {v v'}, v' ≤ height → rectPart v v' 0 width p ⊆ rectPart 0 height 0 width p :=
      fun hv => rectPart_subset hv le_rfl
    have hread : ∀ q ∈ rectPart 0 height 0 width p,
        m' (srcRows.byteAt q) = m (srcRows.byteAt q) := fun q hq =>
      ha.read (hsub (by omega)) hm' hq
    refine (hm'.trans ha.injOn (hsub (by omega)) (hsub hi)
      (laneRows_wrote hsz hP hp ha hsend hi hread)).congr ?_
    ext ⟨y, x, k⟩
    simp only [rectPart, Set.mem_union, Set.mem_ofPred_eq]
    omega
  · intro hlow
    have h := scalar_wrote map 0 0 height width 0 (map.verticalDstColBase 0) width hpos hp ha
      (Nat.zero_add height).le (Nat.zero_add width).le
      (fun col hcol r hr => by
        rw [Nat.zero_add, Nat.zero_add, Nat.zero_add]
        exact hsend.vertical col r hlow hcol hr) fun q _ => (rfl : m _ = m _)
    rwa [Nat.zero_add, Nat.zero_add] at h

/-- A call on the source columns from `begin_` to `end_`, with a map of its own
that sends them where the map of the whole does. -/
theorem columns_wrote (hsz : ScalarSize sz) (hP : P = 1 ∨ P = 3) (hp : p = P * sz)
    (ha : Apart srcRows dstRows width height p toRow toCol) {begin_ end_ : ℕ} (hend : end_ ≤ width)
    {src' dst' : PixelRows} {toRow' toCol' : ℕ → ℕ}
    (hsend : Sends map (numLanes sz) (end_ - begin_) height toRow' toCol')
    (hsp : src'.pixel = p) (hdp : dst'.pixel = p)
    (hsrc : ∀ y x k, src'.byteAt (y, x, k) = srcRows.byteAt (y, begin_ + x, k))
    (htarget : ∀ y < height, ∀ x < end_ - begin_, ∀ k,
      targetAt dst' toRow' toCol' (y, x, k) =
        targetAt dstRows toRow toCol (y, begin_ + x, k))
    (hread : ∀ q ∈ rectPart 0 height 0 width p, m' (srcRows.byteAt q) = m (srcRows.byteAt q)) :
    Wrote (targetAt dstRows toRow toCol) (fun q => m (srcRows.byteAt q))
      (rectPart 0 height begin_ end_ p) m'
      (rotateTransposeRect sz P map (end_ - begin_) height src' dst' m').2 := by
  have hmem : ∀ {y x k}, (y, x, k) ∈ rectPart 0 height 0 (end_ - begin_) p →
      (y, begin_ + x, k) ∈ rectPart 0 height 0 width p := by
    rintro y x k ⟨hy, hx, hk⟩
    exact ⟨hy, ⟨Nat.zero_le _, by have := hx.2; simp only at this ⊢; omega⟩, hk⟩
  have ha' : Apart src' dst' (end_ - begin_) height p toRow' toCol' := by
    refine ⟨hsp, hdp, ?_, ?_⟩
    · rintro ⟨y, x, k⟩ hq ⟨y', x', k'⟩ hq' heq
      rw [htarget y hq.1.2 x hq.2.1.2, htarget y' hq'.1.2 x' hq'.2.1.2] at heq
      have := ha.injOn (hmem hq) (hmem hq') heq
      simp only [Prod.mk.injEq, Nat.add_left_cancel_iff] at this ⊢
      exact this
    · rintro ⟨y, x, k⟩ hq ⟨y', x', k'⟩ hq'
      rw [htarget y hq.1.2 x hq.2.1.2, hsrc]
      exact ha.disjoint _ (hmem hq) _ (hmem hq')
  have hwrote := rotateTransposeRect_wrote (m := m') hsz hP hp ha' hsend
  refine hwrote.reindex (fun q => (q.1, q.2.1 - begin_, q.2.2)) ?_ ?_
  · rintro ⟨y, x, k⟩ ⟨hy, hx, hk⟩
    simp only at hy hx hk
    have hcol : begin_ + (x - begin_) = x := by omega
    have hq : (y, x - begin_, k) ∈ rectPart 0 height 0 (end_ - begin_) p :=
      ⟨hy, ⟨Nat.zero_le _, by simp only; omega⟩, hk⟩
    refine ⟨hq, ?_, ?_⟩
    · rw [htarget y hy.2 _ hq.2.1.2, hcol]
    · rw [hsrc, hcol]
      exact hread _ ⟨hy, ⟨Nat.zero_le x, hx.2.trans_le hend⟩, hk⟩
  · rintro ⟨y, x, k⟩ ⟨hy, hx, hk⟩
    simp only at hy hx hk
    refine ⟨(y, begin_ + x, k), ⟨hy, ⟨Nat.le_add_right _ _, by simp only; omega⟩, hk⟩, ?_⟩
    simp only [Nat.add_sub_cancel_left]

/-- Calls on ranges of columns that cover all of them, in any order. -/
theorem columnBatches_wrote (ha : Apart srcRows dstRows width height p toRow toCol)
    {f : ℕ → ℕ → Mem → Mem} {l : List (ℕ × ℕ)} (hl : ∀ r ∈ l, r.2 ≤ width)
    (hcover : ∀ x < width, ∃ r ∈ l, r.1 ≤ x ∧ x < r.2)
    (hf : ∀ r ∈ l, ∀ m',
      (∀ q ∈ rectPart 0 height 0 width p, m' (srcRows.byteAt q) = m (srcRows.byteAt q)) →
      Wrote (targetAt dstRows toRow toCol) (fun q => m (srcRows.byteAt q))
        (rectPart 0 height r.1 r.2 p) m' (f r.1 r.2 m')) :
    Wrote (targetAt dstRows toRow toCol) (fun q => m (srcRows.byteAt q))
      (rectPart 0 height 0 width p) m (l.foldl (fun m r => f r.1 r.2 m) m) := by
  have hsub : ∀ r ∈ l, rectPart 0 height r.1 r.2 p ⊆ rectPart 0 height 0 width p := fun r hr =>
    rectPart_subset le_rfl (hl r hr)
  refine (Wrote.foldl (S := fun r : ℕ × ℕ => rectPart 0 height r.1 r.2 p) ha.injOn hsub m
    fun done r rest heq m' hm' => hf r (by simp [heq]) m' fun q hq => ?_).congr ?_
  · exact ha.read (Set.iUnion₂_subset fun r' hr' => hsub r' (by simp [heq, hr'])) hm' hq
  · ext ⟨y, x, k⟩
    simp only [Set.mem_iUnion, exists_prop]
    constructor
    · rintro ⟨r, hr, hq⟩
      exact hsub r hr hq
    · rintro ⟨hy, hx, hk⟩
      obtain ⟨r, hr, h1, h2⟩ := hcover x hx.2
      exact ⟨r, hr, hy, ⟨h1, h2⟩, hk⟩

/-- Nothing is written when there is no row or no column. -/
theorem rotateTransposeRect_empty (hsz : ScalarSize sz) (hP : P = 1 ∨ P = 3)
    (hsend : Sends map (numLanes sz) width height toRow toCol) (hempty : width = 0 ∨ height = 0)
    (base base' stride stride' : ℕ) :
    (rotateTransposeRect sz P map width height ⟨base, stride, P * sz⟩ ⟨base', stride', P * sz⟩
      m).2 = m := by
  have hnone : ∀ q, q ∉ rectPart 0 height 0 width (P * sz) := by
    rintro ⟨y, x, k⟩ ⟨hy, hx, hk⟩
    simp only at hy hx
    omega
  have ha : Apart ⟨base, stride, P * sz⟩ ⟨base', stride', P * sz⟩ width height (P * sz) toRow
      toCol :=
    ⟨rfl, rfl, fun q hq => absurd hq (hnone q), fun q hq => absurd hq (hnone q)⟩
  funext a
  exact (rotateTransposeRect_wrote hsz hP rfl ha hsend).frame a fun q hq => absurd hq (hnone q)

end

end KleidiCV
