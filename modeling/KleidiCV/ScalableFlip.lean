/-
The rows of `kleidicv_flip` on scalable vectors.

The kernels go through a row as the Neon ones do, four, two and one vector at a time, but
take what is left of a row in one step: a predicate keeps to the last pixels, and indices
that count down from the last of them reverse them.

* `copyRowToDst_spec`, `copyReversedRowToDst_spec` — rows of an out-of-place flip;
* `swapRowPairInPlace_spec`, `swapReversedRowPairInPlace_spec` — rows of an in-place flip.

Each says what memory holds afterwards, that nothing is loaded outside the rows, and that
each byte is stored once.
-/
import KleidiCV.Flip
import KleidiCV.ScalableBlocks

open Loop

namespace KleidiCV

namespace Scalable

namespace Flip

/-- The memory and the two pointers that a loop over a row advances. -/
structure Cursors where
  run : Tallied U8
  src : ℕ
  dst : ℕ

/-! ### Blocks -/

/-- `reverse_lanes`. -/
def reverseLanes (vl : VectorLength) (sz : ℕ) (vectors : ℕ → Vector) : ℕ → Vector := fun c =>
  svrev vl sz (vectors c)

/-- `apply_tbl_per_vector`. -/
def applyTblPerVector (vl : VectorLength) (sz : ℕ) (vectors : ℕ → Vector) (indices : ℕ → ℕ) :
    ℕ → Vector := fun c => svtbl vl sz (vectors c) indices

/-- `load_consecutive` of two vectors. -/
def loadConsecutive2 (vl : VectorLength) (sz src : ℕ) (r : Tallied U8) :
    (Vector × Vector) × Tallied U8 :=
  let vec0 := svld1 vl sz svptrue src r
  let vec1 := svld1 vl sz svptrue (src + vl.bytes) vec0.2
  ((vec0.1, vec1.1), vec1.2)

/-- `load_consecutive` of four vectors. -/
def loadConsecutive4 (vl : VectorLength) (sz src : ℕ) (r : Tallied U8) :
    (Vector × Vector × Vector × Vector) × Tallied U8 :=
  let vec0 := svld1 vl sz svptrue src r
  let vec1 := svld1 vl sz svptrue (src + vl.bytes) vec0.2
  let vec2 := svld1 vl sz svptrue (src + 2 * vl.bytes) vec1.2
  let vec3 := svld1 vl sz svptrue (src + 3 * vl.bytes) vec2.2
  ((vec0.1, vec1.1, vec2.1, vec3.1), vec3.2)

/-- `store_consecutive` of two vectors. -/
def storeConsecutive2 (vl : VectorLength) (sz : ℕ) (vec0 vec1 : Vector) (dst : ℕ)
    (r : Tallied U8) : Tallied U8 :=
  let r := svst1 vl sz svptrue dst vec0 r
  svst1 vl sz svptrue (dst + vl.bytes) vec1 r

/-- `store_consecutive` of four vectors. -/
def storeConsecutive4 (vl : VectorLength) (sz : ℕ) (vec0 vec1 vec2 vec3 : Vector) (dst : ℕ)
    (r : Tallied U8) : Tallied U8 :=
  let r := svst1 vl sz svptrue dst vec0 r
  let r := svst1 vl sz svptrue (dst + vl.bytes) vec1 r
  let r := svst1 vl sz svptrue (dst + 2 * vl.bytes) vec2 r
  svst1 vl sz svptrue (dst + 3 * vl.bytes) vec3 r

/-- `swap_reversed_pixel_block_pair`. -/
def swapReversedPixelBlockPair (vl : VectorLength) (sz P forwardBlock backwardBlock : ℕ)
    (r : Tallied U8) : Tallied U8 :=
  if P = 3 then
    let fwd := svld3 vl sz svptrue forwardBlock r
    let bwd := svld3 vl sz svptrue backwardBlock fwd.2
    let r := svst3 vl sz svptrue backwardBlock (reverseLanes vl sz fwd.1) bwd.2
    svst3 vl sz svptrue forwardBlock (reverseLanes vl sz bwd.1) r
  else
    let fwd := svld1 vl sz svptrue forwardBlock r
    let bwd := svld1 vl sz svptrue backwardBlock fwd.2
    let r := svst1 vl sz svptrue backwardBlock (svrev vl sz fwd.1) bwd.2
    svst1 vl sz svptrue forwardBlock (svrev vl sz bwd.1) r

/-- `swap_reversed_pixel_block_pair_2x`. -/
def swapReversedPixelBlockPair2x (vl : VectorLength) (sz P forwardBlocks backwardBlocks : ℕ)
    (r : Tallied U8) : Tallied U8 :=
  if P = 3 then
    let fwd0 := svld3 vl sz svptrue forwardBlocks r
    let fwd1 := svld3 vl sz svptrue (forwardBlocks + 3 * vl.bytes) fwd0.2
    let bwd0 := svld3 vl sz svptrue backwardBlocks fwd1.2
    let bwd1 := svld3 vl sz svptrue (backwardBlocks + 3 * vl.bytes) bwd0.2
    let r := svst3 vl sz svptrue forwardBlocks (reverseLanes vl sz bwd1.1) bwd1.2
    let r := svst3 vl sz svptrue (forwardBlocks + 3 * vl.bytes) (reverseLanes vl sz bwd0.1) r
    let r := svst3 vl sz svptrue backwardBlocks (reverseLanes vl sz fwd1.1) r
    svst3 vl sz svptrue (backwardBlocks + 3 * vl.bytes) (reverseLanes vl sz fwd0.1) r
  else
    let fwd := loadConsecutive2 vl sz forwardBlocks r
    let bwd := loadConsecutive2 vl sz backwardBlocks fwd.2
    let r := storeConsecutive2 vl sz (svrev vl sz bwd.1.2) (svrev vl sz bwd.1.1) forwardBlocks
      bwd.2
    storeConsecutive2 vl sz (svrev vl sz fwd.1.2) (svrev vl sz fwd.1.1) backwardBlocks r

/-! ### Rows -/

/-- `copy_row_to_dst`. -/
def copyRowToDst (vl : VectorLength) (sz P srcRow dstRow rowWidthInPixels : ℕ) (r : Tallied U8) :
    Tallied U8 :=
  let scalarsPerVec := numLanes vl sz
  let scalarsPer2Vecs := scalarsPerVec * 2
  let scalarsPer4Vecs := scalarsPer2Vecs * 2
  let columnLoop := LoopUnroll2.start (rowWidthInPixels * P) scalarsPerVec
  let p := (columnLoop, Cursors.mk r srcRow dstRow)
  let p := p |> LoopUnroll2.unrollFourTimes fun _ c =>
    let v := loadConsecutive4 vl sz c.src c.run
    ⟨storeConsecutive4 vl sz v.1.1 v.1.2.1 v.1.2.2.1 v.1.2.2.2 c.dst v.2,
      c.src + scalarsPer4Vecs * sz, c.dst + scalarsPer4Vecs * sz⟩
  let p := p |> LoopUnroll2.unrollTwice fun _ c =>
    let v := loadConsecutive2 vl sz c.src c.run
    ⟨storeConsecutive2 vl sz v.1.1 v.1.2 c.dst v.2, c.src + scalarsPer2Vecs * sz,
      c.dst + scalarsPer2Vecs * sz⟩
  let p := p |> LoopUnroll2.unrollOnce fun _ c =>
    let v := svld1 vl sz svptrue c.src c.run
    ⟨svst1 vl sz svptrue c.dst v.1 v.2, c.src + scalarsPerVec * sz, c.dst + scalarsPerVec * sz⟩
  (p |> LoopUnroll2.remaining fun tailBegin tailEnd c =>
    let pg := svwhilelt tailBegin tailEnd
    let v := svld1 vl sz pg c.src c.run
    { c with run := svst1 vl sz pg c.dst v.1 v.2 }).2.run

/-- `copy_reversed_row_to_dst`. -/
def copyReversedRowToDst (vl : VectorLength) (sz P srcRow dstRow rowWidthInPixels : ℕ)
    (r : Tallied U8) : Tallied U8 :=
  let scalarsPerBlock := numLanes vl sz * P
  let scalarsPer2Blocks := scalarsPerBlock * 2
  let scalarsPer4Blocks := scalarsPer2Blocks * 2
  let columnLoop := LoopUnroll2.start rowWidthInPixels (numLanes vl sz)
  let p := (columnLoop, Cursors.mk r srcRow (dstRow + rowWidthInPixels * P * sz))
  let p := p |> LoopUnroll2.unrollFourTimes fun _ c =>
    let dst := c.dst - scalarsPer4Blocks * sz
    let r :=
      if P = 3 then
        let vectors0 := svld3 vl sz svptrue c.src c.run
        let vectors1 := svld3 vl sz svptrue (c.src + 3 * vl.bytes) vectors0.2
        let vectors2 := svld3 vl sz svptrue (c.src + 6 * vl.bytes) vectors1.2
        let vectors3 := svld3 vl sz svptrue (c.src + 9 * vl.bytes) vectors2.2
        let r := svst3 vl sz svptrue dst (reverseLanes vl sz vectors3.1) vectors3.2
        let r := svst3 vl sz svptrue (dst + 3 * vl.bytes) (reverseLanes vl sz vectors2.1) r
        let r := svst3 vl sz svptrue (dst + 6 * vl.bytes) (reverseLanes vl sz vectors1.1) r
        svst3 vl sz svptrue (dst + 9 * vl.bytes) (reverseLanes vl sz vectors0.1) r
      else
        let pixels := loadConsecutive4 vl sz c.src c.run
        storeConsecutive4 vl sz (svrev vl sz pixels.1.2.2.2) (svrev vl sz pixels.1.2.2.1)
          (svrev vl sz pixels.1.2.1) (svrev vl sz pixels.1.1) dst pixels.2
    ⟨r, c.src + scalarsPer4Blocks * sz, dst⟩
  let p := p |> LoopUnroll2.unrollTwice fun _ c =>
    let dst := c.dst - scalarsPer2Blocks * sz
    let r :=
      if P = 3 then
        let vectors0 := svld3 vl sz svptrue c.src c.run
        let vectors1 := svld3 vl sz svptrue (c.src + 3 * vl.bytes) vectors0.2
        let r := svst3 vl sz svptrue dst (reverseLanes vl sz vectors1.1) vectors1.2
        svst3 vl sz svptrue (dst + 3 * vl.bytes) (reverseLanes vl sz vectors0.1) r
      else
        let pixels := loadConsecutive2 vl sz c.src c.run
        storeConsecutive2 vl sz (svrev vl sz pixels.1.2) (svrev vl sz pixels.1.1) dst pixels.2
    ⟨r, c.src + scalarsPer2Blocks * sz, dst⟩
  let p := p |> LoopUnroll2.unrollOnce fun _ c =>
    let dst := c.dst - scalarsPerBlock * sz
    let r :=
      if P = 3 then
        let vectors := svld3 vl sz svptrue c.src c.run
        svst3 vl sz svptrue dst (reverseLanes vl sz vectors.1) vectors.2
      else
        let pixels := svld1 vl sz svptrue c.src c.run
        svst1 vl sz svptrue dst (svrev vl sz pixels.1) pixels.2
    ⟨r, c.src + scalarsPerBlock * sz, dst⟩
  (p |> LoopUnroll2.remaining fun tailBegin tailEnd c =>
    let tailLength := tailEnd - tailBegin
    let dst := c.dst - tailLength * P * sz
    let pred := svwhilelt tailBegin tailEnd
    let revIndices := reversalIndices sz tailLength
    let r :=
      if P = 3 then
        let vectors := svld3 vl sz pred c.src c.run
        svst3 vl sz pred dst (applyTblPerVector vl sz vectors.1 revIndices) vectors.2
      else
        let pixels := svld1 vl sz pred c.src c.run
        svst1 vl sz pred dst (svtbl vl sz pixels.1 revIndices) pixels.2
    ⟨r, c.src, dst⟩).2.run

/-- `swap_row_pair_in_place`. -/
def swapRowPairInPlace (vl : VectorLength) (sz P topRow bottomRow rowWidthInPixels : ℕ)
    (r : Tallied U8) : Tallied U8 :=
  let scalarsPerVec := numLanes vl sz
  let scalarsPer2Vecs := scalarsPerVec * 2
  let scalarsPer4Vecs := scalarsPer2Vecs * 2
  let columnLoop := LoopUnroll2.start (rowWidthInPixels * P) scalarsPerVec
  let p := (columnLoop, Cursors.mk r topRow bottomRow)
  let p := p |> LoopUnroll2.unrollFourTimes fun _ c =>
    let top := loadConsecutive4 vl sz c.src c.run
    let bottom := loadConsecutive4 vl sz c.dst top.2
    let r := storeConsecutive4 vl sz top.1.1 top.1.2.1 top.1.2.2.1 top.1.2.2.2 c.dst bottom.2
    let r := storeConsecutive4 vl sz bottom.1.1 bottom.1.2.1 bottom.1.2.2.1 bottom.1.2.2.2 c.src r
    ⟨r, c.src + scalarsPer4Vecs * sz, c.dst + scalarsPer4Vecs * sz⟩
  let p := p |> LoopUnroll2.unrollTwice fun _ c =>
    let top := loadConsecutive2 vl sz c.src c.run
    let bottom := loadConsecutive2 vl sz c.dst top.2
    let r := storeConsecutive2 vl sz top.1.1 top.1.2 c.dst bottom.2
    let r := storeConsecutive2 vl sz bottom.1.1 bottom.1.2 c.src r
    ⟨r, c.src + scalarsPer2Vecs * sz, c.dst + scalarsPer2Vecs * sz⟩
  let p := p |> LoopUnroll2.unrollOnce fun _ c =>
    let top := svld1 vl sz svptrue c.src c.run
    let bottom := svld1 vl sz svptrue c.dst top.2
    let r := svst1 vl sz svptrue c.dst top.1 bottom.2
    let r := svst1 vl sz svptrue c.src bottom.1 r
    ⟨r, c.src + scalarsPerVec * sz, c.dst + scalarsPerVec * sz⟩
  (p |> LoopUnroll2.remaining fun tailBegin tailEnd c =>
    let pg := svwhilelt tailBegin tailEnd
    let top := svld1 vl sz pg c.src c.run
    let bottom := svld1 vl sz pg c.dst top.2
    let r := svst1 vl sz pg c.dst top.1 bottom.2
    { c with run := svst1 vl sz pg c.src bottom.1 r }).2.run

/-- `swap_reversed_row_pair_in_place`. -/
def swapReversedRowPairInPlace (vl : VectorLength) (sz P topRowStart bottomRowStart
    rowWidthInPixels numPixelPairsToSwap : ℕ) (r : Tallied U8) : Tallied U8 :=
  let scalarsPerBlock := numLanes vl sz * P
  let scalarsPer2Blocks := scalarsPerBlock * 2
  let columnLoop := LoopUnroll2.start numPixelPairsToSwap (numLanes vl sz)
  let p := (columnLoop, Cursors.mk r topRowStart (bottomRowStart + rowWidthInPixels * P * sz))
  let p := p |> LoopUnroll2.unrollTwice fun _ c =>
    let backward := c.dst - scalarsPer2Blocks * sz
    ⟨swapReversedPixelBlockPair2x vl sz P c.src backward c.run, c.src + scalarsPer2Blocks * sz,
      backward⟩
  let p := p |> LoopUnroll2.unrollOnce fun _ c =>
    let backward := c.dst - scalarsPerBlock * sz
    ⟨swapReversedPixelBlockPair vl sz P c.src backward c.run, c.src + scalarsPerBlock * sz,
      backward⟩
  (p |> LoopUnroll2.remaining fun tailBegin tailEnd c =>
    let tailLength := tailEnd - tailBegin
    let backward := c.dst - tailLength * P * sz
    let pg := svwhilelt tailBegin tailEnd
    let indices := reversalIndices sz tailLength
    let r :=
      if P = 3 then
        let fwd := svld3 vl sz pg c.src c.run
        let bwd := svld3 vl sz pg backward fwd.2
        let r := svst3 vl sz pg backward (applyTblPerVector vl sz fwd.1 indices) bwd.2
        svst3 vl sz pg c.src (applyTblPerVector vl sz bwd.1 indices) r
      else
        let fwd := svld1 vl sz pg c.src c.run
        let bwd := svld1 vl sz pg backward fwd.2
        let r := svst1 vl sz pg backward (svtbl vl sz fwd.1 indices) bwd.2
        svst1 vl sz pg c.src (svtbl vl sz bwd.1 indices) r
    ⟨r, c.src, backward⟩).2.run

/-! ### What the blocks hold -/

section

variable {vl : VectorLength} {sz P : ℕ}

theorem svrev_lane (vl : VectorLength) (sz : ℕ) (v : Vector) (l : ℕ) (_ : l < numLanes vl sz) :
    svrev vl sz v l = v (numLanes vl sz - 1 - l) := rfl

theorem loadConsecutive2_touches (hsz : ScalarSize sz) (src : ℕ) (r : Tallied U8) :
    (loadConsecutive2 vl sz src r).2 = r.loadRange src (2 * vl.bytes) := by
  show (svld1 vl sz svptrue (src + vl.bytes) (svld1 vl sz svptrue src r).2).2 = _
  rw [leading_ptrue.svld1_touches hsz.pos, leading_ptrue.svld1_touches hsz.pos, numLanes_mul vl hsz,
    loadRange_two]

theorem loadConsecutive4_touches (hsz : ScalarSize sz) (src : ℕ) (r : Tallied U8) :
    (loadConsecutive4 vl sz src r).2 = r.loadRange src (4 * vl.bytes) := by
  show (svld1 vl sz svptrue (src + 3 * vl.bytes) (svld1 vl sz svptrue (src + 2 * vl.bytes)
    (svld1 vl sz svptrue (src + vl.bytes) (svld1 vl sz svptrue src r).2).2).2).2 = _
  simp only [leading_ptrue.svld1_touches hsz.pos, numLanes_mul vl hsz, loadRange_four]

/-- Two vectors loaded and stored. -/
theorem storeConsecutive2_load (hsz : ScalarSize sz) (src dst : ℕ) (r r' : Tallied U8) :
    storeConsecutive2 vl sz (loadConsecutive2 vl sz src r).1.1 (loadConsecutive2 vl sz src r).1.2
      dst r' = r'.storeRange dst (2 * vl.bytes) fun j => r.mem (src + j) := by
  simp only [storeConsecutive2, loadConsecutive2, leading_ptrue.svst1_svld1 hsz.pos,
    leading_ptrue.svld1_touches hsz.pos, numLanes_mul vl hsz, Tallied.loadRange_mem]
  rw [← storeRange_two]
  simp only [Nat.add_assoc]

/-- Four vectors loaded and stored. -/
theorem storeConsecutive4_load (hsz : ScalarSize sz) (src dst : ℕ) (r r' : Tallied U8) :
    storeConsecutive4 vl sz (loadConsecutive4 vl sz src r).1.1 (loadConsecutive4 vl sz src r).1.2.1
      (loadConsecutive4 vl sz src r).1.2.2.1 (loadConsecutive4 vl sz src r).1.2.2.2 dst r' =
      r'.storeRange dst (4 * vl.bytes) fun j => r.mem (src + j) := by
  simp only [storeConsecutive4, loadConsecutive4, leading_ptrue.svst1_svld1 hsz.pos,
    leading_ptrue.svld1_touches hsz.pos, numLanes_mul vl hsz, Tallied.loadRange_mem]
  rw [← storeRange_four]
  simp only [Nat.add_assoc]

/-- Two vectors loaded and stored in reverse order. -/
theorem storeConsecutive2_reversed (hsz : ScalarSize sz) (src dst : ℕ) (r r' : Tallied U8) :
    storeConsecutive2 vl sz (svrev vl sz (loadConsecutive2 vl sz src r).1.2)
      (svrev vl sz (loadConsecutive2 vl sz src r).1.1) dst r' =
      r'.storeRange dst (2 * numLanes vl sz * sz) fun j =>
        r.mem (src + mirror (2 * numLanes vl sz) sz j) := by
  simp only [storeConsecutive2, loadConsecutive2,
    leading_ptrue.svst1_reversed hsz.pos (svrev_lane vl sz),
    leading_ptrue.svld1_touches hsz.pos, Tallied.loadRange_mem]
  rw [← storeRange_mirror_two hsz.pos r' dst _ fun j => r.mem (src + j), numLanes_mul vl hsz]
  simp only [Nat.add_assoc]

/-- Four vectors loaded and stored in reverse order. -/
theorem storeConsecutive4_reversed (hsz : ScalarSize sz) (src dst : ℕ) (r r' : Tallied U8) :
    storeConsecutive4 vl sz (svrev vl sz (loadConsecutive4 vl sz src r).1.2.2.2)
      (svrev vl sz (loadConsecutive4 vl sz src r).1.2.2.1)
      (svrev vl sz (loadConsecutive4 vl sz src r).1.2.1)
      (svrev vl sz (loadConsecutive4 vl sz src r).1.1) dst r' =
      r'.storeRange dst (4 * numLanes vl sz * sz) fun j =>
        r.mem (src + mirror (4 * numLanes vl sz) sz j) := by
  simp only [storeConsecutive4, loadConsecutive4,
    leading_ptrue.svst1_reversed hsz.pos (svrev_lane vl sz),
    leading_ptrue.svld1_touches hsz.pos, Tallied.loadRange_mem]
  rw [← storeRange_mirror_four hsz.pos r' dst _ fun j => r.mem (src + j), numLanes_mul vl hsz]
  simp only [Nat.add_assoc]

/-- Three vectors loaded and stored with their lanes reversed. -/
theorem svst3_reverseLanes (hsz : ScalarSize sz) (src dst : ℕ) (r r' : Tallied U8) :
    svst3 vl sz svptrue dst (reverseLanes vl sz (svld3 vl sz svptrue src r).1) r' =
      r'.storeRange dst (numLanes vl sz * (3 * sz)) fun j =>
        r.mem (src + mirror (numLanes vl sz) (3 * sz) j) :=
  leading_ptrue.svst3_reversed hsz.pos (svrev_lane vl sz)

theorem three_bytes (vl : VectorLength) (hsz : ScalarSize sz) :
    3 * vl.bytes = numLanes vl sz * (3 * sz) := by
  rw [← numLanes_mul vl hsz]
  ring

end

/-! ### Copied rows -/

section

variable {vl : VectorLength} {sz P p w n srcRow dstRow : ℕ} {r : Tallied U8} {c : Cursors}

/-- The first `i` bytes of a row are copied, each stored once. -/
structure CopiedOnce (srcRow dstRow : ℕ) (r : Tallied U8) (i : ℕ) (c : Cursors) : Prop where
  copied : KleidiCV.Flip.Copied srcRow dstRow r.mem i ⟨c.run.mem, c.src, c.dst⟩
  touched : Touched (Set.Ico srcRow (srcRow + i)) (Set.Ico dstRow (dstRow + i)) r c.run

/-- A block is loaded and then stored. -/
theorem touched_block {a d n k : ℕ} {g : ℕ → U8} (r : Tallied U8) :
    Touched (Set.Ico a (a + n)) (Set.Ico d (d + k)) r ((r.loadRange a n).storeRange d k g) := by
  have h := (Touched.loadRange r a n).trans (Touched.storeRange (r.loadRange a n) d k g)
    (Set.empty_disjoint _)
  exact h.congr (by rw [Set.union_empty]) (Set.empty_union _)

theorem CopiedOnce.step {i len : ℕ} (h : CopiedOnce srcRow dstRow r i c) (hn : i + n ≤ len)
    (hd : srcRow + len ≤ dstRow ∨ dstRow + len ≤ srcRow) :
    CopiedOnce srcRow dstRow r (i + n)
      ⟨(c.run.loadRange c.src n).storeRange c.dst n fun j => c.run.mem (c.src + j), c.src + n,
        c.dst + n⟩ := by
  have hsrc : c.src = srcRow + i := h.copied.src
  have hdst : c.dst = dstRow + i := h.copied.dst
  refine ⟨?_, ?_⟩
  · rw [Tallied.storeRange_mem]
    exact h.copied.step hn hd
  · have hblock := touched_block (a := c.src) (d := c.dst) (n := n) (k := n)
      (g := fun j => c.run.mem (c.src + j)) c.run
    rw [hsrc, hdst] at hblock ⊢
    refine (h.touched.trans hblock ?_).congr ?_ ?_
    · exact Set.Ico_disjoint_Ico_same
    · rw [← Nat.add_assoc, Set.Ico_union_Ico_eq_Ico (Nat.le_add_right _ _) (Nat.le_add_right _ _)]
    · rw [← Nat.add_assoc, Set.Ico_union_Ico_eq_Ico (Nat.le_add_right _ _) (Nat.le_add_right _ _)]

/-- A row copied: what memory holds, and what is accessed. -/
theorem copyRowToDst_spec (vl : VectorLength) (hsz : ScalarSize sz)
    (hd : srcRow + w * P * sz ≤ dstRow ∨ dstRow + w * P * sz ≤ srcRow) :
    Wrote (dstRow + ·) (fun k => r.mem (srcRow + k)) {k | k < w * P * sz} r.mem
        (copyRowToDst vl sz P srcRow dstRow w r).mem ∧
      Touched (Set.Ico srcRow (srcRow + w * P * sz)) (Set.Ico dstRow (dstRow + w * P * sz)) r
        (copyRowToDst vl sz P srcRow dstRow w r) := by
  have hmul := numLanes_mul vl hsz
  have hbytes : ∀ {i n : ℕ}, i + n ≤ w * P → i * sz + n * sz ≤ w * P * sz := by
    intro i n h
    rw [← Nat.add_mul]
    exact Nat.mul_le_mul_right sz h
  have h0 : Unrolled (w * P) (numLanes vl sz) (fun i => CopiedOnce srcRow dstRow r (i * sz))
      (LoopUnroll2.start (w * P) (numLanes vl sz), Cursors.mk r srcRow dstRow) := by
    refine Unrolled.start ⟨⟨by simp, by simp, Wrote.refl_of_empty _ (by simp)⟩, ?_⟩
    refine (Touched.refl r).congr (Set.empty_subset _) ?_
    simp
  refine ((h0.unrollNTimes fun i c hi hc => ?_).unrollNTimes fun i c hi hc => ?_).unrollOnce_remaining
    (numLanes_pos vl hsz)
    (fun c => Wrote (dstRow + ·) (fun k => r.mem (srcRow + k)) {k | k < w * P * sz} r.mem c.run.mem ∧
      Touched (Set.Ico srcRow (srcRow + w * P * sz)) (Set.Ico dstRow (dstRow + w * P * sz)) r c.run)
    (fun i c hi hc => ?_) (fun c hc => ⟨hc.copied.wrote, hc.touched⟩) fun i c hi hend hc => ?_
  · have h := hc.step (hbytes hi) hd
    have hfour : 4 * numLanes vl sz * sz = 4 * vl.bytes := by rw [Nat.mul_assoc, hmul]
    rw [← Nat.add_mul, hfour] at h
    convert h using 2
    · simp only [storeConsecutive4_load hsz, loadConsecutive4_touches hsz]
    · rw [← hmul]
      ring
    · rw [← hmul]
      ring
  · have h := hc.step (hbytes hi) hd
    have htwo : 2 * numLanes vl sz * sz = 2 * vl.bytes := by rw [Nat.mul_assoc, hmul]
    rw [← Nat.add_mul, htwo] at h
    convert h using 2
    · simp only [storeConsecutive2_load hsz, loadConsecutive2_touches hsz]
    · rw [← hmul]
      ring
    · rw [← hmul]
      ring
  · have h := hc.step (hbytes hi) hd
    rw [← Nat.add_mul] at h
    convert h using 2
    simp only [leading_ptrue.svst1_svld1 hsz.pos, leading_ptrue.svld1_touches hsz.pos]
  · have h := hc.step (hbytes (show i + (w * P - i) ≤ w * P by omega)) hd
    rw [← Nat.add_mul, Nat.add_sub_cancel' hi.le] at h
    have hpg : Leading (numLanes vl sz) (svwhilelt i (w * P)) (w * P - i) := leading_whilelt hend.le
    simp only [hpg.svst1_svld1 hsz.pos, hpg.svld1_touches hsz.pos]
    exact ⟨h.copied.wrote, h.touched⟩

end

/-! ### Copied rows, reversed -/

section

variable {vl : VectorLength} {sz P p w n srcRow dstRow : ℕ} {r : Tallied U8} {c : Cursors}

/-- The four blocks of a reversed row. -/
theorem fourBlocks_eq (hsz : ScalarSize sz) (hP : P = 1 ∨ P = 3) (src dst : ℕ) (r : Tallied U8) :
    (if P = 3 then
        let vectors0 := svld3 vl sz svptrue src r
        let vectors1 := svld3 vl sz svptrue (src + 3 * vl.bytes) vectors0.2
        let vectors2 := svld3 vl sz svptrue (src + 6 * vl.bytes) vectors1.2
        let vectors3 := svld3 vl sz svptrue (src + 9 * vl.bytes) vectors2.2
        let r := svst3 vl sz svptrue dst (reverseLanes vl sz vectors3.1) vectors3.2
        let r := svst3 vl sz svptrue (dst + 3 * vl.bytes) (reverseLanes vl sz vectors2.1) r
        let r := svst3 vl sz svptrue (dst + 6 * vl.bytes) (reverseLanes vl sz vectors1.1) r
        svst3 vl sz svptrue (dst + 9 * vl.bytes) (reverseLanes vl sz vectors0.1) r
      else
        let pixels := loadConsecutive4 vl sz src r
        storeConsecutive4 vl sz (svrev vl sz pixels.1.2.2.2) (svrev vl sz pixels.1.2.2.1)
          (svrev vl sz pixels.1.2.1) (svrev vl sz pixels.1.1) dst pixels.2) =
      (r.loadRange src (4 * numLanes vl sz * (P * sz))).storeRange dst
        (4 * numLanes vl sz * (P * sz)) fun j =>
          r.mem (src + mirror (4 * numLanes vl sz) (P * sz) j) := by
  rcases hP with rfl | rfl
  · simp only [if_neg (show ¬(1 = 3) by decide), storeConsecutive4_reversed hsz,
      loadConsecutive4_touches hsz, Nat.one_mul]
    rw [Nat.mul_assoc, numLanes_mul vl hsz]
  · have hsix : 6 * vl.bytes = 2 * (numLanes vl sz * (3 * sz)) := by
      rw [← three_bytes vl hsz]
      ring
    have hnine : 9 * vl.bytes = 3 * (numLanes vl sz * (3 * sz)) := by
      rw [← three_bytes vl hsz]
      ring
    simp only [if_true, svst3_reverseLanes hsz, leading_ptrue.svld3_touches hsz.pos,
      Tallied.loadRange_mem]
    rw [← storeRange_mirror_four (Nat.mul_pos three_pos hsz.pos) _ dst _ fun j => r.mem (src + j),
      Nat.mul_assoc 4, ← loadRange_four]
    simp only [three_bytes vl hsz, hsix, hnine, Nat.add_assoc]

/-- The two blocks of a reversed row. -/
theorem twoBlocks_eq (hsz : ScalarSize sz) (hP : P = 1 ∨ P = 3) (src dst : ℕ) (r : Tallied U8) :
    (if P = 3 then
        let vectors0 := svld3 vl sz svptrue src r
        let vectors1 := svld3 vl sz svptrue (src + 3 * vl.bytes) vectors0.2
        let r := svst3 vl sz svptrue dst (reverseLanes vl sz vectors1.1) vectors1.2
        svst3 vl sz svptrue (dst + 3 * vl.bytes) (reverseLanes vl sz vectors0.1) r
      else
        let pixels := loadConsecutive2 vl sz src r
        storeConsecutive2 vl sz (svrev vl sz pixels.1.2) (svrev vl sz pixels.1.1) dst pixels.2) =
      (r.loadRange src (2 * numLanes vl sz * (P * sz))).storeRange dst
        (2 * numLanes vl sz * (P * sz)) fun j =>
          r.mem (src + mirror (2 * numLanes vl sz) (P * sz) j) := by
  rcases hP with rfl | rfl
  · simp only [if_neg (show ¬(1 = 3) by decide), storeConsecutive2_reversed hsz,
      loadConsecutive2_touches hsz, Nat.one_mul]
    rw [Nat.mul_assoc, numLanes_mul vl hsz]
  · simp only [if_true, svst3_reverseLanes hsz, leading_ptrue.svld3_touches hsz.pos,
      Tallied.loadRange_mem]
    rw [← storeRange_mirror_two (Nat.mul_pos three_pos hsz.pos) _ dst _ fun j => r.mem (src + j),
      Nat.mul_assoc 2, ← loadRange_two]
    simp only [three_bytes vl hsz, Nat.add_assoc]

/-- One block, whole or partial, of a reversed row. -/
theorem block_eq {pg : ℕ → Bool} {k : ℕ} (hpg : Leading (numLanes vl sz) pg k) (hsz : ScalarSize sz)
    (hP : P = 1 ∨ P = 3) {reverse : Vector → Vector}
    (hreverse : ∀ v l, l < k → reverse v l = v (k - 1 - l)) (src dst : ℕ) (r : Tallied U8) :
    (if P = 3 then
        let vectors := svld3 vl sz pg src r
        svst3 vl sz pg dst (fun c => reverse (vectors.1 c)) vectors.2
      else
        let pixels := svld1 vl sz pg src r
        svst1 vl sz pg dst (reverse pixels.1) pixels.2) =
      (r.loadRange src (k * (P * sz))).storeRange dst (k * (P * sz)) fun j =>
        r.mem (src + mirror k (P * sz) j) := by
  rcases hP with rfl | rfl
  · simp only [if_neg (show ¬(1 = 3) by decide), hpg.svst1_reversed hsz.pos hreverse,
      hpg.svld1_touches hsz.pos, Nat.one_mul]
  · simp only [if_true, hpg.svst3_reversed hsz.pos hreverse, hpg.svld3_touches hsz.pos]

/-- The first `i` pixels of a row are copied to the mirrored place, each stored once. -/
structure CopiedReversedOnce (p w srcRow dstRow : ℕ) (r : Tallied U8) (i : ℕ) (c : Cursors) :
    Prop where
  copied : KleidiCV.Flip.CopiedReversed p w srcRow dstRow r.mem i ⟨c.run.mem, c.src, c.dst⟩
  touched : Touched (Set.Ico srcRow (srcRow + i * p))
    (Set.Ico (dstRow + (w - i) * p) (dstRow + w * p)) r c.run

theorem CopiedReversedOnce.step {i : ℕ} (h : CopiedReversedOnce p w srcRow dstRow r i c)
    (hp : 0 < p) (hn : i + n ≤ w) (hd : srcRow + w * p ≤ dstRow ∨ dstRow + w * p ≤ srcRow) :
    CopiedReversedOnce p w srcRow dstRow r (i + n)
      ⟨(c.run.loadRange c.src (n * p)).storeRange (c.dst - n * p) (n * p) fun j =>
        c.run.mem (c.src + mirror n p j), c.src + n * p, c.dst - n * p⟩ := by
  have hsrc : c.src = srcRow + i * p := h.copied.src
  have hdst : c.dst = dstRow + (w - i) * p := h.copied.dst
  have hback : (w - i) * p = (w - (i + n)) * p + n * p := by
    rw [← Nat.add_mul]
    congr 1
    omega
  have hlast : (w - i) * p ≤ w * p := Nat.mul_le_mul_right p (Nat.sub_le _ _)
  have hdst' : c.dst - n * p = dstRow + (w - (i + n)) * p := by omega
  refine ⟨?_, ?_⟩
  · rw [Tallied.storeRange_mem]
    exact h.copied.step hp hn hd
  · have hblock := touched_block (a := c.src) (d := c.dst - n * p) (n := n * p) (k := n * p)
      (g := fun j => c.run.mem (c.src + mirror n p j)) c.run
    rw [hsrc, hdst'] at hblock ⊢
    refine (h.touched.trans hblock ?_).congr ?_ ?_
    · refine Set.disjoint_left.mpr fun a ha ha' => ?_
      have h1 := ha.1
      have h2 := ha'.2
      omega
    · rw [Nat.add_mul, ← Nat.add_assoc,
        Set.Ico_union_Ico_eq_Ico (Nat.le_add_right _ _) (Nat.le_add_right _ _)]
    · rw [Set.union_comm, Nat.add_assoc, ← hback,
        Set.Ico_union_Ico_eq_Ico (by omega) (by omega)]

/-- A row copied from its end: what memory holds, and what is accessed. -/
theorem copyReversedRowToDst_spec (vl : VectorLength) (hsz : ScalarSize sz) (hP : P = 1 ∨ P = 3)
    (hd : srcRow + w * (P * sz) ≤ dstRow ∨ dstRow + w * (P * sz) ≤ srcRow) :
    Wrote (dstRow + ·) (fun k => r.mem (srcRow + mirror w (P * sz) k)) {k | k < w * (P * sz)} r.mem
        (copyReversedRowToDst vl sz P srcRow dstRow w r).mem ∧
      Touched (Set.Ico srcRow (srcRow + w * (P * sz))) (Set.Ico dstRow (dstRow + w * (P * sz))) r
        (copyReversedRowToDst vl sz P srcRow dstRow w r) := by
  have hp : 0 < P * sz := Nat.mul_pos (by omega) hsz.pos
  have h0 : Unrolled w (numLanes vl sz) (CopiedReversedOnce (P * sz) w srcRow dstRow r)
      (LoopUnroll2.start w (numLanes vl sz), Cursors.mk r srcRow (dstRow + w * P * sz)) := by
    refine Unrolled.start ⟨⟨by simp, by simp [Nat.mul_assoc], Wrote.refl_of_empty _ ?_⟩, ?_⟩
    · rintro k ⟨h1, h2⟩
      rw [Nat.sub_zero] at h1
      omega
    · refine (Touched.refl r).congr (Set.empty_subset _) ?_
      rw [Nat.sub_zero, Set.Ico_self]
  -- A whole row is what is claimed.
  have hdone : ∀ c, CopiedReversedOnce (P * sz) w srcRow dstRow r w c →
      Wrote (dstRow + ·) (fun k => r.mem (srcRow + mirror w (P * sz) k)) {k | k < w * (P * sz)}
        r.mem c.run.mem ∧ Touched (Set.Ico srcRow (srcRow + w * (P * sz)))
          (Set.Ico dstRow (dstRow + w * (P * sz))) r c.run := by
    intro c hc
    refine ⟨hc.copied.wrote.congr ?_, hc.touched.congr subset_rfl ?_⟩
    · ext k
      simp only [Nat.sub_self, Nat.zero_mul, Nat.zero_le, true_and]
    · rw [Nat.sub_self, Nat.zero_mul, Nat.add_zero]
  have hblock : numLanes vl sz * P * sz = numLanes vl sz * (P * sz) := Nat.mul_assoc _ _ _
  have hblocks2 : numLanes vl sz * P * 2 * sz = 2 * numLanes vl sz * (P * sz) := by ring
  have hblocks4 : numLanes vl sz * P * 2 * 2 * sz = 4 * numLanes vl sz * (P * sz) := by ring
  refine ((h0.unrollNTimes fun i c hi hc => ?_).unrollNTimes fun i c hi hc => ?_).unrollOnce_remaining
    (numLanes_pos vl hsz) _ (fun i c hi hc => ?_) hdone fun i c hi hend hc => ?_
  · have h := hc.step hp hi hd
    rw [← fourBlocks_eq hsz hP] at h
    simp only [hblocks4]
    exact h
  · have h := hc.step hp hi hd
    rw [← twoBlocks_eq hsz hP] at h
    simp only [hblocks2]
    exact h
  · have h := hc.step hp hi hd
    rw [← block_eq leading_ptrue hsz hP (svrev_lane vl sz)] at h
    simp only [hblock]
    exact h
  · have h := hc.step hp (show i + (w - i) ≤ w by omega) hd
    have htbl : ∀ (v : Vector) l, l < w - i →
        svtbl vl sz v (reversalIndices sz (w - i)) l = v (w - i - 1 - l) := fun v l hl =>
      svtbl_reversal v hsz hl (by omega)
    rw [← block_eq (leading_whilelt hend.le) hsz hP htbl, Nat.add_sub_cancel' hi.le] at h
    simp only [Nat.mul_assoc (w - i)]
    exact hdone _ h

end

/-! ### Swapped rows -/

section

open KleidiCV.Flip (pairAt pairPart PartsDisjoint)

variable {vl : VectorLength} {sz P p w n top bottom : ℕ} {r : Tallied U8} {c : Cursors}

/-- Two blocks are loaded and then stored, each in the other's place. -/
theorem touched_pair {f b n : ℕ} {g h : ℕ → U8} (r : Tallied U8)
    (hfb : Disjoint (Set.Ico f (f + n)) (Set.Ico b (b + n))) :
    Touched (Set.Ico f (f + n) ∪ Set.Ico b (b + n)) (Set.Ico f (f + n) ∪ Set.Ico b (b + n)) r
      ((((r.loadRange f n).loadRange b n).storeRange b n g).storeRange f n h) := by
  have hloads := (Touched.loadRange r f n).trans (Touched.loadRange (r.loadRange f n) b n)
    (Set.empty_disjoint _)
  have hstores := (Touched.storeRange ((r.loadRange f n).loadRange b n) b n g).trans
    (Touched.storeRange _ f n h) hfb.symm
  refine (hloads.trans hstores ?_).congr ?_ ?_
  · rw [Set.empty_union]
    exact Set.empty_disjoint _
  · rw [Set.empty_union, Set.union_empty]
  · rw [Set.empty_union, Set.empty_union, Set.union_comm]

/-- The order of two stores to different places does not matter. -/
theorem storeRange_comm {f b n k : ℕ} {g h : ℕ → U8} (r : Tallied U8)
    (hfb : f + n ≤ b ∨ b + k ≤ f) :
    (r.storeRange f n g).storeRange b k h = (r.storeRange b k h).storeRange f n g := by
  refine Tallied.ext_fields ?_ rfl (funext fun x => ?_)
  · simp only [Tallied.storeRange_mem]
    exact overwrite_comm hfb
  · exact Nat.add_right_comm _ _ _

/-- The first `i` bytes of two rows have changed places, each stored once. -/
structure SwappedOnce (top bottom : ℕ) (r : Tallied U8) (i : ℕ) (c : Cursors) : Prop where
  swapped : KleidiCV.Flip.Swapped top bottom r.mem i ⟨c.run.mem, c.src, c.dst⟩
  touched : Touched (Set.Ico top (top + i) ∪ Set.Ico bottom (bottom + i))
    (Set.Ico top (top + i) ∪ Set.Ico bottom (bottom + i)) r c.run

theorem SwappedOnce.step {i len : ℕ} (h : SwappedOnce top bottom r i c) (hn : i + n ≤ len)
    (hpos : 0 < n) (hd : PartsDisjoint top bottom 0 len 0 len) :
    SwappedOnce top bottom r (i + n)
      ⟨(((c.run.loadRange c.src n).loadRange c.dst n).storeRange c.dst n fun j =>
        c.run.mem (c.src + j)).storeRange c.src n fun j => c.run.mem (c.dst + j), c.src + n,
        c.dst + n⟩ := by
  have hsrc : c.src = top + i := h.swapped.src
  have hdst : c.dst = bottom + i := h.swapped.dst
  have hapart : ∀ {a b : ℕ}, a < i + n → b < i + n → top + a ≠ bottom + b := fun ha hb =>
    hd _ (Nat.zero_le _) (by omega) _ (Nat.zero_le _) (by omega)
  have hranges : c.src + n ≤ c.dst ∨ c.dst + n ≤ c.src := by
    rw [hsrc, hdst]
    refine ranges_disjoint hpos hpos fun a ha b hb => ?_
    rw [Nat.add_assoc, Nat.add_assoc]
    exact hapart (by omega) (by omega)
  refine ⟨?_, ?_⟩
  · rw [storeRange_comm _ hranges.symm]
    simp only [Tallied.storeRange_mem]
    exact h.swapped.step hn hd
  · have hpair := touched_pair (f := c.src) (b := c.dst) (n := n)
      (g := fun j => c.run.mem (c.src + j)) (h := fun j => c.run.mem (c.dst + j)) c.run
      (Set.disjoint_left.mpr fun a ha ha' => by
        have h1 := ha.1
        have h2 := ha.2
        have h3 := ha'.1
        have h4 := ha'.2
        omega)
    have hunion : ∀ b, Set.Ico b (b + i) ∪ Set.Ico (b + i) (b + i + n) = Set.Ico b (b + (i + n)) := by
      intro b
      rw [← Nat.add_assoc, Set.Ico_union_Ico_eq_Ico (Nat.le_add_right _ _) (Nat.le_add_right _ _)]
    rw [hsrc, hdst] at hpair ⊢
    refine (h.touched.trans hpair ?_).congr ?_ ?_
    · refine Set.disjoint_left.mpr ?_
      rintro a (⟨h1, h2⟩ | ⟨h1, h2⟩) (⟨h3, h4⟩ | ⟨h3, h4⟩)
      · omega
      · exact hapart (a := a - top) (b := a - bottom) (by omega) (by omega) (by omega)
      · exact hapart (a := a - top) (b := a - bottom) (by omega) (by omega) (by omega)
      · omega
    · rw [Set.union_union_union_comm, hunion, hunion]
    · rw [Set.union_union_union_comm, hunion, hunion]

/-- Two rows swapped: what memory holds, and what is accessed. -/
theorem swapRowPairInPlace_spec (vl : VectorLength) (hsz : ScalarSize sz)
    (hd : PartsDisjoint top bottom 0 (w * P * sz) 0 (w * P * sz)) :
    Wrote (pairAt top bottom) (fun q => r.mem (pairAt top bottom (!q.1, q.2)))
        (pairPart 0 (w * P * sz) 0 (w * P * sz)) r.mem
        (swapRowPairInPlace vl sz P top bottom w r).mem ∧
      Touched (Set.Ico top (top + w * P * sz) ∪ Set.Ico bottom (bottom + w * P * sz))
        (Set.Ico top (top + w * P * sz) ∪ Set.Ico bottom (bottom + w * P * sz)) r
        (swapRowPairInPlace vl sz P top bottom w r) := by
  have hmul := numLanes_mul vl hsz
  have hlanes := numLanes_pos vl hsz
  have hbytes : ∀ {i n : ℕ}, i + n ≤ w * P → i * sz + n * sz ≤ w * P * sz := by
    intro i n h
    rw [← Nat.add_mul]
    exact Nat.mul_le_mul_right sz h
  have h0 : Unrolled (w * P) (numLanes vl sz) (fun i => SwappedOnce top bottom r (i * sz))
      (LoopUnroll2.start (w * P) (numLanes vl sz), Cursors.mk r top bottom) := by
    refine Unrolled.start ⟨⟨by simp, by simp, Wrote.refl_of_empty _ ?_⟩, ?_⟩
    · rintro ⟨_ | _, k⟩ hk
      · exact absurd (KleidiCV.Flip.mem_pairPart_top.mp hk).2 (by simp)
      · exact absurd (KleidiCV.Flip.mem_pairPart_bottom.mp hk).2 (by simp)
    · refine (Touched.refl r).congr (Set.empty_subset _) ?_
      simp
  refine ((h0.unrollNTimes fun i c hi hc => ?_).unrollNTimes fun i c hi hc => ?_).unrollOnce_remaining
    hlanes
    (fun c => Wrote (pairAt top bottom) (fun q => r.mem (pairAt top bottom (!q.1, q.2)))
        (pairPart 0 (w * P * sz) 0 (w * P * sz)) r.mem c.run.mem ∧
      Touched (Set.Ico top (top + w * P * sz) ∪ Set.Ico bottom (bottom + w * P * sz))
        (Set.Ico top (top + w * P * sz) ∪ Set.Ico bottom (bottom + w * P * sz)) r c.run)
    (fun i c hi hc => ?_) (fun c hc => ⟨hc.swapped.wrote, hc.touched⟩) fun i c hi hend hc => ?_
  · have hfour : 4 * numLanes vl sz * sz = 4 * vl.bytes := by rw [Nat.mul_assoc, hmul]
    have hpos : 0 < 4 * numLanes vl sz * sz :=
      Nat.mul_pos (Nat.mul_pos (by decide) hlanes) hsz.pos
    have h := hc.step (hbytes hi) hpos hd
    rw [← Nat.add_mul, hfour] at h
    convert h using 2
    · simp only [storeConsecutive4_load hsz, loadConsecutive4_touches hsz, Tallied.loadRange_mem]
    · rw [← hmul]
      ring
    · rw [← hmul]
      ring
  · have htwo : 2 * numLanes vl sz * sz = 2 * vl.bytes := by rw [Nat.mul_assoc, hmul]
    have hpos : 0 < 2 * numLanes vl sz * sz :=
      Nat.mul_pos (Nat.mul_pos (by decide) hlanes) hsz.pos
    have h := hc.step (hbytes hi) hpos hd
    rw [← Nat.add_mul, htwo] at h
    convert h using 2
    · simp only [storeConsecutive2_load hsz, loadConsecutive2_touches hsz, Tallied.loadRange_mem]
    · rw [← hmul]
      ring
    · rw [← hmul]
      ring
  · have h := hc.step (hbytes hi) (Nat.mul_pos hlanes hsz.pos) hd
    rw [← Nat.add_mul] at h
    convert h using 2
    simp only [leading_ptrue.svst1_svld1 hsz.pos, leading_ptrue.svld1_touches hsz.pos,
      Tallied.loadRange_mem]
  · have h := hc.step (hbytes (show i + (w * P - i) ≤ w * P by omega))
      (Nat.mul_pos (by omega) hsz.pos) hd
    rw [← Nat.add_mul, Nat.add_sub_cancel' hi.le] at h
    have hpg : Leading (numLanes vl sz) (svwhilelt i (w * P)) (w * P - i) := leading_whilelt hend.le
    simp only [hpg.svst1_svld1 hsz.pos, hpg.svld1_touches hsz.pos, Tallied.loadRange_mem]
    exact ⟨h.swapped.wrote, h.touched⟩

/-! ### Swapped rows, reversed -/

/-- A block of each side, whole or partial, in the other's place. -/
theorem pairBlock_eq {pg : ℕ → Bool} {k f b : ℕ} (hpg : Leading (numLanes vl sz) pg k) (hsz : ScalarSize sz)
    (hP : P = 1 ∨ P = 3) {reverse : Vector → Vector}
    (hreverse : ∀ v l, l < k → reverse v l = v (k - 1 - l)) (r : Tallied U8) :
    (if P = 3 then
        let fwd := svld3 vl sz pg f r
        let bwd := svld3 vl sz pg b fwd.2
        let r := svst3 vl sz pg b (fun c => reverse (fwd.1 c)) bwd.2
        svst3 vl sz pg f (fun c => reverse (bwd.1 c)) r
      else
        let fwd := svld1 vl sz pg f r
        let bwd := svld1 vl sz pg b fwd.2
        let r := svst1 vl sz pg b (reverse fwd.1) bwd.2
        svst1 vl sz pg f (reverse bwd.1) r) =
      (((r.loadRange f (k * (P * sz))).loadRange b (k * (P * sz))).storeRange b (k * (P * sz))
        fun j => r.mem (f + mirror k (P * sz) j)).storeRange f (k * (P * sz)) fun j =>
          r.mem (b + mirror k (P * sz) j) := by
  rcases hP with rfl | rfl
  · simp only [if_neg (show ¬(1 = 3) by decide), hpg.svst1_reversed hsz.pos hreverse,
      hpg.svld1_touches hsz.pos, Nat.one_mul, Tallied.loadRange_mem]
  · simp only [if_true, hpg.svst3_reversed hsz.pos hreverse, hpg.svld3_touches hsz.pos,
      Tallied.loadRange_mem]

theorem swapReversedPixelBlockPair2x_eq (hsz : ScalarSize sz) (hP : P = 1 ∨ P = 3) {f b : ℕ}
    (hfb : f + 2 * numLanes vl sz * (P * sz) ≤ b ∨ b + 2 * numLanes vl sz * (P * sz) ≤ f)
    (r : Tallied U8) :
    swapReversedPixelBlockPair2x vl sz P f b r =
      (((r.loadRange f (2 * numLanes vl sz * (P * sz))).loadRange b
        (2 * numLanes vl sz * (P * sz))).storeRange b (2 * numLanes vl sz * (P * sz))
        fun j => r.mem (f + mirror (2 * numLanes vl sz) (P * sz) j)).storeRange f
          (2 * numLanes vl sz * (P * sz)) fun j =>
            r.mem (b + mirror (2 * numLanes vl sz) (P * sz) j) := by
  rw [storeRange_comm _ hfb.symm, swapReversedPixelBlockPair2x]
  rcases hP with rfl | rfl
  · simp only [if_neg (show ¬(1 = 3) by decide), storeConsecutive2_reversed hsz,
      loadConsecutive2_touches hsz, Nat.one_mul, Tallied.loadRange_mem]
    rw [Nat.mul_assoc, numLanes_mul vl hsz]
  · simp only [if_true, svst3_reverseLanes hsz, leading_ptrue.svld3_touches hsz.pos,
      Tallied.loadRange_mem]
    rw [← storeRange_mirror_two (Nat.mul_pos three_pos hsz.pos) _ f _ fun j => r.mem (b + j),
      ← storeRange_mirror_two (Nat.mul_pos three_pos hsz.pos) _ b _ fun j => r.mem (f + j),
      Nat.mul_assoc 2, ← loadRange_two, ← loadRange_two]
    simp only [three_bytes vl hsz, Nat.add_assoc]

/-- The first `i` pixels of the top row and the last `i` of the bottom row have changed places,
mirrored, each stored once. -/
structure SwappedReversedOnce (p w top bottom : ℕ) (r : Tallied U8) (i : ℕ) (c : Cursors) :
    Prop where
  swapped : KleidiCV.Flip.SwappedReversed p w top bottom r.mem i ⟨c.run.mem, c.src, c.dst⟩
  touched : Touched
    (Set.Ico top (top + i * p) ∪ Set.Ico (bottom + (w - i) * p) (bottom + w * p))
    (Set.Ico top (top + i * p) ∪ Set.Ico (bottom + (w - i) * p) (bottom + w * p)) r c.run

theorem SwappedReversedOnce.step {i pairs : ℕ} (h : SwappedReversedOnce p w top bottom r i c)
    (hp : 0 < p) (hpos : 0 < n) (hn : i + n ≤ pairs) (hw : pairs ≤ w)
    (hd : PartsDisjoint top bottom 0 (pairs * p) ((w - pairs) * p) (w * p)) :
    SwappedReversedOnce p w top bottom r (i + n)
      ⟨(((c.run.loadRange c.src (n * p)).loadRange (c.dst - n * p) (n * p)).storeRange
        (c.dst - n * p) (n * p) fun j => c.run.mem (c.src + mirror n p j)).storeRange c.src (n * p)
        fun j => c.run.mem (c.dst - n * p + mirror n p j), c.src + n * p, c.dst - n * p⟩ := by
  have hranges := h.swapped.ranges hp hpos hn hw hd
  have hsrc : c.src = top + i * p := h.swapped.src
  have hdst : c.dst = bottom + (w - i) * p := h.swapped.dst
  have hfront : i * p + n * p ≤ pairs * p := by
    rw [← Nat.add_mul]
    exact Nat.mul_le_mul_right p hn
  have hback : (w - i) * p = (w - (i + n)) * p + n * p := by
    rw [← Nat.add_mul]
    congr 1
    omega
  have hlow : (w - pairs) * p ≤ (w - (i + n)) * p := Nat.mul_le_mul_right p (by omega)
  have hhigh : (w - i) * p ≤ w * p := Nat.mul_le_mul_right p (Nat.sub_le _ _)
  have hdst' : c.dst - n * p = bottom + (w - (i + n)) * p := by omega
  simp only at hranges
  refine ⟨?_, ?_⟩
  · rw [storeRange_comm _ hranges.symm]
    simp only [Tallied.storeRange_mem]
    exact h.swapped.step hp hn hw hd
  · have hpair := touched_pair (f := c.src) (b := c.dst - n * p) (n := n * p)
      (g := fun j => c.run.mem (c.src + mirror n p j))
      (h := fun j => c.run.mem (c.dst - n * p + mirror n p j)) c.run
      (Set.disjoint_left.mpr fun a ha ha' => by
        have h1 := ha.1
        have h2 := ha.2
        have h3 := ha'.1
        have h4 := ha'.2
        omega)
    rw [hsrc, hdst'] at hpair ⊢
    have hfirst : Set.Ico top (top + i * p) ∪ Set.Ico (top + i * p) (top + i * p + n * p) =
        Set.Ico top (top + (i + n) * p) := by
      rw [Nat.add_mul, ← Nat.add_assoc,
        Set.Ico_union_Ico_eq_Ico (Nat.le_add_right _ _) (Nat.le_add_right _ _)]
    have hlast : Set.Ico (bottom + (w - i) * p) (bottom + w * p) ∪
        Set.Ico (bottom + (w - (i + n)) * p) (bottom + (w - (i + n)) * p + n * p) =
        Set.Ico (bottom + (w - (i + n)) * p) (bottom + w * p) := by
      rw [Set.union_comm, Nat.add_assoc, ← hback, Set.Ico_union_Ico_eq_Ico (by omega) (by omega)]
    -- Places of the two rows are different addresses.
    have hapart : ∀ {a}, top ≤ a → a < top + pairs * p → bottom + (w - pairs) * p ≤ a →
        a < bottom + w * p → False := fun {a} h1 h2 h3 h4 =>
      hd (a - top) (Nat.zero_le _) (by omega) (a - bottom) (by omega) (by omega) (by omega)
    refine (h.touched.trans hpair ?_).congr ?_ ?_
    · refine Set.disjoint_left.mpr ?_
      rintro a (⟨h1, h2⟩ | ⟨h1, h2⟩) (⟨h3, h4⟩ | ⟨h3, h4⟩)
      · omega
      · exact hapart (a := a) (by omega) (by omega) (by omega) (by omega)
      · exact hapart (a := a) (by omega) (by omega) (by omega) (by omega)
      · omega
    · rw [Set.union_union_union_comm, hfirst, hlast]
    · rw [Set.union_union_union_comm, hfirst, hlast]

/-- The pixels of two rows, or of the two halves of one, swapped with the mirrored ones: what
memory holds, and what is accessed. -/
theorem swapReversedRowPairInPlace_spec (vl : VectorLength) {pairs : ℕ} (hsz : ScalarSize sz)
    (hP : P = 1 ∨ P = 3) (hw : pairs ≤ w)
    (hd : PartsDisjoint top bottom 0 (pairs * (P * sz)) ((w - pairs) * (P * sz)) (w * (P * sz))) :
    Wrote (pairAt top bottom) (fun q => r.mem (pairAt top bottom (!q.1, mirror w (P * sz) q.2)))
        (pairPart 0 (pairs * (P * sz)) ((w - pairs) * (P * sz)) (w * (P * sz))) r.mem
        (swapReversedRowPairInPlace vl sz P top bottom w pairs r).mem ∧
      Touched
        (Set.Ico top (top + pairs * (P * sz)) ∪
          Set.Ico (bottom + (w - pairs) * (P * sz)) (bottom + w * (P * sz)))
        (Set.Ico top (top + pairs * (P * sz)) ∪
          Set.Ico (bottom + (w - pairs) * (P * sz)) (bottom + w * (P * sz))) r
        (swapReversedRowPairInPlace vl sz P top bottom w pairs r) := by
  have hp : 0 < P * sz := Nat.mul_pos (by omega) hsz.pos
  have hlanes := numLanes_pos vl hsz
  have h0 : Unrolled pairs (numLanes vl sz) (SwappedReversedOnce (P * sz) w top bottom r)
      (LoopUnroll2.start pairs (numLanes vl sz), Cursors.mk r top (bottom + w * P * sz)) := by
    refine Unrolled.start ⟨⟨by simp, by simp [Nat.mul_assoc], Wrote.refl_of_empty _ ?_⟩, ?_⟩
    · rintro ⟨_ | _, k⟩ hk
      · exact absurd (KleidiCV.Flip.mem_pairPart_top.mp hk).2 (by simp)
      · have := KleidiCV.Flip.mem_pairPart_bottom.mp hk
        rw [Nat.sub_zero] at this
        omega
    · refine (Touched.refl r).congr (Set.empty_subset _) ?_
      rw [Nat.sub_zero, Set.Ico_self, Nat.zero_mul, Nat.add_zero, Set.Ico_self, Set.union_empty]
  have hblock : numLanes vl sz * P * sz = numLanes vl sz * (P * sz) := Nat.mul_assoc _ _ _
  have hblocks : numLanes vl sz * P * 2 * sz = 2 * numLanes vl sz * (P * sz) := by ring
  refine (h0.unrollNTimes fun i c hi hc => ?_).unrollOnce_remaining hlanes
    (fun c => Wrote (pairAt top bottom)
        (fun q => r.mem (pairAt top bottom (!q.1, mirror w (P * sz) q.2)))
        (pairPart 0 (pairs * (P * sz)) ((w - pairs) * (P * sz)) (w * (P * sz))) r.mem c.run.mem ∧
      Touched
        (Set.Ico top (top + pairs * (P * sz)) ∪
          Set.Ico (bottom + (w - pairs) * (P * sz)) (bottom + w * (P * sz)))
        (Set.Ico top (top + pairs * (P * sz)) ∪
          Set.Ico (bottom + (w - pairs) * (P * sz)) (bottom + w * (P * sz))) r c.run)
    (fun i c hi hc => ?_) (fun c hc => ⟨hc.swapped.wrote, hc.touched⟩) fun i c hi hend hc => ?_
  · have hranges := hc.swapped.ranges hp (Nat.mul_pos two_pos hlanes) hi hw hd
    have hback := hc.swapped.dst
    have h := hc.step hp (Nat.mul_pos two_pos hlanes) hi hw hd
    rw [← swapReversedPixelBlockPair2x_eq hsz hP (by simp only at hranges; omega)] at h
    simp only [hblocks]
    exact h
  · have h := hc.step hp hlanes hi hw hd
    rw [← pairBlock_eq leading_ptrue hsz hP (svrev_lane vl sz)] at h
    simp only [hblock]
    exact h
  · have h := hc.step hp (show 0 < pairs - i by omega) (show i + (pairs - i) ≤ pairs by omega) hw hd
    have htbl : ∀ (v : Vector) l, l < pairs - i →
        svtbl vl sz v (reversalIndices sz (pairs - i)) l = v (pairs - i - 1 - l) := fun v l hl =>
      svtbl_reversal v hsz hl (by omega)
    rw [← pairBlock_eq (leading_whilelt hend.le) hsz hP htbl, Nat.add_sub_cancel' hi.le] at h
    simp only [Nat.mul_assoc (pairs - i)]
    exact ⟨h.swapped.wrote, h.touched⟩

end

end Flip

end Scalable

end KleidiCV
