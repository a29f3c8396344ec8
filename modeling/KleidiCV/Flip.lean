/-
`kleidicv_flip` on Neon: rows copied or swapped, reversed or not.

Memory is bytes; a pixel has `P` scalars of `sz` bytes.  Out of place a row is
copied, in place two rows (or the two halves of one) change places.  The
cursors that the source advances through a row are part of the state.

* `copyRowToDst_eq`, `copyReversedRowToDst_eq` — the rows of an out-of-place
  flip;
* `swapRowPairInPlace_wrote`, `swapReversedRowPairInPlace_wrote` — the rows of
  an in-place flip.
-/
import KleidiCV.LoopUnroll2
import KleidiCV.PixelBlocks
import KleidiCV.UnaryOperation

open Loop

namespace KleidiCV

/-- `kleidicv_flip_mode_t`; `other` is a value outside the enumeration. -/
inductive FlipMode
  | horizontal
  | vertical
  | both
  | other
  deriving DecidableEq, Repr

namespace Flip

/-- The memory and the two pointers that a loop over a row advances: `src` and
`dst`, `top_row` and `bottom_row`, or `forward` and `backward`. -/
structure Cursors where
  mem : Mem
  src : ℕ
  dst : ℕ

/-! ### Blocks -/

/-- `swap_reversed_pixel_block_pair`. -/
def swapReversedPixelBlockPair (sz P forwardBlock backwardBlock : ℕ) (m : Mem) : Mem :=
  if P = 3 then
    let fwd := vld3q sz m forwardBlock
    let bwd := vld3q sz m backwardBlock
    let m := vst3q sz m backwardBlock (reverseLanes3 sz fwd)
    vst3q sz m forwardBlock (reverseLanes3 sz bwd)
  else
    let fwd := vld1qU8 m forwardBlock
    let bwd := vld1qU8 m backwardBlock
    let m := vst1qU8 m backwardBlock (reverseLanes sz fwd)
    vst1qU8 m forwardBlock (reverseLanes sz bwd)

/-- `store_consecutive`. -/
def storeConsecutive (sz : ℕ) (vec0 vec1 : U8x16) (dst : ℕ) (m : Mem) : Mem :=
  vst1qU8 (vst1qU8 m dst vec0) (dst + numLanes sz * sz) vec1

/-- `swap_reversed_vector_pair_2x`. -/
def swapReversedVectorPair2x (sz forwardVectors backwardVectors : ℕ) (m : Mem) : Mem :=
  let fwd0 := vld1qU8 m forwardVectors
  let fwd1 := vld1qU8 m (forwardVectors + numLanes sz * sz)
  let bwd0 := vld1qU8 m backwardVectors
  let bwd1 := vld1qU8 m (backwardVectors + numLanes sz * sz)
  let m := storeConsecutive sz (reverseLanes sz bwd1) (reverseLanes sz bwd0) forwardVectors m
  storeConsecutive sz (reverseLanes sz fwd1) (reverseLanes sz fwd0) backwardVectors m

/-! ### Rows -/

/-- `copy_row_to_dst`. -/
def copyRowToDst (sz P srcRow dstRow rowWidthInPixels : ℕ) (m : Mem) : Mem :=
  let scalarsPerVec := numLanes sz
  let scalarsPer2Vecs := scalarsPerVec * 2
  let columnLoop := LoopUnroll2.start (rowWidthInPixels * P) scalarsPerVec
  let p := (columnLoop, Cursors.mk m srcRow dstRow)
  let p := p |> LoopUnroll2.unrollTwice fun _ c =>
    let scalars0 := vld1qU8 c.mem c.src
    let scalars1 := vld1qU8 c.mem (c.src + scalarsPerVec * sz)
    ⟨storeConsecutive sz scalars0 scalars1 c.dst c.mem, c.src + scalarsPer2Vecs * sz,
      c.dst + scalarsPer2Vecs * sz⟩
  let p := p |> LoopUnroll2.unrollOnce fun _ c =>
    ⟨vst1qU8 c.mem c.dst (vld1qU8 c.mem c.src), c.src + scalarsPerVec * sz,
      c.dst + scalarsPerVec * sz⟩
  (p |> LoopUnroll2.remaining fun tailBegin tailEnd c =>
    { c with mem := copyN c.src ((tailEnd - tailBegin) * sz) c.dst c.mem }).2.mem

/-- `copy_reversed_row_to_dst`. -/
def copyReversedRowToDst (sz P srcRow dstRow rowWidthInPixels : ℕ) (m : Mem) : Mem :=
  let scalarsPerBlock := numLanes sz * P
  let scalarsPer2Blocks := scalarsPerBlock * 2
  let columnLoop := LoopUnroll2.start rowWidthInPixels (numLanes sz)
  let p := (columnLoop, Cursors.mk m srcRow (dstRow + rowWidthInPixels * P * sz))
  let p := p |> LoopUnroll2.unrollTwice fun _ c =>
    let dst := c.dst - scalarsPer2Blocks * sz
    let m :=
      if P = 3 then
        let vectors0 := vld3q sz c.mem c.src
        let vectors1 := vld3q sz c.mem (c.src + scalarsPerBlock * sz)
        let m := vst3q sz c.mem dst (reverseLanes3 sz vectors1)
        vst3q sz m (dst + scalarsPerBlock * sz) (reverseLanes3 sz vectors0)
      else
        let pixels0 := vld1qU8 c.mem c.src
        let pixels1 := vld1qU8 c.mem (c.src + numLanes sz * sz)
        storeConsecutive sz (reverseLanes sz pixels1) (reverseLanes sz pixels0) dst c.mem
    ⟨m, c.src + scalarsPer2Blocks * sz, dst⟩
  let p := p |> LoopUnroll2.unrollOnce fun _ c =>
    let dst := c.dst - scalarsPerBlock * sz
    let m :=
      if P = 3 then vst3q sz c.mem dst (reverseLanes3 sz (vld3q sz c.mem c.src))
      else vst1qU8 c.mem dst (reverseLanes sz (vld1qU8 c.mem c.src))
    ⟨m, c.src + scalarsPerBlock * sz, dst⟩
  -- Copy to reversed position pixel by pixel.
  (p |> LoopUnroll2.tail fun _ c =>
    let dst := c.dst - P * sz
    ⟨copyN c.src (P * sz) dst c.mem, c.src + P * sz, dst⟩).2.mem

/-- `swap_row_pair_in_place`. -/
def swapRowPairInPlace (sz P topRow bottomRow rowWidthInPixels : ℕ) (m : Mem) : Mem :=
  let scalarsPerVec := numLanes sz
  let scalarsPer2Vecs := scalarsPerVec * 2
  let columnLoop := LoopUnroll2.start (rowWidthInPixels * P) scalarsPerVec
  let p := (columnLoop, Cursors.mk m topRow bottomRow)
  let p := p |> LoopUnroll2.unrollTwice fun _ c =>
    let topScalars0 := vld1qU8 c.mem c.src
    let topScalars1 := vld1qU8 c.mem (c.src + scalarsPerVec * sz)
    let bottomScalars0 := vld1qU8 c.mem c.dst
    let bottomScalars1 := vld1qU8 c.mem (c.dst + scalarsPerVec * sz)
    let m := storeConsecutive sz topScalars0 topScalars1 c.dst c.mem
    let m := storeConsecutive sz bottomScalars0 bottomScalars1 c.src m
    ⟨m, c.src + scalarsPer2Vecs * sz, c.dst + scalarsPer2Vecs * sz⟩
  let p := p |> LoopUnroll2.unrollOnce fun _ c =>
    let topScalars := vld1qU8 c.mem c.src
    let bottomScalars := vld1qU8 c.mem c.dst
    let m := vst1qU8 c.mem c.src bottomScalars
    let m := vst1qU8 m c.dst topScalars
    ⟨m, c.src + scalarsPerVec * sz, c.dst + scalarsPerVec * sz⟩
  (p |> LoopUnroll2.remaining fun tailBegin tailEnd c =>
    { c with mem := swapRanges c.src ((tailEnd - tailBegin) * sz) c.dst c.mem }).2.mem

/-- `swap_reversed_row_pair_in_place`. -/
def swapReversedRowPairInPlace (sz P topRowStart bottomRowStart rowWidthInPixels
    numPixelPairsToSwap : ℕ) (m : Mem) : Mem :=
  let scalarsPerVector := numLanes sz
  let scalarsPerBlock := scalarsPerVector * P
  let scalarsPer2Blocks := scalarsPerBlock * 2
  let columnLoop := LoopUnroll2.start numPixelPairsToSwap scalarsPerVector
  let p := (columnLoop, Cursors.mk m topRowStart (bottomRowStart + rowWidthInPixels * P * sz))
  let p := p |> LoopUnroll2.unrollTwiceIf (P != 3) fun _ c =>
    let backward := c.dst - scalarsPer2Blocks * sz
    ⟨swapReversedVectorPair2x sz c.src backward c.mem, c.src + scalarsPer2Blocks * sz, backward⟩
  let p := p |> LoopUnroll2.unrollOnce fun _ c =>
    let backward := c.dst - scalarsPerBlock * sz
    ⟨swapReversedPixelBlockPair sz P c.src backward c.mem, c.src + scalarsPerBlock * sz, backward⟩
  -- Pixel by pixel, swap a pixel with the one at the reversed position.
  (p |> LoopUnroll2.tail fun _ c =>
    let backward := c.dst - P * sz
    ⟨swapRanges c.src (P * sz) backward c.mem, c.src + P * sz, backward⟩).2.mem

/-! ### What the blocks hold -/

section

variable {sz P : ℕ}

/-- Two blocks of `n` pixels of `p` bytes change places, each reversed. -/
def swapMirrored (n p f g : ℕ) (m : Mem) : Mem :=
  overwrite (overwrite m f (n * p) fun j => m (g + mirror n p j)) g (n * p) fun j =>
    m (f + mirror n p j)

theorem swapMirrored_one (p f g : ℕ) (m : Mem) :
    swapMirrored 1 p f g m =
      overwrite (overwrite m f p fun j => m (g + j)) g p fun j => m (f + j) := by
  have hone : ∀ base, ∀ j < p, m (base + mirror 1 p j) = m (base + j) := fun base j hj => by
    rw [mirror_one hj]
  rw [swapMirrored, Nat.one_mul, overwrite_congr (hone g), overwrite_congr (hone f)]

/-- Two vectors loaded and stored. -/
theorem storeConsecutive_vld1q (hsz : ScalarSize sz) (m m' : Mem) (dst src : ℕ) :
    storeConsecutive sz (vld1qU8 m' src) (vld1qU8 m' (src + numLanes sz * sz)) dst m =
      overwrite m dst (2 * numLanes sz * sz) fun j => m' (src + j) := by
  rw [storeConsecutive, vst1q_vld1q, vst1q_vld1q, Nat.mul_assoc, hsz.numLanes_mul,
    overwrite_append]
  refine overwrite_congr fun j hj => ?_
  split
  · rfl
  · congr 1
    omega

/-- A block loaded, reversed and stored. -/
theorem storeReversed_eq (hsz : ScalarSize sz) (hP : P = 1 ∨ P = 3) (m m' : Mem) (dst src : ℕ) :
    (if P = 3 then vst3q sz m dst (reverseLanes3 sz (vld3q sz m' src))
      else vst1qU8 m dst (reverseLanes sz (vld1qU8 m' src))) =
      overwrite m dst (numLanes sz * (P * sz)) fun j =>
        m' (src + mirror (numLanes sz) (P * sz) j) := by
  have hmul := hsz.numLanes_mul
  rcases hP with rfl | rfl
  · rw [if_neg (by decide), vst1q_reverseLanes hsz, Nat.one_mul, hmul]
  · rw [if_pos rfl, vst3q_reverseLanes3 hsz,
      show numLanes sz * (3 * sz) = 48 by rw [Nat.mul_left_comm, hmul]]

/-- Two reversed blocks in reverse order are one reversed block. -/
theorem overwrite_mirror_two_blocks {n p : ℕ} (hp : 0 < p) (m m' : Mem) (dst src : ℕ) :
    overwrite (overwrite m dst (n * p) fun j => m' (src + n * p + mirror n p j)) (dst + n * p)
        (n * p) (fun j => m' (src + mirror n p j)) =
      overwrite m dst (2 * n * p) fun j => m' (src + mirror (2 * n) p j) := by
  rw [overwrite_append, show n * p + n * p = 2 * n * p by ring]
  refine overwrite_congr fun j hj => ?_
  split
  · rename_i hlt
    rw [(mirror_two_blocks hp hlt).1, Nat.add_assoc]
  · rename_i hge
    obtain ⟨i, rfl⟩ := Nat.exists_eq_add_of_le (Nat.le_of_not_lt hge)
    have hi : i < n * p := by
      rw [Nat.mul_assoc, Nat.two_mul] at hj
      omega
    rw [(mirror_two_blocks hp hi).2, Nat.add_sub_cancel_left]

theorem swapReversedPixelBlockPair_eq (hsz : ScalarSize sz) (hP : P = 1 ∨ P = 3) {f g : ℕ}
    (hfg : f + numLanes sz * (P * sz) ≤ g ∨ g + numLanes sz * (P * sz) ≤ f) (m : Mem) :
    swapReversedPixelBlockPair sz P f g m = swapMirrored (numLanes sz) (P * sz) f g m := by
  have hstore := storeReversed_eq (P := P) hsz hP
  have hpair : swapReversedPixelBlockPair sz P f g m =
      overwrite (overwrite m g (numLanes sz * (P * sz)) fun j =>
        m (f + mirror (numLanes sz) (P * sz) j)) f (numLanes sz * (P * sz)) fun j =>
          m (g + mirror (numLanes sz) (P * sz) j) := by
    rw [← hstore, ← hstore]
    unfold swapReversedPixelBlockPair
    split <;> rfl
  rw [hpair, swapMirrored, overwrite_comm (by omega)]

theorem swapReversedVectorPair2x_eq (hsz : ScalarSize sz) {f g : ℕ} (m : Mem) :
    swapReversedVectorPair2x sz f g m = swapMirrored (2 * numLanes sz) sz f g m := by
  have hmul := hsz.numLanes_mul
  have hrev : ∀ (m' : Mem) (dst src : ℕ),
      storeConsecutive sz (reverseLanes sz (vld1qU8 m (src + numLanes sz * sz)))
        (reverseLanes sz (vld1qU8 m src)) dst m' =
      overwrite m' dst (2 * numLanes sz * sz) fun j => m (src + mirror (2 * numLanes sz) sz j) := by
    intro m' dst src
    rw [← overwrite_mirror_two_blocks hsz.pos, storeConsecutive, vst1q_reverseLanes hsz,
      vst1q_reverseLanes hsz, hmul]
  rw [swapMirrored, ← hrev, ← hrev]
  rfl

end

/-! ### Copied rows -/

section

variable {sz P p w srcRow dstRow : ℕ} {m : Mem} {c : Cursors}

/-- The first `i` bytes of a row are copied. -/
structure Copied (srcRow dstRow : ℕ) (m : Mem) (i : ℕ) (c : Cursors) : Prop where
  src : c.src = srcRow + i
  dst : c.dst = dstRow + i
  wrote : Wrote (dstRow + ·) (fun k => m (srcRow + k)) {k | k < i} m c.mem

theorem Copied.step (h : Copied srcRow dstRow m p c) {n len : ℕ} (hn : p + n ≤ len)
    (hd : srcRow + len ≤ dstRow ∨ dstRow + len ≤ srcRow) :
    Copied srcRow dstRow m (p + n)
      ⟨overwrite c.mem c.dst n fun j => c.mem (c.src + j), c.src + n, c.dst + n⟩ := by
  obtain ⟨hsrc, hdst, hw⟩ := h
  refine ⟨by simp only; omega, by simp only; omega, ?_⟩
  have hpiece : Wrote (dstRow + ·) (fun k => m (srcRow + k)) {k | p ≤ k ∧ k < p + n} c.mem
      (overwrite c.mem c.dst n fun j => c.mem (c.src + j)) := by
    rw [hdst]
    refine overwrite_wrote_row fun j hj => ?_
    rw [hsrc, Nat.add_assoc]
    refine hw.read fun k hk => ?_
    have : k < p := hk
    show dstRow + k ≠ srcRow + (p + j)
    omega
  have hinj : Set.InjOn (dstRow + ·) Set.univ := fun a _ b _ hab => Nat.add_left_cancel hab
  refine (hw.trans hinj (Set.subset_univ _) (Set.subset_univ _) hpiece).congr ?_
  ext k
  simp only [Set.mem_union, Set.mem_ofPred_eq]
  omega

/-- A row copied, in vectors and a rest. -/
theorem copyRowToDst_wrote (hsz : ScalarSize sz)
    (hd : srcRow + w * P * sz ≤ dstRow ∨ dstRow + w * P * sz ≤ srcRow) :
    Wrote (dstRow + ·) (fun k => m (srcRow + k)) {k | k < w * P * sz} m
      (copyRowToDst sz P srcRow dstRow w m) := by
  have hmul := hsz.numLanes_mul
  have hbytes : ∀ {i n : ℕ}, i + n ≤ w * P → i * sz + n * sz ≤ w * P * sz := by
    intro i n h
    rw [← Nat.add_mul]
    exact Nat.mul_le_mul_right sz h
  have h0 : Unrolled (w * P) (numLanes sz) (fun i => Copied srcRow dstRow m (i * sz))
      (LoopUnroll2.start (w * P) (numLanes sz), Cursors.mk m srcRow dstRow) := by
    exact Unrolled.start ⟨by simp, by simp, (Wrote.refl m).congr (by simp)⟩
  refine ((h0.unrollNTimes fun i c hi hc => ?_).unrollNTimes fun i c hi hc => ?_).remaining
    (fun c => Wrote (dstRow + ·) (fun k => m (srcRow + k)) {k | k < w * P * sz} m c.mem)
    (fun c hc => hc.wrote) fun i c hi hc => ?_
  · have h := hc.step (hbytes hi) hd
    rw [← Nat.add_mul] at h
    convert h using 2
    · exact storeConsecutive_vld1q hsz _ _ _ _
    · rw [Nat.mul_comm (numLanes sz)]
    · rw [Nat.mul_comm (numLanes sz)]
  · have h := hc.step (hbytes hi) hd
    rw [← Nat.add_mul] at h
    convert h using 2
    · rw [Nat.one_mul, hmul]
      exact vst1q_vld1q _ _ _ _
    · rw [Nat.one_mul]
    · rw [Nat.one_mul]
  · have h := hc.step (hbytes (show i + (w * P - i) ≤ w * P by omega)) hd
    rw [← Nat.add_mul, Nat.add_sub_cancel' hi.le] at h
    rw [copyN_eq]
    · exact h.wrote
    · have hlen := hbytes (show i + (w * P - i) ≤ w * P by omega)
      rw [hc.src, hc.dst]
      omega

/-- The first `i` pixels of a row of `w` pixels of `p` bytes are copied to the
mirrored place. -/
structure CopiedReversed (p w srcRow dstRow : ℕ) (m : Mem) (i : ℕ) (c : Cursors) : Prop where
  src : c.src = srcRow + i * p
  dst : c.dst = dstRow + (w - i) * p
  wrote : Wrote (dstRow + ·) (fun k => m (srcRow + mirror w p k))
    {k | (w - i) * p ≤ k ∧ k < w * p} m c.mem

theorem CopiedReversed.step {i : ℕ} (h : CopiedReversed p w srcRow dstRow m i c) {n : ℕ}
    (hp : 0 < p) (hn : i + n ≤ w) (hd : srcRow + w * p ≤ dstRow ∨ dstRow + w * p ≤ srcRow) :
    CopiedReversed p w srcRow dstRow m (i + n)
      ⟨overwrite c.mem (c.dst - n * p) (n * p) fun j => c.mem (c.src + mirror n p j),
        c.src + n * p, c.dst - n * p⟩ := by
  obtain ⟨hsrc, hdst, hw⟩ := h
  have hback : (w - i) * p = (w - (i + n)) * p + n * p := by
    rw [← Nat.add_mul]
    congr 1
    omega
  have hlast : (w - i) * p ≤ w * p := Nat.mul_le_mul_right p (Nat.sub_le _ _)
  have hdst' : c.dst - n * p = dstRow + (w - (i + n)) * p := by omega
  refine ⟨by simp only [hsrc]; ring, hdst', ?_⟩
  have hpiece : Wrote (dstRow + ·) (fun k => m (srcRow + mirror w p k))
      {k | (w - (i + n)) * p ≤ k ∧ k < (w - (i + n)) * p + n * p} c.mem
      (overwrite c.mem (c.dst - n * p) (n * p) fun j => c.mem (c.src + mirror n p j)) := by
    rw [hdst']
    refine overwrite_wrote_row fun j hj => ?_
    have hlt := mirror_lt hp hj
    have hin : i * p + n * p ≤ w * p := by
      rw [← Nat.add_mul]
      exact Nat.mul_le_mul_right p hn
    rw [mirror_block hp hj (by omega), show w - (w - (i + n)) - n = i by omega, hsrc,
      Nat.add_assoc]
    refine hw.read fun k hk => ?_
    have hk2 : k < w * p := hk.2
    show dstRow + k ≠ srcRow + (i * p + mirror n p j)
    omega
  have hinj : Set.InjOn (dstRow + ·) Set.univ := fun a _ b _ hab => Nat.add_left_cancel hab
  refine (hw.trans hinj (Set.subset_univ _) (Set.subset_univ _) hpiece).congr ?_
  ext k
  simp only [Set.mem_union, Set.mem_ofPred_eq]
  omega

/-- A row copied from its end, in blocks and single pixels. -/
theorem copyReversedRowToDst_wrote (hsz : ScalarSize sz) (hP : P = 1 ∨ P = 3)
    (hd : srcRow + w * (P * sz) ≤ dstRow ∨ dstRow + w * (P * sz) ≤ srcRow) :
    Wrote (dstRow + ·) (fun k => m (srcRow + mirror w (P * sz) k)) {k | k < w * (P * sz)} m
      (copyReversedRowToDst sz P srcRow dstRow w m) := by
  have hp : 0 < P * sz := Nat.mul_pos (by omega) hsz.pos
  have h0 : Unrolled w (numLanes sz) (CopiedReversed (P * sz) w srcRow dstRow m)
      (LoopUnroll2.start w (numLanes sz), Cursors.mk m srcRow (dstRow + w * P * sz)) := by
    refine Unrolled.start ⟨by simp, by simp [Nat.mul_assoc], (Wrote.refl m).congr ?_⟩
    ext k
    simp only [Set.mem_empty_iff_false, Set.mem_ofPred_eq, false_iff, Nat.sub_zero]
    omega
  have hblock : numLanes sz * P * sz = numLanes sz * (P * sz) := Nat.mul_assoc _ _ _
  have hblocks : numLanes sz * P * 2 * sz = 2 * numLanes sz * (P * sz) := by ring
  refine ((((h0.unrollNTimes fun i c hi hc => ?_).unrollNTimes fun i c hi hc => ?_).tail
    fun i c hi hc => ?_).wrote).congr ?_
  · convert hc.step hp hi hd using 2
    · simp only [hblock, hblocks]
      rw [← overwrite_mirror_two_blocks hp, ← storeReversed_eq hsz hP, ← storeReversed_eq hsz hP]
      rcases hP with rfl | rfl
      · simp only [storeConsecutive, Nat.one_mul]
        rfl
      · rfl
    · rw [hblocks]
    · rw [hblocks]
  · convert hc.step hp hi hd using 2
    · rw [Nat.one_mul, hblock, storeReversed_eq hsz hP]
    · rw [Nat.one_mul, hblock]
    · rw [Nat.one_mul, hblock]
  · have hdst : c.dst = dstRow + (w - (i + 1)) * (P * sz) + P * sz := by
      rw [hc.dst, Nat.add_assoc, ← Nat.succ_mul]
      congr 2
      omega
    have hrow : (i + 1) * (P * sz) ≤ w * (P * sz) := Nat.mul_le_mul_right _ hi
    have hback : (w - (i + 1)) * (P * sz) + P * sz ≤ w * (P * sz) := by
      rw [← Nat.succ_mul]
      exact Nat.mul_le_mul_right _ (by omega)
    rw [Nat.succ_mul] at hrow
    convert hc.step hp (show i + 1 ≤ w from hi) hd using 2
    · rw [Nat.one_mul, copyN_eq (by rw [hc.src]; omega)]
      exact overwrite_congr fun j hj => by rw [mirror_one hj]
    · rw [Nat.one_mul]
    · rw [Nat.one_mul]
  · ext k
    simp only [Nat.sub_self, Nat.zero_mul, Nat.zero_le, true_and]

end

/-! ### Swapped rows -/

section

variable {sz P p w n top bottom : ℕ} {m : Mem} {c : Cursors}

/-- The address of byte `q.2` of the top row, or of the bottom row. -/
def pairAt (top bottom : ℕ) (q : Bool × ℕ) : ℕ := (if q.1 then bottom else top) + q.2

/-- The parts of two rows between `lo` and `hi` in the top row and between
`lo'` and `hi'` in the bottom row. -/
def pairPart (lo hi lo' hi' : ℕ) : Set (Bool × ℕ) :=
  {q | if q.1 then lo' ≤ q.2 ∧ q.2 < hi' else lo ≤ q.2 ∧ q.2 < hi}

@[simp] theorem mem_pairPart_top {lo hi lo' hi' i : ℕ} :
    (false, i) ∈ pairPart lo hi lo' hi' ↔ lo ≤ i ∧ i < hi := Iff.rfl

@[simp] theorem mem_pairPart_bottom {lo hi lo' hi' i : ℕ} :
    (true, i) ∈ pairPart lo hi lo' hi' ↔ lo' ≤ i ∧ i < hi' := Iff.rfl

theorem pairPart_subset {lo hi lo' hi' a b a' b' : ℕ} (htop : (a ≤ lo ∧ hi ≤ b) ∨ hi ≤ lo)
    (hbottom : (a' ≤ lo' ∧ hi' ≤ b') ∨ hi' ≤ lo') :
    pairPart lo hi lo' hi' ⊆ pairPart a b a' b' := by
  rintro ⟨_ | _, i⟩ hi
  · rw [mem_pairPart_top] at hi ⊢
    omega
  · rw [mem_pairPart_bottom] at hi ⊢
    omega

/-- The parts of two rows do not overlap. -/
def PartsDisjoint (top bottom lo hi lo' hi' : ℕ) : Prop :=
  ∀ i, lo ≤ i → i < hi → ∀ j, lo' ≤ j → j < hi' → top + i ≠ bottom + j

theorem pairAt_injOn {lo hi lo' hi' : ℕ} (hd : PartsDisjoint top bottom lo hi lo' hi') :
    Set.InjOn (pairAt top bottom) (pairPart lo hi lo' hi') := by
  rintro ⟨a, i⟩ hi ⟨b, j⟩ hj hij
  cases a <;> cases b <;>
    simp only [pairPart, pairAt, Set.mem_ofPred_eq, if_true, Bool.false_eq_true, if_false]
      at hi hj hij
  · rw [Nat.add_left_cancel hij]
  · exact absurd hij (hd i hi.1 hi.2 j hj.1 hj.2)
  · exact absurd hij.symm (hd j hj.1 hj.2 i hi.1 hi.2)
  · rw [Nat.add_left_cancel hij]

/-- Two ranges are overwritten, one in each row. -/
theorem overwrite_pair_wrote {v : Bool × ℕ → U8} {lo lo' : ℕ} {g g' : ℕ → U8}
    (hd : PartsDisjoint top bottom lo (lo + n) lo' (lo' + n))
    (hg : ∀ j < n, g j = v (false, lo + j)) (hg' : ∀ j < n, g' j = v (true, lo' + j)) :
    Wrote (pairAt top bottom) v (pairPart lo (lo + n) lo' (lo' + n)) m
      (overwrite (overwrite m (top + lo) n g) (bottom + lo') n g') := by
  have htop : Wrote (pairAt top bottom) v (pairPart lo (lo + n) 0 0) m
      (overwrite m (top + lo) n g) := by
    refine overwrite_wrote ?_ fun j hj => ⟨(false, lo + j), ?_, (Nat.add_assoc ..).symm⟩
    · rintro ⟨_ | _, i⟩ hi
      · obtain ⟨j, rfl⟩ := Nat.exists_eq_add_of_le hi.1
        have hj : j < n := by have := hi.2; simp only at this; omega
        exact ⟨j, hj, (Nat.add_assoc ..).symm, hg j hj⟩
      · exact absurd hi.2 (Nat.not_lt_zero i)
    · exact ⟨by simp only; omega, by simp only; omega⟩
  have hbottom : Wrote (pairAt top bottom) v (pairPart 0 0 lo' (lo' + n))
      (overwrite m (top + lo) n g)
      (overwrite (overwrite m (top + lo) n g) (bottom + lo') n g') := by
    refine overwrite_wrote ?_ fun j hj => ⟨(true, lo' + j), ?_, (Nat.add_assoc ..).symm⟩
    · rintro ⟨_ | _, i⟩ hi
      · exact absurd hi.2 (Nat.not_lt_zero i)
      · obtain ⟨j, rfl⟩ := Nat.exists_eq_add_of_le hi.1
        have hj : j < n := by have := hi.2; simp only at this; omega
        exact ⟨j, hj, (Nat.add_assoc ..).symm, hg' j hj⟩
    · exact ⟨by simp only; omega, by simp only; omega⟩
  refine (htop.trans (pairAt_injOn hd) ?_ ?_ hbottom).congr ?_
  · exact pairPart_subset (by omega) (by omega)
  · exact pairPart_subset (by omega) (by omega)
  · ext ⟨a, i⟩
    cases a <;> simp only [mem_pairPart_top, mem_pairPart_bottom, Set.mem_union] <;> omega

/-- The first `i` bytes of two rows have changed places. -/
structure Swapped (top bottom : ℕ) (m : Mem) (i : ℕ) (c : Cursors) : Prop where
  src : c.src = top + i
  dst : c.dst = bottom + i
  wrote : Wrote (pairAt top bottom) (fun q => m (pairAt top bottom (!q.1, q.2)))
    (pairPart 0 i 0 i) m c.mem

theorem Swapped.step {i len : ℕ} (h : Swapped top bottom m i c) (hn : i + n ≤ len)
    (hd : PartsDisjoint top bottom 0 len 0 len) :
    Swapped top bottom m (i + n)
      ⟨overwrite (overwrite c.mem c.src n fun j => c.mem (c.dst + j)) c.dst n
        fun j => c.mem (c.src + j), c.src + n, c.dst + n⟩ := by
  obtain ⟨htop, hbottom, hw⟩ := h
  refine ⟨by simp only; omega, by simp only; omega, ?_⟩
  have hinj := pairAt_injOn hd
  have hread : ∀ b, ∀ j < n, c.mem (pairAt top bottom (b, i + j)) =
      m (pairAt top bottom (b, i + j)) := by
    intro b j hj
    refine hw.read fun q hq heq => ?_
    have hmem : (b, i + j) ∈ pairPart 0 len 0 len := by
      cases b
      · exact mem_pairPart_top.mpr ⟨by omega, by omega⟩
      · exact mem_pairPart_bottom.mpr ⟨by omega, by omega⟩
    rw [hinj (pairPart_subset (by omega) (by omega) hq) hmem heq] at hq
    cases b
    · have := (mem_pairPart_top.mp hq).2
      omega
    · have := (mem_pairPart_bottom.mp hq).2
      omega
  have hpiece : Wrote (pairAt top bottom) (fun q => m (pairAt top bottom (!q.1, q.2)))
      (pairPart i (i + n) i (i + n)) c.mem
      (overwrite (overwrite c.mem c.src n fun j => c.mem (c.dst + j)) c.dst n
        fun j => c.mem (c.src + j)) := by
    rw [htop, hbottom]
    refine overwrite_pair_wrote (fun a _ ha b _ hb => hd a (by omega) (by omega) b (by omega)
      (by omega)) (fun j hj => ?_) fun j hj => ?_
    · rw [Nat.add_assoc]
      exact hread true j hj
    · rw [Nat.add_assoc]
      exact hread false j hj
  refine (hw.trans hinj ?_ ?_ hpiece).congr ?_
  · exact pairPart_subset (by omega) (by omega)
  · exact pairPart_subset (by omega) (by omega)
  · ext ⟨a, k⟩
    cases a <;> simp only [mem_pairPart_top, mem_pairPart_bottom, Set.mem_union] <;> omega

/-- Two rows swapped, in vectors and a rest. -/
theorem swapRowPairInPlace_wrote (hsz : ScalarSize sz)
    (hd : PartsDisjoint top bottom 0 (w * P * sz) 0 (w * P * sz)) :
    Wrote (pairAt top bottom) (fun q => m (pairAt top bottom (!q.1, q.2)))
      (pairPart 0 (w * P * sz) 0 (w * P * sz)) m (swapRowPairInPlace sz P top bottom w m) := by
  have hmul := hsz.numLanes_mul
  have hbytes : ∀ {i n : ℕ}, i + n ≤ w * P → i * sz + n * sz ≤ w * P * sz := by
    intro i n h
    rw [← Nat.add_mul]
    exact Nat.mul_le_mul_right sz h
  have h0 : Unrolled (w * P) (numLanes sz) (fun i => Swapped top bottom m (i * sz))
      (LoopUnroll2.start (w * P) (numLanes sz), Cursors.mk m top bottom) := by
    refine Unrolled.start ⟨by simp, by simp, (Wrote.refl m).congr ?_⟩
    ext ⟨a, k⟩
    cases a <;> simp
  -- The ranges of one step do not overlap.
  have hranges : ∀ {i n : ℕ} {c : Cursors}, 0 < n → i + n ≤ w * P * sz →
      Swapped top bottom m i c → c.src + n ≤ c.dst ∨ c.dst + n ≤ c.src := by
    intro i n c hn hi hc
    rw [hc.src, hc.dst]
    refine ranges_disjoint hn hn fun a ha b hb => ?_
    rw [Nat.add_assoc, Nat.add_assoc]
    exact hd _ (by omega) (by omega) _ (by omega) (by omega)
  refine ((h0.unrollNTimes fun i c hi hc => ?_).unrollNTimes fun i c hi hc => ?_).remaining
    (fun c => Wrote (pairAt top bottom) (fun q => m (pairAt top bottom (!q.1, q.2)))
      (pairPart 0 (w * P * sz) 0 (w * P * sz)) m c.mem)
    (fun c hc => hc.wrote) fun i c hi hc => ?_
  · have h := hc.step (hbytes hi) hd
    rw [← Nat.add_mul] at h
    convert h using 2
    · rw [storeConsecutive_vld1q hsz, storeConsecutive_vld1q hsz]
      exact overwrite_comm (hranges (Nat.mul_pos (Nat.mul_pos two_pos hsz.numLanes_pos) hsz.pos)
        (hbytes hi) hc).symm
    · rw [Nat.mul_comm (numLanes sz)]
    · rw [Nat.mul_comm (numLanes sz)]
  · have h := hc.step (hbytes hi) hd
    rw [← Nat.add_mul] at h
    convert h using 2
    · rw [Nat.one_mul, hmul, vst1q_vld1q, vst1q_vld1q]
    · rw [Nat.one_mul]
    · rw [Nat.one_mul]
  · have hlen := hbytes (show i + (w * P - i) ≤ w * P by omega)
    have h := hc.step hlen hd
    rw [← Nat.add_mul, Nat.add_sub_cancel' hi.le] at h
    rw [swapRanges_eq (hranges (Nat.mul_pos (by omega) hsz.pos) hlen hc)]
    exact h.wrote

/-- The first `i` pixels of the top row and the last `i` of the bottom row have
changed places, mirrored. -/
structure SwappedReversed (p w top bottom : ℕ) (m : Mem) (i : ℕ) (c : Cursors) : Prop where
  src : c.src = top + i * p
  dst : c.dst = bottom + (w - i) * p
  wrote : Wrote (pairAt top bottom) (fun q => m (pairAt top bottom (!q.1, mirror w p q.2)))
    (pairPart 0 (i * p) ((w - i) * p) (w * p)) m c.mem

/-- The blocks of one step do not overlap. -/
theorem SwappedReversed.ranges {i pairs : ℕ} (h : SwappedReversed p w top bottom m i c)
    (hp : 0 < p) (h0 : 0 < n) (hn : i + n ≤ pairs) (hw : pairs ≤ w)
    (hd : PartsDisjoint top bottom 0 (pairs * p) ((w - pairs) * p) (w * p)) :
    c.src + n * p ≤ c.dst - n * p ∨ c.dst - n * p + n * p ≤ c.src := by
  have hfront : i * p + n * p ≤ pairs * p := by
    rw [← Nat.add_mul]
    exact Nat.mul_le_mul_right p hn
  have hback : (w - i) * p = (w - (i + n)) * p + n * p := by
    rw [← Nat.add_mul]
    congr 1
    omega
  have hlow : (w - pairs) * p ≤ (w - (i + n)) * p := Nat.mul_le_mul_right p (by omega)
  have hhigh : (w - i) * p ≤ w * p := Nat.mul_le_mul_right p (Nat.sub_le _ _)
  have hnp : 0 < n * p := Nat.mul_pos h0 hp
  rw [h.src, h.dst]
  refine ranges_disjoint hnp hnp fun a ha b hb => ?_
  have := hd (i * p + a) (by omega) (by omega) ((w - (i + n)) * p + b) (by omega) (by omega)
  omega

theorem SwappedReversed.step {i pairs : ℕ} (h : SwappedReversed p w top bottom m i c)
    (hp : 0 < p) (hn : i + n ≤ pairs) (hw : pairs ≤ w)
    (hd : PartsDisjoint top bottom 0 (pairs * p) ((w - pairs) * p) (w * p)) :
    SwappedReversed p w top bottom m (i + n)
      ⟨swapMirrored n p c.src (c.dst - n * p) c.mem, c.src + n * p, c.dst - n * p⟩ := by
  obtain ⟨hsrc, hdst, hwr⟩ := h
  have hfront : i * p + n * p ≤ pairs * p := by
    rw [← Nat.add_mul]
    exact Nat.mul_le_mul_right p hn
  have hback : (w - i) * p = (w - (i + n)) * p + n * p := by
    rw [← Nat.add_mul]
    congr 1
    omega
  have hlow : (w - pairs) * p ≤ (w - (i + n)) * p := Nat.mul_le_mul_right p (by omega)
  have hhigh : (w - i) * p ≤ w * p := Nat.mul_le_mul_right p (Nat.sub_le _ _)
  have hdst' : c.dst - n * p = bottom + (w - (i + n)) * p := by omega
  refine ⟨by simp only [hsrc]; ring, hdst', ?_⟩
  have hinj := pairAt_injOn hd
  -- What this step reads has not been written yet.
  have hread : ∀ q ∈ pairPart (i * p) (i * p + n * p) ((w - (i + n)) * p)
      ((w - (i + n)) * p + n * p), c.mem (pairAt top bottom q) = m (pairAt top bottom q) := by
    intro q hq
    refine hwr.read fun r hr heq => ?_
    rw [hinj (pairPart_subset (by omega) (by omega) hr)
      (pairPart_subset (by omega) (by omega) hq) heq] at hr
    obtain ⟨_ | _, k⟩ := q
    · rw [mem_pairPart_top] at hr hq
      omega
    · rw [mem_pairPart_bottom] at hr hq
      omega
  have hpiece : Wrote (pairAt top bottom)
      (fun q => m (pairAt top bottom (!q.1, mirror w p q.2)))
      (pairPart (i * p) (i * p + n * p) ((w - (i + n)) * p) ((w - (i + n)) * p + n * p)) c.mem
      (swapMirrored n p c.src (c.dst - n * p) c.mem) := by
    rw [swapMirrored, hsrc, hdst']
    refine overwrite_pair_wrote (fun a _ ha b _ hb => hd a (by omega) (by omega) b (by omega)
      (by omega)) (fun j hj => ?_) fun j hj => ?_
    · have hlt := mirror_lt hp hj
      rw [mirror_block hp hj (by omega), Nat.sub_sub, Nat.add_assoc]
      exact hread (true, _) (mem_pairPart_bottom.mpr ⟨by omega, by omega⟩)
    · have hlt := mirror_lt hp hj
      rw [mirror_block hp hj (by omega), show w - (w - (i + n)) - n = i by omega, Nat.add_assoc]
      exact hread (false, _) (mem_pairPart_top.mpr ⟨by omega, by omega⟩)
  refine (hwr.trans hinj ?_ ?_ hpiece).congr ?_
  · exact pairPart_subset (by omega) (by omega)
  · exact pairPart_subset (by omega) (by omega)
  · rw [Nat.add_mul i n p]
    ext ⟨a, k⟩
    cases a <;> simp only [mem_pairPart_top, mem_pairPart_bottom, Set.mem_union] <;> omega

/-- The pixels of two rows, or of the two halves of one, swapped with the
mirrored ones, in blocks and single pixels. -/
theorem swapReversedRowPairInPlace_wrote {pairs : ℕ} (hsz : ScalarSize sz) (hP : P = 1 ∨ P = 3)
    (hw : pairs ≤ w)
    (hd : PartsDisjoint top bottom 0 (pairs * (P * sz)) ((w - pairs) * (P * sz)) (w * (P * sz))) :
    Wrote (pairAt top bottom) (fun q => m (pairAt top bottom (!q.1, mirror w (P * sz) q.2)))
      (pairPart 0 (pairs * (P * sz)) ((w - pairs) * (P * sz)) (w * (P * sz))) m
      (swapReversedRowPairInPlace sz P top bottom w pairs m) := by
  have hp : 0 < P * sz := Nat.mul_pos (by omega) hsz.pos
  have h0 : Unrolled pairs (numLanes sz) (SwappedReversed (P * sz) w top bottom m)
      (LoopUnroll2.start pairs (numLanes sz), Cursors.mk m top (bottom + w * P * sz)) := by
    refine Unrolled.start ⟨by simp, by simp [Nat.mul_assoc], (Wrote.refl m).congr ?_⟩
    ext ⟨a, k⟩
    cases a <;> simp
  have hblock : numLanes sz * P * sz = numLanes sz * (P * sz) := Nat.mul_assoc _ _ _
  refine (((h0.unrollTwiceIf fun htwice i c hi hc => ?_).unrollNTimes fun i c hi hc => ?_).tail
    fun i c hi hc => ?_).wrote
  · obtain rfl : P = 1 := by simpa using hP.resolve_right (bne_iff_ne.mp htwice)
    have hblocks : numLanes sz * 1 * 2 * sz = 2 * numLanes sz * (1 * sz) := by ring
    convert hc.step hp hi hw hd using 2
    · rw [swapReversedVectorPair2x_eq hsz, hblocks, Nat.one_mul]
    · rw [hblocks]
    · rw [hblocks]
  · convert hc.step hp hi hw hd using 2
    · rw [Nat.one_mul, hblock]
      exact swapReversedPixelBlockPair_eq hsz hP (hc.ranges hp hsz.numLanes_pos
        (by rwa [Nat.one_mul] at hi) hw hd) _
    · rw [Nat.one_mul, hblock]
    · rw [Nat.one_mul, hblock]
  · have hranges := hc.ranges hp Nat.one_pos (show i + 1 ≤ pairs from hi) hw hd
    rw [Nat.one_mul] at hranges
    convert hc.step hp (show i + 1 ≤ pairs from hi) hw hd using 2
    · rw [swapRanges_eq hranges, Nat.one_mul, swapMirrored_one]
    · rw [Nat.one_mul]
    · rw [Nat.one_mul]

end

end Flip

end KleidiCV
