/-
`resize_to_quarter_u8` for Neon.

Two rows of the source make one of the destination.  Each number of channels has a vector
path of its own: pairs of neighbours are added up in place, after channels are taken apart, or
after vectors are folded in half.  The columns that are left are scalar.

* `average2x2BlocksU8_ensures`, `resizeToQuarterVectorPath_ensures` — a vector path gives the
  rounded means of whole pixels;
* `resizeToQuarterRow_ensures` — vectors and single pixels make up a row;
* `resizeToQuarterU8_correct` — every pixel of the image, for every cut into stripes.
-/
import KleidiCV.GaussianBlur
import KleidiCV.Lib.Partition
import KleidiCV.ScalableResizeToQuarter

open Loop

namespace KleidiCV

namespace ResizeToQuarter

open GaussianBlur (vaddq vmovl vrshrnN vcombine_cases)
open ScalableResizeToQuarter (blockMean quarterAt quarterAt_add)

/-! ### Instructions -/

section

variable {n v w : ℕ}

/-- `vpaddlq`, into words of `w` bits. -/
abbrev vpaddlq (w : ℕ) (a : Fin (2 * n) → BitVec v) : Tracked (Fin n → BitVec w) :=
  Tracked.lanes w fun lane => (a ⟨2 * lane, by omega⟩).toNat + (a ⟨2 * lane + 1, by omega⟩).toNat

/-- `vextq`, of two vectors of `n` lanes. -/
def vextq {α : Type} (low high : Fin n → α) (first : ℕ) (hfirst : first ≤ n) : Fin n → α := fun lane =>
  if h : lane + first < n then low ⟨lane + first, h⟩ else high ⟨lane + first - n, by omega⟩

/-- `vreinterpretq_u8_u16`. -/
def vreinterpretqU8U16 (a : Fin n → BitVec 16) : Fin (2 * n) → BitVec 8 := fun i =>
  (a ⟨i / 2, by omega⟩).extractLsb' (8 * (i % 2)) 8

/-- `vreinterpretq_u16_u8`. -/
def vreinterpretqU16U8 (a : Fin (2 * n) → BitVec 8) : Fin n → BitVec 16 := fun lane =>
  a ⟨2 * lane + 1, by omega⟩ ++ a ⟨2 * lane, by omega⟩

end

/-! ### Vector paths -/

/-- One half of `average_2x2_blocks_u8`. -/
def averageHalf (top bottom : Fin (2 * 8) → BitVec 8) : Tracked (Fin 8 → BitVec 8) := do
  let topPairsSummed ← vpaddlq 16 top
  let bottomPairsSummed ← vpaddlq 16 bottom
  let resultBeforeAveraging ← vaddq topPairsSummed bottomPairsSummed
  vrshrnN 8 2 resultBeforeAveraging

/-- `average_2x2_blocks_u8`. -/
def average2x2BlocksU8 (top bottom : ℕ → Fin (2 * 8) → BitVec 8) :
    Tracked (Fin (2 * 8) → BitVec 8) := do
  let low ← averageHalf (top 0) (bottom 0)
  let high ← averageHalf (top 1) (bottom 1)
  pure (vcombine low high)

section

variable (src : ℕ → BitVec 8) (srcL srcStride dstL : ℕ) (dst : ℕ → BitVec 8)

/-- `load_and_deinterleave_2_channels` and `load_and_deinterleave_3_channels`: `val[i]` of
channel `c`. -/
def loadAndDeinterleave (channels src0 c i : ℕ) : Fin (2 * 8) → BitVec 8 := fun lane =>
  src (src0 + 16 * channels * i + (channels * lane + c))

/-- `resize_to_quarter_vector_path<1>`. -/
def resizeToQuarterVectorPath1 : Tracked (ℕ → BitVec 8) := do
  let topLine : ℕ → Fin (2 * 8) → BitVec 8 := fun i => vld1q src (srcL + 16 * i)
  let bottomLine : ℕ → Fin (2 * 8) → BitVec 8 := fun i => vld1q src (srcL + srcStride + 16 * i)
  let result0 ← average2x2BlocksU8 topLine bottomLine
  let result1 ← average2x2BlocksU8 (fun i => topLine (2 + i)) fun i => bottomLine (2 + i)
  pure (vst1q dst dstL (vcombine result0 result1))

/-- `resize_to_quarter_vector_path<2>`. -/
def resizeToQuarterVectorPath2 : Tracked (ℕ → BitVec 8) := do
  let top := loadAndDeinterleave src 2 srcL
  let bottom := loadAndDeinterleave src 2 (srcL + srcStride)
  let result0 ← average2x2BlocksU8 (top 0) (bottom 0)
  let result1 ← average2x2BlocksU8 (top 1) (bottom 1)
  pure (vstInterleaved 2 (fun c => [result0, result1].getD c result0) dstL dst)

/-- `resize_to_quarter_vector_path<3>`. -/
def resizeToQuarterVectorPath3 : Tracked (ℕ → BitVec 8) := do
  let top := loadAndDeinterleave src 3 srcL
  let bottom := loadAndDeinterleave src 3 (srcL + srcStride)
  let result0 ← average2x2BlocksU8 (top 0) (bottom 0)
  let result1 ← average2x2BlocksU8 (top 1) (bottom 1)
  let result2 ← average2x2BlocksU8 (top 2) (bottom 2)
  pure (vstInterleaved 3 (fun c => [result0, result1, result2].getD c result0) dstL dst)

/-- The sum of two halves, on top of each other and side by side. -/
def foldedSum (top bottom : Fin 8 → BitVec 8) : Tracked (Fin 8 → BitVec 16) := do
  let top ← vmovl 16 top
  let bottom ← vmovl 16 bottom
  let sum ← vaddq top bottom
  vaddq sum (vextq sum sum 4 (by decide))

/-- `vector_path`, of four channels. -/
def vectorPath : Tracked (Fin (2 * 8) → BitVec 8) := do
  let top0 : Fin (2 * 8) → BitVec 8 := vld1q src srcL
  let bottom0 : Fin (2 * 8) → BitVec 8 := vld1q src (srcL + srcStride)
  let top1 : Fin (2 * 8) → BitVec 8 := vld1q src (srcL + 16)
  let bottom1 : Fin (2 * 8) → BitVec 8 := vld1q src (srcL + srcStride + 16)
  let sum0 ← foldedSum (vgetLow top0) (vgetLow bottom0)
  let sum1 ← foldedSum (vgetHigh top0) (vgetHigh bottom0)
  let sum2 ← foldedSum (vgetLow top1) (vgetLow bottom1)
  let sum3 ← foldedSum (vgetHigh top1) (vgetHigh bottom1)
  let lo := vreinterpretqU16U8 (vextq (vreinterpretqU8U16 sum0) (vreinterpretqU8U16 sum1) 8
    (by decide))
  let hi := vreinterpretqU16U8 (vextq (vreinterpretqU8U16 sum2) (vreinterpretqU8U16 sum3) 8
    (by decide))
  let lo ← vrshrnN 8 2 lo
  let hi ← vrshrnN 8 2 hi
  pure (vcombine lo hi)

/-- `resize_to_quarter_vector_path<4>`. -/
def resizeToQuarterVectorPath4 : Tracked (ℕ → BitVec 8) := do
  let res0 ← vectorPath src srcL srcStride
  let res1 ← vectorPath src (srcL + 2 * 16) srcStride
  pure (vst1q dst dstL (vcombine res0 res1))

/-- `resize_to_quarter_vector_path<kChannels>`. -/
def resizeToQuarterVectorPath : ℕ → Tracked (ℕ → BitVec 8)
  | 1 => resizeToQuarterVectorPath1 src srcL srcStride dstL dst
  | 2 => resizeToQuarterVectorPath2 src srcL srcStride dstL dst
  | 3 => resizeToQuarterVectorPath3 src srcL srcStride dstL dst
  | _ => resizeToQuarterVectorPath4 src srcL srcStride dstL dst

/-- What the scalar loop computes for a channel. -/
def scalarPath (kChannels ch : ℕ) : Tracked (BitVec 8) := do
  let sum ← Tracked.word 16 ((src (srcL + ch)).toNat + (src (srcL + (ch + kChannels))).toNat +
    (src (srcL + (srcStride + ch))).toNat + (src (srcL + (srcStride + ch + kChannels))).toNat)
  let mean ← GaussianBlur.roundingShiftRight sum 2
  Tracked.word 8 mean.toNat

end

/-! ### Rows -/

/-- `kDstStep`. -/
def kDstStep (kChannels : ℕ) : ℕ := 16 * if kChannels = 3 then 3 else 2

/-- `kSrcStep`. -/
def kSrcStep (kChannels : ℕ) : ℕ := 2 * kDstStep kChannels

/-- The loops over `remaining`. -/
def resizeToQuarterRow (kChannels : ℕ) (src : ℕ → BitVec 8) (curSrc srcStride srcWidth curDst : ℕ)
    (dst : Tracked (ℕ → BitVec 8)) : Tracked (ℕ → BitVec 8) :=
  let vectors := srcWidth * kChannels / kSrcStep kChannels
  -- An odd number of pixels cannot be left, so the count of the last loop is exact.
  let pixels := (srcWidth * kChannels - vectors * kSrcStep kChannels) / (kChannels * 2)
  dst |>
    forRange vectors (fun k dst => do
      let dst ← dst
      resizeToQuarterVectorPath src (curSrc + k * kSrcStep kChannels) srcStride
        (curDst + k * kDstStep kChannels) dst kChannels) |>
    forRange pixels (fun x => forRange kChannels fun ch dst => do
      let dst ← dst
      let value ← scalarPath src (curSrc + vectors * kSrcStep kChannels + x * (kChannels * 2))
        srcStride kChannels ch
      pure (Function.update dst (curDst + vectors * kDstStep kChannels + x * kChannels + ch) value))

end ResizeToQuarter

/-- `resize_to_quarter_u8_imp<kChannels>`. -/
def resizeToQuarterU8Imp (kChannels : ℕ) (src : ℕ → BitVec 8)
    (srcPtr srcStride srcWidth srcHeight dstPtr dstStride : ℕ) (dst : Tracked (ℕ → BitVec 8)) :
    KleidicvError × Tracked (ℕ → BitVec 8) :=
  (.ok, ((LoopUnroll2.start srcHeight 2, dst) |>
    LoopUnroll2.unrollOnce fun index =>
      ResizeToQuarter.resizeToQuarterRow kChannels src (srcPtr + index * srcStride) srcStride srcWidth
        (dstPtr + index / 2 * dstStride)).2)

/-- `resize_to_quarter_u8`. -/
def resizeToQuarterU8 (src : ℕ → BitVec 8)
    (srcPtr srcStride srcWidth srcHeight dstPtr dstStride channels : ℕ)
    (dst : Tracked (ℕ → BitVec 8)) : KleidicvError × Tracked (ℕ → BitVec 8) :=
  let imp := fun kChannels =>
    resizeToQuarterU8Imp kChannels src srcPtr srcStride srcWidth srcHeight dstPtr dstStride dst
  match channels with
  | 1 => imp 1
  | 2 => imp 2
  | 3 => imp 3
  | _ => imp 4

/-- The batch of `resize_linear_stripe_u8` for the rows of the destination from `yBegin` up to
`yEnd`, where the image is halved. -/
def resizeToQuarterStripeU8 (src : ℕ → BitVec 8)
    (srcPtr srcStride srcWidth srcHeight dstPtr dstStride channels yBegin yEnd : ℕ)
    (dst : Tracked (ℕ → BitVec 8)) : KleidicvError × Tracked (ℕ → BitVec 8) :=
  let srcBegin := yBegin * 2
  let srcEnd := min srcHeight (yEnd * 2)
  let dstBegin := yBegin
  resizeToQuarterU8 src (srcPtr + srcBegin * srcStride) srcStride srcWidth (sizeSub srcEnd srcBegin)
    (dstPtr + dstBegin * dstStride) dstStride channels dst

namespace ResizeToQuarter

open GaussianBlur (vaddq vmovl vrshrnN vcombine_cases)
open ScalableResizeToQuarter (blockMean quarterAt quarterAt_add)

/-! ### Vectors -/

theorem blockMean_of_toNat {a b c d x : BitVec 8} {sum : ℕ}
    (hsum : sum = a.toNat + b.toNat + c.toNat + d.toNat) (h : x.toNat = (sum + 2) / 4) :
    x = blockMean a b c d := by
  rw [blockMean, ← hsum, ← h, BitVec.ofNat_toNat, BitVec.setWidth_eq]

theorem averageHalf_ensures (top bottom : Fin (2 * 8) → BitVec 8) :
    (averageHalf top bottom).Ensures fun v => ∀ lane : Fin 8, v lane =
      blockMean (top ⟨2 * lane, by omega⟩) (top ⟨2 * lane + 1, by omega⟩)
        (bottom ⟨2 * lane, by omega⟩) (bottom ⟨2 * lane + 1, by omega⟩) := by
  have htop : ∀ i, (top i).toNat < 256 := fun i => (top i).isLt
  have hbottom : ∀ i, (bottom i).toNat < 256 := fun i => (bottom i).isLt
  refine (Tracked.lanes_ensures fun lane => ?_).bind fun t ht => ?_
  · have h0 := htop ⟨2 * lane, by omega⟩
    have h1 := htop ⟨2 * lane + 1, by omega⟩
    omega
  refine (Tracked.lanes_ensures fun lane => ?_).bind fun b hb => ?_
  · have h0 := hbottom ⟨2 * lane, by omega⟩
    have h1 := hbottom ⟨2 * lane + 1, by omega⟩
    omega
  have hle : ∀ lane, (t lane).toNat + (b lane).toNat ≤ 1020 := by
    intro lane
    have h0 := htop ⟨2 * lane, by omega⟩
    have h1 := htop ⟨2 * lane + 1, by omega⟩
    have h2 := hbottom ⟨2 * lane, by omega⟩
    have h3 := hbottom ⟨2 * lane + 1, by omega⟩
    rw [ht, hb]
    omega
  refine (Tracked.lanes_ensures fun lane => (hle lane).trans_lt (by decide)).bind fun sum hsum => ?_
  refine (Tracked.lanes_ensures fun lane => ?_).imp fun v hv lane => ?_
  · have := hle lane
    rw [hsum]
    omega
  · refine blockMean_of_toNat (?_ : (sum lane).toNat = _) (hv lane)
    rw [hsum, ht, hb, Nat.add_assoc (_ + _)]

/-- Lane `e` of vectors that follow each other. -/
def lanesOf (v : ℕ → Fin (2 * 8) → BitVec 8) (e : ℕ) : BitVec 8 :=
  v (e / 16) ⟨e % 16, Nat.mod_lt e (by decide)⟩

/-- **Means of neighbours** in two vectors above two others. -/
theorem average2x2BlocksU8_ensures (top bottom : ℕ → Fin (2 * 8) → BitVec 8) :
    (average2x2BlocksU8 top bottom).Ensures fun v => ∀ lane : Fin (2 * 8), v lane =
      blockMean (lanesOf top (2 * lane)) (lanesOf top (2 * lane + 1))
        (lanesOf bottom (2 * lane)) (lanesOf bottom (2 * lane + 1)) := by
  have hlow : ∀ (v : ℕ → Fin (2 * 8) → BitVec 8) (e : ℕ) (he : e < 16), v 0 ⟨e, he⟩ = lanesOf v e := by
    intro v e he
    simp only [lanesOf, Nat.div_eq_of_lt he, Nat.mod_eq_of_lt he]
  have hhigh : ∀ (v : ℕ → Fin (2 * 8) → BitVec 8) (e : ℕ) (he : e < 16),
      v 1 ⟨e, he⟩ = lanesOf v (16 + e) := by
    intro v e he
    simp only [lanesOf, Nat.add_div_left e (show 0 < 16 by decide), Nat.div_eq_of_lt he,
      Nat.add_mod_left, Nat.mod_eq_of_lt he]
  refine (averageHalf_ensures _ _).bind fun low hlowRes => ?_
  refine (averageHalf_ensures _ _).bind fun high hhighRes => .pure fun lane => ?_
  refine vcombine_cases (P := fun (lane : Fin (2 * 8)) (v : BitVec 8) => v =
    blockMean (lanesOf top (2 * lane)) (lanesOf top (2 * lane + 1)) (lanesOf bottom (2 * lane))
      (lanesOf bottom (2 * lane + 1))) (fun lane => ?_) (fun lane => ?_) lane
  · rw [hlowRes, hlow top, hlow top, hlow bottom, hlow bottom]
  · rw [hhighRes, hhigh top, hhigh top, hhigh bottom, hhigh bottom]
    congr 2 <;> simp only <;> ring

/-- The bytes of a word, put together again. -/
theorem append_bytes (x : BitVec 16) :
    (x.extractLsb' (8 * 1) 8 ++ x.extractLsb' (8 * 0) 8 : BitVec (8 + 8)) = x := by
  refine BitVec.eq_of_getLsbD_eq fun i hi => ?_
  rw [BitVec.getLsbD_append]
  by_cases hlow : i < 8
  · rw [if_pos hlow, BitVec.getLsbD_extractLsb', decide_eq_true hlow, Bool.true_and, Nat.mul_zero,
      Nat.zero_add]
  · rw [if_neg hlow, BitVec.getLsbD_extractLsb', decide_eq_true (show i - 8 < 8 by omega),
      Bool.true_and]
    exact congrArg x.getLsbD (by omega)

/-- Eight bytes are four words. -/
theorem vextq_bytes (a b : Fin 8 → BitVec 16) :
    vreinterpretqU16U8 (vextq (vreinterpretqU8U16 a) (vreinterpretqU8U16 b) 8 (by decide)) =
      vextq a b 4 (by decide) := by
  funext lane
  have hbytes : ∀ (v : Fin 8 → BitVec 16) (k : ℕ) (hk : k < 8),
      (vreinterpretqU8U16 v ⟨2 * k + 1, by omega⟩ ++ vreinterpretqU8U16 v ⟨2 * k, by omega⟩ :
        BitVec (8 + 8)) = v ⟨k, hk⟩ := by
    intro v k hk
    have hodd : (2 * k + 1) / 2 = k := by omega
    have heven : 2 * k / 2 = k := by omega
    simp only [vreinterpretqU8U16, hodd, heven, Nat.mul_add_mod, Nat.mul_mod_right]
    exact append_bytes (v ⟨k, hk⟩)
  unfold vreinterpretqU16U8
  by_cases h : lane.val + 4 < 8
  · rw [vextq, vextq, vextq, dif_pos (by simp only; omega), dif_pos (by simp only; omega), dif_pos h]
    exact hbytes a (lane + 4) h
  · rw [vextq, vextq, vextq, dif_neg (by simp only; omega), dif_neg (by simp only; omega), dif_neg h]
    have hodd : 2 * lane.val + 1 + 8 - 2 * 8 = 2 * (lane.val + 4 - 8) + 1 := by omega
    have heven : 2 * lane.val + 8 - 2 * 8 = 2 * (lane.val + 4 - 8) := by omega
    simp only [hodd, heven]
    exact hbytes b (lane + 4 - 8) (by omega)

theorem foldedSum_ensures (top bottom : Fin 8 → BitVec 8) :
    (foldedSum top bottom).Ensures fun v => ∀ lane : Fin 8, (v lane).toNat =
      (top lane).toNat + (bottom lane).toNat +
        ((top (lane + 4)).toNat + (bottom (lane + 4)).toNat) := by
  have htop : ∀ i, (top i).toNat < 256 := fun i => (top i).isLt
  have hbottom : ∀ i, (bottom i).toNat < 256 := fun i => (bottom i).isLt
  refine (Tracked.lanes_ensures fun lane => (htop lane).trans (by decide)).bind fun t ht => ?_
  refine (Tracked.lanes_ensures fun lane => (hbottom lane).trans (by decide)).bind fun b hb => ?_
  refine (Tracked.lanes_ensures fun lane => ?_).bind fun sum hsum => ?_
  · have := htop lane
    have := hbottom lane
    rw [ht, hb]
    omega
  have hext : ∀ lane : Fin 8, vextq sum sum 4 (by decide) lane = sum (lane + 4) := by
    intro lane
    unfold vextq
    split
    · exact congrArg sum (Fin.ext (Nat.mod_eq_of_lt (by assumption)).symm)
    · refine congrArg sum (Fin.ext ?_)
      rw [Fin.val_add]
      simp only [Fin.isValue]
      omega
  refine (Tracked.lanes_ensures fun lane => ?_).imp fun v hv lane => ?_
  · have := htop lane
    have := hbottom lane
    have := htop (lane + 4)
    have := hbottom (lane + 4)
    rw [hext, hsum, hsum, ht, hb, ht, hb]
    omega
  · rw [hv, hext, hsum, hsum, ht, hb, ht, hb]

section

variable {src : ℕ → BitVec 8} {srcL srcStride dstL : ℕ} {dst : ℕ → BitVec 8}

/-- `k` pixels of the destination from `dstL` on were written, from the two rows at `srcL`. -/
def Averaged (channels k : ℕ) (src : ℕ → BitVec 8) (srcL srcStride dstL : ℕ)
    (dst dst' : ℕ → BitVec 8) : Prop :=
  ∃ g, dst' = overwrite dst dstL (k * channels) g ∧ ∀ q < k, ∀ c < channels,
    g (q * channels + c) = quarterAt src channels srcL (srcL + srcStride) q c

/-- More pixels after those written so far. -/
theorem Averaged.append {channels m k : ℕ} {dst' dst'' : ℕ → BitVec 8}
    (h : Averaged channels m src srcL srcStride dstL dst dst')
    (h' : Averaged channels k src (srcL + 2 * m * channels) srcStride (dstL + m * channels) dst'
      dst'') : Averaged channels (m + k) src srcL srcStride dstL dst dst'' := by
  obtain ⟨g, rfl, hg⟩ := h
  obtain ⟨g', rfl, hg'⟩ := h'
  refine ⟨fun j => if j < m * channels then g j else g' (j - m * channels), ?_, fun q hq c hc => ?_⟩
  · rw [overwrite_append, Nat.add_mul]
  · dsimp only
    rcases Nat.lt_or_ge q m with hlt | hge
    · rw [if_pos (pixelByte_lt hlt hc), hg q hlt c hc]
    · obtain ⟨d, rfl⟩ := Nat.exists_eq_add_of_le hge
      rw [if_neg (by rw [Nat.add_mul]; omega), Nat.add_mul, Nat.add_assoc, Nat.add_sub_cancel_left,
        hg' d (by omega) c hc, Nat.add_right_comm srcL, quarterAt_add]

/-- A vector of whole pixels. -/
theorem Averaged.store {channels k n : ℕ} {v : Fin n → BitVec 8} (hn : n = k * channels)
    (hv : ∀ lane : Fin n, v lane =
      quarterAt src channels srcL (srcL + srcStride) (lane / channels) (lane % channels)) :
    Averaged channels k src srcL srcStride dstL dst (vst1q dst dstL v) := by
  subst hn
  obtain ⟨g, heq, hg⟩ := vst1q_eq dst dstL v
  refine ⟨g, heq, fun q hq c hc => ?_⟩
  have hlane := hg ⟨q * channels + c, pixelByte_lt hq hc⟩
  rw [hv] at hlane
  simp only at hlane
  rw [hlane, Nat.mul_comm q, Nat.mul_add_div (by omega), Nat.div_eq_of_lt hc, Nat.add_zero,
    Nat.mul_add_mod, Nat.mod_eq_of_lt hc]

/-- Vectors of a channel each. -/
theorem Averaged.storeInterleaved {channels n : ℕ} {v : ℕ → Fin n → BitVec 8} (hpos : 0 < channels)
    (hv : ∀ c < channels, ∀ lane : Fin n, v c lane =
      quarterAt src channels srcL (srcL + srcStride) lane c) :
    Averaged channels n src srcL srcStride dstL dst (vstInterleaved channels v dstL dst) := by
  obtain ⟨g, heq, hg⟩ := vstInterleaved_eq v dstL dst hpos
  refine ⟨g, by rw [heq, Nat.mul_comm], fun q hq c hc => ?_⟩
  rw [Nat.mul_comm, hg ⟨q, hq⟩ c hc, hv c hc]

/-- One channel. -/
theorem resizeToQuarterVectorPath1_ensures :
    (resizeToQuarterVectorPath1 src srcL srcStride dstL dst).Ensures
      (Averaged 1 32 src srcL srcStride dstL dst) := by
  have hlanes : ∀ p k e : ℕ, lanesOf (fun i => vld1q src (p + 16 * (k + i))) e =
      src (p + (16 * k + e)) := by
    intro p k e
    have he := Nat.div_add_mod e 16
    rw [lanesOf, vld1q]
    exact congrArg src (by simp only; omega)
  have h0 := fun p e => hlanes p 0 e
  simp only [Nat.zero_add, Nat.mul_zero] at h0
  refine (average2x2BlocksU8_ensures _ _).bind fun result0 hr0 => ?_
  refine (average2x2BlocksU8_ensures _ _).bind fun result1 hr1 => .pure ?_
  refine Averaged.store (by decide) fun lane => ?_
  rw [Nat.div_one, Nat.mod_one]
  refine vcombine_cases (P := fun (lane : Fin (2 * (2 * 8))) (v : BitVec 8) => v =
    quarterAt src 1 srcL (srcL + srcStride) lane 0) (fun lane => ?_) (fun lane => ?_) lane
  · rw [hr0, h0, h0, h0, h0, quarterAt]
    simp only [Nat.mul_one, Nat.add_zero]
  · rw [hr1, hlanes, hlanes, hlanes, hlanes, quarterAt]
    congr 2 <;> ring

theorem lanesOf_deinterleaved (channels p c e : ℕ) :
    lanesOf (loadAndDeinterleave src channels p c) e = src (p + (e * channels + c)) := by
  have he : channels * e = channels * (16 * (e / 16)) + channels * (e % 16) := by
    rw [← Nat.mul_add, Nat.div_add_mod]
  rw [lanesOf, loadAndDeinterleave, Nat.mul_comm e, he]
  exact congrArg src (by simp only; ring)

/-- A channel of deinterleaved rows. -/
theorem channel_ensures (channels c : ℕ) :
    (average2x2BlocksU8 (loadAndDeinterleave src channels srcL c)
      (loadAndDeinterleave src channels (srcL + srcStride) c)).Ensures fun v =>
        ∀ lane : Fin (2 * 8), v lane = quarterAt src channels srcL (srcL + srcStride) lane c :=
  (average2x2BlocksU8_ensures _ _).imp fun v hv lane => by
    rw [hv]
    simp only [lanesOf_deinterleaved, quarterAt]

/-- Two channels. -/
theorem resizeToQuarterVectorPath2_ensures :
    (resizeToQuarterVectorPath2 src srcL srcStride dstL dst).Ensures
      (Averaged 2 16 src srcL srcStride dstL dst) := by
  refine (channel_ensures 2 0).bind fun result0 h0 => ?_
  refine (channel_ensures 2 1).bind fun result1 h1 => .pure ?_
  refine Averaged.storeInterleaved (by decide) fun c hc lane => ?_
  interval_cases c
  · exact h0 lane
  · exact h1 lane

/-- Three channels. -/
theorem resizeToQuarterVectorPath3_ensures :
    (resizeToQuarterVectorPath3 src srcL srcStride dstL dst).Ensures
      (Averaged 3 16 src srcL srcStride dstL dst) := by
  refine (channel_ensures 3 0).bind fun result0 h0 => ?_
  refine (channel_ensures 3 1).bind fun result1 h1 => ?_
  refine (channel_ensures 3 2).bind fun result2 h2 => .pure ?_
  refine Averaged.storeInterleaved (by decide) fun c hc lane => ?_
  interval_cases c
  · exact h0 lane
  · exact h1 lane
  · exact h2 lane

/-- Two pixels of four channels, on top of each other and side by side. -/
def pixelPair (src : ℕ → BitVec 8) (p : ℕ) : Fin 8 → BitVec 8 := fun lane => src (p + lane)

variable (src srcL srcStride) in
/-- The sum of four pixels, in both halves. -/
theorem foldedSum_pixels (q : ℕ) :
    (foldedSum (pixelPair src (srcL + 8 * q)) (pixelPair src (srcL + srcStride + 8 * q))).Ensures
      fun v => ∀ lane : Fin 8, (v lane).toNat =
        (src (srcL + (2 * q * 4 + lane % 4))).toNat +
          (src (srcL + ((2 * q + 1) * 4 + lane % 4))).toNat +
          (src (srcL + srcStride + (2 * q * 4 + lane % 4))).toNat +
          (src (srcL + srcStride + ((2 * q + 1) * 4 + lane % 4))).toNat := by
  refine (foldedSum_ensures _ _).imp fun v hv lane => ?_
  rw [hv]
  simp only [pixelPair, Nat.add_assoc]
  have hleft : 2 * q * 4 + lane.val % 4 = 8 * q + lane.val % 4 := by ring
  have hright : (2 * q + 1) * 4 + lane.val % 4 = 8 * q + (4 + lane.val % 4) := by ring
  have hother : ((lane + 4 : Fin 8) : ℕ) = (lane.val + 4) % 8 := Fin.val_add lane 4
  rw [hleft, hright, hother]
  rcases Nat.lt_or_ge lane.val 4 with hlt | hge
  · rw [Nat.mod_eq_of_lt hlt, Nat.mod_eq_of_lt (show lane.val + 4 < 8 by omega),
      Nat.add_comm lane.val 4]
    omega
  · have hmod : lane.val % 4 = lane.val - 4 := by omega
    have hback : (lane.val + 4) % 8 = lane.val - 4 := by omega
    rw [hmod, hback, Nat.add_sub_cancel' hge]
    omega

/-- Two pixels from two sums. -/
theorem narrowed_ensures {q : ℕ} {sum0 sum1 : Fin 8 → BitVec 16}
    (h0 : ∀ lane : Fin 8, (sum0 lane).toNat =
      (src (srcL + (2 * q * 4 + lane % 4))).toNat +
        (src (srcL + ((2 * q + 1) * 4 + lane % 4))).toNat +
        (src (srcL + srcStride + (2 * q * 4 + lane % 4))).toNat +
        (src (srcL + srcStride + ((2 * q + 1) * 4 + lane % 4))).toNat)
    (h1 : ∀ lane : Fin 8, (sum1 lane).toNat =
      (src (srcL + (2 * (q + 1) * 4 + lane % 4))).toNat +
        (src (srcL + ((2 * (q + 1) + 1) * 4 + lane % 4))).toNat +
        (src (srcL + srcStride + (2 * (q + 1) * 4 + lane % 4))).toNat +
        (src (srcL + srcStride + ((2 * (q + 1) + 1) * 4 + lane % 4))).toNat) :
    (vrshrnN 8 2 (vreinterpretqU16U8 (vextq (vreinterpretqU8U16 sum0) (vreinterpretqU8U16 sum1) 8
      (by decide)))).Ensures fun v => ∀ lane : Fin 8, v lane =
        quarterAt src 4 srcL (srcL + srcStride) (q + lane / 4) (lane % 4) := by
  have hlane : ∀ lane : Fin 8, (vextq sum0 sum1 4 (by decide) lane).toNat =
      (src (srcL + (2 * (q + lane / 4) * 4 + lane % 4))).toNat +
        (src (srcL + ((2 * (q + lane / 4) + 1) * 4 + lane % 4))).toNat +
        (src (srcL + srcStride + (2 * (q + lane / 4) * 4 + lane % 4))).toNat +
        (src (srcL + srcStride + ((2 * (q + lane / 4) + 1) * 4 + lane % 4))).toNat := by
    intro lane
    unfold vextq
    split
    · have hdiv : lane.val / 4 = 0 := by omega
      rw [h0, hdiv]
      simp only [Nat.add_mod_right, Nat.add_zero]
    · have hdiv : lane.val / 4 = 1 := by omega
      have hmod : (lane.val + 4 - 8) % 4 = lane.val % 4 := by omega
      rw [h1, hdiv]
      simp only [hmod]
  have hbyte : ∀ a, (src a).toNat < 256 := fun a => (src a).isLt
  rw [vextq_bytes]
  refine (Tracked.lanes_ensures fun lane => ?_).imp fun v hv lane => ?_
  · have b0 := hbyte (srcL + (2 * (q + lane / 4) * 4 + lane % 4))
    have b1 := hbyte (srcL + ((2 * (q + lane / 4) + 1) * 4 + lane % 4))
    have b2 := hbyte (srcL + srcStride + (2 * (q + lane / 4) * 4 + lane % 4))
    have b3 := hbyte (srcL + srcStride + ((2 * (q + lane / 4) + 1) * 4 + lane % 4))
    rw [hlane]
    omega
  · exact blockMean_of_toNat (hlane lane) (hv lane)

/-- Four pixels of four channels. -/
theorem vectorPath_ensures :
    (vectorPath src srcL srcStride).Ensures fun v => ∀ lane : Fin (2 * 8), v lane =
      quarterAt src 4 srcL (srcL + srcStride) (lane / 4) (lane % 4) := by
  have hlow : ∀ p, vgetLow (n := 8) (vld1q src p) = pixelPair src p := fun _ => rfl
  have hhigh : ∀ p, vgetHigh (n := 8) (vld1q src p) = pixelPair src (p + 8) := fun p =>
    funext fun lane => congrArg src (Nat.add_assoc p 8 lane).symm
  have hsum := foldedSum_pixels src srcL srcStride
  rw [vectorPath]
  simp only [hlow, hhigh]
  refine (hsum 0).bind fun sum0 h0 => (hsum 1).bind fun sum1 h1 => ?_
  refine (hsum 2).bind fun sum2 h2 => (hsum 3).bind fun sum3 h3 => ?_
  refine (narrowed_ensures h0 h1).bind fun lo hlo => (narrowed_ensures h2 h3).bind fun hi hhi =>
    .pure fun lane => ?_
  refine vcombine_cases (P := fun (lane : Fin (2 * 8)) (v : BitVec 8) => v =
    quarterAt src 4 srcL (srcL + srcStride) (lane / 4) (lane % 4)) (fun lane => ?_)
    (fun lane => ?_) lane
  · rw [hlo, Nat.zero_add]
  · have hdiv : (8 + lane.val) / 4 = 2 + lane.val / 4 := by omega
    have hmod : (8 + lane.val) % 4 = lane.val % 4 := by omega
    rw [hhi]
    simp only [hdiv, hmod]

/-- Four channels. -/
theorem resizeToQuarterVectorPath4_ensures :
    (resizeToQuarterVectorPath4 src srcL srcStride dstL dst).Ensures
      (Averaged 4 8 src srcL srcStride dstL dst) := by
  refine vectorPath_ensures.bind fun res0 h0 => vectorPath_ensures.bind fun res1 h1 => .pure ?_
  refine Averaged.store (by decide) fun lane => ?_
  refine vcombine_cases (P := fun (lane : Fin (2 * (2 * 8))) (v : BitVec 8) => v =
    quarterAt src 4 srcL (srcL + srcStride) (lane / 4) (lane % 4)) (fun lane => h0 lane)
    (fun lane => ?_) lane
  have hdiv : (2 * 8 + lane.val) / 4 = 4 + lane.val / 4 := by omega
  have hmod : (2 * 8 + lane.val) % 4 = lane.val % 4 := by omega
  have hmove := quarterAt_add src 4 srcL (srcL + srcStride) 4 (lane.val / 4) (lane.val % 4)
  rw [h1, Nat.add_right_comm srcL]
  simp only [hdiv, hmod]
  exact hmove

/-- **A vector path** gives the means of whole pixels. -/
theorem resizeToQuarterVectorPath_ensures {channels : ℕ} (hpos : 0 < channels) (hfour : channels ≤ 4) :
    (resizeToQuarterVectorPath src srcL srcStride dstL dst channels).Ensures fun dst' =>
      ∃ k, k * channels = kDstStep channels ∧ Averaged channels k src srcL srcStride dstL dst dst' := by
  interval_cases channels
  · exact resizeToQuarterVectorPath1_ensures.imp fun _ h => ⟨32, rfl, h⟩
  · exact resizeToQuarterVectorPath2_ensures.imp fun _ h => ⟨16, rfl, h⟩
  · exact resizeToQuarterVectorPath3_ensures.imp fun _ h => ⟨16, rfl, h⟩
  · exact resizeToQuarterVectorPath4_ensures.imp fun _ h => ⟨8, rfl, h⟩

/-- One channel of a pixel. -/
theorem scalarPath_ensures (channels ch : ℕ) :
    (scalarPath src srcL srcStride channels ch).Ensures fun v =>
      v = quarterAt src channels srcL (srcL + srcStride) 0 ch := by
  have h0 := (src (srcL + ch)).isLt
  have h1 := (src (srcL + (ch + channels))).isLt
  have h2 := (src (srcL + (srcStride + ch))).isLt
  have h3 := (src (srcL + (srcStride + ch + channels))).isLt
  refine (Tracked.word_ensures (by omega)).bind fun sum hsum => ?_
  refine (GaussianBlur.roundingShiftRight_ensures (by omega)).bind fun mean hmean => ?_
  refine (Tracked.word_ensures (by omega)).imp fun v hv => ?_
  have hright : ∀ p, p + ((2 * 0 + 1) * channels + ch) = p + (ch + channels) := fun p => by ring
  rw [quarterAt, hright, hright, Nat.mul_zero, Nat.zero_mul, Nat.zero_add]
  refine blockMean_of_toNat (?_ : sum.toNat = _) (hv.trans hmean)
  rw [hsum]
  simp only [Nat.add_assoc]

variable (src srcL srcStride dstL) in
/-- The channels of a pixel. -/
theorem scalarPixel_ensures (channels : ℕ) {dst : Tracked (ℕ → BitVec 8)} {m : ℕ → BitVec 8}
    (hdst : dst.Ensures (· = m)) :
    (forRange channels (fun ch dst => do
      let dst ← dst
      let value ← scalarPath src srcL srcStride channels ch
      pure (Function.update dst (dstL + ch) value)) dst).Ensures
      (Averaged channels 1 src srcL srcStride dstL m) := by
  have hloop : (forRange channels (fun ch dst => do
      let dst ← dst
      let value ← scalarPath src srcL srcStride channels ch
      pure (Function.update dst (dstL + ch) value)) dst).Ensures
      (· = overwrite m dstL channels fun c => quarterAt src channels srcL (srcL + srcStride) 0 c) := by
    refine forRange_invariant (fun i (dst : Tracked (ℕ → BitVec 8)) => dst.Ensures
      (· = overwrite m dstL i fun c => quarterAt src channels srcL (srcL + srcStride) 0 c)) ?_ ?_
    · rw [overwrite_zero]
      exact hdst
    · intro ch _ dst h
      refine h.bind ?_
      rintro _ rfl
      refine (scalarPath_ensures channels ch).bind ?_
      rintro _ rfl
      refine .pure ?_
      rw [update_overwrite]
      refine overwrite_congr fun j hj => ?_
      split
      · rfl
      · rw [show j = ch by omega]
  refine hloop.imp ?_
  rintro _ rfl
  refine ⟨_, by rw [Nat.one_mul], fun q hq c hc => ?_⟩
  obtain rfl : q = 0 := by omega
  rw [Nat.zero_mul, Nat.zero_add]

/-- **A row of the destination**: vectors, then single pixels. -/
theorem resizeToQuarterRow_ensures {channels : ℕ} (hpos : 0 < channels) (hfour : channels ≤ 4)
    (dstWidth : ℕ) {dst : Tracked (ℕ → BitVec 8)} {m : ℕ → BitVec 8} (hdst : dst.Ensures (· = m)) :
    (resizeToQuarterRow channels src srcL srcStride (2 * dstWidth) dstL dst).Ensures
      (Averaged channels dstWidth src srcL srcStride dstL m) := by
  obtain ⟨k, hkpos, hk⟩ : ∃ k, 0 < k ∧ kDstStep channels = k * channels := by
    interval_cases channels
    · exact ⟨32, by decide, rfl⟩
    · exact ⟨16, by decide, rfl⟩
    · exact ⟨16, by decide, rfl⟩
    · exact ⟨8, by decide, rfl⟩
  have hsrcStep : kSrcStep channels = k * (channels * 2) := by
    rw [kSrcStep, hk]
    ring
  have hlength : 2 * dstWidth * channels = dstWidth * (channels * 2) := by ring
  have hunit : 0 < channels * 2 := by omega
  have hvectors : 2 * dstWidth * channels / kSrcStep channels = dstWidth / k := by
    rw [hlength, hsrcStep, Nat.mul_div_mul_right _ _ hunit]
  have hrest : (2 * dstWidth * channels - dstWidth / k * kSrcStep channels) / (channels * 2) =
      dstWidth - dstWidth / k * k := by
    rw [hlength, hsrcStep, ← Nat.mul_assoc (dstWidth / k), ← Nat.sub_mul, Nat.mul_div_cancel _ hunit]
  have hle := Nat.div_mul_le_self dstWidth k
  have hsrcPtr : ∀ m, srcL + m * (channels * 2) = srcL + 2 * m * channels := fun m => by ring
  rw [resizeToQuarterRow]
  simp only [hvectors, hrest]
  -- a vector takes `k` pixels
  have hwhole : (forRange (dstWidth / k) (fun i dst => do
      let dst ← dst
      resizeToQuarterVectorPath src (srcL + i * kSrcStep channels) srcStride
        (dstL + i * kDstStep channels) dst channels) dst).Ensures
      (Averaged channels (dstWidth / k * k) src srcL srcStride dstL m) := by
    refine forRange_invariant (fun i (dst : Tracked (ℕ → BitVec 8)) => dst.Ensures
      (Averaged channels (i * k) src srcL srcStride dstL m)) ?_ ?_
    · refine hdst.imp ?_
      rintro _ rfl
      exact ⟨fun _ => 0, by rw [Nat.zero_mul, Nat.zero_mul, overwrite_zero], fun q hq => by omega⟩
    · intro i _ dst h
      refine h.bind fun dst h => (resizeToQuarterVectorPath_ensures hpos hfour).imp ?_
      rintro dst' ⟨k', hk', hpath⟩
      obtain rfl : k' = k := Nat.eq_of_mul_eq_mul_right hpos (hk'.trans hk)
      rw [hsrcStep, hk, ← Nat.mul_assoc i, ← Nat.mul_assoc i, hsrcPtr] at hpath
      rw [Nat.succ_mul]
      exact h.append hpath
  refine Tracked.Ensures.imp (P := Averaged channels (dstWidth / k * k + (dstWidth - dstWidth / k * k))
    src srcL srcStride dstL m) ?_ fun _ h => by rwa [Nat.add_sub_cancel' hle] at h
  refine forRange_invariant (n := dstWidth - dstWidth / k * k)
    (fun x (dst : Tracked (ℕ → BitVec 8)) => dst.Ensures
      (Averaged channels (dstWidth / k * k + x) src srcL srcStride dstL m)) hwhole ?_
  intro x _ dst h
  have hpixel := scalarPixel_ensures src
    (srcL + dstWidth / k * kSrcStep channels + x * (channels * 2)) srcStride
    (dstL + dstWidth / k * kDstStep channels + x * channels) channels ⟨h.1, rfl⟩
  refine hpixel.imp fun dst' hstep => ?_
  have hs : srcL + dstWidth / k * kSrcStep channels + x * (channels * 2) =
      srcL + 2 * (dstWidth / k * k + x) * channels := by
    rw [hsrcStep]
    ring
  have hd : dstL + dstWidth / k * kDstStep channels + x * channels =
      dstL + (dstWidth / k * k + x) * channels := by
    rw [hk]
    ring
  rw [hs, hd] at hstep
  exact h.2.append hstep

end

end ResizeToQuarter

/-! ### The image -/

section

open ResizeToQuarter

variable {src : ℕ → BitVec 8} {srcPtr srcStride dstPtr dstStride dstWidth channels : ℕ}

variable (src srcPtr srcStride dstPtr) in
/-- **The image**, row after row. -/
theorem resizeToQuarterU8_ensures (hpos : 0 < channels) (hfour : channels ≤ 4)
    (hstride : dstWidth * channels ≤ dstStride) (dstHeight : ℕ) (m : ℕ → BitVec 8) :
    (resizeToQuarterU8 src srcPtr srcStride (2 * dstWidth) (2 * dstHeight) dstPtr dstStride channels
      (pure m)).2.Ensures (Wrote (⟨dstPtr, dstStride, channels⟩ : Rows).address
        (quarterPixel src srcPtr srcStride channels)
        (stripeElements (dstWidth * channels) 0 dstHeight) m) := by
  have hinj : Set.InjOn (⟨dstPtr, dstStride, channels⟩ : Rows).address {p | p.2 < dstStride} :=
    Rows.address_injOn le_rfl
  have himp : resizeToQuarterU8 src srcPtr srcStride (2 * dstWidth) (2 * dstHeight) dstPtr dstStride
      channels (pure m) = resizeToQuarterU8Imp channels src srcPtr srcStride (2 * dstWidth)
        (2 * dstHeight) dstPtr dstStride (pure m) := by
    interval_cases channels <;> rfl
  rw [himp, resizeToQuarterU8Imp]
  generalize hbody : (fun index => resizeToQuarterRow channels src (srcPtr + index * srcStride)
    srcStride (2 * dstWidth) (dstPtr + index / 2 * dstStride)) = body
  have hstart : Unrolled (2 * dstHeight) 2 (fun i (dst : Tracked (ℕ → BitVec 8)) => ∃ y, i = 2 * y ∧
      dst.Ensures (Wrote (⟨dstPtr, dstStride, channels⟩ : Rows).address
        (quarterPixel src srcPtr srcStride channels) (stripeElements (dstWidth * channels) 0 y) m))
      (LoopUnroll2.start (2 * dstHeight) 2, pure m) :=
    Unrolled.start ⟨0, rfl, .pure (Wrote.refl_of_empty m fun p hp =>
      absurd hp.2.1 (Nat.not_lt_zero _))⟩
  have hloop : Unrolled _ _ _ (LoopUnroll2.unrollNTimes 1 body _) := hstart.unrollNTimes <| by
    rintro _ dst hi ⟨y, rfl, h⟩
    refine ⟨y + 1, rfl, ?_⟩
    rw [← hbody]
    dsimp only
    rw [Nat.mul_div_cancel_left _ two_pos]
    refine (resizeToQuarterRow_ensures hpos hfour dstWidth (m := dst.value) ⟨h.1, rfl⟩).imp ?_
    rintro dst' ⟨g, heq, hg⟩
    have hpiece : Wrote (⟨dstPtr, dstStride, channels⟩ : Rows).address
        (quarterPixel src srcPtr srcStride channels) (block y 1 0 (dstWidth * channels)) dst.value
        dst' := by
      rw [heq]
      refine @segment_wrote _ ⟨dstPtr, dstStride, channels⟩ _ y 0 _ _ (fun j hj => ?_) dst.value
      have hq : j / channels < dstWidth := Nat.div_lt_of_lt_mul (by rwa [Nat.mul_comm])
      have hpixel := hg _ hq _ (Nat.mod_lt j hpos)
      rw [Nat.div_add_mod'] at hpixel
      rw [hpixel, quarterPixel, Nat.zero_add]
    refine (h.2.trans hinj (fun p hp => hp.2.2.trans_le hstride) (block_subset (by omega))
      hpiece).congr ?_
    ext p
    simp only [stripeElements, block, Set.mem_union, Set.mem_ofPred_eq]
    omega
  have hle := hloop.le_length
  have hlt := hstart.lt_unrollNTimes 1 body (by decide)
  obtain ⟨y, hy, h⟩ := hloop.holds
  obtain rfl : y = dstHeight := by omega
  exact h

variable (src srcPtr srcStride dstPtr) in
/-- A batch of rows, where the image is halved. -/
theorem resizeToQuarterStripeU8_ensures (hpos : 0 < channels) (hfour : channels ≤ 4)
    (hstride : dstWidth * channels ≤ dstStride) {dstHeight yBegin yEnd : ℕ} (hle : yBegin ≤ yEnd)
    (hend : yEnd ≤ dstHeight) (hheight : 2 * dstHeight < sizeMod) (m : ℕ → BitVec 8) :
    (resizeToQuarterStripeU8 src srcPtr srcStride (2 * dstWidth) (2 * dstHeight) dstPtr dstStride
      channels yBegin yEnd (pure m)).2.Ensures
      (Wrote (⟨dstPtr, dstStride, channels⟩ : Rows).address
        (quarterPixel src srcPtr srcStride channels)
        (stripeElements (dstWidth * channels) yBegin yEnd) m) := by
  rw [resizeToQuarterStripeU8, Nat.min_eq_right (show yEnd * 2 ≤ 2 * dstHeight by omega),
    sizeSub_eq (by omega) (by omega), show yEnd * 2 - yBegin * 2 = 2 * (yEnd - yBegin) by omega]
  refine (resizeToQuarterU8_ensures src _ srcStride _ hpos hfour hstride _ m).imp fun dst' h =>
    h.reindex (fun p => (p.1 - yBegin, p.2)) ?_ ?_
  · rintro ⟨y, e⟩ ⟨h1, h2, h3⟩
    obtain ⟨d, rfl⟩ := Nat.exists_eq_add_of_le h1
    refine ⟨⟨Nat.zero_le _, by simp only; omega, h3⟩, ?_, ?_⟩
    · simp only [Rows.address, Nat.add_sub_cancel_left]
      ring
    · simp only [quarterPixel, Nat.add_sub_cancel_left]
      congr 1 <;> ring
  · rintro ⟨y, e⟩ ⟨-, h2, h3⟩
    simp only at h2 h3
    exact ⟨(yBegin + y, e), ⟨Nat.le_add_right _ _, by simp only; omega, h3⟩, by
      simp only [Nat.add_sub_cancel_left]⟩

theorem blockMean_toNat (a b c d : BitVec 8) :
    (ScalableResizeToQuarter.blockMean a b c d).toNat =
      (a.toNat + b.toNat + c.toNat + d.toNat + 2) / 4 := by
  have ha := a.isLt
  have hb := b.isLt
  have hc := c.isLt
  have hd := d.isLt
  rw [ScalableResizeToQuarter.blockMean, BitVec.toNat_ofNat, Nat.mod_eq_of_lt (by omega)]

/-- From `m` to `m'`, every pixel of the destination became the rounded mean of its four pixels
of the source, and nothing else was written. -/
structure Quartered (src : ℕ → BitVec 8) (srcRows dstRows : Rows) (dstWidth dstHeight : ℕ)
    (m m' : ℕ → BitVec 8) : Prop where
  value : ∀ y x c : ℕ, y < dstHeight → x < dstWidth → c < dstRows.channels →
    (m' (dstRows.ptrAt y x c)).toNat =
      ((src (srcRows.ptrAt (2 * y : ℕ) (2 * x : ℕ) c)).toNat +
        (src (srcRows.ptrAt (2 * y : ℕ) (2 * x + 1 : ℕ) c)).toNat +
        (src (srcRows.ptrAt (2 * y + 1 : ℕ) (2 * x : ℕ) c)).toNat +
        (src (srcRows.ptrAt (2 * y + 1 : ℕ) (2 * x + 1 : ℕ) c)).toNat + 2) / 4
  frame : ∀ a, (∀ y x c : ℕ, y < dstHeight → x < dstWidth → c < dstRows.channels →
    dstRows.ptrAt y x c ≠ a) → m' a = m a

theorem quartered_of_wrote {dstHeight : ℕ} {m m' : ℕ → BitVec 8}
    (h : Wrote (⟨dstPtr, dstStride, channels⟩ : Rows).address
      (quarterPixel src srcPtr srcStride channels) (stripeElements (dstWidth * channels) 0 dstHeight)
      m m') :
    Quartered src ⟨srcPtr, srcStride, channels⟩ ⟨dstPtr, dstStride, channels⟩ dstWidth dstHeight m
      m' := by
  obtain ⟨hpixels, hframe⟩ := @stripe_pixels _ ⟨dstPtr, dstStride, channels⟩ _ _ _ _ _ _ h
  refine ⟨fun y x c hy hx hc => ?_, fun a ha => hframe a fun y x c _ hy => ha y x c hy⟩
  have hc' : c < channels := hc
  have hdiv : (x * channels + c) / channels = x := by
    rw [Nat.mul_comm x, Nat.mul_add_div (by omega), Nat.div_eq_of_lt hc', Nat.add_zero]
  have hmod : (x * channels + c) % channels = c := by
    rw [Nat.mul_comm x, Nat.mul_add_mod, Nat.mod_eq_of_lt hc']
  rw [hpixels y x c (Nat.zero_le _) hy hx hc]
  simp only [quarterPixel, hdiv, hmod, ScalableResizeToQuarter.quarterAt, blockMean_toNat,
    Rows.ptrAt_natCast]
  have htop : ∀ n, srcPtr + 2 * y * srcStride + ((2 * x + n) * channels + c) =
      srcPtr + 2 * y * srcStride + (2 * x + n) * channels + c := fun n => by ring
  have hbottom : ∀ n, srcPtr + 2 * y * srcStride + srcStride + ((2 * x + n) * channels + c) =
      srcPtr + (2 * y + 1) * srcStride + (2 * x + n) * channels + c := fun n => by ring
  have htop0 := htop 0
  have hbottom0 := hbottom 0
  rw [Nat.add_zero] at htop0 hbottom0
  rw [htop, hbottom, htop0, hbottom0]

/-- **Every pixel of the halved image is the rounded mean of four**, in vectors and single
pixels alike, with no sum out of range; and any cut of its rows into stripes, in any order, does
what one call does. -/
theorem resizeToQuarterU8_correct {srcWidth srcHeight : ℕ} (hwidth : Even srcWidth)
    (hheight : Even srcHeight) (hsize : srcHeight < sizeMod) (hpos : 1 ≤ channels)
    (hfour : channels ≤ 4) (hstride : srcWidth / 2 * channels ≤ dstStride) (m : ℕ → BitVec 8) :
    (∃ run, resizeToQuarterU8 src srcPtr srcStride srcWidth srcHeight dstPtr dstStride channels
        (pure m) = (.ok, run) ∧
      run.Ensures (Quartered src ⟨srcPtr, srcStride, channels⟩ ⟨dstPtr, dstStride, channels⟩
        (srcWidth / 2) (srcHeight / 2) m)) ∧
    ∀ l, IsPartition (srcHeight / 2) l →
      l.foldl (fun dst s => (resizeToQuarterStripeU8 src srcPtr srcStride srcWidth srcHeight dstPtr
          dstStride channels s.1 s.2 dst).2) (pure m) =
        (resizeToQuarterU8 src srcPtr srcStride srcWidth srcHeight dstPtr dstStride channels
          (pure m)).2 := by
  obtain ⟨dstWidth, rfl⟩ := hwidth.two_dvd
  obtain ⟨dstHeight, rfl⟩ := hheight.two_dvd
  rw [Nat.mul_div_cancel_left _ two_pos] at hstride ⊢
  rw [Nat.mul_div_cancel_left _ two_pos]
  have hwhole := resizeToQuarterU8_ensures src srcPtr srcStride dstPtr hpos hfour hstride dstHeight m
  refine ⟨⟨_, ?_, hwhole.imp fun _ h => quartered_of_wrote h⟩, fun l hl => ?_⟩
  · interval_cases channels <;> rfl
  · have hstripe := fun (s : ℕ × ℕ) (hs : s ∈ l) m => resizeToQuarterStripeU8_ensures src
      srcPtr srcStride dstPtr hpos hfour hstride (hl.bounds s hs).1 (hl.bounds s hs).2 hsize m
    have hfold := Tracked.foldl_ensures (f := fun dst (s : ℕ × ℕ) => (resizeToQuarterStripeU8 src
      srcPtr srcStride (2 * dstWidth) (2 * dstHeight) dstPtr dstStride channels s.1 s.2 dst).2)
      (fun s hs m => (hstripe s hs m).1) m
    have hwrote := stripes_wrote ⟨dstPtr, dstStride, channels⟩ hstride hl
      (fun s hs m => (hstripe s hs m).2) m
    rw [hfold.eq_pure, hwrote.eq_of hwhole.2]
    exact (Tracked.Ensures.eq_pure ⟨hwhole.1, rfl⟩).symm

/-- An image of four rows and columns with three channels, in two stripes. -/
theorem resizeToQuarterU8_correct_small : [(1, 2), (0, 1)].foldl (fun dst s =>
      (resizeToQuarterStripeU8 (fun a => BitVec.ofNat 8 a) 100 12 4 4 200 7 3 s.1 s.2 dst).2)
      (pure fun _ => 0) =
    (resizeToQuarterU8 (fun a => BitVec.ofNat 8 a) 100 12 4 4 200 7 3 (pure fun _ => 0)).2 :=
  (@resizeToQuarterU8_correct (fun a => BitVec.ofNat 8 a) 100 12 200 7 3 4 4 (by decide) (by decide)
    (by decide) (by decide) (by decide) (by decide) (fun _ => 0)).2 [(1, 2), (0, 1)]
    ⟨by decide, by simp; omega, by decide⟩

end

end KleidiCV
