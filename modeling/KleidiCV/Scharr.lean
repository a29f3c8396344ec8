/-
`scharr_interleaved` from `uint8_t` to `int16_t`: validation, the stripe function, the
entry point and the run in batches.

A vertical pass fills two row buffers, from which a horizontal pass computes both
derivatives of a row.

* `ScharrInterleaved.verticalVectorPath_ensures`, `verticalScalarPath_ensures` — both paths
  of the vertical pass give the same sums;
* `ScharrInterleaved.processVertical_ensures` — the buffers hold a sum for every element of
  the row;
* `ScharrInterleaved.processHorizontal_ensures` — the horizontal pass reads these sums, and
  no other element;
* `scharrInterleaved_correct` — every pair of every stripe, for every cut into stripes.
-/
import KleidiCV.Lib.Stamped
import KleidiCV.Multithreading
import KleidiCV.Sobel

open Loop

namespace KleidiCV

/-! ### Instructions -/

section

variable {n w : ℕ}

/-- `vmlaq`, on lanes that hold signed numbers. -/
abbrev vmlaqS (acc a b : Fin n → BitVec w) : Tracked (Fin n → BitVec w) :=
  Tracked.slanes w fun lane => (acc lane).toInt + (a lane).toInt * (b lane).toInt

/-- `vst2q`. -/
def vst2q {α : Type} (m : ℕ → α) (ptr : ℕ) (v0 v1 : Fin n → α) : ℕ → α := fun a =>
  if h : ptr ≤ a ∧ a < ptr + 2 * n then
    if (a - ptr) % 2 = 0 then v0 ⟨(a - ptr) / 2, by omega⟩ else v1 ⟨(a - ptr) / 2, by omega⟩
  else m a

theorem vst2q_eq {α : Type} (m : ℕ → α) (ptr : ℕ) (v0 v1 : Fin n → α) :
    ∃ g, vst2q m ptr v0 v1 = overwrite m ptr (2 * n) g ∧
      ∀ lane : Fin n, g (2 * lane) = v0 lane ∧ g (2 * lane + 1) = v1 lane := by
  refine ⟨fun j => vst2q m ptr v0 v1 (ptr + j), ?_, fun lane => ⟨?_, ?_⟩⟩
  · funext a
    by_cases ha : ptr ≤ a ∧ a < ptr + 2 * n
    · obtain ⟨j, rfl⟩ := Nat.exists_eq_add_of_le ha.1
      rw [overwrite_add (by omega)]
    · rw [vst2q, dif_neg ha, overwrite_of_not_mem ha]
  · have hin : ptr ≤ ptr + 2 * lane.val ∧ ptr + 2 * lane.val < ptr + 2 * n := ⟨by omega, by omega⟩
    have hlane : (⟨(ptr + 2 * lane.val - ptr) / 2, by omega⟩ : Fin n) = lane :=
      Fin.ext (by simp only; omega)
    simp only [vst2q, dif_pos hin, hlane]
    exact if_pos (by omega)
  · have hin : ptr ≤ ptr + (2 * lane.val + 1) ∧ ptr + (2 * lane.val + 1) < ptr + 2 * n :=
      ⟨by omega, by omega⟩
    have hlane : (⟨(ptr + (2 * lane.val + 1) - ptr) / 2, by omega⟩ : Fin n) = lane :=
      Fin.ext (by simp only; omega)
    simp only [vst2q, dif_pos hin, hlane]
    exact if_neg (by omega)

/-- Pairs stored at the end of those in front of them. -/
theorem vst2q_wrote {α : Type} {base i : ℕ} {value : ℕ → α} {v0 v1 : Fin n → α} {m m' : ℕ → α}
    (hv : ∀ lane : Fin n, v0 lane = value (2 * (i + lane)) ∧ v1 lane = value (2 * (i + lane) + 1))
    (h : Wrote (base + ·) value {e | e < 2 * i} m m') :
    Wrote (base + ·) value {e | e < 2 * (i + n)} m (vst2q m' (base + i * 2) v0 v1) := by
  obtain ⟨g, heq, hg⟩ := vst2q_eq m' (base + i * 2) v0 v1
  have hpiece : Wrote (base + ·) value {e | i * 2 ≤ e ∧ e < i * 2 + 2 * n} m'
      (overwrite m' (base + i * 2) (2 * n) g) := by
    refine overwrite_wrote_row fun j hj => ?_
    have hlane : j / 2 < n := by omega
    rcases Nat.mod_two_eq_zero_or_one j with hmod | hmod
    · have hj' : j = 2 * (j / 2) := by omega
      rw [hj', (hg ⟨j / 2, hlane⟩).1, (hv _).1]
      congr 1
      simp only
      omega
    · have hj' : j = 2 * (j / 2) + 1 := by omega
      rw [hj', (hg ⟨j / 2, hlane⟩).2, (hv _).2]
      congr 1
      simp only
      omega
  rw [heq]
  refine (h.trans (fun a _ b _ hab => Nat.add_left_cancel hab) (Set.subset_univ _)
    (Set.subset_univ _) hpiece).congr ?_
  ext e
  simp only [Set.mem_union, Set.mem_ofPred_eq]
  omega

end

/-! ### Calls -/

/-- The images of a call; pointers and strides count bytes. -/
structure ScharrCall where
  src : ℕ
  srcStride : ℕ
  srcWidth : ℕ
  srcHeight : ℕ
  srcChannels : ℕ
  dst : ℕ
  dstStride : ℕ

namespace ScharrCall

variable (r : ScharrCall)

def srcRows : Rows := ⟨r.src, r.srcStride, r.srcChannels⟩

/-- The rows of the destination, in elements; a pixel has two for each channel. -/
def dstRows : Rows := elementRows 2 r.dst r.dstStride (r.srcChannels * 2)

/-- `buffer_stride`, in bytes. -/
def bufferStride : ℕ := r.srcWidth * r.srcChannels * 2

/-- How many elements `malloc` is asked for. -/
def bufferCapacity : ℕ := r.bufferStride * 2 / 2

def horiDerivBuffer : Rows := elementRows 2 0 r.bufferStride r.srcChannels

def vertDerivBuffer : Rows := elementRows 2 r.bufferStride r.bufferStride r.srcChannels

end ScharrCall

/-- The row buffers and the destination.  An element of the buffers is stamped with the row
whose vertical pass stored it. -/
structure ScharrState where
  buffer : Stamped ℕ (BitVec 16)
  dst : ℕ → BitVec 16

/-! ### The filter -/

namespace ScharrInterleaved

open GaussianBlur (vaddl vmulq vdupqN)

abbrev kSourceVecNumLanes : ℕ := 16

abbrev kBufferVecNumLanes : ℕ := 8

/-- One half of `vertical_vector_path`: the horizontal and the vertical derivative. -/
def verticalHalf (src : ℕ → Fin 8 → BitVec 8) :
    Tracked ((Fin 8 → BitVec 16) × (Fin 8 → BitVec 16)) := do
  let horiAcc ← vaddl 16 (src 0) (src 2)
  let horiAcc ← vmulq horiAcc (vdupqN 16 3)
  let horiAcc ← GaussianBlur.vmlal horiAcc (src 1) (vdupqN 8 10)
  let vertAcc ← vsublS 16 (src 2) (src 0)
  pure (horiAcc, vertAcc)

/-- `vertical_vector_path`: the first two and the last two vectors of the result. -/
def verticalVectorPath (src : ℕ → Fin (2 * 8) → BitVec 8) :
    Tracked ((Fin (2 * 8) → BitVec 16) × (Fin (2 * 8) → BitVec 16)) := do
  let low ← verticalHalf (GaussianBlur.lower src)
  let high ← verticalHalf (GaussianBlur.upper src)
  pure (vcombine low.1 high.1, vcombine low.2 high.2)

/-- What `tail` computes for an element in the vertical pass. -/
def verticalScalarPath (src : ℕ → BitVec 8) : Tracked (BitVec 16 × BitVec 16) := do
  let hori ← Tracked.sword 16 (((src 0).toNat + (src 2).toNat) * 3 + (src 1).toNat * 10)
  let vert ← Tracked.sword 16 ((src 2).toNat - (src 0).toNat)
  pure (hori, vert)

/-- `horizontal_vector_path_hori_approx`. -/
def horizontalVectorPathHoriApprox (buff : ℕ → Fin 8 → BitVec 16) : Tracked (Fin 8 → BitVec 16) :=
  vsubqS (buff 1) (buff 0)

/-- `horizontal_vector_path_vert_approx`.  The instructions are those for unsigned lanes, which
do the same to the bits of signed ones. -/
def horizontalVectorPathVertApprox (buff : ℕ → Fin 8 → BitVec 16) :
    Tracked (Fin 8 → BitVec 16) := do
  let a ← vaddqS (buff 0) (buff 2)
  let twice ← vaddqS a a
  let a ← vaddqS a twice
  vmlaqS a (buff 1) (vdupqN 16 10)

variable (r : ScharrCall) (src : ℕ → BitVec 8)

/-- `process_vertical`, on the rows from row `y` on. -/
def processVertical (y : ℕ) (b : Tracked (Stamped ℕ (BitVec 16))) :
    Tracked (Stamped ℕ (BitVec 16)) :=
  let row := fun t index => (r.srcRows.atOffset y 0).ptrAt t 0 index
  let hori := r.horiDerivBuffer.ptrAt 0 0
  let vert := r.vertDerivBuffer.ptrAt 0 0
  ((LoopUnroll2.start (r.srcWidth * r.srcChannels) kSourceVecNumLanes, b) |>
    LoopUnroll2.unrollTwice (fun index b => do
      let b ← b
      let resA ← verticalVectorPath fun t => vld1q src (row t index)
      let resB ← verticalVectorPath fun t => vld1q src (row t index + kSourceVecNumLanes)
      let b ← b.store r.bufferCapacity y (hori index) (vcombine resA.1 resB.1)
      b.store r.bufferCapacity y (vert index) (vcombine resA.2 resB.2)) |>
    LoopUnroll2.unrollOnce (fun index b => do
      let b ← b
      let res ← verticalVectorPath fun t => vld1q src (row t index)
      let b ← b.store r.bufferCapacity y (hori index) res.1
      b.store r.bufferCapacity y (vert index) res.2) |>
    LoopUnroll2.tail (fun index b => do
      let b ← b
      let res ← verticalScalarPath fun t => src (row t index)
      let b ← b.set r.bufferCapacity y (hori index) res.1
      b.set r.bufferCapacity y (vert index) res.2)).2

/-- Both derivatives of a vector, from the loads at `index`. -/
def horizontalVectorPath (b : Stamped ℕ (BitVec 16)) (y index : ℕ) :
    Tracked ((Fin 8 → BitVec 16) × (Fin 8 → BitVec 16)) := do
  let channel := r.horiDerivBuffer.channels
  let hori := r.horiDerivBuffer.ptrAt 0 0
  let vert := r.vertDerivBuffer.ptrAt 0 0
  let horiBuff0 ← b.load kBufferVecNumLanes y (hori index)
  let horiBuff1 ← b.load kBufferVecNumLanes y (hori (index + channel * 2))
  let horiApproxRes ← horizontalVectorPathHoriApprox fun t => [horiBuff0, horiBuff1].getD t horiBuff0
  let vertBuff0 ← b.load kBufferVecNumLanes y (vert index)
  let vertBuff1 ← b.load kBufferVecNumLanes y (vert (index + channel))
  let vertBuff2 ← b.load kBufferVecNumLanes y (vert (index + channel * 2))
  let vertApproxRes ← horizontalVectorPathVertApprox fun t =>
    [vertBuff0, vertBuff1, vertBuff2].getD t vertBuff0
  pure (horiApproxRes, vertApproxRes)

/-- What `tail` computes for an element in the horizontal pass. -/
def horizontalScalarPath (b : Stamped ℕ (BitVec 16)) (y index : ℕ) :
    Tracked (BitVec 16 × BitVec 16) := do
  let channel := r.horiDerivBuffer.channels
  let hori := r.horiDerivBuffer.ptrAt 0 0
  let vert := r.vertDerivBuffer.ptrAt 0 0
  let hori2 ← b.get y (hori (index + channel * 2))
  let hori0 ← b.get y (hori index)
  let horiApprox ← Tracked.sword 16 (hori2.toInt - hori0.toInt)
  let vert0 ← b.get y (vert index)
  let vert2 ← b.get y (vert (index + channel * 2))
  let vert1 ← b.get y (vert (index + channel))
  let vertApprox ← Tracked.sword 16 ((vert0.toInt + vert2.toInt) * 3 + vert1.toInt * 10)
  pure (horiApprox, vertApprox)

/-- `process_horizontal`, into row `y`. -/
def processHorizontal (b : Stamped ℕ (BitVec 16)) (y : ℕ) (dst : Tracked (ℕ → BitVec 16)) :
    Tracked (ℕ → BitVec 16) :=
  let dstRow := (r.dstRows.atOffset y 0).ptrAt 0 0
  ((LoopUnroll2.start ((r.srcWidth - 2) * r.horiDerivBuffer.channels) kBufferVecNumLanes, dst) |>
    LoopUnroll2.unrollTwice (fun index dst => do
      let dst ← dst
      let resA ← horizontalVectorPath r b y index
      let resB ← horizontalVectorPath r b y (index + kBufferVecNumLanes)
      let dst := vst2q dst (dstRow (index * 2)) resA.1 resA.2
      pure (vst2q dst (dstRow ((index + kBufferVecNumLanes) * 2)) resB.1 resB.2)) |>
    LoopUnroll2.unrollOnce (fun index dst => do
      let dst ← dst
      let res ← horizontalVectorPath r b y index
      pure (vst2q dst (dstRow (index * 2)) res.1 res.2)) |>
    LoopUnroll2.tail (fun index dst => do
      let dst ← dst
      let res ← horizontalScalarPath r b y index
      let dst := Function.update dst (dstRow (index * 2)) res.1
      pure (Function.update dst (dstRow (index * 2 + 1)) res.2))).2

/-- `process`. -/
def process (yBegin yEnd : ℕ) (s : Tracked ScharrState) : Tracked ScharrState :=
  forFrom yBegin (yEnd - yBegin) (fun i s => do
    let s ← s
    let buffer ← processVertical r src i (pure s.buffer)
    let dst ← processHorizontal r buffer i (pure s.dst)
    pure ⟨buffer, dst⟩) s

end ScharrInterleaved

/-- `scharr_interleaved_stripe_s16_u8`; `allocation` is what `malloc` returns. -/
def scharrInterleavedStripeS16U8 (r : ScharrCall) (yBegin yEnd : ℕ)
    (allocation : Option (ℕ → BitVec 8)) (src : ℕ → BitVec 8) (dst : Tracked (ℕ → BitVec 16)) :
    KleidicvError × Tracked (ℕ → BitVec 16) :=
  match allocation with
  | none => (.allocation, dst)
  | some bytes =>
    (.ok, do
      let dst ← dst
      let s ← ScharrInterleaved.process r src yBegin yEnd (pure ⟨.fresh (bytesAsU16 bytes), dst⟩)
      pure s.dst)

/-- `scharr_interleaved_validate`. -/
def scharrInterleavedValidate (r : ScharrCall) : KleidicvError :=
  if r.srcWidth ≤ 2 ∨ r.srcHeight ≤ 2 ∨ r.srcChannels < 1 ∨
      kleidicvMaximumChannelCount < r.srcChannels then .notImplemented
  else if checkPointerAndStride 1 r.src r.srcStride r.srcHeight ≠ .ok then
    checkPointerAndStride 1 r.src r.srcStride r.srcHeight
  else if checkPointerAndStride 2 r.dst r.dstStride r.srcHeight ≠ .ok then
    checkPointerAndStride 2 r.dst r.dstStride r.srcHeight
  else if !checkImageSize r.srcWidth r.srcHeight then .range
  else .ok

/-- `kleidicv_scharr_interleaved_s16_u8`. -/
def kleidicvScharrInterleavedS16U8 (r : ScharrCall) (allocation : Option (ℕ → BitVec 8))
    (src : ℕ → BitVec 8) (dst : Tracked (ℕ → BitVec 16)) :
    KleidicvError × Tracked (ℕ → BitVec 16) :=
  if scharrInterleavedValidate r ≠ .ok then (scharrInterleavedValidate r, dst)
  else scharrInterleavedStripeS16U8 r 0 (r.srcHeight - 2) allocation src dst

/-- `kleidicv_thread_scharr_interleaved_s16_u8`; every batch has an allocation of its own. -/
def kleidicvThreadScharrInterleavedS16U8 (r : ScharrCall)
    (allocation : ℕ × ℕ → Option (ℕ → BitVec 8)) (src : ℕ → BitVec 8)
    (mt : Multithreading (taskCount (r.srcHeight - 2) 1)) (dst : Tracked (ℕ → BitVec 16)) :
    KleidicvError × Tracked (ℕ → BitVec 16) :=
  if scharrInterleavedValidate r ≠ .ok then (scharrInterleavedValidate r, dst)
  else
    runParallelBatches (fun yBegin yEnd => scharrInterleavedStripeS16U8 r yBegin yEnd
      (allocation (yBegin, yEnd)) src) (r.srcHeight - 2) 1 mt dst

/-! ### The vertical pass -/

/-- The weights of smoothing. -/
def scharrSmoothing (t : ℕ) : ℤ := [3, 10, 3].getD t 0

theorem weigh_scharrSmoothing (src : ℕ → ℤ) :
    weigh scharrSmoothing src = 3 * src 0 + 10 * src 1 + 3 * src 2 := by
  simp [weigh, scharrSmoothing, Finset.sum_range_succ]

namespace ScharrInterleaved

open GaussianBlur (vdupqN_toNat mul_ensures vcombine_cases)

theorem verticalHalf_ensures (src : ℕ → Fin 8 → BitVec 8) :
    (verticalHalf src).Ensures fun res => ∀ lane,
      (res.1 lane).toInt = weigh scharrSmoothing (fun t => (src t lane).toNat) ∧
      (res.2 lane).toInt = weigh difference fun t => (src t lane).toNat := by
  have hsrc : ∀ t lane, (src t lane).toNat < 256 := fun t lane => (src t lane).isLt
  refine (Tracked.lanes_ensures fun lane => ?_).bind fun sum hsum => ?_
  · have h0 := hsrc 0 lane
    have h2 := hsrc 2 lane
    omega
  refine (mul_ensures (by decide) fun lane => ?_).bind fun triple htriple => ?_
  · have h0 := hsrc 0 lane
    have h2 := hsrc 2 lane
    rw [hsum]
    omega
  have hten : ∀ lane, ((GaussianBlur.vdupqN 8 10 : Fin 8 → BitVec 8) lane).toNat = 10 :=
    vdupqN_toNat (by decide)
  refine (Tracked.lanes_ensures fun lane => ?_).bind fun hori hhori => ?_
  · have h0 := hsrc 0 lane
    have h1 := hsrc 1 lane
    have h2 := hsrc 2 lane
    rw [htriple, hsum, hten]
    omega
  refine (Tracked.slanes_ensures (by decide) fun lane => ?_).bind fun vert hvert => ?_
  · have h0 := hsrc 0 lane
    have h2 := hsrc 2 lane
    omega
  refine .pure fun lane => ⟨?_, ?_⟩
  · have h0 := hsrc 0 lane
    have h1 := hsrc 1 lane
    have h2 := hsrc 2 lane
    have hvalue : (hori lane).toNat =
        3 * (src 0 lane).toNat + 10 * (src 1 lane).toNat + 3 * (src 2 lane).toNat := by
      rw [hhori, htriple, hsum, hten]
      ring
    show (hori lane).toInt = _
    rw [BitVec.toInt_eq_toNat_of_lt (by omega), hvalue, weigh_scharrSmoothing]
    push_cast
    rfl
  · rw [hvert, weigh_difference]

/-- **The vertical vector path** computes both sums exactly. -/
theorem verticalVectorPath_ensures (src : ℕ → Fin (2 * 8) → BitVec 8) :
    (verticalVectorPath src).Ensures fun res => ∀ lane,
      (res.1 lane).toInt = weigh scharrSmoothing (fun t => (src t lane).toNat) ∧
      (res.2 lane).toInt = weigh difference fun t => (src t lane).toNat := by
  refine (verticalHalf_ensures _).bind fun low hlow => ?_
  refine (verticalHalf_ensures _).bind fun high hhigh => .pure fun lane => ⟨?_, ?_⟩
  · exact vcombine_cases (P := fun lane (v : BitVec 16) =>
      v.toInt = weigh scharrSmoothing fun t => (src t lane).toNat) (fun lane => (hlow lane).1)
      (fun lane => (hhigh lane).1) lane
  · exact vcombine_cases (P := fun lane (v : BitVec 16) =>
      v.toInt = weigh difference fun t => (src t lane).toNat) (fun lane => (hlow lane).2)
      (fun lane => (hhigh lane).2) lane

/-- The scalar path computes the same. -/
theorem verticalScalarPath_ensures (src : ℕ → BitVec 8) :
    (verticalScalarPath src).Ensures fun res =>
      res.1.toInt = weigh scharrSmoothing (fun t => (src t).toNat) ∧
      res.2.toInt = weigh difference fun t => (src t).toNat := by
  have h0 := (src 0).isLt
  have h1 := (src 1).isLt
  have h2 := (src 2).isLt
  refine (Tracked.sword_ensures (by decide) (by omega) (by omega)).bind fun hori hhori => ?_
  refine (Tracked.sword_ensures (by decide) (by omega) (by omega)).bind fun vert hvert => ?_
  refine .pure ⟨?_, by rw [hvert, weigh_difference]⟩
  rw [hhori, weigh_scharrSmoothing]
  ring

section

variable (r : ScharrCall) (src : ℕ → BitVec 8)

/-- The sums of column `e` of the rows from `y` on. -/
def columnSum (kernel : ℕ → ℤ) (y e : ℕ) : ℤ :=
  weigh kernel fun t => (src (r.srcRows.address (y + t, e))).toNat

/-- The first `i` elements of both row buffers hold the sums of row `y`, and were stored for
this row. -/
def Filled (y i : ℕ) (b : Stamped ℕ (BitVec 16)) : Prop :=
  ∀ e < i, b.Holds y e (fun v => v.toInt = columnSum r src scharrSmoothing y e) ∧
    b.Holds y (r.srcWidth * r.srcChannels + e) fun v => v.toInt = columnSum r src difference y e

end

variable {r : ScharrCall} {src : ℕ → BitVec 8} {y : ℕ}

theorem hori_eq (index : ℕ) : r.horiDerivBuffer.ptrAt 0 0 index = index := by
  have h := r.horiDerivBuffer.ptrAt_natCast 0 0 index
  simpa [ScharrCall.horiDerivBuffer, elementRows] using h

theorem vert_eq (index : ℕ) :
    r.vertDerivBuffer.ptrAt 0 0 index = r.srcWidth * r.srcChannels + index := by
  have h := r.vertDerivBuffer.ptrAt_natCast 0 0 index
  simpa [ScharrCall.vertDerivBuffer, ScharrCall.bufferStride, elementRows] using h

theorem bufferCapacity_eq :
    r.bufferCapacity = r.srcWidth * r.srcChannels + r.srcWidth * r.srcChannels := by
  unfold ScharrCall.bufferCapacity ScharrCall.bufferStride
  omega

theorem row_eq (t index : ℕ) :
    (r.srcRows.atOffset y 0).ptrAt t 0 index = r.srcRows.address (y + t, index) :=
  Rows.ptrAt_row (by push_cast; rfl) index

/-- Stores of `n` sums to both buffers. -/
theorem store_filled {n i : ℕ} {b : Stamped ℕ (BitVec 16)} {hori vert : Fin n → BitVec 16}
    (hi : i + n ≤ r.srcWidth * r.srcChannels) (hb : Filled r src y i b)
    (hsum : ∀ lane : Fin n, (hori lane).toInt = columnSum r src scharrSmoothing y (i + lane) ∧
      (vert lane).toInt = columnSum r src difference y (i + lane)) :
    (b.store r.bufferCapacity y (r.horiDerivBuffer.ptrAt 0 0 i) hori >>= fun b =>
      b.store r.bufferCapacity y (r.vertDerivBuffer.ptrAt 0 0 i) vert).Ensures
      (Filled r src y (i + n)) := by
  rw [hori_eq, vert_eq]
  have hcapacity := bufferCapacity_eq (r := r)
  refine (Stamped.store_ensures (P := fun lane v => v.toInt =
    columnSum r src scharrSmoothing y (i + lane)) (by omega) fun lane => (hsum lane).1).bind ?_
  rintro b₁ ⟨hnew₁, hold₁⟩
  refine (Stamped.store_ensures (P := fun lane v => v.toInt =
    columnSum r src difference y (i + lane)) (by omega) fun lane => (hsum lane).2).imp ?_
  rintro b₂ ⟨hnew₂, hold₂⟩ e he
  rcases Nat.lt_or_ge e i with hlt | hge
  · -- elements in front of the vectors
    obtain ⟨hh, hv⟩ := hb e hlt
    exact ⟨hold₂ _ (by omega) _ _ (hold₁ _ (by omega) _ _ hh),
      hold₂ _ (by omega) _ _ (hold₁ _ (by omega) _ _ hv)⟩
  · obtain ⟨lane, rfl⟩ := Nat.exists_eq_add_of_le hge
    have hlane : lane < n := by omega
    refine ⟨hold₂ _ (by omega) _ _ (hnew₁ ⟨lane, hlane⟩), ?_⟩
    rw [← Nat.add_assoc]
    exact hnew₂ ⟨lane, hlane⟩

theorem set_filled {i : ℕ} {b : Stamped ℕ (BitVec 16)} {hori vert : BitVec 16}
    (hi : i < r.srcWidth * r.srcChannels) (hb : Filled r src y i b)
    (hhori : hori.toInt = columnSum r src scharrSmoothing y i)
    (hvert : vert.toInt = columnSum r src difference y i) :
    (b.set r.bufferCapacity y (r.horiDerivBuffer.ptrAt 0 0 i) hori >>= fun b =>
      b.set r.bufferCapacity y (r.vertDerivBuffer.ptrAt 0 0 i) vert).Ensures
      (Filled r src y (i + 1)) := by
  rw [hori_eq, vert_eq]
  have hcapacity := bufferCapacity_eq (r := r)
  refine (Stamped.set_ensures (P := fun v => v.toInt = columnSum r src scharrSmoothing y i)
    (by omega) hhori).bind ?_
  rintro b₁ ⟨hnew₁, hold₁⟩
  refine (Stamped.set_ensures (P := fun v => v.toInt = columnSum r src difference y i) (by omega)
    hvert).imp ?_
  rintro b₂ ⟨hnew₂, hold₂⟩ e he
  rcases Nat.lt_or_ge e i with hlt | hge
  · obtain ⟨hh, hv⟩ := hb e hlt
    exact ⟨hold₂ _ (by omega) _ _ (hold₁ _ (by omega) _ _ hh),
      hold₂ _ (by omega) _ _ (hold₁ _ (by omega) _ _ hv)⟩
  · obtain rfl : e = i := by omega
    exact ⟨hold₂ _ (by omega) _ _ hnew₁, hnew₂⟩

/-- The vertical vector path on a row. -/
theorem verticalVectorPath_row (i offset : ℕ) :
    (verticalVectorPath fun t =>
      vld1q src ((r.srcRows.atOffset y 0).ptrAt t 0 i + offset)).Ensures
      fun res => ∀ lane : Fin (2 * 8),
        (res.1 lane).toInt = columnSum r src scharrSmoothing y (i + (offset + lane)) ∧
        (res.2 lane).toInt = columnSum r src difference y (i + (offset + lane)) := by
  refine (verticalVectorPath_ensures _).imp fun res hres lane => ?_
  have hsrc : ∀ t : ℕ, vld1q src ((r.srcRows.atOffset y 0).ptrAt t 0 i + offset) lane =
      src (r.srcRows.address (y + t, i + (offset + lane))) := by
    intro t
    rw [vld1q, row_eq, Rows.address, Rows.address]
    simp only [Nat.add_assoc]
  have h := hres lane
  simp only [hsrc] at h
  exact h

/-- **The row buffers are filled**, whatever they held before. -/
theorem processVertical_ensures {b : Tracked (Stamped ℕ (BitVec 16))}
    (hb : b.Ensures fun _ => True) :
    (processVertical r src y b).Ensures (Filled r src y (r.srcWidth * r.srcChannels)) := by
  have h0 : b.Ensures (Filled r src y 0) := hb.imp fun _ _ e he => absurd he (Nat.not_lt_zero e)
  let inv (i : ℕ) (b : Tracked (Stamped ℕ (BitVec 16))) := b.Ensures (Filled r src y i)
  have hstart : Unrolled (r.srcWidth * r.srcChannels) kSourceVecNumLanes inv
      (LoopUnroll2.start (r.srcWidth * r.srcChannels) kSourceVecNumLanes, b) := .start h0
  refine ((hstart.unrollTwice ?_).unrollOnce ?_).tail ?_
  · intro i b hi hb
    refine hb.bind fun b hb => ?_
    refine (verticalVectorPath_row i 0).bind fun resA hA => ?_
    refine (verticalVectorPath_row i kSourceVecNumLanes).bind fun resB hB => ?_
    refine store_filled hi hb fun lane => ⟨?_, ?_⟩
    · exact vcombine_cases (P := fun lane (v : BitVec 16) =>
        v.toInt = columnSum r src scharrSmoothing y (i + lane))
        (fun lane => Nat.zero_add lane ▸ (hA lane).1) (fun lane => (hB lane).1) lane
    · exact vcombine_cases (P := fun lane (v : BitVec 16) =>
        v.toInt = columnSum r src difference y (i + lane))
        (fun lane => Nat.zero_add lane ▸ (hA lane).2) (fun lane => (hB lane).2) lane
  · intro i b hi hb
    refine hb.bind fun b hb => (verticalVectorPath_row i 0).bind fun res hres => ?_
    simp only [Nat.zero_add] at hres
    exact store_filled hi hb hres
  · intro i b hi hb
    refine hb.bind fun b hb => (verticalScalarPath_ensures _).bind fun res hres => ?_
    simp only [row_eq] at hres
    exact set_filled hi hb hres.1 hres.2

/-! ### The horizontal pass -/

variable (r src) in
theorem columnSum_bounds (y e : ℕ) :
    (0 ≤ columnSum r src scharrSmoothing y e ∧ columnSum r src scharrSmoothing y e ≤ 4080) ∧
      -255 ≤ columnSum r src difference y e ∧ columnSum r src difference y e ≤ 255 := by
  have h0 := (src (r.srcRows.address (y + 0, e))).isLt
  have h1 := (src (r.srcRows.address (y + 1, e))).isLt
  have h2 := (src (r.srcRows.address (y + 2, e))).isLt
  rw [columnSum, columnSum, weigh_scharrSmoothing, weigh_difference]
  omega

/-- What the horizontal pass computes for element `e`. -/
def Derivatives (r : ScharrCall) (src : ℕ → BitVec 8) (y e : ℕ) (hori vert : BitVec 16) : Prop :=
  hori.toInt = weigh difference (fun t => columnSum r src scharrSmoothing y
    (e + t * r.srcChannels)) ∧
  vert.toInt = weigh scharrSmoothing fun t => columnSum r src difference y (e + t * r.srcChannels)

theorem horizontalVectorPathVertApprox_ensures {buff : ℕ → Fin 8 → BitVec 16}
    (hbuff : ∀ t < 3, ∀ lane, -255 ≤ (buff t lane).toInt ∧ (buff t lane).toInt ≤ 255) :
    (horizontalVectorPathVertApprox buff).Ensures fun v => ∀ lane,
      (v lane).toInt = weigh scharrSmoothing fun t => (buff t lane).toInt := by
  have h0 := hbuff 0 (by decide)
  have h1 := hbuff 1 (by decide)
  have h2 := hbuff 2 (by decide)
  have hten : ∀ lane, ((GaussianBlur.vdupqN 16 10 : Fin 8 → BitVec 16) lane).toInt = 10 :=
    fun _ => rfl
  refine (Tracked.slanes_ensures (by decide) fun lane => ?_).bind fun sum hsum => ?_
  · have := h0 lane
    have := h2 lane
    omega
  have hsumBounds : ∀ lane, -510 ≤ (sum lane).toInt ∧ (sum lane).toInt ≤ 510 := by
    intro lane
    have := h0 lane
    have := h2 lane
    rw [hsum]
    omega
  refine (Tracked.slanes_ensures (by decide) fun lane => ?_).bind fun twice htwice => ?_
  · have := hsumBounds lane
    omega
  refine (Tracked.slanes_ensures (by decide) fun lane => ?_).bind fun triple htriple => ?_
  · have := hsumBounds lane
    rw [htwice]
    omega
  refine (Tracked.slanes_ensures (by decide) fun lane => ?_).imp fun v hv lane => ?_
  · have := hsumBounds lane
    have := h1 lane
    rw [htriple, htwice, hten]
    omega
  · rw [hv, htriple, htwice, hten, hsum, weigh_scharrSmoothing]
    ring

/-- **The horizontal vector path** reads filled elements and computes both derivatives exactly. -/
theorem horizontalVectorPath_ensures {b : Stamped ℕ (BitVec 16)}
    (hb : Filled r src y (r.srcWidth * r.srcChannels) b) {i : ℕ}
    (hi : i + kBufferVecNumLanes + 2 * r.srcChannels ≤ r.srcWidth * r.srcChannels) :
    (horizontalVectorPath r b y i).Ensures fun res => ∀ lane : Fin 8,
      Derivatives r src y (i + lane) (res.1 lane) (res.2 lane) := by
  have hhori : ∀ offset ≤ 2 * r.srcChannels,
      (b.load kBufferVecNumLanes y (r.horiDerivBuffer.ptrAt 0 0 (i + offset))).Ensures
        fun (v : Fin 8 → BitVec 16) => ∀ lane : Fin 8, (v lane).toInt = columnSum r src scharrSmoothing y (i + lane + offset) := by
    intro offset hoffset
    refine Stamped.load_ensures (P := fun lane (v : BitVec 16) => v.toInt = columnSum r src scharrSmoothing y
      (i + lane + offset)) fun lane => ?_
    have hlane : lane.val < kBufferVecNumLanes := lane.isLt
    rw [hori_eq, Nat.add_right_comm]
    exact (hb _ (by omega)).1
  have hvert : ∀ offset ≤ 2 * r.srcChannels,
      (b.load kBufferVecNumLanes y (r.vertDerivBuffer.ptrAt 0 0 (i + offset))).Ensures
        fun (v : Fin 8 → BitVec 16) => ∀ lane : Fin 8, (v lane).toInt = columnSum r src difference y (i + lane + offset) := by
    intro offset hoffset
    refine Stamped.load_ensures (P := fun lane (v : BitVec 16) => v.toInt = columnSum r src difference y
      (i + lane + offset)) fun lane => ?_
    have hlane : lane.val < kBufferVecNumLanes := lane.isLt
    rw [vert_eq, Nat.add_assoc, Nat.add_right_comm]
    exact (hb _ (by omega)).2
  have hbounds := columnSum_bounds r src y
  refine (hhori 0 (Nat.zero_le _)).bind fun hori0 h0 => ?_
  refine (hhori (r.srcChannels * 2) (by omega)).bind fun hori1 h1 => ?_
  refine (Tracked.slanes_ensures (by decide) fun lane => ?_).bind fun hori hres => ?_
  · have hb0 := hbounds (i + lane + 0)
    have hb1 := hbounds (i + lane + r.srcChannels * 2)
    simp only [List.getD_cons_zero, List.getD_cons_succ, h0, h1]
    omega
  refine (hvert 0 (Nat.zero_le _)).bind fun vert0 v0 => ?_
  refine (hvert r.srcChannels (by omega)).bind fun vert1 v1 => ?_
  refine (hvert (r.srcChannels * 2) (by omega)).bind fun vert2 v2 => ?_
  have htap : ∀ t < 3, ∀ lane : Fin 8, (([vert0, vert1, vert2].getD t vert0) lane).toInt =
      columnSum r src difference y (i + lane + t * r.srcChannels) := by
    intro t ht lane
    interval_cases t
    · simpa using v0 lane
    · simpa using v1 lane
    · simpa [Nat.mul_comm] using v2 lane
  refine (horizontalVectorPathVertApprox_ensures fun t ht lane => ?_).bind fun vert hvertRes =>
    .pure fun lane => ⟨?_, ?_⟩
  · rw [htap t ht]
    exact (hbounds _).2
  · rw [weigh_difference]
    simpa [h0, h1, Nat.mul_comm] using hres lane
  · refine (hvertRes lane).trans (weigh_congr _ fun t ht => htap t ht lane)

/-- The scalar path computes the same. -/
theorem horizontalScalarPath_ensures {b : Stamped ℕ (BitVec 16)}
    (hb : Filled r src y (r.srcWidth * r.srcChannels) b) {i : ℕ}
    (hi : i + 2 * r.srcChannels < r.srcWidth * r.srcChannels) :
    (horizontalScalarPath r b y i).Ensures fun res => Derivatives r src y i res.1 res.2 := by
  have hbounds := columnSum_bounds r src y
  have hhori : ∀ offset ≤ 2 * r.srcChannels, (b.get y (r.horiDerivBuffer.ptrAt 0 0
      (i + offset))).Ensures fun v => v.toInt = columnSum r src scharrSmoothing y (i + offset) := by
    intro offset hoffset
    rw [hori_eq]
    exact Stamped.get_ensures (hb _ (by omega)).1
  have hvert : ∀ offset ≤ 2 * r.srcChannels, (b.get y (r.vertDerivBuffer.ptrAt 0 0
      (i + offset))).Ensures fun v => v.toInt = columnSum r src difference y (i + offset) := by
    intro offset hoffset
    rw [vert_eq]
    exact Stamped.get_ensures (hb _ (by omega)).2
  refine (hhori (r.srcChannels * 2) (by omega)).bind fun hori2 h2 => ?_
  refine (hhori 0 (Nat.zero_le _)).bind fun hori0 h0 => ?_
  have hb0 := hbounds (i + 0)
  have hb1 := hbounds (i + r.srcChannels)
  have hb2 := hbounds (i + r.srcChannels * 2)
  refine (Tracked.sword_ensures (by decide) (by rw [h2, h0]; omega) (by rw [h2, h0]; omega)).bind
    fun hori hhoriRes => ?_
  refine (hvert 0 (Nat.zero_le _)).bind fun vert0 v0 => ?_
  refine (hvert (r.srcChannels * 2) (by omega)).bind fun vert2 v2 => ?_
  refine (hvert r.srcChannels (by omega)).bind fun vert1 v1 => ?_
  refine (Tracked.sword_ensures (by decide) (by rw [v0, v1, v2]; omega)
    (by rw [v0, v1, v2]; omega)).bind fun vert hvertRes => .pure ⟨?_, ?_⟩
  · rw [hhoriRes, h0, h2, weigh_difference]
    simp [Nat.mul_comm]
  · rw [hvertRes, v0, v1, v2, weigh_scharrSmoothing]
    simp only [Nat.zero_mul, Nat.one_mul, Nat.mul_comm 2]
    ring

/-- Element `e` of row `y` of the result. -/
def pairElement (r : ScharrCall) (src : ℕ → BitVec 8) (y e : ℕ) : BitVec 16 :=
  BitVec.ofInt 16 <|
    if e % 2 = 0 then
      weigh difference fun t => columnSum r src scharrSmoothing y (e / 2 + t * r.srcChannels)
    else weigh scharrSmoothing fun t => columnSum r src difference y (e / 2 + t * r.srcChannels)

theorem Derivatives.eq_pairElement {e : ℕ} {hori vert : BitVec 16}
    (h : Derivatives r src y e hori vert) :
    hori = pairElement r src y (2 * e) ∧ vert = pairElement r src y (2 * e + 1) := by
  have heven : 2 * e / 2 = e := by omega
  have hodd : (2 * e + 1) / 2 = e := by omega
  constructor
  · rw [pairElement, if_pos (by omega), heven, ← h.1, BitVec.ofInt_toInt]
  · rw [pairElement, if_neg (by omega), hodd, ← h.2, BitVec.ofInt_toInt]

theorem dstRow_eq (index : ℕ) :
    (r.dstRows.atOffset y 0).ptrAt 0 0 index = r.dstRows.ptr + y * r.dstRows.stride + index :=
  Rows.ptrAt_row (Int.add_zero _) index

/-- **The pairs of a row are written**, and nothing else. -/
theorem processHorizontal_ensures {b : Stamped ℕ (BitVec 16)} (hw : 2 ≤ r.srcWidth)
    (hb : Filled r src y (r.srcWidth * r.srcChannels) b) (dst : ℕ → BitVec 16) :
    (processHorizontal r b y (pure dst)).Ensures fun dst' =>
      Wrote (r.dstRows.ptr + y * r.dstRows.stride + ·) (pairElement r src y)
        {e | e < 2 * ((r.srcWidth - 2) * r.srcChannels)} dst dst' := by
  have hlength : (r.srcWidth - 2) * r.srcChannels + 2 * r.srcChannels =
      r.srcWidth * r.srcChannels := by
    rw [← Nat.add_mul, Nat.sub_add_cancel hw]
  have h0 : (pure dst : Tracked _).Ensures fun dst' =>
      Wrote (r.dstRows.ptr + y * r.dstRows.stride + ·) (pairElement r src y) {e | e < 2 * 0} dst
        dst' :=
    .pure (Wrote.refl_of_empty dst fun e he => Nat.not_lt_zero e he)
  let inv (i : ℕ) (dst' : Tracked (ℕ → BitVec 16)) := dst'.Ensures fun dst' =>
    Wrote (r.dstRows.ptr + y * r.dstRows.stride + ·) (pairElement r src y) {e | e < 2 * i} dst dst'
  have hstart : Unrolled ((r.srcWidth - 2) * r.srcChannels) kBufferVecNumLanes inv
      (LoopUnroll2.start ((r.srcWidth - 2) * r.srcChannels) kBufferVecNumLanes, pure dst) := .start h0
  refine ((hstart.unrollTwice ?_).unrollOnce ?_).tail ?_
  · intro i dst' hi h
    have hi' : i + 2 * kBufferVecNumLanes ≤ (r.srcWidth - 2) * r.srcChannels := hi
    refine h.bind fun dst' h => ?_
    refine (horizontalVectorPath_ensures hb (i := i) (by omega)).bind fun resA hA => ?_
    refine (horizontalVectorPath_ensures hb (i := i + kBufferVecNumLanes) (by omega)).bind
      fun resB hB => .pure ?_
    rw [dstRow_eq, dstRow_eq]
    exact vst2q_wrote (fun lane => (hB lane).eq_pairElement)
      (vst2q_wrote (fun lane => (hA lane).eq_pairElement) h)
  · intro i dst' hi h
    have hi' : i + 1 * kBufferVecNumLanes ≤ (r.srcWidth - 2) * r.srcChannels := hi
    refine h.bind fun dst' h => ?_
    refine (horizontalVectorPath_ensures hb (i := i) (by omega)).bind fun res hres => .pure ?_
    rw [dstRow_eq]
    exact vst2q_wrote (fun lane => (hres lane).eq_pairElement) h
  · intro i dst' hi h
    have hi' : i < (r.srcWidth - 2) * r.srcChannels := hi
    refine h.bind fun dst' h => ?_
    refine (horizontalScalarPath_ensures hb (i := i) (by omega)).bind fun res hres => .pure ?_
    obtain ⟨hhori, hvert⟩ := hres.eq_pairElement
    have hinj : Set.InjOn (r.dstRows.ptr + y * r.dstRows.stride + ·) (Set.univ : Set ℕ) :=
      fun a _ b _ hab => Nat.add_left_cancel hab
    rw [dstRow_eq, dstRow_eq, hhori, hvert, Nat.mul_comm i 2]
    have hboth := (h.trans hinj (Set.subset_univ _) (Set.subset_univ _)
      (Wrote.update dst' (p := 2 * i) rfl)).trans hinj (Set.subset_univ _)
      (Set.subset_univ _) (Wrote.update _ (p := 2 * i + 1) rfl)
    refine hboth.congr ?_
    ext e
    simp only [Set.mem_union, Set.mem_ofPred_eq, Set.mem_singleton_iff]
    omega

/-- Row after row: each one finds its own sums in the buffers. -/
theorem process_ensures (hw : 2 ≤ r.srcWidth)
    (hstride : (r.srcWidth - 2) * (r.srcChannels * 2) ≤ r.dstRows.stride) (yBegin yEnd : ℕ)
    (buffer : Stamped ℕ (BitVec 16)) (dst : ℕ → BitVec 16) :
    (process r src yBegin yEnd (pure ⟨buffer, dst⟩)).Ensures fun s =>
      Wrote r.dstRows.address (fun p => pairElement r src p.1 p.2)
        (stripeElements ((r.srcWidth - 2) * (r.srcChannels * 2)) yBegin yEnd) dst s.dst := by
  have hlength : (r.srcWidth - 2) * (r.srcChannels * 2) =
      2 * ((r.srcWidth - 2) * r.srcChannels) := by ring
  have hrows : (process r src yBegin yEnd (pure ⟨buffer, dst⟩)).Ensures fun s =>
      Wrote r.dstRows.address (fun p => pairElement r src p.1 p.2)
        (stripeElements ((r.srcWidth - 2) * (r.srcChannels * 2)) yBegin
          (yBegin + (yEnd - yBegin))) dst s.dst := by
    refine forFrom_invariant (fun y (s : Tracked ScharrState) => s.Ensures fun s =>
      Wrote r.dstRows.address (fun p => pairElement r src p.1 p.2)
        (stripeElements ((r.srcWidth - 2) * (r.srcChannels * 2)) yBegin y) dst s.dst) ?_ ?_
    · exact .pure (Wrote.refl_of_empty dst fun p hp => Nat.not_lt.mpr hp.1 hp.2.1)
    · intro y _ _ s hs
      refine hs.bind fun s h => ?_
      refine (processVertical_ensures (y := y) (.pure trivial)).bind fun buffer hbuffer => ?_
      refine (processHorizontal_ensures hw hbuffer s.dst).bind fun dst' hrow => .pure ?_
      -- the row as elements of the image
      have hpiece : Wrote r.dstRows.address (fun p => pairElement r src p.1 p.2)
          {p | p.1 = y ∧ p.2 < (r.srcWidth - 2) * (r.srcChannels * 2)} s.dst dst' := by
        refine hrow.reindex (fun p => p.2) (fun p hp => ⟨hlength ▸ hp.2, ?_, ?_⟩) fun e he =>
          ⟨(y, e), ⟨rfl, hlength ▸ he⟩, rfl⟩
        · rw [Rows.address, hp.1]
        · rw [hp.1]
      refine (h.trans (Rows.address_injOn hstride) (fun p hp => hp.2.2) (fun p hp => hp.2)
        hpiece).congr ?_
      ext p
      simp only [stripeElements, Set.mem_union, Set.mem_ofPred_eq]
      omega
  refine hrows.imp fun s h => h.congr ?_
  ext p
  simp only [stripeElements, Set.mem_ofPred_eq]
  omega

end ScharrInterleaved

/-! ### Stripes -/

section

variable (r : ScharrCall) (kernel : ℕ → ℕ → ℤ) (src : ℕ → BitVec 8)

/-- The weights of the horizontal derivative. -/
def scharrHorizontalKernel (i j : ℕ) : ℤ :=
  ([[-3, 0, 3], [-10, 0, 10], [-3, 0, 3]].getD i []).getD j 0

/-- The weights of the vertical derivative. -/
def scharrVerticalKernel (i j : ℕ) : ℤ :=
  ([[-3, -10, -3], [0, 0, 0], [3, 10, 3]].getD i []).getD j 0

/-- The derivative of the image at an interior pixel, exact. -/
def ScharrCall.derivative (y x c : ℕ) : ℤ :=
  ∑ i ∈ Finset.range 3, ∑ j ∈ Finset.range 3,
    kernel i j * (src (r.srcRows.ptrAt ((y : ℤ) + i - 1) ((x : ℤ) + j - 1) c)).toNat

/-- From `m` to `m'`, the pairs of derivatives of the interior pixels that belong to the output
rows from `yBegin` up to `yEnd` were written, and nothing else. -/
structure ScharrCall.DerivedRows (yBegin yEnd : ℕ) (m m' : ℕ → BitVec 16) : Prop where
  hori : ∀ y x c, 1 ≤ y → yBegin ≤ y - 1 → y - 1 < yEnd → 1 ≤ x → x < r.srcWidth - 1 →
    c < r.srcChannels → (m' (r.dstRows.ptrAt (y - 1 : ℕ) (x - 1 : ℕ) (2 * c))).toInt =
      r.derivative scharrHorizontalKernel src y x c
  vert : ∀ y x c, 1 ≤ y → yBegin ≤ y - 1 → y - 1 < yEnd → 1 ≤ x → x < r.srcWidth - 1 →
    c < r.srcChannels → (m' (r.dstRows.ptrAt (y - 1 : ℕ) (x - 1 : ℕ) (2 * c + 1))).toInt =
      r.derivative scharrVerticalKernel src y x c
  frame : ∀ a, (∀ y x c : ℕ, yBegin ≤ y → y < yEnd → x < r.srcWidth - 2 →
    c < r.srcChannels * 2 → r.dstRows.ptrAt y x c ≠ a) → m' a = m a

end

section

variable {r : ScharrCall} {src : ℕ → BitVec 8} {kernel : ℕ → ℕ → ℤ} {kernelY kernelX : ℕ → ℤ}

open ScharrInterleaved

/-- The sums of three columns make up a derivative. -/
theorem ScharrCall.derivative_eq
    (hkernel : ∀ i < 3, ∀ j < 3, kernel i j = kernelY i * kernelX j) (y x c : ℕ) :
    r.derivative kernel src (y + 1) (x + 1) c =
      weigh kernelX fun t => columnSum r src kernelY y (x * r.srcChannels + c + t * r.srcChannels) := by
  have hptr : ∀ i j : ℕ, r.srcRows.ptrAt (((y + 1 : ℕ) : ℤ) + i - 1) (((x + 1 : ℕ) : ℤ) + j - 1) c =
      r.srcRows.address (y + i, x * r.srcChannels + c + j * r.srcChannels) := by
    intro i j
    have hrow : ((y + 1 : ℕ) : ℤ) + i - 1 = (y + i : ℕ) := by push_cast; ring
    have hcolumn : ((x + 1 : ℕ) : ℤ) + j - 1 = (x + j : ℕ) := by push_cast; ring
    rw [hrow, hcolumn, Rows.ptrAt_natCast, Rows.address, show r.srcRows.channels = r.srcChannels from rfl]
    ring
  simp only [ScharrCall.derivative, columnSum, weigh, Finset.mul_sum, hptr]
  rw [Finset.sum_comm]
  refine Finset.sum_congr rfl fun j hj => Finset.sum_congr rfl fun i hi => ?_
  rw [hkernel i (Finset.mem_range.mp hi) j (Finset.mem_range.mp hj)]
  ring

theorem scharrHorizontalKernel_eq : ∀ i < 3, ∀ j < 3,
    scharrHorizontalKernel i j = scharrSmoothing i * difference j := by
  decide

theorem scharrVerticalKernel_eq : ∀ i < 3, ∀ j < 3,
    scharrVerticalKernel i j = difference i * scharrSmoothing j := by
  decide

/-- The elements of a pair. -/
theorem pairElement_toInt (y x c : ℕ) :
    (pairElement r src y (2 * (x * r.srcChannels + c))).toInt =
        r.derivative scharrHorizontalKernel src (y + 1) (x + 1) c ∧
      (pairElement r src y (2 * (x * r.srcChannels + c) + 1)).toInt =
        r.derivative scharrVerticalKernel src (y + 1) (x + 1) c := by
  have hbounds := columnSum_bounds r src y
  have h0 := hbounds (x * r.srcChannels + c + 0 * r.srcChannels)
  have h1 := hbounds (x * r.srcChannels + c + 1 * r.srcChannels)
  have h2 := hbounds (x * r.srcChannels + c + 2 * r.srcChannels)
  rw [ScharrCall.derivative_eq scharrHorizontalKernel_eq,
    ScharrCall.derivative_eq scharrVerticalKernel_eq, weigh_difference, weigh_scharrSmoothing,
    pairElement, pairElement, if_pos (by omega), if_neg (by omega),
    show (2 * (x * r.srcChannels + c) + 1) / 2 = x * r.srcChannels + c by omega,
    show 2 * (x * r.srcChannels + c) / 2 = x * r.srcChannels + c by omega, weigh_difference,
    weigh_scharrSmoothing]
  constructor
  · exact BitVec.toInt_ofInt_eq_self (by decide) (by omega) (by omega)
  · exact BitVec.toInt_ofInt_eq_self (by decide) (by omega) (by omega)

theorem ScharrCall.derivedRows_of_wrote {yBegin yEnd : ℕ} {m m' : ℕ → BitVec 16}
    (h : Wrote r.dstRows.address (fun p => pairElement r src p.1 p.2)
      (stripeElements ((r.srcWidth - 2) * (r.srcChannels * 2)) yBegin yEnd) m m') :
    r.DerivedRows src yBegin yEnd m m' := by
  obtain ⟨hpixels, hframe⟩ : (∀ y x c, yBegin ≤ y → y < yEnd → x < r.srcWidth - 2 →
      c < r.dstRows.channels → m' (r.dstRows.ptrAt y x c) =
        pairElement r src y (x * r.dstRows.channels + c)) ∧ _ := stripe_pixels h
  have hindex : ∀ x c, x * r.dstRows.channels + c = x * (r.srcChannels * 2) + c := fun _ _ => rfl
  refine ⟨fun y x c hy h1 h2 hx hx' hc => ?_, fun y x c hy h1 h2 hx hx' hc => ?_, hframe⟩
  · obtain ⟨y, rfl⟩ := Nat.exists_eq_add_of_le' hy
    obtain ⟨x, rfl⟩ := Nat.exists_eq_add_of_le' hx
    rw [Nat.add_sub_cancel] at h1 h2 ⊢
    rw [Nat.add_sub_cancel, hpixels y x (2 * c) h1 h2 (by omega)
      (show 2 * c < r.srcChannels * 2 by omega), hindex, ← (pairElement_toInt y x c).1]
    congr 2
    ring
  · obtain ⟨y, rfl⟩ := Nat.exists_eq_add_of_le' hy
    obtain ⟨x, rfl⟩ := Nat.exists_eq_add_of_le' hx
    rw [Nat.add_sub_cancel] at h1 h2 ⊢
    rw [Nat.add_sub_cancel, hpixels y x (2 * c + 1) h1 h2 (by omega)
      (show 2 * c + 1 < r.srcChannels * 2 by omega), hindex, ← (pairElement_toInt y x c).2]
    congr 2
    ring

theorem scharrInterleavedValidate_ok (h : scharrInterleavedValidate r = .ok) :
    3 ≤ r.srcWidth ∧ 3 ≤ r.srcHeight ∧ 1 ≤ r.srcChannels ∧
      r.srcWidth * r.srcHeight ≤ kleidicvMaxImagePixels := by
  unfold scharrInterleavedValidate at h
  split_ifs at h with hsmall hsrc hdst hsize
  · exact absurd h hsrc
  · exact absurd h hdst
  · refine ⟨by omega, by omega, by omega, ?_⟩
    rw [← checkImageSize_iff]
    simpa using hsize

/-- A stripe, from memory as it is. -/
theorem scharrInterleavedStripe_ensures (hvalid : scharrInterleavedValidate r = .ok)
    (hstride : (r.srcWidth - 2) * (r.srcChannels * 2) ≤ r.dstRows.stride) (yBegin yEnd : ℕ)
    (bytes : ℕ → BitVec 8) (m : ℕ → BitVec 16) :
    (scharrInterleavedStripeS16U8 r yBegin yEnd (some bytes) src (pure m)).2.Ensures fun m' =>
      Wrote r.dstRows.address (fun p => pairElement r src p.1 p.2)
        (stripeElements ((r.srcWidth - 2) * (r.srcChannels * 2)) yBegin yEnd) m m' := by
  have hw := (scharrInterleavedValidate_ok hvalid).1
  have hpure : (pure m : Tracked (ℕ → BitVec 16)).Ensures (· = m) := .pure rfl
  refine hpure.bind ?_
  rintro _ rfl
  exact (process_ensures (by omega) hstride yBegin yEnd _ _).bind fun s hs => .pure hs

/-- Stripes in any order, each with an allocation of its own. -/
theorem scharrInterleavedStripes_ensures (hvalid : scharrInterleavedValidate r = .ok)
    (hstride : (r.srcWidth - 2) * (r.srcChannels * 2) ≤ r.dstRows.stride) {l : List (ℕ × ℕ)}
    (hl : IsPartition (r.srcHeight - 2) l) (bytes : ℕ × ℕ → ℕ → BitVec 8) (m : ℕ → BitVec 16) :
    (l.foldl (fun m s => (scharrInterleavedStripeS16U8 r s.1 s.2 (some (bytes s)) src m).2)
      (pure m)).Ensures fun m' =>
        Wrote r.dstRows.address (fun p => pairElement r src p.1 p.2)
          (stripeElements ((r.srcWidth - 2) * (r.srcChannels * 2)) 0 (r.srcHeight - 2)) m m' := by
  have hstripe := fun (s : ℕ × ℕ) m =>
    @scharrInterleavedStripe_ensures r src hvalid hstride s.1 s.2 (bytes s) m
  refine (Tracked.foldl_ensures (fun s _ m => (hstripe s m).1) m).imp ?_
  rintro _ rfl
  exact stripes_wrote r.dstRows hstride hl (fun s _ m => (hstripe s m).2) m

/-- **Every pair of a stripe holds the exact derivatives of its interior pixel.**  No value
leaves 16 bits, every element read from the row buffers was stored for the same row, and any
cut into stripes gives what one stripe of all rows does. -/
theorem scharrInterleaved_correct (hvalid : scharrInterleavedValidate r = .ok)
    (hstride : (r.srcWidth - 2) * (r.srcChannels * 2) ≤ r.dstRows.stride) :
    (∀ yBegin yEnd bytes m, ∃ run,
      scharrInterleavedStripeS16U8 r yBegin yEnd (some bytes) src (pure m) = (.ok, run) ∧
        run.Ensures (r.DerivedRows src yBegin yEnd m)) ∧
    (∀ (bytes : ℕ × ℕ → ℕ → BitVec 8) wholeBytes m l, IsPartition (r.srcHeight - 2) l →
      ((l.foldl (fun m s => (scharrInterleavedStripeS16U8 r s.1 s.2 (some (bytes s)) src m).2)
          (pure m)).Ensures (r.DerivedRows src 0 (r.srcHeight - 2) m)) ∧
      (l.foldl (fun m s => (scharrInterleavedStripeS16U8 r s.1 s.2 (some (bytes s)) src m).2)
          (pure m)).value =
        (scharrInterleavedStripeS16U8 r 0 (r.srcHeight - 2) (some wholeBytes) src (pure m)).2.value) ∧
    (∀ (bytes : ℕ × ℕ → ℕ → BitVec 8) mt m, ∃ run,
      kleidicvThreadScharrInterleavedS16U8 r (fun s => some (bytes s)) src mt (pure m) = (.ok, run) ∧
        run.Ensures (r.DerivedRows src 0 (r.srcHeight - 2) m)) ∧
    ∀ allocation m, kleidicvScharrInterleavedS16U8 r allocation src m =
      scharrInterleavedStripeS16U8 r 0 (r.srcHeight - 2) allocation src m := by
  have hnot : ¬scharrInterleavedValidate r ≠ .ok := not_not.mpr hvalid
  refine ⟨fun yBegin yEnd bytes m => ⟨_, rfl, ?_⟩, fun bytes wholeBytes m l hl => ⟨?_, ?_⟩,
    fun bytes mt m => ?_, fun allocation m => if_neg hnot⟩
  · exact (scharrInterleavedStripe_ensures hvalid hstride yBegin yEnd bytes m).imp fun _ h =>
      ScharrCall.derivedRows_of_wrote h
  · exact (scharrInterleavedStripes_ensures hvalid hstride hl bytes m).imp fun _ h =>
      ScharrCall.derivedRows_of_wrote h
  · exact (scharrInterleavedStripes_ensures hvalid hstride hl bytes m).2.eq_of
      (scharrInterleavedStripe_ensures hvalid hstride 0 (r.srcHeight - 2) wholeBytes m).2
  · obtain ⟨hw, hh, -, himage⟩ := scharrInterleavedValidate_ok hvalid
    have hhmax : r.srcHeight ≤ r.srcWidth * r.srcHeight := Nat.le_mul_of_pos_left _ (by omega)
    have hmax : kleidicvMaxImagePixels < sizeMod := by decide
    have hl : IsPartition (r.srcHeight - 2) (parallelBatches (r.srcHeight - 2) 1 mt.tasks) :=
      parallelBatches_isPartition (by omega) (by omega) mt.tasks
    have hcall : ∀ yBegin yEnd s,
        scharrInterleavedStripeS16U8 r yBegin yEnd (some (bytes (yBegin, yEnd))) src s =
          (.ok, (scharrInterleavedStripeS16U8 r yBegin yEnd (some (bytes (yBegin, yEnd))) src s).2) :=
      fun _ _ _ => rfl
    refine ⟨_, (if_neg hnot).trans (runParallelBatches_of_ok _ mt (pure m) hcall), ?_⟩
    exact (scharrInterleavedStripes_ensures hvalid hstride hl bytes m).imp fun _ h =>
      ScharrCall.derivedRows_of_wrote h

/-- One row of a small image with two channels. -/
theorem scharrInterleaved_correct_small : ∃ run,
    scharrInterleavedStripeS16U8 ⟨100, 10, 5, 4, 2, 200, 24⟩ 1 2 (some fun _ => 7)
        (fun a => BitVec.ofNat 8 a) (pure fun _ => 0) = (.ok, run) ∧
      run.Ensures (ScharrCall.DerivedRows ⟨100, 10, 5, 4, 2, 200, 24⟩ (fun a => BitVec.ofNat 8 a) 1 2
        fun _ => 0) :=
  (scharrInterleaved_correct (r := ⟨100, 10, 5, 4, 2, 200, 24⟩) (by decide) (by decide)).1 1 2
    (fun _ => 7) fun _ => 0

end

end KleidiCV
