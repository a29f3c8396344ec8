/-
Where the remaining kernels of `resize_linear` for `uint8_t` store: the generic
kernels, for scales from a third on, and `resize_to_quarter_u8`, for one half.

What is stored is left open, as functions of the row, the vector in it and the
lane; the vectors and their addresses are those of the kernels.

* `resizeGenericStripeU8_unchanged`, `resizeToQuarterU8_unchanged` — stores stay
  inside the image.
-/
import KleidiCV.LoopUnroll2
import KleidiCV.Neon
import KleidiCV.SeparableWorkspace

open Loop

namespace KleidiCV

namespace ResizeGenericU8

/-- `kStep`. -/
def kStep : ℕ := 16

/-- `kHalfStep`. -/
def kHalfStep : ℕ := kStep / 2

/-- `calculate_num_of_vector_paths`: pairs of vectors, and half vectors. -/
def calculateNumOfVectorPaths (kRatio kChannels srcWidth dstWidth : ℕ) : ℕ × ℕ :=
  let twoX :=
    if kRatio * kStep ≤ srcWidth * kChannels then dstWidth * kChannels / (2 * kStep) else 0
  let remaining := dstWidth * kChannels - twoX * 2 * kStep
  (twoX, (remaining + (kHalfStep - 1)) / kHalfStep)

/-- A cursor that starts at `start`, advances by `step` and is pulled back to
`last`. -/
def pulledBack (start step last : ℕ) : ℕ → ℕ
  | 0 => min start last
  | i + 1 => min (pulledBack start step last i + step) last

/-- `dst_element_index` of half vector `i`. -/
def halfVectorDst (kChannels dstWidth twoX i : ℕ) : ℕ :=
  if kChannels = 3 then
    -- The generator for three channels counts elements, the others count pixels.
    pulledBack (twoX * 2 * kStep) kHalfStep (sizeSub (dstWidth * kChannels) kHalfStep) i
  else
    pulledBack (twoX * 2 * (kStep / kChannels)) (kHalfStep / kChannels)
      (sizeSub dstWidth (kHalfStep / kChannels)) i * kChannels

/-- `process_row`, with the interpolated vectors. -/
def processRow (kRatio kChannels srcWidth dstWidth : ℕ) (full half : ℕ → ℕ → U8) (row : ℕ)
    (m : Mem) : Mem :=
  let num := calculateNumOfVectorPaths kRatio kChannels srcWidth dstWidth
  m |>
    forRange num.1 (fun i m =>
      vst1q m (row + i * (2 * kStep)) fun lane : Fin (2 * kStep) => full i lane) |>
    forRange num.2 (fun i m =>
      vst1q m (row + halfVectorDst kChannels dstWidth num.1 i) fun lane : Fin kHalfStep =>
        half i lane)

end ResizeGenericU8

/-- The elements that a call computes, by row, vector and lane. -/
structure ResizedU8 where
  full : ℕ → ℕ → ℕ → U8
  half : ℕ → ℕ → ℕ → U8
  quarterVector : ℕ → ℕ → ℕ → U8
  quarterScalar : ℕ → ℕ → ℕ → U8

open ResizeGenericU8 in
/-- `kleidicv_resize_generic_stripe_u8<kRatio, kChannels>`; `malloc` tells which
sizes can be allocated. -/
def kleidicvResizeGenericStripeU8 (kRatio kChannels : ℕ) (malloc : ℕ → Bool) (resized : ResizedU8)
    (srcWidth yBegin yEnd dst dstStride dstWidth : ℕ) (m : Mem) : KleidicvError × Mem :=
  let num := calculateNumOfVectorPaths kRatio kChannels srcWidth dstWidth
  -- The sizes of the constants of a full and of a half vector.
  if malloc (num.1 * 2 * 72 + num.2 * 48) then
    (.ok, forFrom yBegin (yEnd - yBegin) (fun dstY =>
      processRow kRatio kChannels srcWidth dstWidth (resized.full dstY) (resized.half dstY)
        (dst + dstY * dstStride)) m)
  else (.allocation, m)

/-- `resize_to_quarter_u8`. -/
def kleidicvResizeToQuarterU8 (kChannels : ℕ) (resized : ResizedU8)
    (srcWidth srcHeight dst dstStride : ℕ) (m : Mem) : KleidicvError × Mem :=
  let kDstStep := 16 * (if kChannels = 3 then 3 else 2)
  let kSrcStep := 2 * kDstStep
  let vectors := srcWidth * kChannels / kSrcStep
  -- An odd number of pixels cannot be left, so the count of the last loop is exact.
  let pixels := (srcWidth * kChannels - vectors * kSrcStep) / (2 * kChannels)
  (.ok, (LoopUnroll2.unrollOnce (fun index m =>
      let row := dst + index / 2 * dstStride
      m |>
        forRange vectors (fun k m =>
          vst1q m (row + k * kDstStep) fun lane : Fin kDstStep =>
            resized.quarterVector index k lane) |>
        forRange pixels (fun x => forRange kChannels fun ch m =>
          Function.update m (row + vectors * kDstStep + x * kChannels + ch)
            (resized.quarterScalar index x ch)))
    (LoopUnroll2.start srcHeight 2, m)).2)

/-! ### Inside the image -/

section

variable {rows : Rows} {kRatio kChannels srcWidth srcHeight dstWidth dstHeight : ℕ}

namespace ResizeGenericU8

theorem pulledBack_le (start step last i : ℕ) : pulledBack start step last i ≤ last := by
  cases i with
  | zero => exact min_le_right _ _
  | succ i => exact min_le_right _ _

/-- A half vector ends with the row at the latest. -/
theorem halfVectorDst_le (hch : kChannels ∈ [1, 2, 3, 4])
    (hwidth : kHalfStep ≤ dstWidth * kChannels) (hsize : dstWidth * kChannels < sizeMod)
    (twoX i : ℕ) :
    halfVectorDst kChannels dstWidth twoX i + kHalfStep ≤ dstWidth * kChannels := by
  rw [halfVectorDst]
  split
  · have hle := pulledBack_le (twoX * 2 * kStep) kHalfStep
      (dstWidth * kChannels - kHalfStep) i
    rw [sizeSub_eq hwidth hsize]
    omega
  · rename_i hthree
    have hdiv : kHalfStep / kChannels * kChannels = kHalfStep := by
      fin_cases hch <;> first | rfl | exact absurd rfl hthree
    have hpos : 0 < kChannels := by
      fin_cases hch <;> decide
    have hfit : kHalfStep / kChannels ≤ dstWidth :=
      Nat.div_le_of_le_mul (by rwa [Nat.mul_comm])
    have hle := pulledBack_le (twoX * 2 * (kStep / kChannels)) (kHalfStep / kChannels)
      (dstWidth - kHalfStep / kChannels) i
    rw [sizeSub_eq hfit (lt_of_le_of_lt (Nat.le_mul_of_pos_right _ hpos) hsize)]
    calc _ + kHalfStep ≤ (dstWidth - kHalfStep / kChannels) * kChannels + kHalfStep :=
          Nat.add_le_add_right (Nat.mul_le_mul_right _ hle) _
      _ = dstWidth * kChannels := by
          rw [Nat.sub_mul, hdiv, Nat.sub_add_cancel hwidth]

theorem processRow_unchanged (hch : kChannels ∈ [1, 2, 3, 4])
    (hwidth : kHalfStep ≤ dstWidth * kChannels) (hsize : dstWidth * kChannels < sizeMod) {y : ℕ} (hy : y < dstHeight) (full half : ℕ → ℕ → U8)
    (m : Mem) :
    UnchangedOutside (rows.image (dstWidth * kChannels) dstHeight) m
      (processRow kRatio kChannels srcWidth dstWidth full half (rows.ptr + y * rows.stride) m) := by
  refine UnchangedOutside.trans (UnchangedOutside.forRange (fun i hi m => ?_) m)
    (UnchangedOutside.forRange (fun i _ m => ?_) _)
  · have htwo : (calculateNumOfVectorPaths kRatio kChannels srcWidth dstWidth).1 * (2 * kStep) ≤
        dstWidth * kChannels := by
      simp only [calculateNumOfVectorPaths]
      split
      · exact Nat.div_mul_le_self _ _
      · rw [Nat.zero_mul]
        exact Nat.zero_le _
    have hend := Nat.mul_le_mul_right (2 * kStep) (show i + 1 ≤ _ from hi)
    rw [Nat.succ_mul] at hend
    exact rows.vst1q_unchanged rfl hy (hend.trans htwo) _ m
  · exact rows.vst1q_unchanged rfl hy (halfVectorDst_le hch hwidth hsize _ i) _ m

end ResizeGenericU8

variable (rows) in
theorem resizeGenericStripeU8_unchanged (hch : kChannels ∈ [1, 2, 3, 4])
    (hwidth : 8 ≤ dstWidth * kChannels) (hsize : dstWidth * kChannels < sizeMod)
    {malloc : ℕ → Bool} {resized : ResizedU8} {yBegin yEnd : ℕ} (hend : yEnd ≤ dstHeight)
    (m : Mem) :
    UnchangedOutside (rows.image (dstWidth * kChannels) dstHeight) m
      (kleidicvResizeGenericStripeU8 kRatio kChannels malloc resized srcWidth yBegin yEnd rows.ptr
        rows.stride dstWidth m).2 := by
  simp only [kleidicvResizeGenericStripeU8]
  split
  · dsimp only
    refine UnchangedOutside.forFrom (fun y h1 h2 m => ?_) m
    exact ResizeGenericU8.processRow_unchanged hch hwidth hsize (by omega) _ _ m
  · exact UnchangedOutside.refl m

variable (rows) in
theorem resizeToQuarterU8_unchanged (hsrc : srcWidth = 2 * dstWidth)
    (hheight : srcHeight = 2 * dstHeight) {resized : ResizedU8} (m : Mem) :
    UnchangedOutside (rows.image (dstWidth * kChannels) dstHeight) m
      (kleidicvResizeToQuarterU8 kChannels resized srcWidth srcHeight rows.ptr rows.stride m).2 := by
  unfold kleidicvResizeToQuarterU8
  dsimp only
  set kDstStep := 16 * (if kChannels = 3 then 3 else 2)
  set vectors := srcWidth * kChannels / (2 * kDstStep) with hvectors
  set pixels := (srcWidth * kChannels - vectors * (2 * kDstStep)) / (2 * kChannels) with hpixels
  have hsrcRow : srcWidth * kChannels = 2 * (dstWidth * kChannels) := by
    rw [hsrc, Nat.mul_assoc]
  have hvectorsEnd : vectors * kDstStep ≤ dstWidth * kChannels := by
    have := Nat.div_mul_le_self (srcWidth * kChannels) (2 * kDstStep)
    rw [← hvectors, Nat.mul_left_comm] at this
    omega
  have hpixelsEnd : vectors * kDstStep + pixels * kChannels ≤ dstWidth * kChannels := by
    have := Nat.div_mul_le_self (srcWidth * kChannels - vectors * (2 * kDstStep)) (2 * kChannels)
    rw [← hpixels, Nat.mul_left_comm, Nat.mul_left_comm vectors] at this
    omega
  have hstart : Unrolled srcHeight 2 (fun _ m' =>
      UnchangedOutside (rows.image (dstWidth * kChannels) dstHeight) m m')
      (LoopUnroll2.start srcHeight 2, m) := Unrolled.start (UnchangedOutside.refl m)
  refine (hstart.unrollNTimes fun index m' hindex h => h.trans ?_).holds
  have hy : index / 2 < dstHeight := by omega
  refine UnchangedOutside.trans (UnchangedOutside.forRange (fun k hk m => ?_) m')
    (UnchangedOutside.forRange (fun x hx m => ?_) _)
  · have hend := Nat.mul_le_mul_right kDstStep (show k + 1 ≤ vectors from hk)
    rw [Nat.succ_mul] at hend
    exact rows.vst1q_unchanged rfl hy (hend.trans hvectorsEnd) _ m
  · have hend := Nat.mul_le_mul_right kChannels (show x + 1 ≤ pixels from hx)
    rw [Nat.succ_mul] at hend
    rw [forRange_update (g := resized.quarterScalar index x), Nat.add_assoc (rows.ptr + _)]
    exact rows.overwrite_unchanged hy (by omega) _ m

end

end KleidiCV
