/-
`kleidicv_scale_u8` and its threaded version, for integer-valued scale and
shift.

Small images are computed directly (`ScaleUint8Calc`), larger ones and threaded
calls through a table of all 256 results (`ScaleUint8Tbx`).  A `float` or
`double` that holds an integer is that integer, and an operation on two of them
rounds the exact result to 24 or 53 significant bits.

* `precalculateScaleTableU8_eq`, `scaleUint8Tbx_vectorPath` — the table path
  saturates;
* `scaleUint8Calc_vectorPath`, `calcLane_eq_iff` — the direct vector path drops
  the upper half of a 32-bit result, and saturates exactly when that half does
  not matter;
* `scale_exact_iff` — when every pixel of an image gets the saturated result.
-/
import KleidiCV.Lib.Rounding
import KleidiCV.Multithreading
import KleidiCV.UnaryOperation

open Loop Rounding

namespace KleidiCV

/-! ### Scalar arithmetic -/

/-- The conversion of an integer value to `float`. -/
def toFloat (z : ℤ) : ℤ := roundInt 24 z

/-- The conversion of an integer value to `double`. -/
def toDouble (z : ℤ) : ℤ := roundInt 53 z

/-- `scale_value<uint8_t>`; `scale` and `shift` are doubles. -/
def scaleValue (value : U8) (scale shift : ℤ) : U8 :=
  -- `lrintf` takes a float; its result is exact.
  let v := toFloat (toDouble (toDouble (toFloat value * scale) + shift))
  if v % sizeMod ≤ 255 then Fin.ofNat 256 (v % sizeMod).toNat
  else if 0 < v then 255 else 0

/-! ### Vector arithmetic -/

/-- `vcvtq_f32_u32`. -/
def vcvtqF32U32 (v : Fin 4 → U32) : Fin 4 → ℤ := fun i => toFloat (v i).val

/-- `vmlaq_f32`. -/
def vmlaqF32 (a b c : Fin 4 → ℤ) : Fin 4 → ℤ := fun i => toFloat (a i + toFloat (b i * c i))

/-- One lane of `vcvtnq_u32_f32`, which saturates. -/
def saturateU32 (z : ℤ) : U32 := ⟨(min 4294967295 (max 0 z)).toNat, by omega⟩

/-- `vcvtnq_u32_f32`. -/
def vcvtnqU32F32 (v : Fin 4 → ℤ) : Fin 4 → U32 := fun i => saturateU32 (v i)

/-- The narrowing at the end of a vector of results: the lower halves of the
32-bit lanes, then saturation from 16 to 8 bits. -/
def narrow (res11 res12 res21 res22 : Fin 4 → U32) : U8x16 :=
  let res1 := vuzp1qU16 (vreinterpretqU16U32 res11) (vreinterpretqU16U32 res12)
  let res2 := vuzp1qU16 (vreinterpretqU16U32 res21) (vreinterpretqU16U32 res22)
  vqmovnHighU16 (vqmovnU16 res1) res2

namespace ScaleUint8Calc

def w0 : U8x16 := ![0, 255, 255, 255, 1, 255, 255, 255, 2, 255, 255, 255, 3, 255, 255, 255]
def w1 : U8x16 := ![4, 255, 255, 255, 5, 255, 255, 255, 6, 255, 255, 255, 7, 255, 255, 255]
def w2 : U8x16 := ![8, 255, 255, 255, 9, 255, 255, 255, 10, 255, 255, 255, 11, 255, 255, 255]
def w3 : U8x16 := ![12, 255, 255, 255, 13, 255, 255, 255, 14, 255, 255, 255, 15, 255, 255, 255]

/-- `ScaleUint8Calc::scale_shift`; `scale` and `shift` are floats. -/
def scaleShift (scale shift : ℤ) (src : U8x16) : Fin 4 → U32 :=
  let fx := vcvtqF32U32 (vreinterpretqU32U8 src)
  vcvtnqU32F32 (vmlaqF32 (fun _ => shift) fx (fun _ => scale))

def vectorPath (scale shift : ℤ) (src : U8x16) : U8x16 :=
  let res11 := scaleShift scale shift (vqtbl src w0)
  let res12 := scaleShift scale shift (vqtbl src w1)
  let res21 := scaleShift scale shift (vqtbl src w2)
  let res22 := scaleShift scale shift (vqtbl src w3)
  narrow res11 res12 res21 res22

end ScaleUint8Calc

/-- `ScaleUint8Calc`. -/
def scaleUint8Calc (scale shift : ℤ) : UnaryOperation where
  vectorPath := ScaleUint8Calc.vectorPath scale shift
  scalarPath := fun src => scaleValue src scale shift

/-- `scale_shift` of the table, clamped to `[0, 255]` before the conversion. -/
def scaleShift (src : Fin 4 → U32) (scale shift : ℤ) : Fin 4 → U32 :=
  let fx := vcvtqF32U32 src
  let val := vmlaqF32 (fun _ => shift) fx (fun _ => scale)
  vcvtnqU32F32 fun i => max 0 (min (val i) 255)

/-- One iteration of `precalculate_scale_table_u8`: 16 entries of the table. -/
def precalculateStep (scale shift : ℤ) (i : ℕ) (state : (Fin 4 → U32) × Mem) :
    (Fin 4 → U32) × Mem :=
  let (counter, table) := state
  let res11 := scaleShift counter scale shift
  let counter := fun lane => counter lane + 4
  let res12 := scaleShift counter scale shift
  let counter := fun lane => counter lane + 4
  let res21 := scaleShift counter scale shift
  let counter := fun lane => counter lane + 4
  let res22 := scaleShift counter scale shift
  let counter := fun lane => counter lane + 4
  (counter, vst1qU8 table i (narrow res11 res12 res21 res22))

/-- `precalculate_scale_table_u8`; the array starts at address 0 of its own
memory. -/
def precalculateScaleTableU8 (dscale dshift : ℤ) : Fin 256 → U8 :=
  let scale := toFloat dscale
  let shift := toFloat dshift
  let state := forRange (256 / 16) (fun k => precalculateStep scale shift (16 * k))
    ((![0, 1, 2, 3] : Fin 4 → U32), fun _ => 0)
  fun i => state.2 i

namespace ScaleUint8Tbx

/-- `n` consecutive vectors of the table, from entry `start` on. -/
def load (table : Fin 256 → U8) (start n : ℕ) (h : start + n ≤ 256) : Fin n → U8 := fun i =>
  table ⟨start + i, by omega⟩

def vectorPath (table : Fin 256 → U8) (src : U8x16) : U8x16 :=
  let t0_3 := load table 0 48 (by omega)
  let t1_3 := load table 48 48 (by omega)
  let t2_2 := load table 96 32 (by omega)
  let t3_3 := load table 128 48 (by omega)
  let t4_2 := load table 176 32 (by omega)
  let t5_3 := load table 208 48 (by omega)
  let vStep3 := vdupqNU8 48
  let vStep2 := vdupqNU8 32
  let dst := vqtbl t0_3 src
  let src := vsubqU8 src vStep3
  let dst := vqtbx dst t1_3 src
  let src := vsubqU8 src vStep3
  let dst := vqtbx dst t2_2 src
  let src := vsubqU8 src vStep2
  let dst := vqtbx dst t3_3 src
  let src := vsubqU8 src vStep3
  let dst := vqtbx dst t4_2 src
  let src := vsubqU8 src vStep2
  vqtbx dst t5_3 src

end ScaleUint8Tbx

/-- `ScaleUint8Tbx`. -/
def scaleUint8Tbx (table : Fin 256 → U8) : UnaryOperation where
  vectorPath := ScaleUint8Tbx.vectorPath table
  scalarPath := table

/-! ### The entry points -/

/-- `scale_with_precalculated_table_u8`. -/
def scaleWithPrecalculatedTableU8 (b : Buffers) (width height : ℕ) (table : Fin 256 → U8)
    (m : Mem) : KleidicvError × Mem :=
  (.ok, applyOperationByRows (scaleUint8Tbx table) b width height m)

/-- `kleidicv_scale_u8`; a pointer is null when it is 0. -/
def kleidicvScaleU8 (b : Buffers) (width height : ℕ) (scale shift : ℤ) (m : Mem) :
    KleidicvError × Mem :=
  if b.src = 0 then (.nullPointer, m)
  else if b.dst = 0 then (.nullPointer, m)
  else if !checkImageSize width height then (.range, m)
  else if width * height < 675 then
    (.ok, applyOperationByRows (scaleUint8Calc (toFloat scale) (toFloat shift)) b width height m)
  else scaleWithPrecalculatedTableU8 b width height (precalculateScaleTableU8 scale shift) m

/-- `kleidicv_thread_scale_u8`. -/
def kleidicvThreadScaleU8 (b : Buffers) (width height : ℕ) (scale shift : ℤ)
    (mt : Multithreading (taskCount height 1)) (m : Mem) : KleidicvError × Mem :=
  if b.src = 0 then (.nullPointer, m)
  else if b.dst = 0 then (.nullPointer, m)
  else if !checkImageSize width height then (.range, m)
  else
    let table := precalculateScaleTableU8 scale shift
    runParallelBatches (fun begin_ end_ m =>
      scaleWithPrecalculatedTableU8 (b.atRow begin_) width (sizeSub end_ begin_) table m)
      height 1 mt m


/-! ### What the paths compute -/

/-- The result the documentation promises for pixel `x`. -/
def scaledPixel (x : U8) (scale shift : ℤ) : U8 :=
  ⟨(min 255 (max 0 (x.val * scale + shift))).toNat, by omega⟩

/-- The lower half of a 32-bit lane. -/
def low16 (x : U32) : U16 := ⟨x.val % 65536, Nat.mod_lt _ (by decide)⟩

/-- A pixel computed by `ScaleUint8Calc::vector_path`. -/
def calcLane (x : U8) (scale shift : ℤ) : U8 :=
  saturateU8 (low16 (saturateU32 (x.val * scale + shift)))

/-- Narrowing 16 lanes that follow each other in `g`. -/
theorem narrow_lane (g : ℕ → U32) (lane : Fin 16) :
    narrow (fun i => g i) (fun i => g (4 + i)) (fun i => g (8 + i)) (fun i => g (12 + i)) lane =
      saturateU8 (low16 (g lane)) := by
  fin_cases lane <;> rfl

/-- The four index vectors widen the 16 lanes of `src` in order. -/
theorem widen_lane (src : U8x16) (i : Fin 4) :
    (vreinterpretqU32U8 (vqtbl src ScaleUint8Calc.w0) i).val = (src ⟨i, by omega⟩).val ∧
    (vreinterpretqU32U8 (vqtbl src ScaleUint8Calc.w1) i).val = (src ⟨4 + i, by omega⟩).val ∧
    (vreinterpretqU32U8 (vqtbl src ScaleUint8Calc.w2) i).val = (src ⟨8 + i, by omega⟩).val ∧
    (vreinterpretqU32U8 (vqtbl src ScaleUint8Calc.w3) i).val = (src ⟨12 + i, by omega⟩).val := by
  fin_cases i <;> exact ⟨rfl, rfl, rfl, rfl⟩

theorem toFloat_pixel (x : U8) : toFloat x.val = x.val := by
  refine roundInt_of_abs_lt (by decide) ?_
  rw [abs_of_nonneg (by omega)]
  omega

/-- The clamped lane of the table. -/
theorem tableLane_eq (x : U8) (scale shift : ℤ) :
    saturateU8 (low16 (saturateU32 (max 0 (min (x.val * scale + shift) 255)))) =
      scaledPixel x scale shift := by
  apply Fin.ext
  simp only [saturateU8, low16, saturateU32, scaledPixel]
  omega

/-- The subtractions leave every index but the right one out of range. -/
theorem scaleUint8Tbx_vectorPath (table : Fin 256 → U8) (src : U8x16) (lane : Fin 16) :
    (scaleUint8Tbx table).vectorPath src lane = table (src lane) := by
  have hsub : ∀ x y : U8, (x - y).val = (256 - y.val + x.val) % 256 := fun _ _ => rfl
  have h48 : (48 : U8).val = 48 := rfl
  have h32 : (32 : U8).val = 32 := rfl
  simp only [scaleUint8Tbx, ScaleUint8Tbx.vectorPath, vqtbl, vqtbx, vsubqU8, vdupqNU8,
    ScaleUint8Tbx.load, hsub, h48, h32]
  have hx := (src lane).isLt
  split_ifs <;> first
    | omega
    | (congr 1; apply Fin.ext; simp only; omega)
section

variable {scale shift : ℤ} (h : 255 * |scale| + |shift| < 2 ^ 24)

include h

/-- Results, and the products on the way to them, have at most 24 bits. -/
theorem abs_scaled_lt (x : U8) :
    |(x.val : ℤ) * scale| < 2 ^ 24 ∧ |shift + x.val * scale| < 2 ^ 24 := by
  have hx : (x.val : ℤ) * |scale| ≤ 255 * |scale| :=
    mul_le_mul_of_nonneg_right (by omega) (abs_nonneg _)
  have hmul : |(x.val : ℤ) * scale| = x.val * |scale| := by
    rw [abs_mul, abs_of_nonneg (by omega : (0 : ℤ) ≤ x.val)]
  have h1 := abs_add_le shift (x.val * scale)
  have h2 := abs_nonneg shift
  omega

theorem toFloat_scale : toFloat scale = scale := by
  refine roundInt_of_abs_lt (by decide) ?_
  have h1 := abs_nonneg scale
  have h2 := abs_nonneg shift
  omega

theorem toFloat_shift : toFloat shift = shift := by
  refine roundInt_of_abs_lt (by decide) ?_
  have h1 := abs_nonneg scale
  omega

/-- One lane of a multiplication and addition is exact. -/
theorem mla_pixel (x : U8) :
    toFloat (shift + toFloat (toFloat x.val * scale)) = x.val * scale + shift := by
  obtain ⟨h1, h2⟩ := abs_scaled_lt h x
  rw [toFloat_pixel, toFloat, toFloat, roundInt_of_abs_lt (by decide) h1,
    roundInt_of_abs_lt (by decide) h2, add_comm]

theorem scaleValue_eq (x : U8) : scaleValue x scale shift = scaledPixel x scale shift := by
  obtain ⟨h1, h2⟩ := abs_scaled_lt h x
  have hv : toFloat (toDouble (toDouble (toFloat x.val * scale) + shift)) =
      x.val * scale + shift := by
    rw [add_comm] at h2
    rw [toFloat_pixel, toDouble, toDouble, toFloat,
      roundInt_of_abs_lt (by decide) (h1.trans (by norm_num)),
      roundInt_of_abs_lt (by decide) (h2.trans (by norm_num)), roundInt_of_abs_lt (by decide) h2]
  have hlt := abs_lt.mp h2
  unfold scaleValue
  simp only [hv, sizeMod]
  apply Fin.ext
  split_ifs with hsmall hpos
  · simp only [scaledPixel, Fin.val_ofNat]
    omega
  · simp only [scaledPixel]
    omega
  · simp only [scaledPixel]
    omega

theorem scaleUint8Calc_vectorPath (src : U8x16) (lane : Fin 16) :
    (scaleUint8Calc scale shift).vectorPath src lane = calcLane (src lane) scale shift := by
  have hg : ∀ (v : U8x16) (i : Fin 4) (x : U8), (vreinterpretqU32U8 v i).val = x.val →
      ScaleUint8Calc.scaleShift scale shift v i = saturateU32 (x.val * scale + shift) := by
    intro v i x hx
    simp only [ScaleUint8Calc.scaleShift, vcvtnqU32F32, vmlaqF32, vcvtqF32U32, hx, mla_pixel h x]
  -- The 16 results in a row.
  let g : ℕ → U32 := fun k =>
    if hk : k < 16 then saturateU32 ((src ⟨k, hk⟩).val * scale + shift) else 0
  have hw : ∀ k (hk : k < 16), g k = saturateU32 ((src ⟨k, hk⟩).val * scale + shift) :=
    fun k hk => dif_pos hk
  have h0 : ScaleUint8Calc.scaleShift scale shift (vqtbl src ScaleUint8Calc.w0) =
      fun i : Fin 4 => g i := by
    funext i
    rw [hw _ (by omega)]
    exact hg _ i _ (widen_lane src i).1
  have h1 : ScaleUint8Calc.scaleShift scale shift (vqtbl src ScaleUint8Calc.w1) =
      fun i : Fin 4 => g (4 + i) := by
    funext i
    rw [hw _ (by omega)]
    exact hg _ i _ (widen_lane src i).2.1
  have h2 : ScaleUint8Calc.scaleShift scale shift (vqtbl src ScaleUint8Calc.w2) =
      fun i : Fin 4 => g (8 + i) := by
    funext i
    rw [hw _ (by omega)]
    exact hg _ i _ (widen_lane src i).2.2.1
  have h3 : ScaleUint8Calc.scaleShift scale shift (vqtbl src ScaleUint8Calc.w3) =
      fun i : Fin 4 => g (12 + i) := by
    funext i
    rw [hw _ (by omega)]
    exact hg _ i _ (widen_lane src i).2.2.2
  calc (scaleUint8Calc scale shift).vectorPath src lane
      = narrow (fun i => g i) (fun i => g (4 + i)) (fun i => g (8 + i)) (fun i => g (12 + i))
          lane := by
        rw [← h0, ← h1, ← h2, ← h3]
        rfl
    _ = saturateU8 (low16 (g lane)) := narrow_lane g lane
    _ = calcLane (src lane) scale shift := by rw [hw lane lane.isLt, calcLane]

/-- Dropping the upper half of a result matters when the lower half alone is
below saturation. -/
theorem calcLane_eq_iff (x : U8) :
    calcLane x scale shift = scaledPixel x scale shift ↔
      ¬(65536 ≤ x.val * scale + shift ∧ (x.val * scale + shift) % 65536 < 255) := by
  have hlt := (abs_scaled_lt h x).2
  rw [add_comm] at hlt
  have hlt := abs_lt.mp hlt
  simp only [calcLane, saturateU8, low16, saturateU32, scaledPixel, Fin.mk.injEq]
  omega

/-- Four entries of the table. -/
theorem scaleShift_counter {n : ℕ} (hn : n + 4 ≤ 256) {counter : Fin 4 → U32}
    (hc : ∀ i, (counter i).val = n + i) :
    scaleShift counter scale shift = fun i : Fin 4 =>
      saturateU32 (max 0 (min (((n + i : ℕ) : ℤ) * scale + shift) 255)) := by
  funext i
  have hx := mla_pixel h ⟨n + i, by omega⟩
  simp only [scaleShift, vcvtnqU32F32, vmlaqF32, vcvtqF32U32, hc] at hx ⊢
  rw [hx]

omit h in
/-- The counters advance by four. -/
theorem counter_add {n : ℕ} (hn : n ≤ 256) {counter : Fin 4 → U32}
    (hc : ∀ i, (counter i).val = n + i) (i : Fin 4) : (counter i + 4).val = n + 4 + i := by
  rw [Fin.val_add, hc]
  omega

/-- 16 entries of the table. -/
theorem precalculateStep_eq {k : ℕ} (hk : k < 16) {counter : Fin 4 → U32} (table : Mem)
    (hc : ∀ i, (counter i).val = 16 * k + i) :
    (∀ i, ((precalculateStep scale shift (16 * k) (counter, table)).1 i).val =
      16 * (k + 1) + i) ∧
    (precalculateStep scale shift (16 * k) (counter, table)).2 =
      vst1qU8 table (16 * k) fun lane =>
        scaledPixel ⟨16 * k + lane, by omega⟩ scale shift := by
  have hc1 := counter_add (by omega) hc
  have hc2 := counter_add (by omega) hc1
  have hc3 := counter_add (by omega) hc2
  have hc4 := counter_add (by omega) hc3
  refine ⟨hc4, ?_⟩
  simp only [precalculateStep, scaleShift_counter h (by omega) hc,
    scaleShift_counter h (by omega) hc1, scaleShift_counter h (by omega) hc2,
    scaleShift_counter h (by omega) hc3]
  congr 1
  funext lane
  have hlane := narrow_lane (fun i =>
    saturateU32 (max 0 (min (((16 * k + i : ℕ) : ℤ) * scale + shift) 255))) lane
  simp only [← Nat.add_assoc] at hlane
  rw [hlane]
  exact tableLane_eq ⟨16 * k + lane, by omega⟩ scale shift

theorem precalculateScaleTableU8_eq (x : U8) :
    precalculateScaleTableU8 scale shift x = scaledPixel x scale shift := by
  simp only [precalculateScaleTableU8, toFloat_scale h, toFloat_shift h]
  -- After `k` iterations the counters stand at `16 k` and the entries below are done.
  have key := forRange_invariant
    (fun k (state : (Fin 4 → U32) × Mem) => (∀ i, (state.1 i).val = 16 * k + i) ∧
      ∀ y : U8, y.val < 16 * k → state.2 y = scaledPixel y scale shift)
    (n := 256 / 16) (f := fun k => precalculateStep scale shift (16 * k))
    (s := ((![0, 1, 2, 3] : Fin 4 → U32), fun _ => 0)) ?_ ?_
  · exact key.2 x x.isLt
  · refine ⟨fun i => ?_, fun y hy => absurd hy (by omega)⟩
    fin_cases i <;> rfl
  · rintro k hk ⟨counter, table⟩ ⟨hc, ht⟩
    obtain ⟨h1, h2⟩ := precalculateStep_eq h hk table hc
    refine ⟨h1, fun y hy => ?_⟩
    rw [h2]
    by_cases hlt : y.val < 16 * k
    · rw [vst1qU8_of_not_mem _ _ (by omega)]
      exact ht y hlt
    · obtain ⟨j, hj⟩ := Nat.exists_eq_add_of_le (Nat.le_of_not_lt hlt)
      rw [hj, show 16 * k + j = 16 * k + (⟨j, by omega⟩ : Fin 16) from rfl, vst1qU8_lane]
      congr 1
      exact Fin.ext hj.symm

end

/-! ### Whole images -/

section

variable {b : Buffers} {width height : ℕ} {m m' : Mem} {table : Fin 256 → U8}

theorem scaleWithPrecalculatedTableU8_wrote (hb : Placement b width height)
    (hsize : width * height < sizeMod) :
    Wrote b.dstAt (fun p => table (m (b.srcAt p))) (pixels width height) m
      (scaleWithPrecalculatedTableU8 b width height table m).2 := by
  refine (applyOperationByRows_wrote hb hsize (scaleUint8Tbx_vectorPath table)).congr_value
    fun p _ => ?_
  simp only [pixelValue, scaleUint8Tbx, ite_self]

/-- The rows `[begin_, end_)` of an image. -/
def batchPixels (width begin_ end_ : ℕ) : Set (ℕ × ℕ) :=
  {p | begin_ ≤ p.1 ∧ p.1 < end_ ∧ p.2 < width}

theorem batchPixels_subset {begin_ end_ : ℕ} (he : end_ ≤ height) :
    batchPixels width begin_ end_ ⊆ pixels width height := by
  rintro p ⟨-, h2, h3⟩
  exact ⟨by omega, h3⟩

theorem at_atRow (b : Buffers) (row : ℕ) (p : ℕ × ℕ) :
    (b.atRow row).srcAt p = b.srcAt (row + p.1, p.2) ∧
      (b.atRow row).dstAt p = b.dstAt (row + p.1, p.2) := by
  simp only [Buffers.srcAt, Buffers.dstAt, Buffers.atRow, Nat.add_mul]
  omega

theorem Placement.batch (hb : Placement b width height) {begin_ end_ : ℕ} (he : end_ ≤ height) :
    Placement (b.atRow begin_) width (end_ - begin_) := by
  refine ⟨hb.rows.imp id fun h => by omega, ?_⟩
  rcases hb.same_or_disjoint with ⟨h1, h2⟩ | hd
  · exact .inl ⟨by simp only [Buffers.atRow, h1, h2], h2⟩
  · refine .inr fun r hr c hc r' hr' c' hc' => ?_
    rw [(at_atRow b begin_ _).1, (at_atRow b begin_ _).2]
    exact hd _ (by simp only; omega) c hc _ (by simp only; omega) c' hc'

/-- One batch, when its rows have not been written before. -/
theorem batch_wrote (hb : Placement b width height) (hsize : width * height < sizeMod)
    (hh : height < sizeMod) {begin_ end_ : ℕ} (hbe : begin_ ≤ end_) (he : end_ ≤ height)
    {S : Set (ℕ × ℕ)} (h : Wrote b.dstAt (fun p => table (m (b.srcAt p))) S m m')
    (hS : S ⊆ pixels width height) (hdisj : ∀ p ∈ S, p ∉ batchPixels width begin_ end_) :
    Wrote b.dstAt (fun p => table (m (b.srcAt p))) (batchPixels width begin_ end_) m'
      (scaleWithPrecalculatedTableU8 (b.atRow begin_) width (sizeSub end_ begin_) table m').2 := by
  rw [sizeSub_eq hbe (by omega)]
  have hle : width * (end_ - begin_) ≤ width * height := Nat.mul_le_mul_left _ (by omega)
  refine (scaleWithPrecalculatedTableU8_wrote (hb.batch he) (by omega)).reindex
    (fun p => (p.1 - begin_, p.2)) (fun p hp => ?_) fun q hq => ?_
  · have hrow : (begin_ + (p.1 - begin_), p.2) = p :=
      Prod.ext (by have := hp.1; simp only; omega) rfl
    refine ⟨⟨?_, hp.2.2⟩, ?_, ?_⟩
    · have := hp.1
      have := hp.2.1
      simp only
      omega
    · rw [(at_atRow b begin_ _).2, hrow]
    · rw [(at_atRow b begin_ _).1, hrow]
      rw [hb.read h hS (batchPixels_subset he hp) fun hmem => hdisj p hmem hp]
  · have h1 := hq.1
    refine ⟨(begin_ + q.1, q.2), ⟨by simp only; omega, by simp only; omega, hq.2⟩, ?_⟩
    exact Prod.ext (by simp only; omega) rfl

variable (table) in
/-- The batches of a schedule, in its order. -/
theorem batches_wrote (hb : Placement b width height) (hsize : width * height < sizeMod)
    (hh : height < sizeMod) (h0 : 0 < height) (tasks : TaskRanges (taskCount height 1)) :
    Wrote b.dstAt (fun p => table (m (b.srcAt p))) (pixels width height) m
      ((parallelBatches height 1 tasks).foldl (fun m r =>
        (scaleWithPrecalculatedTableU8 (b.atRow r.1) width (sizeSub r.2 r.1) table m).2) m) := by
  have hex := batchesExact_of_no_stretch tasks hh (by decide) Nat.one_pos
    (.inr ⟨one_dvd _, h0⟩)
  have hbounds : ∀ r ∈ parallelBatches height 1 tasks, r.1 ≤ r.2 ∧ r.2 ≤ height := by
    intro r hr
    obtain ⟨t, ht, rfl⟩ := List.mem_map.mp hr
    exact hex.bounds t ht
  have hsub : ∀ r ∈ parallelBatches height 1 tasks,
      batchPixels width r.1 r.2 ⊆ pixels width height :=
    fun r hr => batchPixels_subset (hbounds r hr).2
  refine (Wrote.foldl hb.injOn hsub m fun done r rest heq m' hm => ?_).congr ?_
  · have hr : r ∈ parallelBatches height 1 tasks := by simp [heq]
    refine batch_wrote hb hsize hh (hbounds r hr).1 (hbounds r hr).2 hm
      (Set.iUnion₂_subset fun j hj => hsub j (by simp [heq, hj])) ?_
    -- The rows of two batches are disjoint.
    intro p hp hpr
    simp only [Set.mem_iUnion] at hp
    obtain ⟨j, hj, hpj⟩ := hp
    have hpw : (parallelBatches height 1 tasks).Pairwise _ := hex.disjoint
    rw [heq] at hpw
    exact (List.pairwise_append.mp hpw).2.2 j hj r (by simp) p.1
      ⟨⟨hpj.1, hpj.2.1⟩, hpr.1, hpr.2.1⟩
  · ext p
    simp only [Set.mem_iUnion, exists_prop]
    constructor
    · rintro ⟨r, hr, hp⟩
      exact hsub r hr hp
    · rintro ⟨hp1, hp2⟩
      obtain ⟨r, hr, h1, h2⟩ := hex.cover p.1 hp1
      exact ⟨r, hr, h1, h2, hp2⟩

end

/-- Every pixel of the image gets the saturated result, from the single-threaded
entry point and from the threaded one under every schedule. -/
structure ScaleExact (b : Buffers) (width height : ℕ) (scale shift : ℤ) (m : Mem) : Prop where
  single : (kleidicvScaleU8 b width height scale shift m).1 = .ok ∧
    ∀ p ∈ pixels width height, (kleidicvScaleU8 b width height scale shift m).2 (b.dstAt p) =
      scaledPixel (m (b.srcAt p)) scale shift
  threaded : ∀ mt : Multithreading (taskCount height 1),
    (kleidicvThreadScaleU8 b width height scale shift mt m).1 = .ok ∧
    ∀ p ∈ pixels width height,
      (kleidicvThreadScaleU8 b width height scale shift mt m).2 (b.dstAt p) =
        scaledPixel (m (b.srcAt p)) scale shift

section

variable {b : Buffers} {width height : ℕ} {scale shift : ℤ} {m : Mem}

/-- The threaded entry point uses the table for every batch. -/
theorem kleidicvThreadScaleU8_exact (hb : Placement b width height) (hsrc : b.src ≠ 0)
    (hdst : b.dst ≠ 0) (hsize : width * height ≤ kleidicvMaxImagePixels)
    (h : 255 * |scale| + |shift| < 2 ^ 24) (mt : Multithreading (taskCount height 1)) :
    (kleidicvThreadScaleU8 b width height scale shift mt m).1 = .ok ∧
    ∀ p ∈ pixels width height,
      (kleidicvThreadScaleU8 b width height scale shift mt m).2 (b.dstAt p) =
        scaledPixel (m (b.srcAt p)) scale shift := by
  have hmax : width * height < sizeMod := hsize.trans_lt (by decide)
  simp only [kleidicvThreadScaleU8, if_neg hsrc, if_neg hdst, checkImageSize_iff.mpr hsize,
    Bool.not_true, Bool.false_eq_true, if_false]
  have hrun := runParallelBatches_of_ok
    (fun begin_ end_ m => scaleWithPrecalculatedTableU8 (b.atRow begin_) width
      (sizeSub end_ begin_) (precalculateScaleTableU8 scale shift) m) mt m
    (f := fun begin_ end_ m => (scaleWithPrecalculatedTableU8 (b.atRow begin_) width
      (sizeSub end_ begin_) (precalculateScaleTableU8 scale shift) m).2) fun _ _ _ => rfl
  rw [hrun]
  refine ⟨rfl, fun p hp => ?_⟩
  have hh : height ≤ width * height := Nat.le_mul_of_pos_left _ (by have := hp.2; omega)
  have hwrote := batches_wrote (precalculateScaleTableU8 scale shift) (m := m) hb hmax
    (by omega) (by have := hp.1; omega) mt.tasks
  exact (hwrote.value p hp).trans (precalculateScaleTableU8_eq h _)

/-- **When scaling saturates every pixel**: always through the table, which
the threaded entry point and images of 675 pixels or more use; through the
direct vector path unless the result of some pixel in a vector lane exceeds 16
bits and its lower 16 bits look unsaturated. -/
theorem scale_exact_iff (hb : Placement b width height) (hsrc : b.src ≠ 0) (hdst : b.dst ≠ 0)
    (hsize : width * height ≤ kleidicvMaxImagePixels)
    (h : 255 * |scale| + |shift| < 2 ^ 24) :
    ScaleExact b width height scale shift m ↔
      675 ≤ width * height ∨ ∀ p ∈ pixels width height, InVectorLane b width height p →
        ¬(65536 ≤ (m (b.srcAt p)).val * scale + shift ∧
          ((m (b.srcAt p)).val * scale + shift) % 65536 < 255) := by
  have hmax : width * height < sizeMod := hsize.trans_lt (by decide)
  have hthreaded := kleidicvThreadScaleU8_exact (m := m) hb hsrc hdst hsize h
  by_cases hsmall : width * height < 675
  · have hrun : kleidicvScaleU8 b width height scale shift m =
        (.ok, applyOperationByRows (scaleUint8Calc scale shift) b width height m) := by
      simp only [kleidicvScaleU8, if_neg hsrc, if_neg hdst, checkImageSize_iff.mpr hsize,
        Bool.not_true, Bool.false_eq_true, if_false, if_pos hsmall, toFloat_scale h,
        toFloat_shift h]
    have hpix : ∀ p ∈ pixels width height,
        (kleidicvScaleU8 b width height scale shift m).2 (b.dstAt p) =
          if InVectorLane b width height p then calcLane (m (b.srcAt p)) scale shift
          else scaledPixel (m (b.srcAt p)) scale shift := by
      intro p hp
      have hwrote := applyOperationByRows_wrote (m := m) (f := fun x => calcLane x scale shift)
        hb hmax (scaleUint8Calc_vectorPath h)
      rw [hrun]
      refine (hwrote.value p hp).trans ?_
      rw [pixelValue, ← scaleValue_eq h]
      rfl
    constructor
    · refine fun hexact => .inr fun p hp hlane => ?_
      have heq := hexact.single.2 p hp
      rw [hpix p hp, if_pos hlane] at heq
      exact (calcLane_eq_iff h _).mp heq
    · rintro (hbig | hlanes)
      · omega
      · refine ⟨⟨by rw [hrun], fun p hp => ?_⟩, hthreaded⟩
        rw [hpix p hp]
        split
        · rename_i hlane
          exact (calcLane_eq_iff h _).mpr (hlanes p hp hlane)
        · rfl
  · refine ⟨fun _ => .inl (by omega), fun _ => ⟨?_, hthreaded⟩⟩
    have hrun : kleidicvScaleU8 b width height scale shift m =
        scaleWithPrecalculatedTableU8 b width height (precalculateScaleTableU8 scale shift) m := by
      simp only [kleidicvScaleU8, if_neg hsrc, if_neg hdst, checkImageSize_iff.mpr hsize,
        Bool.not_true, Bool.false_eq_true, if_false, if_neg hsmall]
    rw [hrun]
    refine ⟨rfl, fun p hp => ?_⟩
    rw [(scaleWithPrecalculatedTableU8_wrote hb hmax).value p hp, precalculateScaleTableU8_eq h]

end

/-- One row of 32 white pixels, and a destination elsewhere. -/
def whiteRow : Buffers where
  src := 1000
  srcStride := 32
  dst := 2000
  dstStride := 32

theorem whiteRow_placement : Placement whiteRow 32 1 := by
  refine ⟨.inl (by decide), .inr ?_⟩
  intro r hr c hc r' hr' c' hc'
  simp only [whiteRow, Buffers.dstAt, Buffers.srcAt]
  omega

theorem scale_exact_iff_whiteRow :
    ScaleExact whiteRow 32 1 3 (-7) (fun _ => 255) ↔
      675 ≤ 32 * 1 ∨ ∀ p ∈ pixels 32 1, InVectorLane whiteRow 32 1 p →
        ¬(65536 ≤ ((255 : U8).val : ℤ) * 3 + -7 ∧ (((255 : U8).val : ℤ) * 3 + -7) % 65536 < 255) :=
  scale_exact_iff whiteRow_placement (by decide) (by decide) (by decide) (by decide)

/-- With scale 256 and shift 256, the direct vector path turns white into
black. -/
theorem scale_vector_path_wraps :
    ¬ ∀ (b : Buffers) (width height : ℕ) (scale shift : ℤ) (m : Mem)
      (_ : Placement b width height) (_ : b.src ≠ 0) (_ : b.dst ≠ 0)
      (_ : width * height ≤ kleidicvMaxImagePixels) (_ : 255 * |scale| + |shift| < 2 ^ 24),
      ScaleExact b width height scale shift m := by
  intro hall
  have hexact := hall whiteRow 32 1 256 256 (fun _ => 255) whiteRow_placement (by decide)
    (by decide) (by decide) (by decide)
  have hblack : (kleidicvScaleU8 whiteRow 32 1 256 256 (fun _ => 255)).2
      (whiteRow.dstAt (0, 0)) = 0 := by decide +kernel
  have hwhite := hexact.single.2 (0, 0) ⟨by decide, by decide⟩
  rw [hblack] at hwhite
  exact absurd hwhite (by decide)

end KleidiCV
