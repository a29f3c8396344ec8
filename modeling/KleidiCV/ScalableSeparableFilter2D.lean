/-
The scalable `separable_filter_2d`, and with it the scalable 5x5 Gaussian blur.

Vertically the sums saturate at the width of the buffer; horizontally they are widened,
saturate when they are narrowed and are then clamped to an element.  The border columns are
scalar: they stop at the first overflow of an element.

* `verticalVectorPath_spec`, `horizontalVectorPath_spec` — both passes of a vector;
* `filterType_computesOn` — the filter in the scalable driver;
* `scalableFilters_correct` — every pixel of a stripe.
-/
import KleidiCV.ScalableGaussianBlur

open Loop

namespace KleidiCV

open Scalable

namespace ScalableFilter2D

section

-- What `svqadd_x` leaves in inactive lanes, by address, operation and lane.
variable {w : ℕ} (filter : SeparableFilter2D w) (lanes : ℕ)
  (unspecified : ℕ → ℕ → ℕ → BitVec (2 * w))

/-- `vertical_vector_path`. -/
def verticalVectorPath (pg : ℕ → Bool) (src : ℕ → ℕ → BitVec w) (dst : ℕ)
    (buffer : ℕ → BitVec (2 * w)) : ℕ → BitVec (2 * w) :=
  let kernelY : ℕ → ℕ → BitVec w := fun i _ => filter.kernelY i
  let accB := Sve.svmullb (src 0) (kernelY 0)
  let accT := Sve.svmullt (src 0) (kernelY 0)
  let acc := forFrom 1 4 (fun i (accB, accT) =>
    let vecB := Sve.svmullb (src i) (kernelY i)
    let vecT := Sve.svmullt (src i) (kernelY i)
    (Sve.svqaddX (Sve.wide pg) (unspecified dst (2 * i)) accB vecB,
      Sve.svqaddX (Sve.wide pg) (unspecified dst (2 * i + 1)) accT vecT)) (accB, accT)
  Sve.svst2 lanes (Sve.wide pg) buffer dst acc.1 acc.2

/-- `horizontal_vector_path`, before the store. -/
def horizontalClamped (pg : ℕ → Bool) (src : ℕ → ℕ → BitVec (2 * w)) : ℕ → BitVec (2 * w) :=
  let kernelX : ℕ → ℕ → BitVec (2 * w) := fun i _ => (filter.kernelX i).setWidth (2 * w)
  let accB := Sve.svmullb (src 0) (kernelX 0)
  let accT := Sve.svmullt (src 0) (kernelX 0)
  let acc := forFrom 1 4 (fun i (accB, accT) =>
    (Sve.svmlalb accB (src i) (kernelX i), Sve.svmlalt accT (src i) (kernelX i))) (accB, accT)
  let accNarrowB := Sve.svqxtnb acc.1
  let accNarrow := Sve.svqxtnt accNarrowB acc.2
  let greater := Sve.svcmpgtN pg accNarrow (BitVec.ofNat (2 * w) (2 ^ w - 1))
  Sve.svdupNM accNarrow greater (BitVec.ofNat (2 * w) (2 ^ w - 1))

/-- `horizontal_vector_path`. -/
def horizontalVectorPath (pg : ℕ → Bool) (src : ℕ → ℕ → BitVec (2 * w)) (dst : ℕ)
    (m : ℕ → BitVec w) : ℕ → BitVec w :=
  Sve.svst1 lanes pg m dst (Sve.narrow w (horizontalClamped filter pg src))

/-- `SeparableFilter2D<T, 5>` as a `FilterType`, for elements of `sz` bytes; the scalar path is
written as the one for Neon is. -/
def filterType (vl : VectorLength) (sz : ℕ) :
    ScalableFilterType (BitVec w) (BitVec (2 * w)) (BitVec w) where
  sourceLanes := Scalable.numLanes vl sz
  bufferLanes := Scalable.numLanes vl (2 * sz)
  verticalVectorPath := verticalVectorPath filter (Scalable.numLanes vl (2 * sz)) unspecified
  horizontalVectorPath := horizontalVectorPath filter (Scalable.numLanes vl (2 * sz))
  horizontalScalarPath := filter.horizontalScalarPath

end

variable {w : ℕ} {filter : SeparableFilter2D w} {lanes : ℕ}
  {unspecified : ℕ → ℕ → ℕ → BitVec (2 * w)}

/-- What the buffer holds: the weighted sum, clamped to the width of the buffer. -/
def Vertical (filter : SeparableFilter2D w) (src : ℕ → BitVec w) (v : BitVec (2 * w)) : Prop :=
  v.toNat = min (2 ^ (2 * w) - 1) (filter.verticalSum src 5)

/-- One more tap in an active lane; clamping early makes no difference. -/
theorem svqaddX_verticalSum {pg : ℕ → Bool} {l n : ℕ} (h : pg l = true)
    (unspecified : ℕ → BitVec (2 * w)) (src : ℕ → ℕ → BitVec w) {acc : ℕ → BitVec (2 * w)}
    (hacc : (acc l).toNat = min (2 ^ (2 * w) - 1) (filter.verticalSum (fun t => src t l) n)) :
    (Sve.svqaddX pg unspecified acc (Sve.svmull (src n) fun _ => filter.kernelY n) l).toNat =
      min (2 ^ (2 * w) - 1) (filter.verticalSum (fun t => src t l) (n + 1)) := by
  rw [Sve.svqaddX_toNat h, hacc, Sve.svmull_toNat, filter.verticalSum_succ]
  omega

/-- The active elements of a vector hold the clamped sums. -/
theorem verticalVectorPath_spec {pg : ℕ → Bool} {k : ℕ} (hpg : Leading (2 * lanes) pg k)
    (src : ℕ → ℕ → BitVec w) (dst : ℕ) (buffer : ℕ → BitVec (2 * w)) :
    ∃ g, verticalVectorPath filter lanes unspecified pg src dst buffer =
        overwrite buffer dst (2 * ((k + 1) / 2)) g ∧
      ∀ lane < k, Vertical filter (fun t => src t lane) (g lane) := by
  have hwide := Sve.leading_wide hpg
  unfold verticalVectorPath
  simp only
  generalize hloop : (forFrom 1 4 _ _ : (ℕ → BitVec (2 * w)) × (ℕ → BitVec (2 * w))) = acc
  have hfirst : ∀ (src : ℕ → ℕ → BitVec w) l,
      (Sve.svmull (src 0) (fun _ => filter.kernelY 0) l).toNat =
        min (2 ^ (2 * w) - 1) (filter.verticalSum (fun t => src t l) 1) := fun src l => by
    have := toNat_mul_lt (src 0 l) (filter.kernelY 0)
    rw [Sve.svmull_toNat, filter.verticalSum_one]
    omega
  -- Even and odd elements apart, after `n` taps.
  have hacc : ∀ l, Sve.wide pg l = true →
      (acc.1 l).toNat =
          min (2 ^ (2 * w) - 1) (filter.verticalSum (fun t => Sve.bottom (src t) l) 5) ∧
        (acc.2 l).toNat =
          min (2 ^ (2 * w) - 1) (filter.verticalSum (fun t => Sve.top (src t) l) 5) := by
    intro l hl
    rw [← hloop]
    refine forFrom_invariant
      (fun n (acc : (ℕ → BitVec (2 * w)) × (ℕ → BitVec (2 * w))) =>
        (acc.1 l).toNat =
            min (2 ^ (2 * w) - 1) (filter.verticalSum (fun t => Sve.bottom (src t) l) n) ∧
          (acc.2 l).toNat =
            min (2 ^ (2 * w) - 1) (filter.verticalSum (fun t => Sve.top (src t) l) n))
      ⟨hfirst (fun t => Sve.bottom (src t)) l, hfirst (fun t => Sve.top (src t)) l⟩ ?_
    rintro n - - ⟨accB, accT⟩ ⟨hB, hT⟩
    exact ⟨svqaddX_verticalSum hl _ (fun t => Sve.bottom (src t)) hB,
      svqaddX_verticalSum hl _ (fun t => Sve.top (src t)) hT⟩
  refine ⟨_, Sve.svst2_eq hwide _ _ _ _, fun lane hlane => ?_⟩
  have hactive : Sve.wide pg (lane / 2) = true := Sve.active_of_lt hwide (by omega)
  exact Sve.interleave_cases (P := fun lane v => Vertical filter (fun t => src t lane) v) lane
    (fun _ => (hacc _ hactive).1) fun _ => (hacc _ hactive).2

/-- One more tap of the horizontal sum, which does not wrap. -/
theorem svmlal_horizontalSum (hw : 3 ≤ w) {l n : ℕ} (hn : n + 1 ≤ 5)
    (src : ℕ → ℕ → BitVec (2 * w)) {acc : ℕ → BitVec (2 * (2 * w))}
    (hacc : (acc l).toNat = filter.horizontalSum (fun t => src t l) n) :
    (Sve.svmlal acc (src n) (fun _ => (filter.kernelX n).setWidth (2 * w)) l).toNat =
      filter.horizontalSum (fun t => src t l) (n + 1) := by
  have hlt := filter.horizontalSum_lt hw (fun t => src t l) hn
  have hkernel : ((filter.kernelX n).setWidth (2 * w)).toNat = (filter.kernelX n).toNat :=
    BitVec.toNat_setWidth_of_le (by omega)
  rw [filter.horizontalSum_succ] at hlt ⊢
  rw [Sve.svmlal_toNat, hacc, hkernel]
  rwa [hacc, hkernel]

/-- An active lane holds the clamped sum. -/
theorem horizontalClamped_spec (hw : 3 ≤ w) {pg : ℕ → Bool} {lane : ℕ} (h : pg lane = true)
    (src : ℕ → ℕ → BitVec (2 * w)) :
    Sve.narrow w (horizontalClamped filter pg src) lane = filter.horizontal fun t => src t lane := by
  unfold horizontalClamped
  simp only
  generalize hloop : (forFrom 1 4 _ _ :
    (ℕ → BitVec (2 * (2 * w))) × (ℕ → BitVec (2 * (2 * w)))) = acc
  have hfirst : ∀ (src : ℕ → ℕ → BitVec (2 * w)) l,
      (Sve.svmull (src 0) (fun _ => (filter.kernelX 0).setWidth (2 * w)) l).toNat =
        filter.horizontalSum (fun t => src t l) 1 := fun src l => by
    rw [filter.horizontalSum_one, Sve.svmull_toNat, BitVec.toNat_setWidth_of_le (by omega)]
  have hacc : ∀ l, (acc.1 l).toNat = filter.horizontalSum (fun t => Sve.bottom (src t) l) 5 ∧
      (acc.2 l).toNat = filter.horizontalSum (fun t => Sve.top (src t) l) 5 := by
    intro l
    rw [← hloop]
    refine forFrom_invariant
      (fun n (acc : (ℕ → BitVec (2 * (2 * w))) × (ℕ → BitVec (2 * (2 * w)))) =>
        (acc.1 l).toNat = filter.horizontalSum (fun t => Sve.bottom (src t) l) n ∧
          (acc.2 l).toNat = filter.horizontalSum (fun t => Sve.top (src t) l) n)
      ⟨hfirst (fun t => Sve.bottom (src t)) l, hfirst (fun t => Sve.top (src t)) l⟩ ?_
    rintro n - hn ⟨accB, accT⟩ ⟨hB, hT⟩
    exact ⟨svmlal_horizontalSum hw (by omega) (fun t => Sve.bottom (src t)) hB,
      svmlal_horizontalSum hw (by omega) (fun t => Sve.top (src t)) hT⟩
  have hsum : (Sve.interleave acc.1 acc.2 lane).toNat =
      filter.horizontalSum (fun t => src t lane) 5 :=
    Sve.interleave_cases (P := fun lane (v : BitVec (2 * (2 * w))) =>
      v.toNat = filter.horizontalSum (fun t => src t lane) 5) lane
      (fun _ => (hacc _).1) fun _ => (hacc _).2
  have hmax := SeparableFilter2D.maxElement_le w
  have hpos := Nat.two_pow_pos w
  have hclamp : (BitVec.ofNat (2 * w) (2 ^ w - 1)).toNat = 2 ^ w - 1 := by
    rw [BitVec.toNat_ofNat, Nat.mod_eq_of_lt]
    have := Nat.two_pow_pos (2 * w)
    omega
  have hnarrow := Sve.svqxtn_toNat acc.1 acc.2 lane
  rw [hsum] at hnarrow
  refine BitVec.eq_of_toNat_eq ?_
  rw [Sve.narrow, BitVec.toNat_setWidth, Sve.svdupNM, Sve.svcmpgtN, h, Bool.true_and, hclamp, hnarrow,
    SeparableFilter2D.horizontal, toNat_ofNat_min]
  by_cases hgreater : 2 ^ w - 1 < min (2 ^ (2 * w) - 1) (filter.horizontalSum (fun t => src t lane) 5)
  · rw [if_pos (decide_eq_true hgreater), hclamp, Nat.mod_eq_of_lt (by omega)]
    omega
  · rw [if_neg (by rwa [decide_eq_true_eq]), hnarrow, Nat.mod_eq_of_lt (by omega)]
    omega

theorem vertical_congr {src src' : ℕ → BitVec w} {v : BitVec (2 * w)}
    (h : ∀ t < 5, src t = src' t) (hv : Vertical filter src v) : Vertical filter src' v := by
  have hsum : filter.verticalSum src' 5 = filter.verticalSum src 5 :=
    Finset.sum_congr rfl fun i hi => by rw [h i (Finset.mem_range.mp hi)]
  unfold Vertical at hv ⊢
  rwa [hsum]

/-- **The filter in the scalable driver.** -/
theorem filterType_computesOn (hw : 3 ≤ w) (vl : VectorLength) {sz : ℕ} (hsz : ScalarSize sz)
    (hwide : ScalarSize (2 * sz)) :
    (filterType filter unspecified vl sz).ComputesOn 5 (fun _ => True) (Vertical filter)
      filter.horizontal where
  sourceLanes_pos := numLanes_pos vl hsz
  bufferLanes_pos := numLanes_pos vl hwide
  verticalVector := by
    intro pg k hpg src dst buffer
    rw [filterType, Sve.numLanes_double vl hsz hwide] at hpg
    exact verticalVectorPath_spec hpg src dst buffer
  vertical_valid := fun _ _ _ => trivial
  horizontalVector := fun _ _ hpg src _ _ _ => ⟨_, Sve.svst1_eq hpg _ _ _, fun _ hlane =>
    horizontalClamped_spec hw (Sve.active_of_lt hpg hlane) src⟩
  horizontalScalar := fun src dst m _ => filter.horizontalScalarPath_spec src dst m
  vertical_congr := fun _ _ _ h hv => vertical_congr h hv
  horizontal_congr := (filter.filterType_computes hw one_pos).horizontal_congr

end ScalableFilter2D

/-! ### The stripe functions -/

section

variable (vl : VectorLength)

/-- `separable_filter_2d_stripe_sc<T>` on the elements `srcElements`; `allocation` is what
`malloc` returns. -/
def separableFilter2dStripeSc (T : FilterElement) (unspecified : ℕ → ℕ → ℕ → BitVec (2 * T.bits))
    (srcElements : ℕ → BitVec T.bits)
    (src srcStride dst dstStride width height yBegin yEnd channels : ℕ)
    (kernelX kernelY : ℕ → BitVec T.bits) (fixedBorderType : FixedBorderType)
    (allocation : Option (ℕ → BitVec (2 * T.bits))) (dstElements : ℕ → BitVec T.bits) :
    KleidicvError × (ℕ → BitVec T.bits) :=
  match allocation with
  | none => (.allocation, dstElements)
  | some buffer =>
    let filterClass : SeparableFilter2D T.bits := ⟨kernelX, kernelY⟩
    let filter := ScalableFilter2D.filterType filterClass unspecified vl T.size
    (.ok, (filter.driver.process FixedBorderInfo5x5.info width height yBegin yEnd srcElements
      (elementRows T.size src srcStride channels) ⟨0, width * channels + 3, channels⟩
      (elementRows T.size dst dstStride channels) fixedBorderType (buffer, dstElements)).2)

/-- `gaussian_blur_fixed_kernel_size<5, true>`. -/
def gaussianBlurFixed5x5Sc (unspecified : ℕ → ℕ → ℕ → BitVec (2 * 8)) (r : GaussianBlurCall)
    (yBegin yEnd : ℕ) (borderType : FixedBorderType) (allocation : Option (ℕ → BitVec 8))
    (src m : ℕ → BitVec 8) : KleidicvError × (ℕ → BitVec 8) :=
  match allocation with
  | none => (.allocation, m)
  | some bytes =>
    let filter := ScalableBlur5x5.filterType unspecified vl
    (.ok, (filter.driver.process FixedBorderInfo5x5.info r.width r.height yBegin yEnd src r.srcRows
      r.bufferRows r.dstRows borderType (bytesAsU16 bytes, m)).2)

end

section

variable {vl : VectorLength} {yBegin yEnd : ℕ} {b : FixedBorderType}

theorem FilterElement.scalarSize (T : FilterElement) : ScalarSize T.size := by
  cases T with
  | u8 => exact .inl rfl
  | u16 => exact .inr (.inl rfl)

theorem FilterElement.scalarSize_double (T : FilterElement) : ScalarSize (2 * T.size) := by
  cases T with
  | u8 => exact .inr (.inl rfl)
  | u16 => exact .inr (.inr (.inl rfl))

/-- Every pixel of a stripe of `separable_filter_2d`. -/
theorem separableFilter2dStripeSc_filteredRows {T : FilterElement}
    {unspecified : ℕ → ℕ → ℕ → BitVec (2 * T.bits)} {srcElements : ℕ → BitVec T.bits}
    {src srcStride dst dstStride width height channels : ℕ} {kernelX kernelY : ℕ → BitVec T.bits}
    (hwidth : 4 ≤ width) (hheight : 4 ≤ height) (himage : width * height ≤ kleidicvMaxImagePixels)
    (hstride : width * channels ≤ dstStride / T.size) (hle : yBegin ≤ yEnd) (hend : yEnd ≤ height)
    (buffer : ℕ → BitVec (2 * T.bits)) (m : ℕ → BitVec T.bits) :
    ∃ m', separableFilter2dStripeSc vl T unspecified srcElements src srcStride dst dstStride width
        height yBegin yEnd channels kernelX kernelY b (some buffer) m = (.ok, m') ∧
      FilteredRows kernelX kernelY srcElements (elementRows T.size src srcStride channels)
        (elementRows T.size dst dstStride channels) width height b yBegin yEnd m m' := by
  have hmax : kleidicvMaxImagePixels < 2 ^ 63 := by decide
  have hw : width ≤ width * height := Nat.le_mul_of_pos_right _ (by omega)
  have hh : height ≤ width * height := Nat.le_mul_of_pos_left _ (by omega)
  have hbits : 3 ≤ T.bits := by cases T <;> decide
  let filterClass : SeparableFilter2D T.bits := ⟨kernelX, kernelY⟩
  have hf : (ScalableFilter2D.filterType filterClass unspecified vl T.size).driver.ComputesOn 5
      (fun _ => True) (ScalableFilter2D.Vertical filterClass) filterClass.horizontal :=
    ScalableFilter.driver_computesOn
      (ScalableFilter2D.filterType_computesOn hbits vl T.scalarSize T.scalarSize_double)
  refine ⟨_, rfl, SeparableDriver.process_filteredRows filterClass hf (fun taps v hv => ?_)
    (elementRows T.size src srcStride channels) (elementRows T.size dst dstStride channels) hwidth
    (by omega) hheight (by omega) rfl hstride hle hend _ buffer m⟩
  -- Clamping to the width of the buffer is clamping above the largest element.
  rw [SeparableFilter2D.Vertical, show v.toNat = _ from hv]
  exact satEq_min (SeparableFilter2D.maxElement_le _) _

/-- Every pixel of a stripe of the Gaussian blur. -/
theorem gaussianBlurFixed5x5Sc_blurredRows {unspecified : ℕ → ℕ → ℕ → BitVec (2 * 8)}
    {r : GaussianBlurCall} {src : ℕ → BitVec 8} (hwidth : 4 ≤ r.width) (hheight : 4 ≤ r.height)
    (himage : r.width * r.height ≤ kleidicvMaxImagePixels)
    (hstride : r.width * r.channels ≤ r.dstStride) (hle : yBegin ≤ yEnd) (hend : yEnd ≤ r.height)
    (bytes m : ℕ → BitVec 8) :
    ∃ m', gaussianBlurFixed5x5Sc vl unspecified r yBegin yEnd b (some bytes) src m = (.ok, m') ∧
      r.BlurredRows [1, 4, 6, 4, 1] b src yBegin yEnd m m' := by
  have hmax : kleidicvMaxImagePixels < 2 ^ 63 := by decide
  have hw : r.width ≤ r.width * r.height := Nat.le_mul_of_pos_right _ (by omega)
  have hh : r.height ≤ r.width * r.height := Nat.le_mul_of_pos_left _ (by omega)
  have hf : (ScalableBlur5x5.filterType unspecified vl).driver.ComputesOn 5 ScalableBlur5x5.Valid
      (fun src v => v.toNat = GaussianBlur.convolve ScalableBlur5x5.kernel src)
      (fun src => BitVec.ofNat 8 (GaussianBlur.normalize ScalableBlur5x5.kernel
        (GaussianBlur.convolve ScalableBlur5x5.kernel src))) :=
    ScalableFilter.driver_computesOn (ScalableBlur5x5.filterType_computesOn vl)
  refine ⟨_, rfl, blurredRows_of_wrote (by decide) (by decide) ?_⟩
  exact SeparableDriver.process_blurred FixedBorderInfo5x5.info hf rfl hwidth (by omega) hheight
    (by omega) hstride hle hend (bytesAsU16 bytes) m

/-- Vectors and the scalar code of the border columns compute the same, from any five values. -/
theorem ScalableFilter2D.horizontalVectorPath_eq_scalar {w : ℕ} (hw : 3 ≤ w)
    (filter : SeparableFilter2D w) {lanes lane : ℕ} {pg : ℕ → Bool} (hlane : lane < lanes)
    (hpg : pg lane = true) (src : ℕ → ℕ → BitVec (2 * w)) (dst : ℕ) (m m' : ℕ → BitVec w) :
    horizontalVectorPath filter lanes pg src dst m (dst + lane) =
      filter.horizontalScalarPath (fun t => src t lane) (dst + lane) m' (dst + lane) := by
  rw [horizontalVectorPath, Sve.svst1_active hlane hpg, horizontalClamped_spec hw hpg,
    filter.horizontalScalarPath_spec, Function.update_self]

/-- The same for the Gaussian blur, from vertical sums. -/
theorem ScalableBlur5x5.horizontalVectorPath_eq_scalar (unspecified : ℕ → ℕ → ℕ → BitVec (2 * 8))
    {lanes lane : ℕ} {pg : ℕ → Bool} (hlane : lane < lanes) (hpg : pg lane = true)
    {src : ℕ → ℕ → BitVec (2 * 8)} (hsrc : ∀ t < 5, Valid (src t lane)) (dst : ℕ)
    (m : ℕ → BitVec 8) :
    horizontalVectorPath lanes unspecified pg src dst m (dst + lane) =
      (GaussianBlur.Blur5x5.horizontalScalarPath fun t => src t lane).value := by
  rw [horizontalVectorPath, Sve.svst1_active hlane hpg, horizontalSum_spec hpg hsrc,
    horizontalScalarPath_spec hsrc]

/-- **The scalable filters are exact.**  Every pixel of a stripe of `separable_filter_2d` is the
clamped sum, whatever the kernels and the length of the vectors; every pixel of the Gaussian
blur is the convolution, rounded once; in both, vectors and border columns compute the same
function of the five values next to each other. -/
theorem scalableFilters_correct (vl : VectorLength) {width height : ℕ} (hwidth : 4 ≤ width)
    (hheight : 4 ≤ height) (himage : width * height ≤ kleidicvMaxImagePixels) :
    (∀ (T : FilterElement) (unspecified : ℕ → ℕ → ℕ → BitVec (2 * T.bits))
      (srcElements : ℕ → BitVec T.bits) (src srcStride dst dstStride channels : ℕ)
      (kernelX kernelY : ℕ → BitVec T.bits) (b : FixedBorderType) (yBegin yEnd : ℕ)
      (buffer : ℕ → BitVec (2 * T.bits)) (m : ℕ → BitVec T.bits),
      width * channels ≤ dstStride / T.size → yBegin ≤ yEnd → yEnd ≤ height →
      ∃ m', separableFilter2dStripeSc vl T unspecified srcElements src srcStride dst dstStride width
          height yBegin yEnd channels kernelX kernelY b (some buffer) m = (.ok, m') ∧
        FilteredRows kernelX kernelY srcElements (elementRows T.size src srcStride channels)
          (elementRows T.size dst dstStride channels) width height b yBegin yEnd m m') ∧
    (∀ (unspecified : ℕ → ℕ → ℕ → BitVec (2 * 8)) (src srcStride dst dstStride channels : ℕ)
      (b : FixedBorderType) (yBegin yEnd : ℕ) (srcBytes bytes m : ℕ → BitVec 8),
      width * channels ≤ dstStride → yBegin ≤ yEnd → yEnd ≤ height →
      let r : GaussianBlurCall := ⟨src, srcStride, dst, dstStride, width, height, channels⟩
      ∃ m', gaussianBlurFixed5x5Sc vl unspecified r yBegin yEnd b (some bytes) srcBytes m = (.ok, m') ∧
        r.BlurredRows [1, 4, 6, 4, 1] b srcBytes yBegin yEnd m m') ∧
    (∀ (T : FilterElement) (filter : SeparableFilter2D T.bits) (pg : ℕ → Bool)
      (src : ℕ → ℕ → BitVec (2 * T.bits)) (dst : ℕ) (m m' : ℕ → BitVec T.bits),
      ∀ lane < Scalable.numLanes vl (2 * T.size), pg lane = true →
        ScalableFilter2D.horizontalVectorPath filter (Scalable.numLanes vl (2 * T.size)) pg src dst m
            (dst + lane) =
          filter.horizontalScalarPath (fun t => src t lane) (dst + lane) m' (dst + lane)) ∧
    ∀ (unspecified : ℕ → ℕ → ℕ → BitVec (2 * 8)) (pg : ℕ → Bool) (src : ℕ → ℕ → BitVec (2 * 8))
      (dst : ℕ) (m : ℕ → BitVec 8), ∀ lane < Scalable.numLanes vl 2, pg lane = true →
      (∀ t < 5, ScalableBlur5x5.Valid (src t lane)) →
      ScalableBlur5x5.horizontalVectorPath (Scalable.numLanes vl 2) unspecified pg src dst m
          (dst + lane) =
        (GaussianBlur.Blur5x5.horizontalScalarPath fun t => src t lane).value := by
  refine ⟨?_, ?_, ?_, ?_⟩
  · intro T unspecified srcElements src srcStride dst dstStride channels kernelX kernelY b yBegin
      yEnd buffer m hstride hle hend
    exact separableFilter2dStripeSc_filteredRows hwidth hheight himage hstride hle hend buffer m
  · intro unspecified src srcStride dst dstStride channels b yBegin yEnd srcBytes bytes m hstride hle
      hend
    exact gaussianBlurFixed5x5Sc_blurredRows hwidth hheight himage hstride hle hend bytes m
  · intro T filter pg src dst m m' lane hlane hpg
    have hbits : 3 ≤ T.bits := by cases T <;> decide
    exact ScalableFilter2D.horizontalVectorPath_eq_scalar hbits filter hlane hpg src dst m m'
  · intro unspecified pg src dst m lane hlane hpg hsrc
    exact ScalableBlur5x5.horizontalVectorPath_eq_scalar unspecified hlane hpg hsrc dst m

/-- Two rows of a small image, in vectors of 16 bytes. -/
theorem scalableFilters_correct_small :
    ∃ m', gaussianBlurFixed5x5Sc ⟨16, 4, by decide⟩ (fun _ _ _ => 77) ⟨100, 8, 200, 9, 4, 4, 2⟩ 1 3
        .reverse (some fun _ => 7) (fun a => BitVec.ofNat 8 a) (fun _ => 0) = (.ok, m') ∧
      GaussianBlurCall.BlurredRows ⟨100, 8, 200, 9, 4, 4, 2⟩ [1, 4, 6, 4, 1] .reverse
        (fun a => BitVec.ofNat 8 a) 1 3 (fun _ => 0) m' :=
  (scalableFilters_correct ⟨16, 4, by decide⟩ (by decide) (by decide) (by decide)).2.1
    (fun _ _ _ => 77) 100 8 200 9 2 .reverse 1 3 (fun a => BitVec.ofNat 8 a) (fun _ => 7)
    (fun _ => 0) (by decide) (by decide) (by decide)

end

end KleidiCV
