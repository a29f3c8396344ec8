/-
The scalable 5x5 binomial Gaussian blur.

Bottom and top lanes are summed apart and stored interleaved; horizontally a sum is rounded
before it is narrowed.  Nothing wraps on the way.

* `verticalVectorPath_spec`, `horizontalSum_spec` — both passes of a vector;
* `filterType_computesOn` — the filter in the scalable driver.
-/
import KleidiCV.GaussianBlurFixed
import KleidiCV.ScalableSeparable

open Loop

namespace KleidiCV

open Scalable

namespace ScalableBlur5x5

section

-- What `_x` operations leave in inactive lanes, by address, operation and lane.
variable (lanes : ℕ) (unspecified : ℕ → ℕ → ℕ → BitVec (2 * 8))

/-- `vertical_vector_path`. -/
def verticalVectorPath (pg : ℕ → Bool) (src : ℕ → ℕ → BitVec 8) (dst : ℕ)
    (buffer : ℕ → BitVec (2 * 8)) : ℕ → BitVec (2 * 8) :=
  let acc04B := Sve.svaddlb (src 0) (src 4)
  let acc04T := Sve.svaddlt (src 0) (src 4)
  let acc13B := Sve.svaddlb (src 1) (src 3)
  let acc13T := Sve.svaddlt (src 1) (src 3)
  let accB := Sve.svmlalb acc04B (src 2) (Sve.svdupN 6)
  let accT := Sve.svmlalt acc04T (src 2) (Sve.svdupN 6)
  let accB := Sve.svmlaX (Sve.wide pg) (unspecified dst 0) accB acc13B (Sve.svdupN 4)
  let accT := Sve.svmlaX (Sve.wide pg) (unspecified dst 1) accT acc13T (Sve.svdupN 4)
  Sve.svst2 lanes (Sve.wide pg) buffer dst accB accT

/-- `horizontal_vector_path`, before the store. -/
def horizontalSum (pg : ℕ → Bool) (src : ℕ → ℕ → BitVec (2 * 8)) (dst : ℕ) : ℕ → BitVec (2 * 8) :=
  let acc04 := Sve.svaddX pg (unspecified dst 2) (src 0) (src 4)
  let acc13 := Sve.svaddX pg (unspecified dst 3) (src 1) (src 3)
  let acc := Sve.svmlaX pg (unspecified dst 4) acc04 (src 2) (Sve.svdupN 6)
  let acc := Sve.svmlaX pg (unspecified dst 5) acc acc13 (Sve.svdupN 4)
  Sve.svrshrX pg (unspecified dst 6) acc 8

/-- `horizontal_vector_path`. -/
def horizontalVectorPath (pg : ℕ → Bool) (src : ℕ → ℕ → BitVec (2 * 8)) (dst : ℕ)
    (m : ℕ → BitVec 8) : ℕ → BitVec 8 :=
  Sve.svst1 lanes pg m dst (Sve.narrow 8 (horizontalSum unspecified pg src dst))

/-- `GaussianBlur<uint8_t, 5, true>` as a `FilterType`; the scalar path is written as the one
for Neon is. -/
def filterType (vl : VectorLength) : ScalableFilterType (BitVec 8) (BitVec (2 * 8)) (BitVec 8) where
  sourceLanes := Scalable.numLanes vl 1
  bufferLanes := Scalable.numLanes vl 2
  verticalVectorPath := verticalVectorPath (Scalable.numLanes vl 2) unspecified
  horizontalVectorPath := horizontalVectorPath (Scalable.numLanes vl 2) unspecified
  horizontalScalarPath := fun src dst m =>
    Function.update m dst (GaussianBlur.Blur5x5.horizontalScalarPath src).value

end

variable {lanes : ℕ} {unspecified : ℕ → ℕ → ℕ → BitVec (2 * 8)}

/-- The binomial kernel. -/
abbrev kernel : List ℕ := [1, 4, 6, 4, 1]

theorem convolve_eq {w : ℕ} (src : ℕ → BitVec w) : GaussianBlur.convolve kernel src =
    (src 0).toNat + 4 * (src 1).toNat + 6 * (src 2).toNat + 4 * (src 3).toNat + (src 4).toNat := by
  simp [GaussianBlur.convolve, Finset.sum_range_succ]

/-- Even or odd elements of the taps: the sum of an active pair. -/
theorem verticalHalf_toNat {pg : ℕ → Bool} {l : ℕ} (h : pg l = true)
    (unspecified : ℕ → BitVec (2 * 8)) (src : ℕ → ℕ → BitVec 8) :
    (Sve.svmlaX pg unspecified
        (Sve.svmlal (Sve.svaddl (src 0) (src 4)) (src 2) (Sve.svdupN 6))
        (Sve.svaddl (src 1) (src 3)) (Sve.svdupN 4) l).toNat =
      GaussianBlur.convolve kernel fun t => src t l := by
  have h0 := (src 0 l).isLt
  have h1 := (src 1 l).isLt
  have h2 := (src 2 l).isLt
  have h3 := (src 3 l).isLt
  have h4 := (src 4 l).isLt
  have hsix : (Sve.svdupN 6 l : BitVec 8).toNat = 6 := Sve.svdupN_toNat (by decide) l
  have hfour : (Sve.svdupN 4 l : BitVec (2 * 8)).toNat = 4 := Sve.svdupN_toNat (by decide) l
  have hmlal : (Sve.svmlal (Sve.svaddl (src 0) (src 4)) (src 2) (Sve.svdupN 6) l).toNat =
      (src 0 l).toNat + (src 4 l).toNat + (src 2 l).toNat * 6 := by
    rw [Sve.svmlal_toNat, Sve.svaddl_toNat (by decide), hsix]
    rw [Sve.svaddl_toNat (by decide), hsix]
    omega
  rw [Sve.svmlaX_toNat h, hmlal, Sve.svaddl_toNat (by decide), hfour, convolve_eq]
  · ring
  · rw [hmlal, Sve.svaddl_toNat (by decide), hfour]
    omega

/-- The active elements of a vector hold the vertical sums. -/
theorem verticalVectorPath_spec {pg : ℕ → Bool} {k : ℕ} (hpg : Leading (2 * lanes) pg k)
    (src : ℕ → ℕ → BitVec 8) (dst : ℕ) (buffer : ℕ → BitVec (2 * 8)) :
    ∃ g, verticalVectorPath lanes unspecified pg src dst buffer =
        overwrite buffer dst (2 * ((k + 1) / 2)) g ∧
      ∀ lane < k, (g lane).toNat = GaussianBlur.convolve kernel fun t => src t lane := by
  have hwide := Sve.leading_wide hpg
  refine ⟨_, Sve.svst2_eq hwide _ _ _ _, fun lane hlane => ?_⟩
  have hactive : Sve.wide pg (lane / 2) = true := Sve.active_of_lt hwide (by omega)
  refine Sve.interleave_cases (P := fun lane (v : BitVec (2 * 8)) => v.toNat =
    GaussianBlur.convolve kernel fun t => src t lane) lane (fun _ => ?_) fun _ => ?_
  · exact verticalHalf_toNat hactive _ fun t => Sve.bottom (src t)
  · exact verticalHalf_toNat hactive _ fun t => Sve.top (src t)

/-- Vertical sums stay in the range of the horizontal pass. -/
def Valid (v : BitVec (2 * 8)) : Prop := v.toNat ≤ 255 * kernel.sum

theorem horizontalSum_spec {pg : ℕ → Bool} {l : ℕ} (h : pg l = true)
    {src : ℕ → ℕ → BitVec (2 * 8)} (hsrc : ∀ t < 5, Valid (src t l)) (dst : ℕ) :
    Sve.narrow 8 (horizontalSum unspecified pg src dst) l =
      BitVec.ofNat 8 (GaussianBlur.normalize kernel (GaussianBlur.convolve kernel fun t => src t l)) := by
  have hle : ∀ t < 5, (src t l).toNat ≤ 4080 := fun t ht => hsrc t ht
  have h0 := hle 0 (by decide)
  have h1 := hle 1 (by decide)
  have h2 := hle 2 (by decide)
  have h3 := hle 3 (by decide)
  have h4 := hle 4 (by decide)
  have hsix : (Sve.svdupN 6 l : BitVec (2 * 8)).toNat = 6 := Sve.svdupN_toNat (by decide) l
  have hfour : (Sve.svdupN 4 l : BitVec (2 * 8)).toNat = 4 := Sve.svdupN_toNat (by decide) l
  have h04 : (Sve.svaddX pg (unspecified dst 2) (src 0) (src 4) l).toNat =
      (src 0 l).toNat + (src 4 l).toNat := Sve.svaddX_toNat h (by omega)
  have h13 : (Sve.svaddX pg (unspecified dst 3) (src 1) (src 3) l).toNat =
      (src 1 l).toNat + (src 3 l).toNat := Sve.svaddX_toNat h (by omega)
  have h024 : (Sve.svmlaX pg (unspecified dst 4)
      (Sve.svaddX pg (unspecified dst 2) (src 0) (src 4)) (src 2) (Sve.svdupN 6) l).toNat =
        (src 0 l).toNat + (src 4 l).toNat + (src 2 l).toNat * 6 := by
    rw [Sve.svmlaX_toNat h, h04, hsix]
    rw [h04, hsix]
    omega
  have hsum : (Sve.svmlaX pg (unspecified dst 5) (Sve.svmlaX pg (unspecified dst 4)
      (Sve.svaddX pg (unspecified dst 2) (src 0) (src 4)) (src 2) (Sve.svdupN 6))
      (Sve.svaddX pg (unspecified dst 3) (src 1) (src 3)) (Sve.svdupN 4) l).toNat =
        GaussianBlur.convolve kernel fun t => src t l := by
    rw [Sve.svmlaX_toNat h, h024, h13, hfour, convolve_eq]
    · ring
    · rw [h024, h13, hfour]
      omega
  rw [Sve.narrow, horizontalSum, Sve.svrshrX, if_pos h, hsum,
    GaussianBlur.normalize_eq_shift (show kernel.sum ^ 2 = 2 ^ (7 + 1) from rfl)]
  exact BitVec.setWidth_ofNat_of_le (by decide) _

theorem horizontalScalarPath_spec {src : ℕ → BitVec (2 * 8)} (hsrc : ∀ t < 5, Valid (src t)) :
    (GaussianBlur.Blur5x5.horizontalScalarPath src).value =
      BitVec.ofNat 8 (GaussianBlur.normalize kernel (GaussianBlur.convolve kernel src)) := by
  rw [← (GaussianBlur.gaussianBlur5x5_exact.horizontalScalar src hsrc).2, BitVec.ofNat_toNat,
    BitVec.setWidth_eq]
  rfl

/-- **The filter in the scalable driver.** -/
theorem filterType_computesOn (vl : VectorLength) :
    (filterType unspecified vl).ComputesOn 5 Valid
      (fun src v => v.toNat = GaussianBlur.convolve kernel src)
      (fun src => BitVec.ofNat 8 (GaussianBlur.normalize kernel (GaussianBlur.convolve kernel src)))
    where
  sourceLanes_pos := numLanes_pos vl (.inl rfl)
  bufferLanes_pos := numLanes_pos vl (.inr (.inl rfl))
  verticalVector := by
    intro pg k hpg src dst buffer
    rw [filterType, Sve.numLanes_double vl (.inl rfl) (.inr (.inl rfl))] at hpg
    exact verticalVectorPath_spec hpg src dst buffer
  vertical_valid := by
    intro src v hv
    rw [Valid, hv]
    refine GaussianBlur.convolve_le fun t _ => ?_
    have := (src t).isLt
    omega
  horizontalVector := by
    intro pg k hpg src dst m hsrc
    refine ⟨_, Sve.svst1_eq hpg _ _ _, fun lane hlane => ?_⟩
    exact horizontalSum_spec (Sve.active_of_lt hpg hlane) (fun t ht => hsrc t ht lane hlane) dst
  horizontalScalar := fun src dst m hsrc =>
    congrArg (Function.update m dst) (horizontalScalarPath_spec hsrc)
  vertical_congr := fun src src' v h hv =>
    hv.trans (GaussianBlur.convolve_congr (show ∀ t < kernel.length, src t = src' t from h))
  horizontal_congr := fun src src' h => by
    rw [GaussianBlur.convolve_congr (show ∀ t < kernel.length, src t = src' t from h)]

end ScalableBlur5x5

end KleidiCV
