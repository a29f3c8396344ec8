/-
The window passes of the Lucas-Kanade tracker, scalable version.

A row goes in whole vectors of 16-bit lanes and one predicated vector.  The 32-bit sums
take the bottom and the top lanes, or pairs of lanes with a dot product.  Nothing is masked
before the sums: what is inactive was loaded as zero in one factor of every product.

* `lerp_lane` — bottom and top halves together interpolate every lane;
* `ScalableCall.sampled`, `ScalableCall.compared` — the buffers and the sums;
* `scalable_eq_neon` — the results are those of the Neon version.
-/
import KleidiCV.LucasKanadeNeon
import KleidiCV.Sve

open Loop

namespace KleidiCV

namespace LucasKanade

/-! ### The code -/

/-- `svmlalb_n_s32`, and `svmullb_n_s32` on a sum of zero. -/
def svmlalbN (acc a : ℕ → ℤ) (b : ℤ) : ℕ → ℤ := fun i => word 32 (acc i + a (2 * i) * b)

/-- `svmlalt_n_s32`, and `svmullt_n_s32` on a sum of zero. -/
def svmlaltN (acc a : ℕ → ℤ) (b : ℤ) : ℕ → ℤ := fun i => word 32 (acc i + a (2 * i + 1) * b)

/-- `svmullb_n_s32`. -/
def svmullbN (a : ℕ → ℤ) (b : ℤ) : ℕ → ℤ := fun i => a (2 * i) * b

/-- `svmullt_n_s32`. -/
def svmulltN (a : ℕ → ℤ) (b : ℤ) : ℕ → ℤ := fun i => a (2 * i + 1) * b

/-- `svqrshrnb_n_s32`. -/
def svqrshrnbN (a : ℕ → ℤ) (shift : ℕ) : ℕ → ℤ := fun l =>
  if l % 2 = 0 then vqrshrnN shift (a (l / 2)) else 0

/-- `svqrshrnt_n_s32`. -/
def svqrshrntN (even a : ℕ → ℤ) (shift : ℕ) : ℕ → ℤ := fun l =>
  if l % 2 = 0 then even l else vqrshrnN shift (a (l / 2))

/-- `lerp`. -/
def scalableLerp (shift : ℕ) (coeffs : Coefficients) (tl tr bl br : ℕ → ℤ) : ℕ → ℤ :=
  let b := svmullbN tl coeffs.tl
  let t := svmulltN tl coeffs.tl
  let b := svmlalbN b tr coeffs.tr
  let t := svmlaltN t tr coeffs.tr
  let b := svmlalbN b bl coeffs.bl
  let t := svmlaltN t bl coeffs.bl
  let b := svmlalbN b br coeffs.br
  let t := svmlaltN t br coeffs.br
  svqrshrntN (svqrshrnbN b shift) t shift

/-- The target: how many 32-bit lanes a vector has, and whether it has a dot product for
16-bit lanes. -/
structure Target where
  lanes : ℕ
  dot : Bool

namespace Target

/-- `svcnth()`. -/
def svcnth (t : Target) : ℕ := 2 * t.lanes

/-- The products of two vectors, added up: `svdot_s32_s16`, or `svmlalb_s32` and
`svmlalt_s32`. -/
def accumulate (t : Target) (wrap : ℤ → ℤ) (acc : LaneSum (Fin t.lanes)) (a b : ℕ → ℤ) :
    LaneSum (Fin t.lanes) :=
  if t.dot then
    acc.add wrap fun i => a (2 * i) * b (2 * i) + a (2 * i + 1) * b (2 * i + 1)
  else
    (acc.add wrap fun i => a (2 * i) * b (2 * i)).add wrap fun i => a (2 * i + 1) * b (2 * i + 1)

/-- The calls of `LoopUnroll2` in both passes. -/
def windowRow {σ : Type} (t : Target) (n : ℕ) (body : ℕ → (ℕ → Bool) → σ → σ) (s : σ) : σ :=
  ((LoopUnroll2.start n t.svcnth, s) |> LoopUnroll2.unrollOnce (fun index => body index svptrue) |>
    LoopUnroll2.remaining fun index last => body index (svwhilelt index last)).2

end Target

/-- The two buffers and the three sums. -/
structure ScalablePatch (lanes : ℕ) where
  window : ℕ → ℤ
  scharrWindow : ℕ → ℤ
  xx : LaneSum (Fin lanes)
  xy : LaneSum (Fin lanes)
  yy : LaneSum (Fin lanes)

namespace SampleCall

variable (t : Target) (wrap : ℤ → ℤ) (c : SampleCall)

/-- `prev` of `calc_scharr_x_scharr_y`. -/
def scalablePixels (y index : ℕ) (pg16 : ℕ → Bool) : ℕ → ℤ :=
  let row0 := c.place.imageRow c.prevStride y
  let row1 := row0 + c.prevStride
  let load (row : ℤ) : ℕ → ℤ := svld1 pg16 fun l => c.prev (row + l)
  scalableLerp (fractionBits - 5) c.place.coeff (load (row0 + index))
    (load (row0 + index + c.place.channels)) (load (row1 + index))
    (load (row1 + index + c.place.channels))

/-- `scharr_x` for `k = 0` and `scharr_y` for `k = 1`. -/
def scalableScharr (k y index : ℕ) (pg16 : ℕ → Bool) : ℕ → ℤ :=
  let row0 := c.place.scharrRow c.scharrStride y
  let row1 := row0 + c.scharrStride
  let load (row : ℤ) : ℕ → ℤ := svld1 pg16 fun l => c.scharr (row + l * 2 + k)
  scalableLerp fractionBits c.place.coeff (load (row0 + index * 2))
    (load (row0 + (index + c.place.channels) * 2)) (load (row1 + index * 2))
    (load (row1 + (index + c.place.channels) * 2))

/-- `calc_scharr_x_scharr_y`. -/
def calcScharrXScharrY (y index : ℕ) (pg16 : ℕ → Bool) (s : ScalablePatch t.lanes) :
    ScalablePatch t.lanes :=
  let scharrX := c.scalableScharr 0 y index pg16
  let scharrY := c.scalableScharr 1 y index pg16
  { window := svst1 pg16 s.window (c.place.windowRow y + index) t.svcnth
      (c.scalablePixels y index pg16)
    scharrWindow := svst2 pg16 s.scharrWindow (c.place.scharrWindowRow y + index * 2) t.svcnth
      scharrX scharrY
    xx := t.accumulate wrap s.xx scharrX scharrX
    xy := t.accumulate wrap s.xy scharrX scharrY
    yy := t.accumulate wrap s.yy scharrY scharrY }

/-- `sample_patch_and_gradients`. -/
def scalableSamplePatchAndGradients (window scharrWindow : ℕ → ℤ) : ScalablePatch t.lanes :=
  forRange c.place.windowHeight
    (fun y => t.windowRow c.place.windowWidthTimesChannels (c.calcScharrXScharrY t wrap y))
    ⟨window, scharrWindow, .zero, .zero, .zero⟩

end SampleCall

/-- The two sums. -/
structure ScalableMismatch (lanes : ℕ) where
  x : LaneSum (Fin lanes)
  y : LaneSum (Fin lanes)

namespace MismatchCall

-- `unspecified` is what `svsub_s16_x` leaves in a lane that is not active.
variable (t : Target) (wrap : ℤ → ℤ) (unspecified : ℕ → ℕ → ℕ → ℤ) (c : MismatchCall)

/-- `diff` of `accumulate_diff_row`. -/
def scalableDiff (y index : ℕ) (pg16 : ℕ → Bool) : ℕ → ℤ :=
  let row0 := c.place.imageRow c.nextStride y
  let row1 := row0 + c.nextStride
  let load (row : ℤ) : ℕ → ℤ := svld1 pg16 fun l => c.next (row + l)
  let diff := scalableLerp (fractionBits - 5) c.place.coeff (load (row0 + index))
    (load (row0 + index + c.place.channels)) (load (row1 + index))
    (load (row1 + index + c.place.channels))
  let win := svld1 pg16 fun l => c.window (c.place.windowRow y + index + l)
  fun l => if pg16 l then word 16 (diff l - win l) else unspecified y index l

/-- `scharr_x` for `k = 0` and `scharr_y` for `k = 1`. -/
def scalableScharr (k y index : ℕ) (pg16 : ℕ → Bool) : ℕ → ℤ :=
  svld1 pg16 fun l => c.scharrWindow (c.place.scharrWindowRow y + index * 2 + l * 2 + k)

/-- `accumulate_diff_row`. -/
def accumulateDiffRow (y index : ℕ) (pg16 : ℕ → Bool) (s : ScalableMismatch t.lanes) :
    ScalableMismatch t.lanes :=
  let diff := c.scalableDiff unspecified y index pg16
  { x := t.accumulate wrap s.x (c.scalableScharr 0 y index pg16) diff
    y := t.accumulate wrap s.y (c.scalableScharr 1 y index pg16) diff }

/-- `accumulate_mismatch_vector`. -/
def scalableAccumulateMismatchVector : ScalableMismatch t.lanes :=
  forRange c.place.windowHeight
    (fun y => t.windowRow c.place.windowWidthTimesChannels
      (c.accumulateDiffRow t wrap unspecified y)) ⟨.zero, .zero⟩

end MismatchCall

/-! ### Lanes -/

/-- **Bottom and top halves together interpolate every lane.** -/
theorem lerp_lane (shift : ℕ) (c : Coefficients) (tl tr bl br : ℕ → ℤ) (l : ℕ) :
    scalableLerp shift c tl tr bl br l = lerpLane shift c (tl l) (tr l) (bl l) (br l) := by
  simp only [scalableLerp, svqrshrntN, svqrshrnbN, svmlalbN, svmlaltN, svmullbN, svmulltN, lerpLane,
    vmlalLane]
  by_cases hl : l % 2 = 0
  · rw [if_pos hl, if_pos hl, show 2 * (l / 2) = l by omega]
  · rw [if_neg hl, show 2 * (l / 2) + 1 = l by omega]

/-- A lane without data. -/
theorem lerpLane_zero {shift : ℕ} (hshift : 0 < shift) (c : Coefficients) :
    lerpLane shift c 0 0 0 0 = 0 := by
  have hword : word 32 0 = 0 := by decide
  have hround : roundFixedPoint shift 0 = 0 := by
    rw [roundFixedPoint, zero_add]
    refine Int.ediv_eq_zero_of_lt (by positivity) ?_
    exact pow_lt_pow_right₀ (by norm_num) (by omega)
  simp only [lerpLane, vmlalLane, zero_mul, zero_add, hword, vqrshrnN, hround]
  norm_num

/-- A pair of active and inactive lanes adds up all products. -/
theorem Target.total_accumulate (t : Target) (acc : LaneSum (Fin t.lanes)) (a b : ℕ → ℤ) :
    ∑ l, (t.accumulate id acc a b).lanes l =
      ∑ l, acc.lanes l + ∑ l ∈ Finset.range t.svcnth, a l * b l := by
  rw [Target.svcnth, ← sum_pairs fun l => a l * b l, ← Finset.sum_add_distrib]
  refine Finset.sum_congr rfl fun i _ => ?_
  rw [Target.accumulate]
  split
  · rfl
  · exact add_assoc _ _ _

/-- What a vector with the lanes up to the end of the data carries on holds at the end of
the row. -/
theorem Target.windowRow_invariant {σ : Type} (t : Target) (inv : ℕ → σ → Prop) {n : ℕ}
    {body : ℕ → (ℕ → Bool) → σ → σ} {s : σ} (ht : 0 < t.lanes) (h0 : inv 0 s)
    (hbody : ∀ i e pg s, i ≤ e → e ≤ n → e ≤ i + t.svcnth →
      (∀ l < t.svcnth, pg l = decide (i + l < e)) → inv i s → inv e (body i pg s)) :
    inv n (t.windowRow n body s) := by
  have hpos : 0 < t.svcnth := by
    rw [Target.svcnth]
    omega
  have hstart : Unrolled n t.svcnth inv (LoopUnroll2.start n t.svcnth, s) := Unrolled.start h0
  have hvectors : Unrolled n t.svcnth inv
      (LoopUnroll2.unrollOnce (fun index => body index svptrue)
        (LoopUnroll2.start n t.svcnth, s)) :=
    hstart.unrollNTimes fun i s hi h => by
      rw [Nat.one_mul] at hi ⊢
      exact hbody i (i + t.svcnth) svptrue s (by omega) hi le_rfl
        (fun l hl => (decide_eq_true (by omega)).symm) h
  have hlt := hstart.lt_unrollNTimes 1 (fun index => body index svptrue) (by omega)
  have hrest : Unrolled n t.svcnth (fun i s => inv i s ∧ n < i + 1 * t.svcnth)
      (LoopUnroll2.unrollOnce (fun index => body index svptrue)
        (LoopUnroll2.start n t.svcnth, s)) :=
    { hvectors with holds := ⟨hvectors.holds, hlt⟩ }
  refine hrest.remaining (inv n) (fun s h => h.1) fun i s hi h => ?_
  exact hbody i n (svwhilelt i n) s hi.le le_rfl (by omega) (fun _ _ => rfl) h.1

/-- The sum over all elements up to element `i` of row `y`. -/
def sumUpTo (f : ℕ → ℕ → ℤ) (n y i : ℕ) : ℤ :=
  ∑ y' ∈ Finset.range y, ∑ x ∈ Finset.range n, f y' x + ∑ x ∈ Finset.range i, f y x

theorem sumUpTo_row (f : ℕ → ℕ → ℤ) (n y : ℕ) : sumUpTo f n (y + 1) 0 = sumUpTo f n y n := by
  rw [sumUpTo, sumUpTo, Finset.sum_range_succ, Finset.range_zero, Finset.sum_empty, add_zero]

/-- Products that are zero in the lanes without data. -/
theorem Target.total_accumulate_upTo (t : Target) {acc : LaneSum (Fin t.lanes)} {f : ℕ → ℕ → ℤ}
    {n y i e : ℕ} (hie : i ≤ e) (he : e ≤ i + t.svcnth)
    (hacc : ∑ l, acc.lanes l = sumUpTo f n y i) {a b : ℕ → ℤ}
    (hab : ∀ l < t.svcnth, a l * b l = if i + l < e then f y (i + l) else 0) :
    ∑ l, (t.accumulate id acc a b).lanes l = sumUpTo f n y e := by
  rw [t.total_accumulate, hacc, sumUpTo, sumUpTo, add_assoc, ← sum_masked (f y) hie he]
  congr 2
  exact Finset.sum_congr rfl fun l hl => hab l (Finset.mem_range.mp hl)

/-! ### The first pass -/

theorem filledRows_svst1 {f : ℕ → ℕ → ℤ} {n y i e lanes : ℕ} {old m : ℕ → ℤ} {pg : ℕ → Bool}
    (h : FilledRows f n old y i m) (hie : i ≤ e) (he : e ≤ i + lanes)
    (hpg : ∀ l < lanes, pg l = decide (i + l < e)) {v : ℕ → ℤ}
    (hv : ∀ l < lanes, i + l < e → v l = f y (i + l)) :
    FilledRows f n old y e (svst1 pg m (y * n + i) lanes v) := by
  refine h.store le_rfl hie (fun k hk hlt => ?_) fun j hj => if_neg fun hin => ?_
  · have hactive : pg (y * n + k - (y * n + i)) = true := by
      rw [hpg _ (by omega)]
      exact decide_eq_true (by omega)
    rw [svst1, if_pos ⟨by omega, by omega, hactive⟩, show y * n + k - (y * n + i) = k - i by omega,
      hv _ (by omega) (by omega), show i + (k - i) = k by omega]
  · obtain ⟨h1, h2, hactive⟩ := hin
    rw [hpg _ (by omega), decide_eq_true_eq] at hactive
    omega

theorem FilledPairs.svst2 {f : ℕ → ℕ → ℕ → ℤ} {n y i e lanes : ℕ} {old m : ℕ → ℤ} {pg : ℕ → Bool}
    (h : FilledPairs f n old y i m) (hie : i ≤ e) (he : e ≤ i + lanes)
    (hpg : ∀ l < lanes, pg l = decide (i + l < e)) {v0 v1 : ℕ → ℤ}
    (hv0 : ∀ l < lanes, i + l < e → v0 l = f 0 y (i + l))
    (hv1 : ∀ l < lanes, i + l < e → v1 l = f 1 y (i + l)) :
    FilledPairs f n old y e (KleidiCV.svst2 pg m ((y * n + i) * 2) lanes v0 v1) where
  even := by
    rw [svst2_even]
    exact filledRows_svst1 h.even hie he hpg hv0
  odd := by
    rw [svst2_odd]
    exact filledRows_svst1 h.odd hie he hpg hv1

namespace SampleCall

variable {t : Target} {c : SampleCall} {window scharrWindow : ℕ → ℤ} {y i e : ℕ} {pg : ℕ → Bool}

/-- A lane without data is zero. -/
theorem scalablePixels_eq (h : c.Admissible) (l : ℕ) :
    c.scalablePixels y i pg l = if pg l then c.pixel y (i + l) else 0 := by
  rw [scalablePixels, lerp_lane]
  cases hl : pg l with
  | false =>
    simp only [svld1_of_inactive hl]
    exact lerpLane_zero (by decide) _
  | true =>
    simp only [svld1_of_active hl, if_true]
    rw [← pixelLanes_eq h, pixelLanes, corners]
    congr 3 <;> ring_nf

theorem scalableScharr_eq (h : c.Admissible) (k l : ℕ) :
    c.scalableScharr k y i pg l = if pg l then c.scharrScalar k y (i + l) else 0 := by
  rw [scalableScharr, lerp_lane]
  cases hl : pg l with
  | false =>
    simp only [svld1_of_inactive hl]
    exact lerpLane_zero (by decide) _
  | true =>
    simp only [svld1_of_active hl, if_true]
    rw [← scharrLanes_eq h, scharrLanes, corners]
    congr 2 <;> ring_nf

/-- Everything up to element `i` of row `y` is done. -/
structure ScalableSampled (c : SampleCall) (window scharrWindow : ℕ → ℤ) (y i : ℕ) {lanes : ℕ}
    (s : ScalablePatch lanes) : Prop where
  window : FilledRows c.pixel c.place.windowWidthTimesChannels window y i s.window
  scharrWindow :
    FilledPairs c.scharrScalar c.place.windowWidthTimesChannels scharrWindow y i s.scharrWindow
  xx : ∑ l, s.xx.lanes l = sumUpTo (c.product 0 0) c.place.windowWidthTimesChannels y i
  xy : ∑ l, s.xy.lanes l = sumUpTo (c.product 0 1) c.place.windowWidthTimesChannels y i
  yy : ∑ l, s.yy.lanes l = sumUpTo (c.product 1 1) c.place.windowWidthTimesChannels y i

theorem scalableProduct (h : c.Admissible) {lanes : ℕ}
    (hpg : ∀ l < lanes, pg l = decide (i + l < e)) (k k' : ℕ) :
    ∀ l < lanes, c.scalableScharr k y i pg l * c.scalableScharr k' y i pg l =
      if i + l < e then c.product k k' y (i + l) else 0 := by
  intro l hl
  rw [scalableScharr_eq h, scalableScharr_eq h, hpg l hl]
  by_cases hlt : i + l < e
  · rw [decide_eq_true hlt, if_pos rfl, if_pos rfl, if_pos hlt, product]
  · rw [decide_eq_false hlt, if_neg Bool.false_ne_true, if_neg hlt, zero_mul]

theorem ScalableSampled.step (h : c.Admissible) (hie : i ≤ e) (he : e ≤ i + t.svcnth)
    (hpg : ∀ l < t.svcnth, pg l = decide (i + l < e)) {s : ScalablePatch t.lanes}
    (hs : c.ScalableSampled window scharrWindow y i s) :
    c.ScalableSampled window scharrWindow y e (c.calcScharrXScharrY t id y i pg s) where
  window := by
    show FilledRows _ _ _ _ _ (svst1 pg s.window (c.place.windowRow y + i) t.svcnth _)
    rw [windowRow_eq]
    refine filledRows_svst1 hs.window hie he hpg fun l hl hlt => ?_
    rw [scalablePixels_eq h, hpg l hl, if_pos (decide_eq_true hlt)]
  scharrWindow := by
    show FilledPairs _ _ _ _ _
      (svst2 pg s.scharrWindow (c.place.scharrWindowRow y + i * 2) t.svcnth _ _)
    rw [scharrWindowRow_eq]
    refine hs.scharrWindow.svst2 hie he hpg (fun l hl hlt => ?_) fun l hl hlt => ?_
    · rw [scalableScharr_eq h, hpg l hl, if_pos (decide_eq_true hlt)]
    · rw [scalableScharr_eq h, hpg l hl, if_pos (decide_eq_true hlt)]
  xx := t.total_accumulate_upTo hie he hs.xx (scalableProduct h hpg 0 0)
  xy := t.total_accumulate_upTo hie he hs.xy (scalableProduct h hpg 0 1)
  yy := t.total_accumulate_upTo hie he hs.yy (scalableProduct h hpg 1 1)

theorem ScalableSampled.row {lanes : ℕ} {s : ScalablePatch lanes}
    (hs : c.ScalableSampled window scharrWindow y c.place.windowWidthTimesChannels s) :
    c.ScalableSampled window scharrWindow (y + 1) 0 s where
  window := hs.window.row
  scharrWindow := hs.scharrWindow.row
  xx := by rw [hs.xx, sumUpTo_row]
  xy := by rw [hs.xy, sumUpTo_row]
  yy := by rw [hs.yy, sumUpTo_row]

/-- **The whole first pass.** -/
theorem scalableSampled (ht : 0 < t.lanes) (h : c.Admissible) (window scharrWindow : ℕ → ℤ) :
    c.ScalableSampled window scharrWindow c.place.windowHeight 0
      (c.scalableSamplePatchAndGradients t id window scharrWindow) := by
  refine forRange_invariant (fun y s => c.ScalableSampled window scharrWindow y 0 s) ?_
    fun y _ s hs => ?_
  · refine ⟨.start, ⟨.start, .start⟩, ?_, ?_, ?_⟩
    all_goals simp [sumUpTo, LaneSum.zero]
  · exact ScalableSampled.row (t.windowRow_invariant
      (fun i s => c.ScalableSampled window scharrWindow y i s) ht hs
      fun i e pg s hie _ he hpg hs => hs.step h hie he hpg)

end SampleCall

/-! ### The second pass -/

namespace MismatchCall

variable {t : Target} {unspecified : ℕ → ℕ → ℕ → ℤ} {c : MismatchCall} {p : SampleCall}
  {y i e : ℕ} {pg : ℕ → Bool}

theorem scalableDiff_eq {l : ℕ} (hl : pg l = true) :
    c.scalableDiff unspecified y i pg l = c.diffLanes y i l := by
  have hnext : scalableLerp (fractionBits - 5) c.place.coeff
      (svld1 pg fun l => c.next (c.place.imageRow c.nextStride y + i + l))
      (svld1 pg fun l => c.next (c.place.imageRow c.nextStride y + i + c.place.channels + l))
      (svld1 pg fun l => c.next (c.place.imageRow c.nextStride y + c.nextStride + i + l))
      (svld1 pg fun l => c.next (c.place.imageRow c.nextStride y + c.nextStride + i +
        c.place.channels + l)) l =
      corners (fun p => c.next p) (c.place.imageRow c.nextStride y + i + l) c.place.channels
        c.nextStride (lerpLane (fractionBits - 5) c.place.coeff) := by
    rw [lerp_lane, corners]
    simp only [svld1_of_active hl]
    congr 3 <;> ring_nf
  rw [diffLanes, ← hnext, ← svld1_of_active hl fun l => c.window (c.place.windowRow y + i + l)]
  exact if_pos hl

/-- Whatever a difference without data is, its derivative is zero. -/
theorem scalableProduct (h : c.Follows p) (hy : y < c.place.windowHeight)
    (hn : e ≤ c.place.windowWidthTimesChannels) {lanes : ℕ}
    (hpg : ∀ l < lanes, pg l = decide (i + l < e)) {k : ℕ} (hk : k < 2) :
    ∀ l < lanes, c.scalableScharr k y i pg l * c.scalableDiff unspecified y i pg l =
      if i + l < e then c.product p k y (i + l) else 0 := by
  intro l hl
  by_cases hlt : i + l < e
  · have hactive : pg l = true := by
      rw [hpg l hl]
      exact decide_eq_true hlt
    have haddress : c.place.scharrWindowRow y + i * 2 + l * 2 + k =
        c.place.scharrWindowRow y + (i + l) * 2 + k := by ring
    rw [if_pos hlt, ← scharrLanes_mul h hk hy (by omega), scalableDiff_eq hactive, scalableScharr,
      svld1_of_active hactive, haddress, scharrLanes]
  · have hinactive : pg l = false := by
      rw [hpg l hl]
      exact decide_eq_false hlt
    rw [if_neg hlt, scalableScharr, svld1_of_inactive hinactive, zero_mul]

/-- Everything up to element `i` of row `y` is done. -/
structure ScalableCompared (c : MismatchCall) (p : SampleCall) (y i : ℕ) {lanes : ℕ}
    (s : ScalableMismatch lanes) : Prop where
  x : ∑ l, s.x.lanes l = sumUpTo (c.product p 0) c.place.windowWidthTimesChannels y i
  y : ∑ l, s.y.lanes l = sumUpTo (c.product p 1) c.place.windowWidthTimesChannels y i

/-- **The whole second pass.** -/
theorem scalableCompared (unspecified : ℕ → ℕ → ℕ → ℤ) (ht : 0 < t.lanes) (h : c.Follows p) :
    c.ScalableCompared p c.place.windowHeight 0
      (c.scalableAccumulateMismatchVector t id unspecified) := by
  refine forRange_invariant (fun y s => c.ScalableCompared p y 0 s) ?_ fun y hy s hs => ?_
  · refine ⟨?_, ?_⟩
    all_goals simp [sumUpTo, LaneSum.zero]
  · have hrow : c.ScalableCompared p y c.place.windowWidthTimesChannels
        (t.windowRow c.place.windowWidthTimesChannels (c.accumulateDiffRow t id unspecified y) s) :=
      t.windowRow_invariant (fun i s => c.ScalableCompared p y i s) ht hs
        fun i e pg s hie hn he hpg hs =>
          ⟨t.total_accumulate_upTo hie he hs.x (scalableProduct h hy hn hpg (by decide)),
            t.total_accumulate_upTo hie he hs.y (scalableProduct h hy hn hpg (by decide))⟩
    exact ⟨by rw [hrow.x, sumUpTo_row], by rw [hrow.y, sumUpTo_row]⟩

end MismatchCall

/-! ### Scalable and Neon -/

theorem total_sampled {c : SampleCall} {window scharrWindow : ℕ → ℤ} {s : Patch}
    (hs : c.Sampled id window scharrWindow c.place.windowHeight 0 s) :
    s.xx.total = sumUpTo (c.product 0 0) c.place.windowWidthTimesChannels c.place.windowHeight 0 ∧
      s.xy.total = sumUpTo (c.product 0 1) c.place.windowWidthTimesChannels c.place.windowHeight 0 ∧
      s.yy.total =
        sumUpTo (c.product 1 1) c.place.windowWidthTimesChannels c.place.windowHeight 0 := by
  simp only [sumUpTo, Finset.range_zero, Finset.sum_empty, add_zero]
  rw [hs.xx, hs.xy, hs.yy]
  exact ⟨Accumulator.total_upTo LaneSum.run_id_exact, Accumulator.total_upTo LaneSum.run_id_exact,
    Accumulator.total_upTo LaneSum.run_id_exact⟩

theorem total_compared {c : MismatchCall} {p : SampleCall} {s : Mismatch}
    (hs : c.Compared id p c.place.windowHeight 0 s) :
    s.x.total = sumUpTo (c.product p 0) c.place.windowWidthTimesChannels c.place.windowHeight 0 ∧
      s.y.total =
        sumUpTo (c.product p 1) c.place.windowWidthTimesChannels c.place.windowHeight 0 := by
  simp only [sumUpTo, Finset.range_zero, Finset.sum_empty, add_zero]
  rw [hs.x, hs.y]
  exact ⟨Accumulator.total_upTo LaneSum.run_id_exact, Accumulator.total_upTo LaneSum.run_id_exact⟩

/-- **The scalable passes give what the Neon passes give**, for sums without a bound. -/
theorem scalable_eq_neon (t : Target) (ht : 0 < t.lanes) (unspecified : ℕ → ℕ → ℕ → ℤ)
    (p : SampleCall) (hp : p.Admissible) (window scharrWindow : ℕ → ℤ) (next : ℤ → U8)
    (nextStride nextX nextY : ℤ) (coeff : Coefficients) (hcoeff : coeff.Valid) :
    let place := { p.place with windowCornerX := nextX, windowCornerY := nextY, coeff := coeff }
    let s := p.scalableSamplePatchAndGradients t id window scharrWindow
    let n := p.samplePatchAndGradients id window scharrWindow
    let m := (MismatchCall.mk next nextStride s.window s.scharrWindow
      place).scalableAccumulateMismatchVector t id unspecified
    let o := (MismatchCall.mk next nextStride n.window n.scharrWindow
      place).accumulateMismatchVector id
    (s.window = n.window ∧ s.scharrWindow = n.scharrWindow) ∧
      (∑ l, s.xx.lanes l = n.xx.total ∧ ∑ l, s.xy.lanes l = n.xy.total ∧
        ∑ l, s.yy.lanes l = n.yy.total) ∧
      ∑ l, m.x.lanes l = o.x.total ∧ ∑ l, m.y.lanes l = o.y.total := by
  intro place s n m o
  have hs := SampleCall.scalableSampled (t := t) ht hp window scharrWindow
  have hn := SampleCall.samplePatchAndGradients_sampled id hp window scharrWindow
  have hwindow : s.window = n.window := hs.window.unique hn.window
  have hscharr : s.scharrWindow = n.scharrWindow := hs.scharrWindow.unique hn.scharrWindow
  have hfollows : (MismatchCall.mk next nextStride n.window n.scharrWindow place).Follows p :=
    ⟨hp, hcoeff, rfl, rfl, rfl, ⟨_, hn.window⟩, ⟨_, hn.scharrWindow⟩⟩
  have hm := MismatchCall.scalableCompared (t := t) unspecified ht hfollows
  have ho := total_compared (MismatchCall.accumulateMismatchVector_compared id hfollows)
  rw [← hwindow, ← hscharr] at hm ho
  have htotal := total_sampled hn
  refine ⟨⟨hwindow, hscharr⟩, ⟨?_, ?_, ?_⟩, ?_, ?_⟩
  · rw [htotal.1]
    exact hs.xx
  · rw [htotal.2.1]
    exact hs.xy
  · rw [htotal.2.2]
    exact hs.yy
  · show _ = (MismatchCall.accumulateMismatchVector id ⟨_, _, n.window, n.scharrWindow, _⟩).x.total
    rw [← hwindow, ← hscharr, ho.1]
    exact hm.x
  · show _ = (MismatchCall.accumulateMismatchVector id ⟨_, _, n.window, n.scharrWindow, _⟩).y.total
    rw [← hwindow, ← hscharr, ho.2]
    exact hm.y

/-- A window of 5 columns and 2 rows between four pixels. -/
def edgeSample : SampleCall where
  prev p := if p % 16 < 3 then 0 else 255
  prevStride := 16
  scharr p := if p % 32 = 4 then 4080 else 0
  scharrStride := 32
  place := ⟨1, 0, 0, 5, 2, ⟨2 ^ 12, 2 ^ 12, 2 ^ 12, 2 ^ 12⟩⟩

theorem edgeSample_admissible : edgeSample.Admissible where
  scharr_mem p := by
    show -4080 ≤ (if p % 32 = 4 then 4080 else 0 : ℤ) ∧ (if p % 32 = 4 then 4080 else 0 : ℤ) ≤ 4080
    split
    · decide
    · decide
  coeff := by refine ⟨?_, ?_, ?_, ?_, ?_⟩ <;> decide

theorem scalable_eq_neon_edgeSample :
    (edgeSample.scalableSamplePatchAndGradients ⟨4, false⟩ id (fun _ => 0) fun _ => 0).window =
      (edgeSample.samplePatchAndGradients id (fun _ => 0) fun _ => 0).window :=
  (scalable_eq_neon ⟨4, false⟩ (by decide) (fun _ _ _ => 0) edgeSample edgeSample_admissible
    (fun _ => 0) (fun _ => 0) (fun _ => 0) 16 0 0 edgeSample.place.coeff
    edgeSample_admissible.coeff).1.1

end LucasKanade

end KleidiCV
