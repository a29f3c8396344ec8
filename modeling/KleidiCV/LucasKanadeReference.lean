/-
The window passes of the Lucas-Kanade tracker as plain double loops.

The loops go through the elements of a window once, in order, with no vectors: they store the
weighted mean of four neighbours, rounded half up, and add each product to its sum.

* `roundFixedPoint_eq_floor` — the fixed-point shift rounds half up;
* `SampleCall.doubleLoop_sampled`, `MismatchCall.doubleLoop_compared` — what the loops leave;
* `neon_eq_doubleLoop` — vectors of 8 and 4, the masked vector that overlaps the one before
  and single elements together do the same.
-/
import KleidiCV.LucasKanadeScalable

open Loop

namespace KleidiCV

namespace LucasKanade

/-! ### Rounding -/

/-- The nearest integer, and the upper one of two. -/
def roundHalfUp (x : ℚ) : ℤ := ⌊x + 1 / 2⌋

theorem roundFixedPoint_eq_floor {bits : ℕ} (hbits : 0 < bits) (x : ℤ) :
    roundFixedPoint bits x = roundHalfUp (x / 2 ^ bits) := by
  obtain ⟨k, rfl⟩ := Nat.exists_eq_add_of_lt hbits
  rw [Nat.zero_add]
  have hhalf : (x / 2 ^ (k + 1) + 1 / 2 : ℚ) = ((x + 2 ^ k : ℤ) : ℚ) / (2 ^ (k + 1) : ℕ) := by
    push_cast
    rw [pow_succ]
    field_simp
  rw [roundHalfUp, hhalf, Rat.floor_intCast_div_natCast, roundFixedPoint, Nat.add_sub_cancel]
  push_cast
  rfl

/-- The weighted mean of four neighbours, with `bits` fraction bits less than the weights. -/
def weightedMean (bits : ℕ) (coeff : Coefficients) (tl tr bl br : ℤ) : ℤ :=
  roundHalfUp ((tl * coeff.tl + tr * coeff.tr + bl * coeff.bl + br * coeff.br : ℤ) / 2 ^ bits)

theorem lerpScalar_eq_weightedMean {bits : ℕ} (hbits : 0 < bits) (coeff : Coefficients) :
    lerpScalar bits coeff = weightedMean bits coeff := by
  funext tl tr bl br
  rw [lerpScalar, roundFixedPoint_eq_floor hbits, weightedMean]

/-! ### The loops -/

/-- The two buffers and the three sums. -/
structure DoubleLoopPatch where
  window : ℕ → ℤ
  scharrWindow : ℕ → ℤ
  xx : ℤ
  xy : ℤ
  yy : ℤ

namespace SampleCall

variable (c : SampleCall)

/-- The mean for element `x` of row `y` of the window. -/
def meanPixel (y x : ℕ) : ℤ :=
  corners (fun p => c.prev p) (c.place.imageRow c.prevStride y + x) c.place.channels c.prevStride
    (weightedMean 9 c.place.coeff)

/-- The mean of the horizontal derivatives for `k = 0`, of the vertical ones for `k = 1`. -/
def meanScharr (k y x : ℕ) : ℤ :=
  corners c.scharr (c.place.scharrRow c.scharrStride y + x * 2 + k) (c.place.channels * 2)
    c.scharrStride (weightedMean 14 c.place.coeff)

/-- One element. -/
def doubleLoopElement (y x : ℕ) (s : DoubleLoopPatch) : DoubleLoopPatch :=
  let index := y * c.place.windowWidthTimesChannels + x
  let scharrX := c.meanScharr 0 y x
  let scharrY := c.meanScharr 1 y x
  { window := Function.update s.window index (c.meanPixel y x)
    scharrWindow :=
      Function.update (Function.update s.scharrWindow (2 * index) scharrX) (2 * index + 1) scharrY
    xx := s.xx + scharrX * scharrX
    xy := s.xy + scharrX * scharrY
    yy := s.yy + scharrY * scharrY }

/-- All elements of the window, one after the other. -/
def doubleLoop (window scharrWindow : ℕ → ℤ) : DoubleLoopPatch :=
  forRange c.place.windowHeight (fun y =>
    forRange c.place.windowWidthTimesChannels (c.doubleLoopElement y))
    ⟨window, scharrWindow, 0, 0, 0⟩

end SampleCall

/-- The two sums. -/
structure DoubleLoopMismatch where
  x : ℤ
  y : ℤ

namespace MismatchCall

variable (c : MismatchCall)

/-- The mean for element `x` of row `y` of the window. -/
def meanPixel (y x : ℕ) : ℤ :=
  corners (fun p => c.next p) (c.place.imageRow c.nextStride y + x) c.place.channels c.nextStride
    (weightedMean 9 c.place.coeff)

/-- One element. -/
def doubleLoopElement (y x : ℕ) (s : DoubleLoopMismatch) : DoubleLoopMismatch :=
  let index := y * c.place.windowWidthTimesChannels + x
  let diff := c.meanPixel y x - c.window index
  { x := s.x + c.scharrWindow (2 * index) * diff
    y := s.y + c.scharrWindow (2 * index + 1) * diff }

/-- All elements of the window, one after the other. -/
def doubleLoop : DoubleLoopMismatch :=
  forRange c.place.windowHeight (fun y =>
    forRange c.place.windowWidthTimesChannels (c.doubleLoopElement y)) ⟨0, 0⟩

end MismatchCall

/-! ### What the loops leave -/

/-- Both loops carry the invariant on from element to element and from row to row. -/
theorem doubleLoop_invariant {σ : Type} (inv : ℕ → ℕ → σ → Prop) {n height : ℕ}
    {element : ℕ → ℕ → σ → σ} {s : σ} (h0 : inv 0 0 s)
    (helement : ∀ y < height, ∀ x < n, ∀ s, inv y x s → inv y (x + 1) (element y x s))
    (hrow : ∀ y s, inv y n s → inv (y + 1) 0 s) :
    inv height 0 (forRange height (fun y => forRange n (element y)) s) :=
  forRange_invariant (fun y => inv y 0) h0 fun y hy _ hs =>
    hrow y _ (forRange_invariant (inv y) hs fun x hx s h => helement y hy x hx s h)

/-- A pair of elements, seen from the even and the odd ones. -/
theorem update_pair (m : ℕ → ℤ) (index : ℕ) (v0 v1 : ℤ) :
    (fun j => Function.update (Function.update m (2 * index) v0) (2 * index + 1) v1 (j * 2)) =
        Function.update (fun j => m (j * 2)) index v0 ∧
      (fun j => Function.update (Function.update m (2 * index) v0) (2 * index + 1) v1 (j * 2 + 1)) =
        Function.update (fun j => m (j * 2 + 1)) index v1 := by
  constructor
  · funext j
    rw [Function.update_of_ne (by omega)]
    by_cases hj : j = index
    · rw [hj, Nat.mul_comm, Function.update_self, Function.update_self]
    · rw [Function.update_of_ne (by omega), Function.update_of_ne hj]
  · funext j
    by_cases hj : j = index
    · rw [hj, Nat.mul_comm, Function.update_self, Function.update_self]
    · rw [Function.update_of_ne (by omega), Function.update_of_ne (by omega),
        Function.update_of_ne hj]

theorem sumUpTo_element (f : ℕ → ℕ → ℤ) (n y i : ℕ) :
    sumUpTo f n y (i + 1) = sumUpTo f n y i + f y i := by
  rw [sumUpTo, sumUpTo, Finset.sum_range_succ, add_assoc]

namespace SampleCall

variable {c : SampleCall} {window scharrWindow : ℕ → ℤ}

theorem meanPixel_eq (c : SampleCall) : c.meanPixel = c.pixel := by
  funext y x
  rw [meanPixel, pixel, ← lerpScalar_eq_weightedMean (by decide)]
  rfl

theorem meanScharr_eq (c : SampleCall) : c.meanScharr = c.scharrScalar := by
  funext k y x
  rw [meanScharr, scharrScalar, ← lerpScalar_eq_weightedMean (by decide)]
  rfl

/-- Everything up to element `i` of row `y` is done. -/
structure DoubleLoopSampled (c : SampleCall) (window scharrWindow : ℕ → ℤ) (y i : ℕ)
    (s : DoubleLoopPatch) : Prop where
  window : FilledRows c.pixel c.place.windowWidthTimesChannels window y i s.window
  scharrWindow :
    FilledPairs c.scharrScalar c.place.windowWidthTimesChannels scharrWindow y i s.scharrWindow
  xx : s.xx = sumUpTo (c.product 0 0) c.place.windowWidthTimesChannels y i
  xy : s.xy = sumUpTo (c.product 0 1) c.place.windowWidthTimesChannels y i
  yy : s.yy = sumUpTo (c.product 1 1) c.place.windowWidthTimesChannels y i

theorem DoubleLoopSampled.element {y i : ℕ} {s : DoubleLoopPatch}
    (hs : DoubleLoopSampled c window scharrWindow y i s) :
    DoubleLoopSampled c window scharrWindow y (i + 1) (c.doubleLoopElement y i s) where
  window := hs.window.update (by rw [meanPixel_eq])
  scharrWindow := by
    obtain ⟨heven, hodd⟩ := update_pair s.scharrWindow
      (y * c.place.windowWidthTimesChannels + i) (c.meanScharr 0 y i) (c.meanScharr 1 y i)
    constructor
    · refine (congrArg (FilledRows _ _ _ _ _) heven).mpr ?_
      exact hs.scharrWindow.even.update (by rw [meanScharr_eq])
    · refine (congrArg (FilledRows _ _ _ _ _) hodd).mpr ?_
      exact hs.scharrWindow.odd.update (by rw [meanScharr_eq])
  xx := by
    show s.xx + c.meanScharr 0 y i * c.meanScharr 0 y i = _
    rw [hs.xx, meanScharr_eq, sumUpTo_element, product]
  xy := by
    show s.xy + c.meanScharr 0 y i * c.meanScharr 1 y i = _
    rw [hs.xy, meanScharr_eq, sumUpTo_element, product]
  yy := by
    show s.yy + c.meanScharr 1 y i * c.meanScharr 1 y i = _
    rw [hs.yy, meanScharr_eq, sumUpTo_element, product]

theorem DoubleLoopSampled.row {y : ℕ} {s : DoubleLoopPatch}
    (hs : DoubleLoopSampled c window scharrWindow y c.place.windowWidthTimesChannels s) :
    DoubleLoopSampled c window scharrWindow (y + 1) 0 s where
  window := hs.window.row
  scharrWindow := hs.scharrWindow.row
  xx := by rw [hs.xx, sumUpTo_row]
  xy := by rw [hs.xy, sumUpTo_row]
  yy := by rw [hs.yy, sumUpTo_row]

/-- **The first loop.** -/
theorem doubleLoop_sampled (c : SampleCall) (window scharrWindow : ℕ → ℤ) :
    DoubleLoopSampled c window scharrWindow c.place.windowHeight 0
      (c.doubleLoop window scharrWindow) := by
  refine doubleLoop_invariant (DoubleLoopSampled c window scharrWindow) ?_
    (fun _ _ _ _ _ hs => hs.element) fun _ _ hs => hs.row
  exact ⟨.start, ⟨.start, .start⟩, by simp [sumUpTo], by simp [sumUpTo], by simp [sumUpTo]⟩

end SampleCall

namespace MismatchCall

variable {c : MismatchCall} {p : SampleCall}

theorem meanPixel_eq (c : MismatchCall) : c.meanPixel = c.pixel := by
  funext y x
  rw [meanPixel, pixel, ← lerpScalar_eq_weightedMean (by decide)]
  rfl

/-- Everything up to element `i` of row `y` is done. -/
structure DoubleLoopCompared (c : MismatchCall) (p : SampleCall) (y i : ℕ)
    (s : DoubleLoopMismatch) : Prop where
  x : s.x = sumUpTo (c.product p 0) c.place.windowWidthTimesChannels y i
  y : s.y = sumUpTo (c.product p 1) c.place.windowWidthTimesChannels y i

theorem DoubleLoopCompared.element (h : c.Follows p) {y i : ℕ} (hy : y < c.place.windowHeight)
    (hi : i < c.place.windowWidthTimesChannels) {s : DoubleLoopMismatch}
    (hs : DoubleLoopCompared c p y i s) :
    DoubleLoopCompared c p y (i + 1) (c.doubleLoopElement y i s) := by
  have hwindow := window_eq h hy hi
  have hscharr := scharrWindow_eq h hy hi
  rw [SampleCall.scharrWindowRow_eq, Nat.mul_comm _ 2] at hscharr
  rw [SampleCall.windowRow_eq] at hwindow
  constructor
  · show s.x + c.scharrWindow _ * (c.meanPixel y i - c.window _) = _
    rw [hs.x, meanPixel_eq, hwindow, hscharr.1, sumUpTo_element, product]
  · show s.y + c.scharrWindow _ * (c.meanPixel y i - c.window _) = _
    rw [hs.y, meanPixel_eq, hwindow, hscharr.2, sumUpTo_element, product]

/-- **The second loop.** -/
theorem doubleLoop_compared (h : c.Follows p) :
    DoubleLoopCompared c p c.place.windowHeight 0 c.doubleLoop := by
  refine doubleLoop_invariant (DoubleLoopCompared c p) ?_
    (fun y hy x hx _ hs => hs.element h hy hx) fun y s hs => ?_
  · exact ⟨by simp [sumUpTo], by simp [sumUpTo]⟩
  · exact ⟨by rw [hs.x, sumUpTo_row], by rw [hs.y, sumUpTo_row]⟩

end MismatchCall

/-! ### Vectors and double loops -/

/-- **The Neon passes do what the double loops do**, for sums without a bound: every element of
the buffers is the weighted mean of its four neighbours, rounded half up, and every product is
added once. -/
theorem neon_eq_doubleLoop (p : SampleCall) (hp : p.Admissible) (window scharrWindow : ℕ → ℤ)
    (next : ℤ → U8) (nextStride nextX nextY : ℤ) (coeff : Coefficients) (hcoeff : coeff.Valid) :
    let place := { p.place with windowCornerX := nextX, windowCornerY := nextY, coeff := coeff }
    let n := p.samplePatchAndGradients id window scharrWindow
    let d := p.doubleLoop window scharrWindow
    let c := MismatchCall.mk next nextStride n.window n.scharrWindow place
    let m := c.accumulateMismatchVector id
    ((n.window = d.window ∧ n.scharrWindow = d.scharrWindow) ∧
      n.xx.total = d.xx ∧ n.xy.total = d.xy ∧ n.yy.total = d.yy) ∧
    (m.x.total = c.doubleLoop.x ∧ m.y.total = c.doubleLoop.y) ∧
    ∀ y x, y < p.place.windowHeight → x < p.place.windowWidthTimesChannels →
      let index := y * p.place.windowWidthTimesChannels + x
      n.window index = p.meanPixel y x ∧ n.scharrWindow (2 * index) = p.meanScharr 0 y x ∧
        n.scharrWindow (2 * index + 1) = p.meanScharr 1 y x := by
  intro place n d c m
  have hn := SampleCall.samplePatchAndGradients_sampled id hp window scharrWindow
  have hd := p.doubleLoop_sampled window scharrWindow
  have hfollows : c.Follows p :=
    ⟨hp, hcoeff, rfl, rfl, rfl, ⟨_, hn.window⟩, ⟨_, hn.scharrWindow⟩⟩
  have hm := MismatchCall.accumulateMismatchVector_compared id hfollows
  have hloop := MismatchCall.doubleLoop_compared hfollows
  obtain ⟨hxx, hxy, hyy⟩ := total_sampled hn
  obtain ⟨hx, hy⟩ := total_compared hm
  refine ⟨⟨⟨hn.window.unique hd.window, hn.scharrWindow.unique hd.scharrWindow⟩, ?_, ?_, ?_⟩,
    ⟨?_, ?_⟩, fun y x hyLt hxLt => ⟨?_, ?_, ?_⟩⟩
  · rw [hxx, hd.xx]
  · rw [hxy, hd.xy]
  · rw [hyy, hd.yy]
  · rw [hx, hloop.x]
  · rw [hy, hloop.y]
  · rw [SampleCall.meanPixel_eq]
    exact hn.window.done y x hxLt (.inl hyLt)
  · rw [SampleCall.meanScharr_eq, Nat.mul_comm]
    exact hn.scharrWindow.even.done y x hxLt (.inl hyLt)
  · rw [SampleCall.meanScharr_eq, Nat.mul_comm]
    exact hn.scharrWindow.odd.done y x hxLt (.inl hyLt)

/-- A window that ends with a vector over one that is there already. -/
theorem neon_eq_doubleLoop_edgeSample :
    (edgeSample.samplePatchAndGradients id (fun _ => 0) fun _ => 0).xy.total =
      (edgeSample.doubleLoop (fun _ => 0) fun _ => 0).xy :=
  (neon_eq_doubleLoop edgeSample edgeSample_admissible (fun _ => 0) (fun _ => 0) (fun _ => 0) 16 0 0
    edgeSample.place.coeff edgeSample_admissible.coeff).1.2.2.1

end LucasKanade

end KleidiCV
