/-
How many products fit into the accumulators of the Lucas-Kanade tracker.

A lane of the Neon version adds up one product for every four elements of a window row,
in 32 bits and over the whole window.  A difference of two pixels is at most 8162 and a
derivative at most 4081, so a lane has room for 64 products.

* `LevelArgs.Holds` — nothing wraps around and the sums are those over the window;
* `holds_iff` — exactly the windows with at most 64 products in a lane;
* `stripes_overflow` — a striped image in a window of 20 columns and 20 rows.
-/
import KleidiCV.LucasKanadeNeon

namespace KleidiCV

namespace LucasKanade

namespace LevelArgs

variable (a : LevelArgs)

/-- A window of the level. -/
def place (cornerX cornerY : ℤ) (coeff : Coefficients) : Placement where
  channels := a.channels.toNat
  windowCornerX := cornerX
  windowCornerY := cornerY
  windowWidth := a.windowWidth.toNat
  windowHeight := a.windowHeight.toNat
  coeff := coeff

/-- The first pass of `compute`. -/
def sampleCall (prev : ℤ → U8) (scharr : ℤ → ℤ) (cornerX cornerY : ℤ) (coeff : Coefficients) :
    SampleCall where
  prev := prev
  prevStride := a.prevDataStride
  scharr := scharr
  scharrStride := (a.scharrStrideBytes / 2 : ℕ)
  place := a.place cornerX cornerY coeff

/-- The second pass, on the buffers of the first. -/
def mismatchCall (next : ℤ → U8) (s : Patch) (cornerX cornerY : ℤ) (coeff : Coefficients) :
    MismatchCall where
  next := next
  nextStride := a.nextStride
  window := s.window
  scharrWindow := s.scharrWindow
  place := a.place cornerX cornerY coeff

end LevelArgs

/-- No lane has wrapped around. -/
def NoOverflow (s : Patch) (m : Mismatch) : Prop :=
  (s.xx.lanes.exact ∧ s.xy.lanes.exact ∧ s.yy.lanes.exact) ∧ m.x.lanes.exact ∧ m.y.lanes.exact

/-- A sum over all elements of the window. -/
def Placement.windowSum (w : Placement) (f : ℕ → ℕ → ℤ) : ℤ :=
  ∑ y ∈ Finset.range w.windowHeight, ∑ x ∈ Finset.range w.windowWidthTimesChannels, f y x

/-- The structure tensor and the mismatch vector are the sums over the window. -/
def SumsExact (p : SampleCall) (c : MismatchCall) (s : Patch) (m : Mismatch) : Prop :=
  (s.xx.total = p.place.windowSum (p.product 0 0) ∧ s.xy.total = p.place.windowSum (p.product 0 1) ∧
      s.yy.total = p.place.windowSum (p.product 1 1)) ∧
    m.x.total = c.place.windowSum (c.product p 0) ∧ m.y.total = c.place.windowSum (c.product p 1)

/-- For images, derivatives and weights of any kind. -/
def LevelArgs.Holds (a : LevelArgs) : Prop :=
  ∀ (prev next : ℤ → U8) (scharr : ℤ → ℤ), (∀ p, -4080 ≤ scharr p ∧ scharr p ≤ 4080) →
    ∀ (prevX prevY nextX nextY : ℤ) (prevCoeff nextCoeff : Coefficients), prevCoeff.Valid →
      nextCoeff.Valid → ∀ window scharrWindow : ℕ → ℤ,
        let p := a.sampleCall prev scharr prevX prevY prevCoeff
        let s := p.samplePatchAndGradients (word 32) window scharrWindow
        let c := a.mismatchCall next s nextX nextY nextCoeff
        let m := c.accumulateMismatchVector (word 32)
        NoOverflow s m ∧ SumsExact p c s m

/-- The number of products in a lane. -/
def LevelArgs.productsPerLane (a : LevelArgs) : ℕ :=
  let n := (a.windowWidth * a.channels).toNat
  if n < 4 then 0 else a.windowHeight.toNat * ((n + 3) / 4)

section Passes

variable {a : LevelArgs} {prev next : ℤ → U8} {scharr : ℤ → ℤ} {prevX prevY nextX nextY : ℤ}
  {prevCoeff nextCoeff : Coefficients} {wrap : ℤ → ℤ}

theorem follows (hscharr : ∀ p, -4080 ≤ scharr p ∧ scharr p ≤ 4080) (hprev : prevCoeff.Valid)
    (hnext : nextCoeff.Valid) (window scharrWindow : ℕ → ℤ) :
    let p := a.sampleCall prev scharr prevX prevY prevCoeff
    (a.mismatchCall next (p.samplePatchAndGradients wrap window scharrWindow) nextX nextY
      nextCoeff).Follows p := by
  intro p
  have hadmissible : p.Admissible := ⟨hscharr, hprev⟩
  have hsampled := SampleCall.samplePatchAndGradients_sampled wrap hadmissible window
    scharrWindow
  exact ⟨hadmissible, hnext, rfl, rfl, rfl, ⟨_, hsampled.window⟩, ⟨_, hsampled.scharrWindow⟩⟩

/-- Sums that lose nothing are the sums over the window. -/
theorem sumsExact {p : SampleCall} {c : MismatchCall} {s : Patch} {m : Mismatch}
    {window scharrWindow : ℕ → ℤ} (hs : p.Sampled wrap window scharrWindow p.place.windowHeight 0 s)
    (hm : c.Compared wrap p c.place.windowHeight 0 m) (hfit : NoOverflow s m) :
    SumsExact p c s m := by
  obtain ⟨⟨hxx, hxy, hyy⟩, hx, hy⟩ := hfit
  rw [hs.xx] at hxx
  rw [hs.xy] at hxy
  rw [hs.yy] at hyy
  rw [hm.x] at hx
  rw [hm.y] at hy
  refine ⟨⟨?_, ?_, ?_⟩, ?_, ?_⟩
  · rw [hs.xx, Accumulator.total_upTo hxx]
    rfl
  · rw [hs.xy, Accumulator.total_upTo hxy]
    rfl
  · rw [hs.yy, Accumulator.total_upTo hyy]
    rfl
  · rw [hm.x, Accumulator.total_upTo hx]
    rfl
  · rw [hm.y, Accumulator.total_upTo hy]
    rfl

theorem word_of_abs (x : ℤ) (h : |x| < 2 ^ 31) : word 32 x = x := by
  rw [abs_lt] at h
  exact word_eq h.1.le h.2 (by decide)

theorem abs_mul_le {u v A B : ℤ} (hu : -A ≤ u ∧ u ≤ A) (hv : -B ≤ v ∧ v ≤ B) : |u * v| ≤ A * B := by
  rw [abs_mul]
  exact mul_le_mul (abs_le.mpr hu) (abs_le.mpr hv) (abs_nonneg v)
    ((abs_nonneg u).trans (abs_le.mpr hu))

/-- Every product is at most the one of the largest difference and derivative. -/
theorem abs_sampleProduct_le {p : SampleCall} (h : p.Admissible) (k k' y x : ℕ) :
    |p.product k k' y x| ≤ 4081 * 8162 := by
  have h1 := SampleCall.scharrScalar_mem h k y x
  have h2 := SampleCall.scharrScalar_mem h k' y x
  exact abs_mul_le h1 ⟨by omega, by omega⟩

theorem abs_mismatchProduct_le {p : SampleCall} {c : MismatchCall} (h : c.Follows p) (k y x : ℕ) :
    |c.product p k y x| ≤ 4081 * 8162 := by
  have h1 := MismatchCall.pixel_mem h y x
  have h2 := SampleCall.pixel_mem h.admissible y x
  exact abs_mul_le (SampleCall.scharrScalar_mem h.admissible k y x) ⟨by omega, by omega⟩

end Passes

theorem productsPerLane_eq {a : LevelArgs} (h : a.Accepted) (cornerX cornerY : ℤ)
    (coeff : Coefficients) :
    a.productsPerLane = (a.place cornerX cornerY coeff).windowHeight *
      Accumulator.perRow (a.place cornerX cornerY coeff).windowWidthTimesChannels := by
  have hn : (a.windowWidth * a.channels).toNat = a.windowWidth.toNat * a.channels.toNat := by
    have h1 := h.windowWidth
    have h2 := h.channels
    rw [Int.toNat_mul (by omega) (by omega)]
  rw [LevelArgs.productsPerLane, Accumulator.perRow]
  show _ = a.windowHeight.toNat * if a.windowWidth.toNat * a.channels.toNat < 4 then 0 else _
  rw [hn]
  split
  · rw [mul_zero]
  · rfl

/-- Up to 64 products fit. -/
theorem holds_of_le {a : LevelArgs} (ha : a.Accepted) (h : a.productsPerLane ≤ 64) : a.Holds := by
  intro prev next scharr hscharr prevX prevY nextX nextY prevCoeff nextCoeff hprev hnext window
    scharrWindow p s c m
  have hadmissible : p.Admissible := ⟨hscharr, hprev⟩
  have hs := SampleCall.samplePatchAndGradients_sampled (word 32) hadmissible window
    scharrWindow
  have hfollows : c.Follows p := follows hscharr hprev hnext window scharrWindow
  have hm := MismatchCall.accumulateMismatchVector_compared (word 32) hfollows
  have hprevLen : ((p.place.windowHeight * Accumulator.perRow p.place.windowWidthTimesChannels : ℕ) : ℤ)
      * (4081 * 8162) < 2 ^ 31 := by
    have heq := productsPerLane_eq ha prevX prevY prevCoeff
    rw [show p.place = a.place prevX prevY prevCoeff from rfl, ← heq]
    omega
  have hnextLen : ((c.place.windowHeight * Accumulator.perRow c.place.windowWidthTimesChannels : ℕ) : ℤ)
      * (4081 * 8162) < 2 ^ 31 := by
    have heq := productsPerLane_eq ha nextX nextY nextCoeff
    rw [show c.place = a.place nextX nextY nextCoeff from rfl, ← heq]
    omega
  have hfit : NoOverflow s m := by
    refine ⟨⟨?_, ?_, ?_⟩, ?_, ?_⟩
    · rw [hs.xx]
      exact Accumulator.exact_upTo word_of_abs (by decide) (abs_sampleProduct_le hadmissible 0 0)
        hprevLen
    · rw [hs.xy]
      exact Accumulator.exact_upTo word_of_abs (by decide) (abs_sampleProduct_le hadmissible 0 1)
        hprevLen
    · rw [hs.yy]
      exact Accumulator.exact_upTo word_of_abs (by decide) (abs_sampleProduct_le hadmissible 1 1)
        hprevLen
    · rw [hm.x]
      exact Accumulator.exact_upTo word_of_abs (by decide) (abs_mismatchProduct_le hfollows 0)
        hnextLen
    · rw [hm.y]
      exact Accumulator.exact_upTo word_of_abs (by decide) (abs_mismatchProduct_le hfollows 1)
        hnextLen
  exact ⟨hfit, sumsExact hs hm hfit⟩

/-! ### Windows that are too large -/

/-- The weights of a whole pixel. -/
def wholePixel : Coefficients := ⟨2 ^ 14, 0, 0, 0⟩

theorem wholePixel_valid : wholePixel.Valid := by
  refine ⟨?_, ?_, ?_, ?_, ?_⟩ <;> decide

theorem lerp_wholePixel (tl tr bl br : ℤ) :
    lerpScalar 9 wholePixel tl tr bl br = tl * 32 ∧ lerpScalar 14 wholePixel tl tr bl br = tl := by
  simp only [lerpScalar, wholePixel, roundFixedPoint, mul_zero, add_zero]
  omega

/-- A window whose last lane gets only the largest product: a difference of 8160 and a
derivative of 4080. -/
theorem mismatch_overflows {a : LevelArgs} (ha : a.Accepted) {prev next : ℤ → U8} {scharr : ℤ → ℤ}
    (hscharr : ∀ p, -4080 ≤ scharr p ∧ scharr p ≤ 4080) (hlen : 64 < a.productsPerLane)
    (hnext : ∀ p, next p = 255)
    (hdata : ∀ y x : ℕ, x < (a.windowWidth * a.channels).toNat →
      x % 4 = 3 ∨ x + 1 = (a.windowWidth * a.channels).toNat →
        prev (y * a.prevDataStride + x) = 0 ∧
          scharr (y * (a.scharrStrideBytes / 2 : ℕ) + x * 2) = 4080) :
    let p := a.sampleCall prev scharr 0 0 wholePixel
    let s := p.samplePatchAndGradients (word 32) (fun _ => 0) fun _ => 0
    ¬((a.mismatchCall next s 0 0 wholePixel).accumulateMismatchVector (word 32)).x.lanes.exact := by
  intro p s hfit
  set c := a.mismatchCall next s 0 0 wholePixel with hc
  have hfollows : c.Follows p := follows hscharr wholePixel_valid wholePixel_valid _ _
  have hm := MismatchCall.accumulateMismatchVector_compared (word 32) hfollows
  rw [hm.x] at hfit
  have hwidth : c.place.windowWidthTimesChannels = (a.windowWidth * a.channels).toNat := by
    have h1 := ha.windowWidth
    have h2 := ha.channels
    rw [Int.toNat_mul (by omega) (by omega)]
    rfl
  have hproduct : ∀ y x : ℕ, x < c.place.windowWidthTimesChannels →
      x % 4 = 3 ∨ x + 1 = c.place.windowWidthTimesChannels → c.product p 0 y x = 4080 * 8160 := by
    intro y x hx hlane
    rw [hwidth] at hx hlane
    obtain ⟨hpixel, hderivative⟩ := hdata y x hx hlane
    have hscharrRow : p.place.scharrRow p.scharrStride y + x * 2 + (0 : ℕ) =
        y * (a.scharrStrideBytes / 2 : ℕ) + x * 2 := by
      show ((y : ℤ) + 0) * (a.scharrStrideBytes / 2 : ℕ) + 0 * (a.channels.toNat : ℤ) * 2 + x * 2 +
        (0 : ℕ) = _
      simp
    have himageRow : p.place.imageRow p.prevStride y + x = y * a.prevDataStride + x := by
      show ((y : ℤ) + 0) * a.prevDataStride + 0 * (a.channels.toNat : ℤ) + x = _
      simp
    have h1 : p.scharrScalar 0 y x = 4080 := by
      rw [SampleCall.scharrScalar, corners, show fractionBits = 14 from rfl, hscharrRow]
      exact (lerp_wholePixel _ _ _ _).2.trans hderivative
    have h2 : p.pixel y x = 0 := by
      rw [SampleCall.pixel, corners, show fractionBits - 5 = 9 from rfl, himageRow]
      refine (lerp_wholePixel _ _ _ _).1.trans ?_
      show ((prev (y * a.prevDataStride + x) : U8) : ℤ) * 32 = 0
      rw [hpixel]
      rfl
    have h3 : c.pixel y x = 8160 := by
      rw [MismatchCall.pixel, corners, show fractionBits - 5 = 9 from rfl]
      refine (lerp_wholePixel _ _ _ _).1.trans ?_
      show ((next _ : U8) : ℤ) * 32 = 8160
      rw [hnext]
      rfl
    rw [MismatchCall.product, h1, h2, h3]
    rfl
  have hproducts := productsPerLane_eq ha 0 0 wholePixel
  refine Accumulator.not_exact_upTo (M := 2 ^ 31) (by decide)
    (fun x => (word_mem x (by decide)).2) hproduct ?_ hfit
  rw [show c.place = a.place 0 0 wholePixel from rfl, ← hproducts]
  omega

/-- **Exactly the windows with at most 64 products in a lane.** -/
theorem holds_iff (a : LevelArgs) (h : validateStandaloneLucasKanadeAlgU8Args a = .ok) :
    a.Holds ↔ a.productsPerLane ≤ 64 := by
  have ha := accepted_of_ok h
  constructor
  · intro hholds
    by_contra hlen
    have hscharr : ∀ p : ℤ, -4080 ≤ (fun _ => 4080 : ℤ → ℤ) p ∧ (fun _ => 4080 : ℤ → ℤ) p ≤ 4080 :=
      fun _ => ⟨by norm_num, le_rfl⟩
    have hfit := (hholds (fun _ => 0) (fun _ => 255) (fun _ => 4080) hscharr 0 0 0 0 wholePixel
      wholePixel wholePixel_valid wholePixel_valid (fun _ => 0) fun _ => 0).1.2.1
    exact mismatch_overflows ha hscharr (not_le.mp hlen) (fun _ => rfl)
      (fun _ _ _ _ => ⟨rfl, rfl⟩) hfit
  · exact holds_of_le ha

/-- A level whose window has 8 columns and 32 rows. -/
def smallWindow : LevelArgs where
  prevData := 4096
  prevDataStride := 64
  scharrData := 8192
  scharrStrideBytes := 256
  nextData := 16384
  nextStride := 64
  width := 48
  height := 48
  channels := 1
  prevPoints := 64
  nextPoints := 128
  pointCount := 1
  windowWidth := 8
  windowHeight := 32

theorem holds_smallWindow : smallWindow.Holds ∧ smallWindow.productsPerLane = 64 :=
  ⟨(holds_iff smallWindow (by decide)).mpr (by decide), by decide⟩

/-- `ScharrInterleaved` of an image, away from its edges. -/
def scharrOf (image : ℤ → U8) (channels stride scharrStride p : ℤ) : ℤ :=
  let y := p / scharrStride
  let x := p % scharrStride / 2
  let pixel (dy dx : ℤ) : ℤ := image ((y + dy) * stride + x + dx * channels)
  if p % 2 = 0 then
    3 * (pixel (-1) 1 - pixel (-1) (-1)) + 10 * (pixel 0 1 - pixel 0 (-1)) +
      3 * (pixel 1 1 - pixel 1 (-1))
  else
    3 * (pixel 1 (-1) - pixel (-1) (-1)) + 10 * (pixel 1 0 - pixel (-1) 0) +
      3 * (pixel 1 1 - pixel (-1) 1)

/-- White in every fourth column. -/
def stripes (p : ℤ) : U8 := if p % 4 = 0 then 255 else 0

theorem scharrOf_mem (image : ℤ → U8) (channels stride scharrStride p : ℤ) :
    -4080 ≤ scharrOf image channels stride scharrStride p ∧
      scharrOf image channels stride scharrStride p ≤ 4080 := by
  rw [scharrOf]
  dsimp only
  split
  · omega
  · omega

/-- A level whose window has 20 columns and 20 rows. -/
def stripedLevel : LevelArgs := { smallWindow with windowWidth := 20, windowHeight := 20 }

/-- **The products of a striped image wrap around** when the next image is white. -/
theorem stripes_overflow :
    validateStandaloneLucasKanadeAlgU8Args stripedLevel = .ok ∧ wholePixel.Valid ∧
      (∀ p, -4080 ≤ scharrOf stripes 1 64 128 p ∧ scharrOf stripes 1 64 128 p ≤ 4080) ∧
      ¬((stripedLevel.mismatchCall (fun _ => 255)
        ((stripedLevel.sampleCall stripes (scharrOf stripes 1 64 128) 0 0
          wholePixel).samplePatchAndGradients (word 32) (fun _ => 0) fun _ => 0) 0 0
        wholePixel).accumulateMismatchVector (word 32)).x.lanes.exact := by
  have hok : validateStandaloneLucasKanadeAlgU8Args stripedLevel = .ok := by decide
  refine ⟨hok, wholePixel_valid, scharrOf_mem _ _ _ _, ?_⟩
  refine mismatch_overflows (accepted_of_ok hok) (scharrOf_mem _ _ _ _) (by decide) (fun _ => rfl)
    fun y x hx hlane => ?_
  -- The last column is one of those to the left of a white one.
  have hcolumn : x % 4 = 3 ∧ x < 20 := by
    have hwidth : (stripedLevel.windowWidth * stripedLevel.channels).toNat = 20 := by decide
    omega
  show stripes ((y : ℤ) * 64 + x) = 0 ∧ scharrOf stripes 1 64 128 ((y : ℤ) * 128 + x * 2) = 4080
  constructor
  · exact if_neg (by omega)
  · have hrow : ((y : ℤ) * 128 + x * 2) / 128 = y := by omega
    have hoffset : ((y : ℤ) * 128 + x * 2) % 128 / 2 = x := by omega
    have hright : ∀ dy : ℤ, stripes (((y : ℤ) + dy) * 64 + x + 1 * 1) = 255 := fun dy =>
      if_pos (by omega)
    have hleft : ∀ dy : ℤ, stripes (((y : ℤ) + dy) * 64 + x + -1 * 1) = 0 := fun dy =>
      if_neg (by omega)
    rw [scharrOf, if_pos (by omega), hrow, hoffset]
    simp only [hright, hleft]
    rfl

end LucasKanade

end KleidiCV
