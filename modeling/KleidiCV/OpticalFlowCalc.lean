/-
Tracking on two pyramids: the checks of `calc_from_pyramid`, and what the window passes
of a level access.

The borders of a pyramid come from the window of its own build call; the checks compare
them with the window of the tracking call.  A window may begin a whole window outside the
image, and its last pixel needs the column and the row that follow it.

* `Touches` — what the passes access, by row and column;
* `pairOk` — what an accepted pair of pyramids promises;
* `accesses_inside` — every access lies in the storage of its level or in its buffer.
-/
import KleidiCV.LucasKanadeNeon
import KleidiCV.OpticalFlowPyramid

open Loop

namespace KleidiCV

namespace OpticalFlow

open LucasKanade

/-! ### The checks -/

/-- `kleidicv_optflow_lk_context_t`, as far as the checks read it. -/
structure Context where
  windowWidth : ℕ
  windowHeight : ℕ
  maxLevel : ℕ
  terminationCount : ℕ
  terminationEpsilon : ℚ
  flags : BitVec 32

/-- `KLEIDICV_USE_INITIAL_FLOW | KLEIDICV_GET_MIN_EIG`. -/
def knownFlags : BitVec 32 := 3

/-- `fits_in_int`. -/
def fitsInInt (value : ℕ) : Bool := decide (value ≤ 2 ^ 31 - 1)

/-- `validate_context`. -/
def validateContext (context : Context) : KleidicvError :=
  if context.windowWidth ≤ 2 ∨ context.windowHeight ≤ 2 ∨ context.terminationCount = 0 ∨
      context.terminationEpsilon < 0 ∨ context.flags &&& ~~~knownFlags ≠ 0 then .range
  else if ¬fitsInInt context.windowWidth ∨ ¬fitsInInt context.windowHeight ∨
      ¬fitsInInt context.terminationCount then .range
  else .ok

/-- `PyramidBorders`. -/
structure PyramidBorders where
  prevWidth : ℕ
  prevHeight : ℕ
  nextWidth : ℕ
  nextHeight : ℕ
  prevDoubleWidth : ℕ
  nextDoubleWidth : ℕ

/-- `PyramidPair`, without the two pyramids. -/
structure PyramidPair where
  effectiveMaxLevel : ℕ
  channels : ℕ

/-- `validate_base_levels`. -/
def validateBaseLevels (prev next : OpticalFlowLKPyramid) : KleidicvError :=
  if (prev.level 0).width ≠ (next.level 0).width ∨ (prev.level 0).height ≠ (next.level 0).height then
    .range
  else .ok

/-- `prepare_pyramid_borders`. -/
def preparePyramidBorders (prev next : OpticalFlowLKPyramid) (context : Context) :
    Except KleidicvError PyramidBorders :=
  if prev.borderWidth < context.windowWidth ∨ prev.borderHeight < context.windowHeight ∨
      next.borderWidth < context.windowWidth ∨ next.borderHeight < context.windowHeight then
    .error .range
  else do
    let prevDoubleWidth ← mulOverflow prev.borderWidth 2
    let nextDoubleWidth ← mulOverflow next.borderWidth 2
    return ⟨prev.borderWidth, prev.borderHeight, next.borderWidth, next.borderHeight,
      prevDoubleWidth, nextDoubleWidth⟩

/-- `prepare_pyramid_pair_metadata`. -/
def preparePyramidPairMetadata (prev next : OpticalFlowLKPyramid) (context : Context) :
    Except KleidicvError (PyramidPair × PyramidBorders) :=
  let effectiveMaxLevel := min context.maxLevel (min (prev.levelCount - 1) (next.levelCount - 1))
  if prev.levelCount = 0 ∨ next.levelCount = 0 then .error .range
  else if ¬fitsInInt effectiveMaxLevel then .error .range
  else if validateBaseLevels prev next ≠ .ok then .error (validateBaseLevels prev next)
  else if ¬fitsInInt prev.channels ∨ prev.channels ≠ next.channels then .error .range
  else do
    let borders ← preparePyramidBorders prev next context
    return (⟨effectiveMaxLevel, prev.channels⟩, borders)

/-- `validate_pyramid_level_strides`. -/
def validatePyramidLevelStrides (prev next : OpticalFlowLevel) (prevImageWidthWithBorder
    nextImageWidthWithBorder channels scharrBytesPerPixel : ℕ) : Except KleidicvError Unit := do
  let minPrevImageStride ← mulOverflow prevImageWidthWithBorder channels
  let minNextImageStride ← mulOverflow nextImageWidthWithBorder channels
  if prev.imageStride < minPrevImageStride ∨ next.imageStride < minNextImageStride then
    .error .range
  else
    let minPrevScharrStride ← mulOverflow prevImageWidthWithBorder scharrBytesPerPixel
    let minNextScharrStride ← mulOverflow nextImageWidthWithBorder scharrBytesPerPixel
    if prev.scharrStride < minPrevScharrStride ∨ next.scharrStride < minNextScharrStride then
      .error .range
    else .ok ()

/-- `validate_pyramid_level`. -/
def validatePyramidLevel (prev next : OpticalFlowLevel) (channels scharrBytesPerPixel : ℕ)
    (borders : PyramidBorders) : Except KleidicvError Unit :=
  if prev.width ≠ next.width ∨ prev.height ≠ next.height then .error .range
  else do
    let prevImageWidthWithBorder ← addOverflow prev.width borders.prevDoubleWidth
    let nextImageWidthWithBorder ← addOverflow next.width borders.nextDoubleWidth
    validatePyramidLevelStrides prev next prevImageWidthWithBorder nextImageWidthWithBorder channels
      scharrBytesPerPixel

/-- `validate_pyramid_levels`, for the first `levels` levels. -/
def validatePyramidLevels (prev next : OpticalFlowLKPyramid) (channels : ℕ) (borders : PyramidBorders) :
    ℕ → Except KleidicvError Unit
  | 0 => .ok ()
  | level + 1 => do
    validatePyramidLevels prev next channels borders level
    validatePyramidLevel (prev.level level) (next.level level) channels (channels * 2 * 2) borders

/-- `validate_and_prepare_pyramid_pair`. -/
def validateAndPreparePyramidPair (prev next : OpticalFlowLKPyramid) (context : Context) :
    Except KleidicvError PyramidPair := do
  let (pair, borders) ← preparePyramidPairMetadata prev next context
  validatePyramidLevels prev next pair.channels borders (pair.effectiveMaxLevel + 1)
  return pair

/-- The checks of `calc_from_pyramid` that read the pyramids or the context. -/
def calcCheck (prev next : OpticalFlowLKPyramid) (context : Context) : Except KleidicvError PyramidPair :=
  if validateContext context ≠ .ok then .error (validateContext context)
  else validateAndPreparePyramidPair prev next context

/-- `point_out_of_bounds`. -/
def pointOutOfBounds (x y width height windowWidth windowHeight : ℤ) : Bool :=
  decide (x < -windowWidth) || decide (width ≤ x) || decide (y < -windowHeight) || decide (height ≤ y)

/-! ### The error of a tracked point -/

/-- `errval` before it is scaled, and what was accessed. -/
structure Photometric where
  errval : ℤ
  accesses : List Access

/-- `compute_photometric_error`. -/
def computePhotometricError (c : MismatchCall) : Photometric :=
  forRange c.place.windowHeight (fun y =>
    forRange c.place.windowWidthTimesChannels fun x s =>
      let diff := corners (fun p => c.next p) (c.place.imageRow c.nextStride y + x)
        c.place.channels c.nextStride (lerpScalar (fractionBits - 5) c.place.coeff) -
          c.window (c.place.windowRow y + x)
      { errval := s.errval + |diff|
        accesses := s.accesses ++
          (loads (c.place.imageRow c.nextStride y + x) c.place.channels c.nextStride 1).map .image ++
          [.window (c.place.windowRow y + x)] }) ⟨0, []⟩

/-! ### Rows and columns -/

/-- An element of a row and a column of the window, or of those that follow it. -/
def InRows (w : Placement) (width : ℕ) (stride p : ℤ) : Prop :=
  ∃ row col : ℤ, p = row * stride + col ∧ w.windowCornerY ≤ row ∧
    row ≤ w.windowCornerY + w.windowHeight ∧ w.windowCornerX * width ≤ col ∧
      col < (w.windowCornerX + w.windowWidth + 1) * width

/-- What the passes access: elements of the window and elements of the buffers. -/
def Touches (w : Placement) (imageStride scharrStride : ℤ) : Access → Prop
  | .image p => InRows w w.channels imageStride p
  | .scharr p => InRows w (w.channels * 2) scharrStride p
  | .window i => i < w.windowHeight * w.windowWidthTimesChannels
  | .scharrWindow i => i < w.windowHeight * w.windowWidthTimesChannels * 2

section Rows

variable {w : Placement} {imageStride scharrStride : ℤ} {y x lanes : ℕ}

/-- Four loads of a row. -/
theorem inRows_loads {width n : ℕ} {stride p : ℤ} (hy : y < w.windowHeight)
    (hn : n = w.windowWidth * width) (hx : x + lanes ≤ n)
    (hp : p ∈ loads ((y + w.windowCornerY) * stride + w.windowCornerX * width + x) width stride lanes) :
    InRows w width stride p := by
  obtain ⟨first, hfirst, hp⟩ := List.mem_flatMap.mp hp
  obtain ⟨l, hl, rfl⟩ := List.mem_map.mp hp
  rw [List.mem_range] at hl
  have hend : (x : ℤ) + l + 1 ≤ w.windowWidth * width := by
    have hnat : x + l + 1 ≤ w.windowWidth * width := by omega
    exact_mod_cast hnat
  simp only [List.mem_cons, List.not_mem_nil, or_false] at hfirst
  -- The right and the lower neighbours are in the column and the row that follow.
  rcases hfirst with rfl | rfl | rfl | rfl
  · exact ⟨y + w.windowCornerY, w.windowCornerX * width + x + l, by ring, by omega, by omega,
      by linarith, by linarith⟩
  · exact ⟨y + w.windowCornerY, w.windowCornerX * width + x + l + width, by ring, by omega, by omega,
      by linarith, by linarith⟩
  · exact ⟨y + w.windowCornerY + 1, w.windowCornerX * width + x + l, by ring, by omega, by omega,
      by linarith, by linarith⟩
  · exact ⟨y + w.windowCornerY + 1, w.windowCornerX * width + x + l + width, by ring, by omega,
      by omega, by linarith, by linarith⟩

theorem touches_image (hy : y < w.windowHeight) (hx : x + lanes ≤ w.windowWidthTimesChannels)
    {a : Access}
    (ha : a ∈ (loads (w.imageRow imageStride y + x) w.channels imageStride lanes).map Access.image) :
    Touches w imageStride scharrStride a := by
  obtain ⟨p, hp, rfl⟩ := List.mem_map.mp ha
  exact inRows_loads hy rfl hx hp

theorem touches_scharr (hy : y < w.windowHeight) (hx : x + lanes ≤ w.windowWidthTimesChannels)
    {a : Access}
    (ha : a ∈ (loads (w.scharrRow scharrStride y + x * 2) (w.channels * 2) scharrStride
      (2 * lanes)).map Access.scharr) :
    Touches w imageStride scharrStride a := by
  obtain ⟨p, hp, rfl⟩ := List.mem_map.mp ha
  have hrow : w.scharrRow scharrStride y + x * 2 = (y + w.windowCornerY) * scharrStride +
      w.windowCornerX * (w.channels * 2 : ℕ) + (x * 2 : ℕ) := by
    rw [Placement.scharrRow]
    push_cast
    ring
  rw [hrow] at hp
  have hp' : p ∈ loads ((y + w.windowCornerY) * scharrStride +
      w.windowCornerX * (w.channels * 2 : ℕ) + (x * 2 : ℕ)) (w.channels * 2 : ℕ) scharrStride
      (2 * lanes) := by
    push_cast at hp ⊢
    exact hp
  refine inRows_loads hy rfl ?_ hp'
  rw [Placement.windowWidthTimesChannels] at hx
  rw [← Nat.mul_assoc]
  omega

/-- An element of a row of a buffer. -/
theorem row_lt (hy : y < w.windowHeight) {i : ℕ} (hi : i < w.windowWidthTimesChannels) :
    w.windowRow y + i < w.windowHeight * w.windowWidthTimesChannels := by
  rw [SampleCall.windowRow_eq]
  have hrow := Nat.mul_le_mul_right w.windowWidthTimesChannels (Nat.succ_le_of_lt hy)
  rw [Nat.succ_mul] at hrow
  omega

theorem touches_window (hy : y < w.windowHeight) (hx : x + lanes ≤ w.windowWidthTimesChannels)
    {a : Access} (ha : a ∈ (List.range lanes).map fun l => Access.window (w.windowRow y + x + l)) :
    Touches w imageStride scharrStride a := by
  obtain ⟨l, hl, rfl⟩ := List.mem_map.mp ha
  rw [List.mem_range] at hl
  have hlt := row_lt hy (show x + l < w.windowWidthTimesChannels by omega)
  rwa [← add_assoc] at hlt

theorem touches_scharrWindow (hy : y < w.windowHeight) (hx : x + lanes ≤ w.windowWidthTimesChannels)
    {a : Access} (ha : a ∈ (List.range (2 * lanes)).map fun l =>
      Access.scharrWindow (w.scharrWindowRow y + x * 2 + l)) :
    Touches w imageStride scharrStride a := by
  obtain ⟨l, hl, rfl⟩ := List.mem_map.mp ha
  rw [List.mem_range] at hl
  have hlt := row_lt hy (show x + l / 2 < w.windowWidthTimesChannels by omega)
  show w.scharrWindowRow y + x * 2 + l < _
  rw [SampleCall.windowRow_eq] at hlt
  rw [SampleCall.scharrWindowRow_eq]
  omega

end Rows

/-! ### What the passes access -/

section Passes

variable {wrap : ℤ → ℤ} {imageStride scharrStride : ℤ} {lanes y x : ℕ}

/-- All accesses so far. -/
def AllTouch (w : Placement) (imageStride scharrStride : ℤ) (accesses : List Access) : Prop :=
  ∀ a ∈ accesses, Touches w imageStride scharrStride a

theorem storeInterpolatedPixels_touch {c : SampleCall} {s : Patch} (hy : y < c.place.windowHeight)
    (hx : x + lanes ≤ c.place.windowWidthTimesChannels)
    (h : AllTouch c.place c.prevStride scharrStride s.accesses) :
    AllTouch c.place c.prevStride scharrStride (c.storeInterpolatedPixels lanes y x s).accesses :=
  List.forall_mem_append.mpr ⟨List.forall_mem_append.mpr ⟨h, fun _ ha => touches_image hy hx ha⟩,
    fun _ ha => touches_window hy hx ha⟩

theorem computeScharr_touch {c : SampleCall} {s : Patch} (hy : y < c.place.windowHeight)
    (hx : x + lanes ≤ c.place.windowWidthTimesChannels)
    (h : AllTouch c.place imageStride c.scharrStride s.accesses) :
    AllTouch c.place imageStride c.scharrStride (c.computeScharr lanes y x s).accesses :=
  List.forall_mem_append.mpr ⟨List.forall_mem_append.mpr ⟨h, fun _ ha => touches_scharr hy hx ha⟩,
    fun _ ha => touches_scharrWindow hy hx ha⟩

theorem samplePatchAndGradients_touch (c : SampleCall) (window scharrWindow : ℕ → ℤ) :
    AllTouch c.place c.prevStride c.scharrStride
      (c.samplePatchAndGradients wrap window scharrWindow).accesses := by
  refine forRange_invariant
    (fun _ (s : Patch) => AllTouch c.place c.prevStride c.scharrStride s.accesses)
    (fun a ha => absurd ha List.not_mem_nil) fun y hy s hs => ?_
  refine windowRow_invariant
    (fun _ (s : Patch) => AllTouch c.place c.prevStride c.scharrStride s.accesses) hs
    (fun i s _ hi h => ?_) (fun i s _ hi h => ?_) (fun i s _ _ _ hn h => ?_) fun i s hi _ h => ?_
  · exact computeScharr_touch hy hi (storeInterpolatedPixels_touch hy hi h)
  · exact computeScharr_touch hy hi (storeInterpolatedPixels_touch hy hi h)
  · exact storeInterpolatedPixels_touch hy (by omega) (computeScharr_touch hy (by omega) h)
  · have hlast : i + 1 ≤ c.place.windowWidthTimesChannels := hi
    have hscharr : AllTouch c.place c.prevStride c.scharrStride
        (c.accumulateScharrScalar y i s).accesses :=
      List.forall_mem_append.mpr ⟨List.forall_mem_append.mpr
        ⟨h, fun _ ha => touches_scharr hy hlast ha⟩, fun _ ha => touches_scharrWindow hy hlast ha⟩
    refine List.forall_mem_append.mpr ⟨List.forall_mem_append.mpr
      ⟨hscharr, fun _ ha => touches_image hy hlast ha⟩, fun a ha => ?_⟩
    rw [List.mem_singleton.mp ha]
    exact row_lt hy hi

theorem read_touch {c : MismatchCall} {s : Mismatch} (hy : y < c.place.windowHeight)
    (hx : x + lanes ≤ c.place.windowWidthTimesChannels)
    (h : AllTouch c.place c.nextStride scharrStride s.accesses) :
    AllTouch c.place c.nextStride scharrStride (c.read lanes y x s).accesses :=
  List.forall_mem_append.mpr ⟨List.forall_mem_append.mpr ⟨List.forall_mem_append.mpr
    ⟨h, fun _ ha => touches_image hy hx ha⟩, fun _ ha => touches_window hy hx ha⟩,
    fun _ ha => touches_scharrWindow hy hx ha⟩

theorem accumulateMismatchVector_touch (c : MismatchCall) (scharrStride : ℤ) :
    AllTouch c.place c.nextStride scharrStride (c.accumulateMismatchVector wrap).accesses := by
  refine forRange_invariant
    (fun _ (s : Mismatch) => AllTouch c.place c.nextStride scharrStride s.accesses)
    (fun a ha => absurd ha List.not_mem_nil) fun y hy s hs => ?_
  refine windowRow_invariant
    (fun _ (s : Mismatch) => AllTouch c.place c.nextStride scharrStride s.accesses) hs
    (fun i s _ hi h => ?_) (fun i s _ hi h => ?_) (fun i s _ _ _ hn h => ?_) fun i s hi _ h => ?_
  · exact read_touch hy hi h
  · exact read_touch hy hi h
  · exact read_touch hy (by omega) h
  · exact read_touch hy hi h

theorem computePhotometricError_touch (c : MismatchCall) (scharrStride : ℤ) :
    AllTouch c.place c.nextStride scharrStride (computePhotometricError c).accesses := by
  refine forRange_invariant
    (fun _ (s : Photometric) => AllTouch c.place c.nextStride scharrStride s.accesses)
    (fun a ha => absurd ha List.not_mem_nil) fun y hy s hs => ?_
  refine forRange_invariant
    (fun _ (s : Photometric) => AllTouch c.place c.nextStride scharrStride s.accesses) hs
    fun x hx s h => ?_
  refine List.forall_mem_append.mpr ⟨List.forall_mem_append.mpr
    ⟨h, fun _ ha => touches_image hy hx ha⟩, fun a ha => ?_⟩
  rw [List.mem_singleton.mp ha]
  exact row_lt hy hx

end Passes

/-! ### Inside the storages -/

/-- `compute_buffer_sizes`: the elements of the window and of both buffers. -/
def bufferSizes (windowWidth windowHeight channels : ℕ) : ℕ × ℕ :=
  let patchSize := windowWidth * windowHeight * channels
  (patchSize, patchSize * 3)

/-- The bordered image of a level: offsets from the first pixel inside. -/
def OpticalFlowLKPyramid.ImageElement (P : OpticalFlowLKPyramid) (k : ℕ) (p : ℤ) : Prop :=
  let e := P.level k
  let first : ℤ := e.imageData - (P.borderHeight * e.imageStride + P.borderWidth * P.channels)
  first ≤ e.imageData + p ∧ e.imageData + p < first + e.imageStride * (e.height + 2 * P.borderHeight)

/-- The bordered Scharr image of a level: elements of 2 bytes. -/
def OpticalFlowLKPyramid.ScharrElement (P : OpticalFlowLKPyramid) (k : ℕ) (p : ℤ) : Prop :=
  let e := P.level k
  let first : ℤ :=
    e.scharrData - (P.borderHeight * e.scharrStride + P.borderWidth * P.channels * 2 * 2)
  first ≤ e.scharrData + p * 2 ∧
    e.scharrData + p * 2 + 1 < first + e.scharrStride * (e.height + 2 * P.borderHeight)

/-- Where an access of a pass on level `k` may go. -/
def Inside (P : OpticalFlowLKPyramid) (k windowWidth windowHeight : ℕ) : Access → Prop
  | .image p => P.ImageElement k p
  | .scharr p => P.ScharrElement k p
  | .window i => i < (bufferSizes windowWidth windowHeight P.channels).1
  | .scharrWindow i => (bufferSizes windowWidth windowHeight P.channels).1 + i <
      (bufferSizes windowWidth windowHeight P.channels).2

/-- A row and a column of a bordered level. -/
theorem bordered_mem {row col stride rows bh bw : ℤ} (hrow : -bh ≤ row) (hrow' : row < rows + bh)
    (hcol : -bw ≤ col) (hcol' : col < stride - bw) :
    0 ≤ bh * stride + bw + (row * stride + col) ∧
      bh * stride + bw + (row * stride + col) < stride * (rows + 2 * bh) := by
  have hstride : 0 ≤ stride := by linarith
  have h1 : 0 ≤ (row + bh) * stride := mul_nonneg (by linarith) hstride
  have h2 : (row + bh) * stride ≤ (rows + 2 * bh - 1) * stride :=
    mul_le_mul_of_nonneg_right (by linarith) hstride
  constructor
  · linarith
  · linarith

/-- What the checks of a tracking call promise about one of its pyramids. -/
structure Fits (c : BuildCall) (P : OpticalFlowLKPyramid) (context : Context) (k : ℕ) : Prop where
  level : ∃ image scharr, LevelPlaced c k image scharr (P.level k)
  channels : P.channels = c.channels
  borderWidth : P.borderWidth = c.windowWidth
  borderHeight : P.borderHeight = c.windowHeight
  windowWidth : context.windowWidth ≤ c.windowWidth
  windowHeight : context.windowHeight ≤ c.windowHeight

theorem pointOutOfBounds_eq_false {x y width height ww wh : ℤ} :
    pointOutOfBounds x y width height ww wh = false ↔
      (-ww ≤ x ∧ x < width) ∧ -wh ≤ y ∧ y < height := by
  rw [pointOutOfBounds, Bool.or_eq_false_iff, Bool.or_eq_false_iff, Bool.or_eq_false_iff,
    decide_eq_false_iff_not, decide_eq_false_iff_not, decide_eq_false_iff_not,
    decide_eq_false_iff_not]
  omega

/-- Rows and columns of a window whose corner is not out of bounds. -/
theorem InRows.bordered {w : Placement} {width rows columns bw bh ww wh : ℕ} {stride p : ℤ}
    (hp : InRows w width stride p) (hstride : stride = (columns + 2 * bw) * width)
    (hww : w.windowWidth = ww) (hwh : w.windowHeight = wh) (hbw : ww ≤ bw) (hbh : wh ≤ bh)
    (hcorner : pointOutOfBounds w.windowCornerX w.windowCornerY columns rows ww wh = false) :
    0 ≤ bh * stride + bw * width + p ∧ bh * stride + bw * width + p < stride * (rows + 2 * bh) := by
  obtain ⟨row, col, rfl, hrow, hrow', hcol, hcol'⟩ := hp
  obtain ⟨⟨hx, hx'⟩, hy, hy'⟩ := pointOutOfBounds_eq_false.mp hcorner
  have hwidth : (0 : ℤ) ≤ width := Nat.cast_nonneg width
  have hleft : -(bw : ℤ) * width ≤ w.windowCornerX * width :=
    mul_le_mul_of_nonneg_right (by omega) hwidth
  have hright : (w.windowCornerX + w.windowWidth + 1) * width ≤ ((columns : ℤ) + bw) * width :=
    mul_le_mul_of_nonneg_right (by omega) hwidth
  refine bordered_mem (by omega) (by omega) ?_ ?_
  · linarith
  · rw [hstride]
    linarith

/-- **Everything the passes touch is in its storage**: a corner may be a whole window
outside the image, and the border is at least as wide as the window. -/
theorem inside_of_touches {c : BuildCall} {P : OpticalFlowLKPyramid} {context : Context} {k : ℕ}
    (h : Fits c P context k) {w : Placement} (hch : w.channels = P.channels)
    (hww : w.windowWidth = context.windowWidth) (hwh : w.windowHeight = context.windowHeight)
    (hcorner : pointOutOfBounds w.windowCornerX w.windowCornerY (P.level k).width (P.level k).height
      context.windowWidth context.windowHeight = false) {a : Access}
    (ha : Touches w (P.level k).imageStride ((P.level k).scharrStride / 2 : ℕ) a) :
    Inside P k context.windowWidth context.windowHeight a := by
  obtain ⟨image, scharr, hplaced⟩ := h.level
  have hchannels : w.channels = c.channels := hch.trans h.channels
  have hpatch : (bufferSizes context.windowWidth context.windowHeight P.channels).1 =
      w.windowHeight * w.windowWidthTimesChannels := by
    rw [bufferSizes, Placement.windowWidthTimesChannels, hww, hwh, hch]
    ring
  cases a with
  | image p =>
    have hstride : ((P.level k).imageStride : ℤ) =
        (((P.level k).width : ℤ) + 2 * c.windowWidth) * w.channels := by
      rw [hplaced.imageStride, hplaced.width, hchannels]
      push_cast
      ring
    have hmem := ha.bordered hstride hww hwh h.windowWidth h.windowHeight hcorner
    show _ ∧ _
    rw [h.borderWidth, h.borderHeight, h.channels, ← hchannels]
    constructor
    · linarith [hmem.1]
    · linarith [hmem.2]
  | scharr p =>
    have hhalf : (P.level k).scharrStride / 2 * 2 = (P.level k).scharrStride := by
      rw [hplaced.scharrStride, Nat.mul_div_cancel _ (by decide)]
    have hstride : (((P.level k).scharrStride / 2 : ℕ) : ℤ) =
        (((P.level k).width : ℤ) + 2 * c.windowWidth) * (w.channels * 2 : ℕ) := by
      rw [hplaced.scharrStride, Nat.mul_div_cancel _ (by decide), hplaced.width, hchannels]
      push_cast
      ring
    have hmem := ha.bordered hstride hww hwh h.windowWidth h.windowHeight hcorner
    have hbytes : ((P.level k).scharrStride : ℤ) = ((P.level k).scharrStride / 2 : ℕ) * 2 := by
      exact_mod_cast hhalf.symm
    show _ ∧ _
    rw [h.borderWidth, h.borderHeight, h.channels, ← hchannels, hbytes]
    push_cast at hmem ⊢
    generalize ((P.level k).scharrStride : ℤ) / 2 = elements at hmem ⊢
    constructor
    · linarith [hmem.1]
    · have hlt := Int.add_one_le_iff.mpr hmem.2
      linarith
  | window i =>
    show i < _
    rw [hpatch]
    exact ha
  | scharrWindow i =>
    have hlt : i < w.windowHeight * w.windowWidthTimesChannels * 2 := ha
    have htotal : (bufferSizes context.windowWidth context.windowHeight P.channels).2 =
        (bufferSizes context.windowWidth context.windowHeight P.channels).1 * 3 := rfl
    show (bufferSizes context.windowWidth context.windowHeight P.channels).1 + i < _
    rw [htotal, hpatch]
    omega

/-! ### Accepted tracking calls -/

/-- A list of checks that all passed. -/
theorem validatePyramidLevels_ok {prev next : OpticalFlowLKPyramid} {channels : ℕ}
    {borders : PyramidBorders} {levels : ℕ} {u : Unit}
    (h : validatePyramidLevels prev next channels borders levels = .ok u) {k : ℕ} (hk : k < levels) :
    (prev.level k).width = (next.level k).width ∧ (prev.level k).height = (next.level k).height := by
  induction levels generalizing u with
  | zero => exact absurd hk (Nat.not_lt_zero k)
  | succ levels ih =>
    obtain ⟨_, hprevious, hlevel⟩ := ok_of_bind h
    rcases Nat.lt_succ_iff_lt_or_eq.mp hk with hlt | rfl
    · exact ih hprevious hlt
    · rw [validatePyramidLevel] at hlevel
      split at hlevel
      · cases hlevel
      next hsame =>
        rw [not_or, not_not, not_not] at hsame
        exact hsame

/-- What an accepted pair promises. -/
structure PairOk (prev next : OpticalFlowLKPyramid) (context : Context) (pair : PyramidPair) : Prop where
  levels : pair.effectiveMaxLevel < prev.levelCount ∧ pair.effectiveMaxLevel < next.levelCount
  channels : pair.channels = prev.channels ∧ pair.channels = next.channels
  prevBorder : context.windowWidth ≤ prev.borderWidth ∧ context.windowHeight ≤ prev.borderHeight
  nextBorder : context.windowWidth ≤ next.borderWidth ∧ context.windowHeight ≤ next.borderHeight
  size : ∀ k ≤ pair.effectiveMaxLevel,
    (prev.level k).width = (next.level k).width ∧ (prev.level k).height = (next.level k).height

theorem pairOk {prev next : OpticalFlowLKPyramid} {context : Context} {pair : PyramidPair}
    (h : validateAndPreparePyramidPair prev next context = .ok pair) :
    PairOk prev next context pair := by
  obtain ⟨⟨pair', borders⟩, hmeta, h⟩ := ok_of_bind h
  obtain ⟨_, hlevels, h⟩ := ok_of_bind h
  cases h
  rw [preparePyramidPairMetadata] at hmeta
  split at hmeta
  · cases hmeta
  next hcounts =>
  split at hmeta
  · cases hmeta
  split at hmeta
  · cases hmeta
  split at hmeta
  · cases hmeta
  next hchannels =>
  obtain ⟨borders', hborders, hmeta⟩ := ok_of_bind hmeta
  cases hmeta
  rw [preparePyramidBorders] at hborders
  split at hborders
  · cases hborders
  next hwindow =>
  have hsame : prev.channels = next.channels := by
    by_contra hne
    exact hchannels (.inr hne)
  refine ⟨by show min _ _ < _ ∧ min _ _ < _; omega, ⟨rfl, hsame⟩, by omega, by omega, fun k hk => ?_⟩
  exact validatePyramidLevels_ok hlevels (Nat.lt_succ_of_le hk)

/-- **Every access of a level lies in the storage of the level or in its buffer.** -/
theorem accesses_inside {prevCall nextCall : BuildCall} {prevMalloc nextMalloc : ℕ → Bool}
    {prev next : OpticalFlowLKPyramid} (hprev : prevCall.layout prevMalloc = .ok prev)
    (hnext : nextCall.layout nextMalloc = .ok next) {context : Context} {pair : PyramidPair}
    (hpair : calcCheck prev next context = .ok pair) {k : ℕ} (hk : k ≤ pair.effectiveMaxLevel)
    {x y : ℤ} (hcorner : pointOutOfBounds x y (prev.level k).width (prev.level k).height
      context.windowWidth context.windowHeight = false) (coeff : Coefficients) (wrap : ℤ → ℤ)
    (prevImage nextImage : ℤ → U8) (scharr : ℤ → ℤ) (window scharrWindow : ℕ → ℤ) :
    let place := Placement.mk pair.channels x y context.windowWidth context.windowHeight coeff
    let sample := SampleCall.mk prevImage (prev.level k).imageStride scharr
      ((prev.level k).scharrStride / 2 : ℕ) place
    let compare := MismatchCall.mk nextImage (next.level k).imageStride window scharrWindow place
    (∀ a ∈ (sample.samplePatchAndGradients wrap window scharrWindow).accesses,
        Inside prev k context.windowWidth context.windowHeight a) ∧
      (∀ a ∈ (compare.accumulateMismatchVector wrap).accesses,
        Inside next k context.windowWidth context.windowHeight a) ∧
      ∀ a ∈ (computePhotometricError compare).accesses,
        Inside next k context.windowWidth context.windowHeight a := by
  intro place sample compare
  rw [calcCheck] at hpair
  split at hpair
  · cases hpair
  have hok := pairOk hpair
  obtain ⟨_, hprev⟩ := BuildCall.layout_ok hprev
  obtain ⟨_, hnext⟩ := BuildCall.layout_ok hnext
  have hprevFits : Fits prevCall prev context k :=
    ⟨⟨_, _, hprev.level k (by have := hok.levels; omega)⟩, hprev.channels, hprev.borderWidth,
      hprev.borderHeight, hprev.borderWidth ▸ hok.prevBorder.1, hprev.borderHeight ▸ hok.prevBorder.2⟩
  have hnextFits : Fits nextCall next context k :=
    ⟨⟨_, _, hnext.level k (by have := hok.levels; omega)⟩, hnext.channels, hnext.borderWidth,
      hnext.borderHeight, hnext.borderWidth ▸ hok.nextBorder.1, hnext.borderHeight ▸ hok.nextBorder.2⟩
  have hnextCorner : pointOutOfBounds x y (next.level k).width (next.level k).height
      context.windowWidth context.windowHeight = false := by
    rw [← (hok.size k hk).1, ← (hok.size k hk).2]
    exact hcorner
  refine ⟨fun a ha => ?_, fun a ha => ?_, fun a ha => ?_⟩
  · exact inside_of_touches hprevFits hok.channels.1 rfl rfl hcorner
      (samplePatchAndGradients_touch sample window scharrWindow a ha)
  · exact inside_of_touches hnextFits hok.channels.2 rfl rfl hnextCorner
      (accumulateMismatchVector_touch compare _ a ha)
  · exact inside_of_touches hnextFits hok.channels.2 rfl rfl hnextCorner
      (computePhotometricError_touch compare _ a ha)

/-- A build call with a window of 7 columns and 5 rows. -/
def smallBuild : BuildCall := ⟨64, 4096, 48, 16, 12, 3, 4, 7, 5⟩

/-- The pyramid of a build call, when there is memory. -/
def builtPyramid (c : BuildCall) : OpticalFlowLKPyramid :=
  match c.layout fun _ => true with
  | .ok P => P
  | .error _ => ⟨0, 0, 0, 0, fun _ => ⟨0, 0, 0, 0, 0, 0⟩⟩

/-- The same with a wider window. -/
def wideBuild : BuildCall := { smallBuild with windowWidth := 9 }

theorem smallBuild_layout : smallBuild.layout (fun _ => true) = .ok (builtPyramid smallBuild) := rfl

theorem wideBuild_layout : wideBuild.layout (fun _ => true) = .ok (builtPyramid wideBuild) := rfl

theorem smallBuild_check :
    calcCheck (builtPyramid smallBuild) (builtPyramid wideBuild) ⟨7, 5, 3, 10, 0, 0⟩ = .ok ⟨0, 3⟩ :=
  rfl

/-- A corner a whole window outside the image, and a larger border for the next image. -/
theorem accesses_inside_smallBuild :
    let place := Placement.mk 3 (-7) 11 7 5 ⟨2 ^ 14, 0, 0, 0⟩
    let sample := SampleCall.mk (fun _ => 0) ((builtPyramid smallBuild).level 0).imageStride
      (fun _ => 0) (((builtPyramid smallBuild).level 0).scharrStride / 2 : ℕ) place
    let compare := MismatchCall.mk (fun _ => 0) ((builtPyramid wideBuild).level 0).imageStride
      (fun _ => 0) (fun _ => 0) place
    (∀ a ∈ (sample.samplePatchAndGradients id (fun _ => 0) fun _ => 0).accesses,
        Inside (builtPyramid smallBuild) 0 7 5 a) ∧
      (∀ a ∈ (compare.accumulateMismatchVector id).accesses,
        Inside (builtPyramid wideBuild) 0 7 5 a) ∧
      ∀ a ∈ (computePhotometricError compare).accesses, Inside (builtPyramid wideBuild) 0 7 5 a :=
  accesses_inside smallBuild_layout wideBuild_layout smallBuild_check (le_refl 0)
    (show pointOutOfBounds (-7) 11 16 12 7 5 = false by decide) ⟨2 ^ 14, 0, 0, 0⟩ id (fun _ => 0)
    (fun _ => 0) (fun _ => 0) (fun _ => 0) fun _ => 0

end OpticalFlow

end KleidiCV
