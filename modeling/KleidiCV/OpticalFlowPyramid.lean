/-
Optical-flow pyramids: their levels and where a build puts them.

A pyramid is one block of memory: a header, a table of levels, the image levels and the
Scharr levels.  Every level has a border as wide as the window of the build call.  Pointers
into the block are byte offsets; `size_t` sums are reduced where the code does not check
them.

* `levelSize_eq` — a level halves the one below it, rounding up;
* `window_lt_levelSize`, `levelSize_computeLevels_le` — when a build stops to halve;
* `BuildCall.Accepted` — what a build call has passed;
* `BuildCall.layout_ok` — the metadata of an allocated pyramid.
-/
import KleidiCV.Utils

namespace KleidiCV

namespace OpticalFlow

/-! ### The code -/

/-- The arguments of `kleidicv_build_optical_flow_pyr_lk_pyramid`. -/
structure BuildCall where
  pyramid : ℕ
  src : ℕ
  srcStride : ℕ
  width : ℕ
  height : ℕ
  channels : ℕ
  levelCount : ℕ
  windowWidth : ℕ
  windowHeight : ℕ

/-- `KLEIDICV_MAX_OPTICAL_FLOW_PYR_LK_WINDOW_SIZE`. -/
def maxOpticalFlowPyrLkWindowSize : ℕ := 2047

/-- The size of the next level. -/
def halve (n : ℕ) : ℕ := (n + 1) / 2

/-- The loop over the requested levels. -/
def computeLevels (windowWidth windowHeight : ℕ) : ℕ → ℕ → ℕ → ℕ
  | 0, _, _ => 0
  | requested + 1, levelWidth, levelHeight =>
    if halve levelWidth ≤ windowWidth ∨ halve levelHeight ≤ windowHeight then 1
    else 1 + computeLevels windowWidth windowHeight requested (halve levelWidth) (halve levelHeight)

/-- `validate_and_compute_build_optical_flow_pyr_lk_levels`. -/
def validateAndComputeLevels (c : BuildCall) : Except KleidicvError ℕ :=
  if c.width = 0 ∨ c.height = 0 ∨ c.channels = 0 ∨ kleidicvMaximumChannelCount < c.channels ∨
      c.levelCount = 0 ∨ c.windowWidth ≤ 2 ∨ c.windowHeight ≤ 2 ∨
      maxOpticalFlowPyrLkWindowSize < c.windowWidth ∨
      maxOpticalFlowPyrLkWindowSize < c.windowHeight then .error .range
  else if 1 < c.height ∧ c.srcStride < c.width * c.channels then .error .range
  else .ok (computeLevels c.windowWidth c.windowHeight c.levelCount c.width c.height)

/-- The checks of `build_optical_flow_pyr_lk_pyramid`: the number of levels to build. -/
def BuildCall.check (c : BuildCall) : Except KleidicvError ℕ :=
  if c.pyramid = 0 then .error .nullPointer
  else if checkPointerAndStride 1 c.src c.srcStride c.height ≠ .ok then
    .error (checkPointerAndStride 1 c.src c.srcStride c.height)
  else if ¬checkImageSize c.width c.height then .error .range
  else validateAndComputeLevels c

/-- `OpticalFlowLevel`. -/
structure OpticalFlowLevel where
  width : ℕ
  height : ℕ
  imageStride : ℕ
  scharrStride : ℕ
  imageData : ℕ
  scharrData : ℕ

/-- `OpticalFlowLKPyramid`; the table has an entry for each level below `levelCount`. -/
structure OpticalFlowLKPyramid where
  levelCount : ℕ
  channels : ℕ
  borderWidth : ℕ
  borderHeight : ℕ
  level : ℕ → OpticalFlowLevel

/-- `LevelStorageLayout`. -/
structure LevelStorageLayout where
  imageStride : ℕ
  scharrStride : ℕ
  imageBytes : ℕ
  scharrBytes : ℕ

/-- `__builtin_mul_overflow`. -/
def mulOverflow (a b : ℕ) : Except KleidicvError ℕ :=
  if a * b < sizeMod then .ok (a * b) else .error .range

/-- `add_overflow_size`. -/
def addOverflow (a b : ℕ) : Except KleidicvError ℕ :=
  if a + b < sizeMod then .ok (a + b) else .error .range

/-- `align_up_size`, for an alignment that is a power of two. -/
def alignUpSize (value alignment : ℕ) : Except KleidicvError ℕ := do
  let withAddend ← addOverflow value (alignment - 1)
  return withAddend / alignment * alignment

/-- `compute_level_storage_layout`. -/
def computeLevelStorageLayout (levelWidth levelHeight channels borderWidth borderHeight : ℕ) :
    Except KleidicvError LevelStorageLayout := do
  let imageWidthWithBorder := (levelWidth + 2 * borderWidth) % sizeMod
  let imageHeightWithBorder := (levelHeight + 2 * borderHeight) % sizeMod
  let imageStride ← mulOverflow imageWidthWithBorder channels
  let scharrElementsStride ← mulOverflow imageWidthWithBorder channels
  let scharrElementsStride ← mulOverflow scharrElementsStride 2
  let scharrStride ← mulOverflow scharrElementsStride 2
  let imageBytes ← mulOverflow imageStride imageHeightWithBorder
  let scharrBytes ← mulOverflow scharrStride imageHeightWithBorder
  return ⟨imageStride, scharrStride, imageBytes, scharrBytes⟩

/-- The size of level `k`. -/
def levelSize (n k : ℕ) : ℕ := halve^[k] n

section Allocate

variable (width height channels borderWidth borderHeight : ℕ)

/-- The layout of level `k`. -/
def levelLayout (k : ℕ) : Except KleidicvError LevelStorageLayout :=
  computeLevelStorageLayout (levelSize width k) (levelSize height k) channels borderWidth borderHeight

/-- The first pass of `allocate`: the bytes of all images and of all Scharr levels. -/
def totalBytes : ℕ → Except KleidicvError (ℕ × ℕ)
  | 0 => .ok (0, 0)
  | k + 1 => do
    let (totalImageBytes, totalScharrBytes) ← totalBytes k
    let layout ← levelLayout width height channels borderWidth borderHeight k
    return ((totalImageBytes + layout.imageBytes) % sizeMod,
      (totalScharrBytes + layout.scharrBytes) % sizeMod)

/-- The layout that the second pass computes again, of which it drops the error. -/
def assumedLayout (k : ℕ) : LevelStorageLayout :=
  match levelLayout width height channels borderWidth borderHeight k with
  | .ok layout => layout
  | .error _ => ⟨0, 0, 0, 0⟩

/-- `images_cursor` and `scharr_cursor` before level `k`. -/
def cursors (imageOffset scharrOffset : ℕ) : ℕ → ℕ × ℕ
  | 0 => (imageOffset, scharrOffset)
  | k + 1 =>
    let (images, scharr) := cursors imageOffset scharrOffset k
    let layout := assumedLayout width height channels borderWidth borderHeight k
    (images + layout.imageBytes, scharr + layout.scharrBytes)

/-- The table entry of level `k`. -/
def levelEntry (imageOffset scharrOffset k : ℕ) : OpticalFlowLevel :=
  let layout := assumedLayout width height channels borderWidth borderHeight k
  let (images, scharr) :=
    cursors width height channels borderWidth borderHeight imageOffset scharrOffset k
  let scharrStrideElems := layout.scharrStride / 2
  { width := levelSize width k
    height := levelSize height k
    imageStride := layout.imageStride
    scharrStride := layout.scharrStride
    imageData := images + borderHeight * layout.imageStride + borderWidth * channels
    scharrData := scharr + (borderHeight * scharrStrideElems + borderWidth * (channels * 2)) * 2 }

/-- `sizeof(OpticalFlowLKPyramid)`. -/
def sizeofPyramid : ℕ := 40

/-- `sizeof(OpticalFlowLevel)`. -/
def sizeofLevel : ℕ := 48

/-- The offsets of the two storages and the size of the block. -/
structure Offsets where
  imageOffset : ℕ
  scharrOffset : ℕ
  allocationSize : ℕ

/-- The sizes that `allocate` computes before it calls `malloc`. -/
def allocationOffsets (levelCount : ℕ) : Except KleidicvError Offsets := do
  let (totalImageBytes, totalScharrBytes) ←
    totalBytes width height channels borderWidth borderHeight levelCount
  let levelsOffset ← alignUpSize sizeofPyramid 8
  let imageOffset ← addOverflow levelsOffset (levelCount * sizeofLevel % sizeMod)
  let imageOffset ← alignUpSize imageOffset 2
  let scharrOffset ← addOverflow imageOffset totalImageBytes
  let scharrOffset ← alignUpSize scharrOffset 2
  let allocationSize ← addOverflow scharrOffset totalScharrBytes
  return ⟨imageOffset, scharrOffset, allocationSize⟩

/-- `allocate`; `malloc` says for which sizes there is memory. -/
def allocate (malloc : ℕ → Bool) (levelCount : ℕ) : Except KleidicvError OpticalFlowLKPyramid := do
  let offsets ← allocationOffsets width height channels borderWidth borderHeight levelCount
  if malloc offsets.allocationSize then
    return {
      levelCount := levelCount
      channels := channels
      borderWidth := borderWidth
      borderHeight := borderHeight
      level :=
        levelEntry width height channels borderWidth borderHeight offsets.imageOffset
          offsets.scharrOffset }
  else .error .allocation

end Allocate

/-- The metadata of the pyramid of a build call. -/
def BuildCall.layout (c : BuildCall) (malloc : ℕ → Bool) : Except KleidicvError OpticalFlowLKPyramid := do
  let actualLevelCount ← c.check
  allocate c.width c.height c.channels c.windowWidth c.windowHeight malloc actualLevelCount

/-! ### Levels -/

theorem levelSize_succ (n k : ℕ) : levelSize n (k + 1) = halve (levelSize n k) :=
  Function.iterate_succ_apply' halve k n

/-- **A level halves the one below it, rounding up.** -/
theorem levelSize_eq (n k : ℕ) : levelSize n k = (n + 2 ^ k - 1) / 2 ^ k := by
  induction k with
  | zero => simp [levelSize]
  | succ k ih =>
    have hpos : 0 < 2 ^ k := Nat.two_pow_pos k
    rw [levelSize_succ, ih, halve, pow_succ, ← Nat.div_div_eq_div_mul,
      ← Nat.add_div_right _ hpos]
    congr 2
    omega

theorem levelSize_pos {n : ℕ} (hn : 0 < n) (k : ℕ) : 0 < levelSize n k := by
  induction k with
  | zero => exact hn
  | succ k ih =>
    rw [levelSize_succ, halve]
    omega

theorem levelSize_le (n k : ℕ) : levelSize n k ≤ n := by
  induction k with
  | zero => exact le_rfl
  | succ k ih =>
    rw [levelSize_succ, halve]
    omega

theorem computeLevels_le (ww wh requested w h : ℕ) : computeLevels ww wh requested w h ≤ requested := by
  induction requested generalizing w h with
  | zero => exact le_rfl
  | succ requested ih =>
    rw [computeLevels]
    split
    · omega
    · have hle := ih (halve w) (halve h)
      omega

theorem computeLevels_pos {ww wh requested w h : ℕ} (hpos : 0 < requested) :
    0 < computeLevels ww wh requested w h := by
  obtain ⟨n, rfl⟩ := Nat.exists_eq_add_of_lt hpos
  rw [Nat.zero_add, computeLevels]
  split
  · omega
  · omega

/-- Every level after the first is larger than the window. -/
theorem window_lt_levelSize {ww wh requested w h k : ℕ} (hk : 0 < k)
    (hlt : k < computeLevels ww wh requested w h) : ww < levelSize w k ∧ wh < levelSize h k := by
  induction requested generalizing w h k with
  | zero => exact absurd hlt (Nat.not_lt_zero k)
  | succ requested ih =>
    rw [computeLevels] at hlt
    split at hlt
    · omega
    next hstop =>
      rw [not_or, not_le, not_le] at hstop
      obtain ⟨j, rfl⟩ := Nat.exists_eq_add_of_lt hk
      rw [Nat.zero_add] at hlt ⊢
      show ww < levelSize (halve w) j ∧ wh < levelSize (halve h) j
      rcases Nat.eq_zero_or_pos j with rfl | hj
      · exact hstop
      · exact ih hj (by omega)

/-- The next level would not be, when fewer levels were built than requested. -/
theorem levelSize_computeLevels_le {ww wh requested w h : ℕ}
    (hlt : computeLevels ww wh requested w h < requested) :
    levelSize w (computeLevels ww wh requested w h) ≤ ww ∨
      levelSize h (computeLevels ww wh requested w h) ≤ wh := by
  induction requested generalizing w h with
  | zero => exact absurd hlt (Nat.not_lt_zero _)
  | succ requested ih =>
    rw [computeLevels] at hlt ⊢
    split
    next hstop => exact hstop
    next hstop =>
      rw [if_neg hstop] at hlt
      rw [Nat.add_comm]
      exact ih (w := halve w) (h := halve h) (by omega)

/-! ### Accepted calls -/

/-- What a build call has passed. -/
structure BuildCall.Accepted (c : BuildCall) : Prop where
  src : c.src ≠ 0
  width : 0 < c.width
  height : 0 < c.height
  pixels : c.width * c.height < 2 ^ 48
  channels : 0 < c.channels ∧ c.channels ≤ 4
  levelCount : 0 < c.levelCount
  windowWidth : 3 ≤ c.windowWidth ∧ c.windowWidth ≤ 2047
  windowHeight : 3 ≤ c.windowHeight ∧ c.windowHeight ≤ 2047
  srcStride : 1 < c.height → c.width * c.channels ≤ c.srcStride

theorem BuildCall.check_ok {c : BuildCall} {n : ℕ} (h : c.check = .ok n) :
    c.Accepted ∧ n = computeLevels c.windowWidth c.windowHeight c.levelCount c.width c.height := by
  rw [BuildCall.check] at h
  split at h
  · cases h
  split at h
  · cases h
  next hpointer =>
  split at h
  · cases h
  next hsize =>
  rw [validateAndComputeLevels] at h
  split at h
  · cases h
  next hsizes =>
  split at h
  · cases h
  next hstride =>
  rw [not_not, checkImageSize_iff, kleidicvMaxImagePixels] at hsize
  simp only [kleidicvMaximumChannelCount, maxOpticalFlowPyrLkWindowSize] at hsizes
  have hsrc : c.src ≠ 0 := by
    intro hzero
    rw [ne_eq, not_not, checkPointerAndStride, if_pos hzero] at hpointer
    cases hpointer
  refine ⟨⟨hsrc, by omega, by omega, ?_, by omega, by omega, by omega, by omega, by omega⟩,
    (Except.ok.inj h).symm⟩
  have hlt : 2 ^ 48 - 1 < 2 ^ 48 := by norm_num
  omega

/-! ### Layout -/

/-- A step of a computation that ended well. -/
theorem ok_of_bind {ε α β : Type} {x : Except ε α} {f : α → Except ε β} {b : β}
    (h : x >>= f = .ok b) : ∃ a, x = .ok a ∧ f a = .ok b := by
  cases x with
  | error e => cases h
  | ok a => exact ⟨a, rfl, h⟩

theorem mulOverflow_ok {a b n : ℕ} (h : mulOverflow a b = .ok n) : n = a * b ∧ n < sizeMod := by
  rw [mulOverflow] at h
  split at h
  next hlt =>
    cases h
    exact ⟨rfl, hlt⟩
  · cases h

theorem addOverflow_ok {a b n : ℕ} (h : addOverflow a b = .ok n) : n = a + b ∧ n < sizeMod := by
  rw [addOverflow] at h
  split at h
  next hlt =>
    cases h
    exact ⟨rfl, hlt⟩
  · cases h

theorem alignUpSize_ok {value alignment n : ℕ} (hpos : 0 < alignment)
    (h : alignUpSize value alignment = .ok n) : value ≤ n ∧ alignment ∣ n := by
  obtain ⟨sum, hsum, h⟩ := ok_of_bind h
  obtain ⟨rfl, -⟩ := addOverflow_ok hsum
  cases h
  refine ⟨?_, dvd_mul_left _ _⟩
  have hlt := Nat.lt_div_mul_add hpos (a := value + (alignment - 1))
  omega

/-- The layout of a level whose bordered sizes are those of a `size_t`. -/
theorem computeLevelStorageLayout_ok {w h ch bw bh : ℕ} {layout : LevelStorageLayout}
    (hw : w + 2 * bw < sizeMod) (hh : h + 2 * bh < sizeMod)
    (hok : computeLevelStorageLayout w h ch bw bh = .ok layout) :
    layout = ⟨(w + 2 * bw) * ch, (w + 2 * bw) * ch * 2 * 2, (w + 2 * bw) * ch * (h + 2 * bh),
      (w + 2 * bw) * ch * 2 * 2 * (h + 2 * bh)⟩ := by
  rw [computeLevelStorageLayout, Nat.mod_eq_of_lt hw, Nat.mod_eq_of_lt hh] at hok
  obtain ⟨_, h1, hok⟩ := ok_of_bind hok
  obtain ⟨rfl, -⟩ := mulOverflow_ok h1
  obtain ⟨_, h2, hok⟩ := ok_of_bind hok
  obtain ⟨rfl, -⟩ := mulOverflow_ok h2
  obtain ⟨_, h3, hok⟩ := ok_of_bind hok
  obtain ⟨rfl, -⟩ := mulOverflow_ok h3
  obtain ⟨_, h4, hok⟩ := ok_of_bind hok
  obtain ⟨rfl, -⟩ := mulOverflow_ok h4
  obtain ⟨_, h5, hok⟩ := ok_of_bind hok
  obtain ⟨rfl, -⟩ := mulOverflow_ok h5
  obtain ⟨_, h6, hok⟩ := ok_of_bind hok
  obtain ⟨rfl, -⟩ := mulOverflow_ok h6
  cases hok
  rfl

/-- Every level that the first pass has counted has a layout. -/
theorem levelLayout_ok {w h ch bw bh n : ℕ} {totals : ℕ × ℕ}
    (hok : totalBytes w h ch bw bh n = .ok totals) {k : ℕ} (hk : k < n) :
    ∃ layout, levelLayout w h ch bw bh k = .ok layout := by
  induction n generalizing totals with
  | zero => exact absurd hk (Nat.not_lt_zero k)
  | succ n ih =>
    obtain ⟨previous, hprevious, hok⟩ := ok_of_bind hok
    obtain ⟨layout, hlayout, -⟩ := ok_of_bind hok
    rcases Nat.lt_succ_iff_lt_or_eq.mp hk with hlt | rfl
    · exact ih hprevious hlt
    · exact ⟨layout, hlayout⟩

/-- The layout of level `k`, in numbers. -/
def plainLayout (w h ch bw bh k : ℕ) : LevelStorageLayout where
  imageStride := (levelSize w k + 2 * bw) * ch
  scharrStride := (levelSize w k + 2 * bw) * ch * 2 * 2
  imageBytes := (levelSize w k + 2 * bw) * ch * (levelSize h k + 2 * bh)
  scharrBytes := (levelSize w k + 2 * bw) * ch * 2 * 2 * (levelSize h k + 2 * bh)

theorem BuildCall.Accepted.sizes_lt {c : BuildCall} (h : c.Accepted) (k : ℕ) :
    levelSize c.width k + 2 * c.windowWidth < sizeMod ∧
      levelSize c.height k + 2 * c.windowHeight < sizeMod := by
  have hw := levelSize_le c.width k
  have hh := levelSize_le c.height k
  have h1 : c.width ≤ c.width * c.height := Nat.le_mul_of_pos_right _ h.height
  have h2 : c.height ≤ c.width * c.height := Nat.le_mul_of_pos_left _ h.width
  have hpixels := h.pixels
  have h3 := h.windowWidth
  have h4 := h.windowHeight
  rw [sizeMod]
  omega

/-- **The layout of an allocated pyramid.** -/
theorem assumedLayout_eq {c : BuildCall} (ha : c.Accepted) {n : ℕ} {totals : ℕ × ℕ}
    (hok : totalBytes c.width c.height c.channels c.windowWidth c.windowHeight n = .ok totals)
    {k : ℕ} (hk : k < n) :
    assumedLayout c.width c.height c.channels c.windowWidth c.windowHeight k =
      plainLayout c.width c.height c.channels c.windowWidth c.windowHeight k := by
  obtain ⟨layout, hlayout⟩ := levelLayout_ok hok hk
  rw [assumedLayout, hlayout]
  exact computeLevelStorageLayout_ok (ha.sizes_lt k).1 (ha.sizes_lt k).2 hlayout

/-- A level and its border: `image` and `scharr` are where its storages begin. -/
structure LevelPlaced (c : BuildCall) (k image scharr : ℕ) (e : OpticalFlowLevel) : Prop where
  width : e.width = levelSize c.width k
  height : e.height = levelSize c.height k
  imageStride : e.imageStride = (levelSize c.width k + 2 * c.windowWidth) * c.channels
  scharrStride : e.scharrStride = (levelSize c.width k + 2 * c.windowWidth) * c.channels * 2 * 2
  imageData : e.imageData =
    image + c.windowHeight * e.imageStride + c.windowWidth * c.channels
  scharrData : e.scharrData =
    scharr + c.windowHeight * e.scharrStride + c.windowWidth * c.channels * 2 * 2

/-- What the metadata of a built pyramid say. -/
structure BuildCall.Placed (c : BuildCall) (P : OpticalFlowLKPyramid) (offsets : Offsets) : Prop where
  accepted : c.Accepted
  levelCount : P.levelCount =
    computeLevels c.windowWidth c.windowHeight c.levelCount c.width c.height
  channels : P.channels = c.channels
  borderWidth : P.borderWidth = c.windowWidth
  borderHeight : P.borderHeight = c.windowHeight
  offsets_eq : allocationOffsets c.width c.height c.channels c.windowWidth c.windowHeight P.levelCount =
    .ok offsets
  level : ∀ k < P.levelCount, LevelPlaced c k
    (cursors c.width c.height c.channels c.windowWidth c.windowHeight offsets.imageOffset
      offsets.scharrOffset k).1
    (cursors c.width c.height c.channels c.windowWidth c.windowHeight offsets.imageOffset
      offsets.scharrOffset k).2 (P.level k)

/-- **The metadata of an allocated pyramid.** -/
theorem BuildCall.layout_ok {c : BuildCall} {malloc : ℕ → Bool} {P : OpticalFlowLKPyramid}
    (h : c.layout malloc = .ok P) : ∃ offsets, c.Placed P offsets := by
  obtain ⟨n, hcheck, h⟩ := ok_of_bind h
  obtain ⟨ha, hn⟩ := BuildCall.check_ok hcheck
  obtain ⟨offsets, hoffsets, h⟩ := ok_of_bind h
  split at h
  · cases h
    obtain ⟨totals, htotals, -⟩ := ok_of_bind hoffsets
    refine ⟨offsets, ha, hn, rfl, rfl, rfl, hoffsets, fun k hk => ?_⟩
    have hlayout := assumedLayout_eq ha htotals hk
    refine ⟨rfl, rfl, ?_, ?_, rfl, ?_⟩
    · exact congrArg LevelStorageLayout.imageStride hlayout
    · exact congrArg LevelStorageLayout.scharrStride hlayout
    · have hstride := congrArg LevelStorageLayout.scharrStride hlayout
      simp only [levelEntry]
      rw [hstride]
      show _ = _ + c.windowHeight * ((levelSize c.width k + 2 * c.windowWidth) * c.channels * 2 * 2) +
        c.windowWidth * c.channels * 2 * 2
      simp only [plainLayout, Nat.mul_div_cancel _ (show 0 < 2 by decide)]
      ring
  · cases h

end OpticalFlow

end KleidiCV
