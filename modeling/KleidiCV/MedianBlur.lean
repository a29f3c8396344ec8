/-
The median filter: argument checks, borders and the result.

The implementations for `uint8_t` (modules `MedianBlurSortingNetwork`,
`MedianBlurSmallHist` and `MedianBlurLargeHist`) compute one function, which is
stated here: every sample is the element of middle rank of its window in the
image extended beyond its borders.  Source and destination are different
images, in-place operations not being supported: the source is a memory of its
own.

* `getPhysicalIndex_eq` — the border handling of the histogram filters reads
  the extended image;
* `MediansWritten` — what a correct implementation does to the destination;
* `MedianImage`, `MedianImage.Computes` — the images of one accepted call, and
  the pieces in which they are processed.
-/
import KleidiCV.BorderTypes
import KleidiCV.Lib.Rank
import KleidiCV.Lib.Window
import KleidiCV.Lib.Writes
import KleidiCV.Neon

open Loop

namespace KleidiCV

/-- `Rows<uint8_t>`. -/
structure Rows where
  ptr : ℕ
  stride : ℕ
  channels : ℕ

/-- `&rows.at(row, column)[channel]`. -/
def Rows.ptrAt (rows : Rows) (row column : ℤ) (channel : ℕ) : ℕ :=
  (rows.ptr + row * rows.stride + column * rows.channels + channel).toNat

@[simp] theorem Rows.ptrAt_natCast (rows : Rows) (row column channel : ℕ) :
    rows.ptrAt row column channel =
      rows.ptr + row * rows.stride + column * rows.channels + channel := by
  simp only [Rows.ptrAt]
  exact_mod_cast Int.toNat_natCast _

/-! ### Argument checks -/

/-- `is_kernel_size_supported<uint8_t>`. -/
def isKernelSizeSupported (kernelWidth kernelHeight : ℕ) : Bool :=
  decide (kernelWidth = kernelHeight) && decide (3 ≤ kernelWidth) && decide (kernelWidth ≤ 255) &&
    decide (kernelWidth % 2 ≠ 0)

/-- `median_blur_checks<uint8_t>`. -/
def medianBlurChecks (src dst width height : ℕ) : KleidicvError :=
  if src = 0 then .nullPointer
  else if dst = 0 then .nullPointer
  else if !checkImageSize width height then .range
  else .ok

/-- `median_blur_validate<uint8_t>`. -/
def medianBlurValidate (src dst width height channels kernelWidth kernelHeight : ℕ)
    (borderType : BorderType) : Except KleidicvError FixedBorderType :=
  if medianBlurChecks src dst width height ≠ .ok then
    .error (medianBlurChecks src dst width height)
  else
    match getFixedBorderType borderType with
    | some fixedBorderType =>
      if src ≠ dst ∧ channels ≤ kleidicvMaximumChannelCount ∧ sizeSub kernelHeight 1 ≤ height ∧
          sizeSub kernelWidth 1 ≤ width ∧ isKernelSizeSupported kernelWidth kernelHeight = true then
        .ok fixedBorderType
      else .error .notImplemented
    | none => .error .notImplemented

theorem medianBlurChecks_ok {src dst width height : ℕ}
    (h : medianBlurChecks src dst width height = .ok) :
    src ≠ 0 ∧ dst ≠ 0 ∧ width * height ≤ kleidicvMaxImagePixels := by
  unfold medianBlurChecks at h
  split_ifs at h with hsrc hdst hsize
  rw [Bool.not_eq_true', Bool.not_eq_false, checkImageSize_iff] at hsize
  exact ⟨hsrc, hdst, hsize⟩

/-- What an accepted call promises, for a kernel of `2 * m + 1` rows. -/
theorem medianBlurValidate_ok {src dst width height channels kernelWidth kernelHeight : ℕ}
    {borderType : BorderType} {b : FixedBorderType}
    (h : medianBlurValidate src dst width height channels kernelWidth kernelHeight borderType =
      .ok b) :
    channels ≤ 4 ∧ kernelHeight = kernelWidth ∧ kernelWidth ≤ 255 ∧
      (∃ m, 1 ≤ m ∧ kernelWidth = 2 * m + 1 ∧ 2 * m ≤ width ∧ 2 * m ≤ height) ∧
      width * height ≤ kleidicvMaxImagePixels := by
  unfold medianBlurValidate at h
  by_cases hchecks : medianBlurChecks src dst width height = .ok
  swap
  · rw [if_pos hchecks] at h
    exact absurd h (by simp)
  rw [if_neg (not_not.mpr hchecks)] at h
  cases hborder : getFixedBorderType borderType with
  | none =>
    simp only [hborder] at h
    exact absurd h (by simp)
  | some fixedBorderType =>
    simp only [hborder] at h
    split at h
    swap
    · exact absurd h (by simp)
    rename_i hcond
    obtain ⟨-, hchannels, hheight, hwidth, hkernel⟩ := hcond
    simp only [isKernelSizeSupported, Bool.and_eq_true, decide_eq_true_eq] at hkernel
    obtain ⟨⟨⟨heq, h3⟩, h255⟩, hodd⟩ := hkernel
    rw [sizeSub_eq (by omega) (by simp only [sizeMod]; omega)] at hheight hwidth
    exact ⟨hchannels, heq.symm, h255,
      ⟨kernelWidth / 2, by omega, by omega, by omega, by omega⟩, (medianBlurChecks_ok hchecks).2.2⟩

/-! ### The extended image -/

/-- `get_physical_index`. -/
def getPhysicalIndex (index : ℤ) (limit : ℕ) (borderType : FixedBorderType) : ℤ :=
  let signedLimit := toPtrdiff limit
  if 0 ≤ index ∧ index < signedLimit then index
  else
    match borderType with
    | .reflect => if index < 0 then -index - 1 else 2 * signedLimit - index - 1
    | .wrap => if index < 0 then signedLimit + index else index - signedLimit
    | .reverse => if index < 0 then min (-index) (signedLimit - 1) else 2 * signedLimit - index - 2
    | .replicate => max 0 (min (signedLimit - 1) index)

/-- The border handling is that of the extension, less than one image away. -/
theorem getPhysicalIndex_eq {index : ℤ} {limit : ℕ} (b : FixedBorderType) (hlimit : limit < 2 ^ 63)
    (h2 : 2 ≤ limit) (h0 : -(limit : ℤ) < index) (h1 : index < 2 * limit - 1) :
    getPhysicalIndex index limit b = b.extension.index limit index := by
  rw [Extension.index_eq_foldOnce _ (by omega) h0 h1]
  simp only [getPhysicalIndex, toPtrdiff_eq hlimit, Extension.foldOnce]
  cases b <;> simp only [FixedBorderType.extension] <;> split_ifs <;> omega

/-- The window of `k` rows and `k` columns of the samples `P`, from row `y` and
column `x` on. -/
def medianWindow (P : ℕ → ℕ → U8) (y x k : ℕ) : Multiset U8 :=
  windowSum (fun u => windowSum (fun t => {P t u}) y k) x k

/-- The element of middle rank of a window. -/
def medianAt (P : ℕ → ℕ → U8) (y x k : ℕ) : U8 := rankElement (medianWindow P y x k) (k * k / 2)

theorem card_windowSum {C : ℕ → Multiset U8} {a n k : ℕ}
    (hC : ∀ p, a ≤ p → p < a + n → Multiset.card (C p) = k) :
    Multiset.card (windowSum C a n) = n * k := by
  rw [windowSum, Multiset.card_sum, Finset.sum_congr rfl fun i hi =>
    hC (a + i) (Nat.le_add_right _ _) (by have := Finset.mem_range.mp hi; omega)]
  simp

theorem card_column (P : ℕ → ℕ → U8) (y u k : ℕ) :
    Multiset.card (windowSum (fun t => ({P t u} : Multiset U8)) y k) = k := by
  simp [windowSum]

theorem card_medianWindow (P : ℕ → ℕ → U8) (y x k : ℕ) :
    Multiset.card (medianWindow P y x k) = k * k := by
  simp [medianWindow, windowSum]

/-- A value has rank `r` if `r` lies between the numbers of smaller and of no
larger samples. -/
theorem rankElement_eq_ofNat {w : Multiset U8} {r v : ℕ} (hv : v < 256)
    (hlt : w.countP (fun s => s.val < v) ≤ r) (hle : r < w.countP fun s => s.val < v + 1) :
    rankElement w r = Fin.ofNat 256 v := by
  have hval : (Fin.ofNat 256 v).val = v := Nat.mod_eq_of_lt hv
  refine rankElement_eq ?_ ?_
  · simpa only [Fin.lt_def, hval] using hlt
  · simpa only [Fin.le_def, hval, Nat.lt_succ_iff] using hle

/-- The blocks of 16 values below block `b`. -/
theorem countP_block_lt (w : Multiset U8) (b : ℕ) :
    w.countP (fun x : U8 => x.val / 16 < b) = w.countP fun x : U8 => x.val < 16 * b :=
  Multiset.countP_congr rfl fun x _ => propext (by omega)

/-- All values are below 256. -/
theorem countP_lt_256 (w : Multiset U8) : w.countP (fun x : U8 => x.val < 256) = Multiset.card w :=
  Multiset.countP_eq_card.mpr fun x _ => x.isLt

/-- The median around row `y` and column `x` of channel `c`, in an image of
`width` columns and `height` rows that is extended beyond its borders. -/
def borderMedian (mem : Mem) (src : Rows) (width height : ℕ) (b : FixedBorderType) (k y x c : ℕ) :
    U8 :=
  medianAt (fun t u => mem (src.ptrAt (b.extension.index height ((t : ℤ) - (k / 2 : ℕ)))
    (b.extension.index width ((u : ℤ) - (k / 2 : ℕ))) c)) y x k

/-- From `m` to `m'`, the medians of all samples of the rows from `yBegin` up to
`yEnd` were written, and nothing else. -/
structure MediansWritten (mem : Mem) (src dst : Rows) (width height : ℕ) (b : FixedBorderType)
    (k yBegin yEnd : ℕ) (m m' : Mem) : Prop where
  value : ∀ y x c, yBegin ≤ y → y < yEnd → x < width → c < dst.channels →
    m' (dst.ptrAt y x c) = borderMedian mem src width height b k y x c
  frame : ∀ a, (∀ y x c : ℕ, yBegin ≤ y → y < yEnd → x < width → c < dst.channels →
    dst.ptrAt y x c ≠ a) → m' a = m a

/-- The images of one call with a kernel of `2 * margin + 1` rows and columns.
The samples outside the image are those of its extension, so the window of the
sample in row `y` and column `x` begins in row `y` and column `x` of
`extended`. -/
structure MedianImage where
  mem : Mem
  src : Rows
  dst : Rows
  width : ℕ
  height : ℕ
  margin : ℕ
  borderType : FixedBorderType
  width_lt : width < 2 ^ 62
  height_lt : height < 2 ^ 62
  margin_le_width : 2 * margin ≤ width
  margin_le_height : 2 * margin ≤ height
  margin_pos : 1 ≤ margin
  src_channels : src.channels = dst.channels
  channels_pos : 1 ≤ dst.channels
  /-- The rows of the destination do not overlap. -/
  row_le_stride : width * dst.channels ≤ dst.stride

namespace MedianImage

variable (I : MedianImage)

/-- The kernel size. -/
def ksize : ℕ := 2 * I.margin + 1

/-- The row of the image that stands for row `t` of the extended image, whose
rows are counted from `margin` before the first. -/
def rowIndex (t : ℕ) : ℤ := I.borderType.extension.index I.height ((t : ℤ) - I.margin)

/-- The same for columns. -/
def columnIndex (u : ℕ) : ℤ := I.borderType.extension.index I.width ((u : ℤ) - I.margin)

/-- A sample of the extended image. -/
def extended (channel t u : ℕ) : U8 :=
  I.mem (I.src.ptrAt (I.rowIndex t) (I.columnIndex u) channel)

/-- The address of byte `p.2` of row `p.1` of the destination. -/
def address (p : ℕ × ℕ) : ℕ := I.dst.ptr + p.1 * I.dst.stride + p.2

/-- What belongs there: the median of the window around the sample. -/
def median (p : ℕ × ℕ) : U8 :=
  medianAt (I.extended (p.2 % I.dst.channels)) p.1 (p.2 / I.dst.channels) I.ksize

/-- From `m` to `m'`, the medians of the bytes of `S` were written, and nothing
else. -/
def Computes (S : Set (ℕ × ℕ)) (m m' : Mem) : Prop := Wrote I.address I.median S m m'

/-- The bytes of the pixels with row `y`, column `x` and channel `c` such that
`R y x c`. -/
def pixels (R : ℕ → ℕ → ℕ → Prop) : Set (ℕ × ℕ) :=
  {p | p.2 < I.width * I.dst.channels ∧ R p.1 (p.2 / I.dst.channels) (p.2 % I.dst.channels)}

/-- The bytes of the rows from `y` up to `y'`. -/
def stripe (y y' : ℕ) : Set (ℕ × ℕ) := I.pixels fun t _ _ => y ≤ t ∧ t < y'

theorem ksize_half : I.ksize / 2 = I.margin := by
  rw [ksize]
  omega

/-- All bytes of all rows have their own addresses. -/
theorem address_injOn : Set.InjOn I.address {p | p.2 < I.width * I.dst.channels} := by
  rintro ⟨y, q⟩ hq ⟨y', q'⟩ hq' heq
  have hstride := I.row_le_stride
  simp only [Set.mem_ofPred_eq, address] at hq hq' heq
  have hpos : 0 < I.dst.stride := by omega
  have hmod : ∀ y q, q < I.dst.stride → (y * I.dst.stride + q) / I.dst.stride = y := by
    intro y q h
    rw [Nat.mul_comm, Nat.mul_add_div hpos, Nat.div_eq_of_lt h, Nat.add_zero]
  have h1 := hmod y q (by omega)
  have h2 := hmod y' q' (by omega)
  rw [show y * I.dst.stride + q = y' * I.dst.stride + q' by omega, h2] at h1
  subst h1
  exact Prod.ext rfl (by simp only; omega)

/-- A row of a window, as the code finds it. -/
theorem getPhysicalIndex_row {t : ℕ} (ht : t + 2 ≤ 2 * I.height + I.margin) :
    getPhysicalIndex ((t : ℤ) - I.margin) I.height I.borderType = I.rowIndex t := by
  have h1 := I.height_lt
  have h2 := I.margin_le_height
  have h3 := I.margin_pos
  exact getPhysicalIndex_eq _ (by omega) (by omega) (by omega) (by omega)

/-- A column of a window, as the code finds it. -/
theorem getPhysicalIndex_column {u : ℕ} (hu : u + 2 ≤ 2 * I.width + I.margin) :
    getPhysicalIndex ((u : ℤ) - I.margin) I.width I.borderType = I.columnIndex u := by
  have h1 := I.width_lt
  have h2 := I.margin_le_width
  have h3 := I.margin_pos
  exact getPhysicalIndex_eq _ (by omega) (by omega) (by omega) (by omega)

/-- Every row of the extended image is one of the image. -/
theorem exists_rowIndex (t : ℕ) : ∃ r < I.height, I.rowIndex t = (r : ℕ) := by
  have h2 := I.margin_le_height
  have h3 := I.margin_pos
  obtain ⟨h0, h1⟩ := I.borderType.extension.index_mem (n := I.height) (p := (t : ℤ) - I.margin)
    (by omega)
  exact ⟨(I.rowIndex t).toNat, by rw [rowIndex]; omega, (Int.toNat_of_nonneg h0).symm⟩

/-- Between the borders the columns are those of the image. -/
theorem columnIndex_eq {u : ℕ} (hu : I.margin ≤ u) (hu' : u < I.width + I.margin) :
    I.columnIndex u = (u - I.margin : ℕ) := by
  have h2 := I.margin_le_width
  have h3 := I.margin_pos
  rw [columnIndex, Extension.index_of_mem _ (by omega) (by omega) (by omega)]
  omega

variable {I}

theorem mem_pixels {R : ℕ → ℕ → ℕ → Prop} {y x c : ℕ} (hx : x < I.width) (hc : c < I.dst.channels) :
    (y, x * I.dst.channels + c) ∈ I.pixels R ↔ R y x c := by
  have hpos : 0 < I.dst.channels := I.channels_pos
  have hlt : x * I.dst.channels + c < I.width * I.dst.channels := by
    have := Nat.mul_le_mul_right I.dst.channels (show x + 1 ≤ I.width from hx)
    rw [Nat.succ_mul] at this
    omega
  have hdiv : (x * I.dst.channels + c) / I.dst.channels = x := by
    rw [Nat.mul_comm, Nat.mul_add_div hpos, Nat.div_eq_of_lt hc, Nat.add_zero]
  have hmod : (x * I.dst.channels + c) % I.dst.channels = c := by
    rw [Nat.mul_comm, Nat.mul_add_mod, Nat.mod_eq_of_lt hc]
  simp only [pixels, Set.mem_ofPred_eq, hdiv, hmod, hlt, true_and]

/-- Every byte of a row belongs to a pixel. -/
theorem exists_pixel {q : ℕ} (hq : q < I.width * I.dst.channels) :
    ∃ x < I.width, ∃ c < I.dst.channels, q = x * I.dst.channels + c := by
  have hpos : 0 < I.dst.channels := I.channels_pos
  refine ⟨q / I.dst.channels, Nat.div_lt_of_lt_mul (by rwa [Nat.mul_comm]), q % I.dst.channels,
    Nat.mod_lt q hpos, ?_⟩
  rw [Nat.mul_comm]
  exact (Nat.div_add_mod q _).symm

theorem pixels_congr {R Q : ℕ → ℕ → ℕ → Prop}
    (h : ∀ y x c, x < I.width → c < I.dst.channels → (R y x c ↔ Q y x c)) :
    I.pixels R = I.pixels Q := by
  ext ⟨y, q⟩
  constructor
  all_goals
    intro hq
    obtain ⟨x, hx, c, hc, rfl⟩ := exists_pixel hq.1
    rw [mem_pixels hx hc] at hq ⊢
    simpa only [h y x c hx hc] using hq

theorem Computes.refl (m : Mem) {R : ℕ → ℕ → ℕ → Prop}
    (hR : ∀ y x c, x < I.width → c < I.dst.channels → ¬R y x c) : I.Computes (I.pixels R) m m := by
  refine (Wrote.refl m).congr (Set.eq_empty_iff_forall_notMem.mpr ?_).symm
  rintro ⟨y, q⟩ hq
  obtain ⟨x, hx, c, hc, rfl⟩ := exists_pixel hq.1
  exact hR y x c hx hc ((mem_pixels hx hc).mp hq)

/-- The same pixels, described in another way. -/
theorem Computes.congr {R Q : ℕ → ℕ → ℕ → Prop} {m m' : Mem} (h : I.Computes (I.pixels R) m m')
    (hQ : ∀ y x c, x < I.width → c < I.dst.channels → (R y x c ↔ Q y x c)) :
    I.Computes (I.pixels Q) m m' :=
  Wrote.congr h (pixels_congr hQ)

/-- One piece of the image after another. -/
theorem Computes.trans {R Q T : ℕ → ℕ → ℕ → Prop} {m m' m'' : Mem}
    (h : I.Computes (I.pixels R) m m') (h' : I.Computes (I.pixels Q) m' m'')
    (hT : ∀ y x c, x < I.width → c < I.dst.channels → (T y x c ↔ R y x c ∨ Q y x c)) :
    I.Computes (I.pixels T) m m'' := by
  refine (Wrote.trans I.address_injOn (fun p hp => hp.1) (fun p hp => hp.1) h h').congr ?_
  rw [pixels_congr hT]
  ext p
  simp only [pixels, Set.mem_union, Set.mem_ofPred_eq]
  tauto

/-- One pixel. -/
theorem Computes.update {y x c : ℕ} (hx : x < I.width) (hc : c < I.dst.channels) (m : Mem) :
    I.Computes (I.pixels fun y' x' c' => y' = y ∧ x' = x ∧ c' = c) m
      (Function.update m (I.address (y, x * I.dst.channels + c))
        (medianAt (I.extended c) y x I.ksize)) := by
  have hpos : 0 < I.dst.channels := I.channels_pos
  constructor
  · rintro ⟨y', q⟩ hq
    obtain ⟨x', hx', c', hc', rfl⟩ := exists_pixel hq.1
    obtain ⟨rfl, rfl, rfl⟩ := (mem_pixels hx' hc').mp hq
    rw [Function.update_self, median, Nat.mul_comm, Nat.mul_add_mod, Nat.mod_eq_of_lt hc,
      Nat.mul_add_div hpos, Nat.div_eq_of_lt hc, Nat.add_zero]
  · intro a ha
    exact Function.update_of_ne
      (fun heq => ha _ ((mem_pixels hx hc).mpr ⟨rfl, rfl, rfl⟩) heq.symm) _ _

theorem ptrAt_eq_address (y x c : ℕ) :
    I.dst.ptrAt y x c = I.address (y, x * I.dst.channels + c) := by
  rw [Rows.ptrAt_natCast, address]
  simp only [Nat.add_assoc]

theorem median_pixel {x c : ℕ} (hc : c < I.dst.channels) (y : ℕ) :
    I.median (y, x * I.dst.channels + c) = medianAt (I.extended c) y x I.ksize := by
  rw [median, Nat.mul_comm, Nat.mul_add_mod, Nat.mod_eq_of_lt hc,
    Nat.mul_add_div (Nat.zero_lt_of_lt hc), Nat.div_eq_of_lt hc, Nat.add_zero]

/-- The pieces of a stripe, put together. -/
theorem Computes.mediansWritten {y y' : ℕ} {m m' : Mem} (h : I.Computes (I.stripe y y') m m') :
    MediansWritten I.mem I.src I.dst I.width I.height I.borderType I.ksize y y' m m' := by
  constructor
  · intro t x c hy hy' hx hc
    rw [ptrAt_eq_address, h.value _ ((mem_pixels hx hc).mpr ⟨hy, hy'⟩), median_pixel hc,
      borderMedian, ksize_half]
    rfl
  · intro a ha
    refine h.frame a ?_
    rintro ⟨t, q⟩ hq
    obtain ⟨x, hx, c, hc, rfl⟩ := exists_pixel hq.1
    obtain ⟨hy, hy'⟩ := (mem_pixels hx hc).mp hq
    rw [← ptrAt_eq_address]
    exact ha t x c hy hy' hx hc

end MedianImage

/-- The rows of an accepted call are short. -/
theorem rowBytes_lt_of_validate {src dst width height channels kernelWidth kernelHeight : ℕ}
    {borderType : BorderType} {b : FixedBorderType}
    (h : medianBlurValidate src dst width height channels kernelWidth kernelHeight borderType =
      .ok b) :
    2 * (width * channels) < sizeMod := by
  obtain ⟨hchannels, -, -, ⟨margin, hmargin, -, -, hheight⟩, hsize⟩ := medianBlurValidate_ok h
  have hwidth : width * 1 ≤ width * height := Nat.mul_le_mul_left _ (by omega)
  have hrow : width * channels ≤ width * 4 := Nat.mul_le_mul_left _ hchannels
  have hmax : 8 * kleidicvMaxImagePixels < sizeMod := by decide
  omega

/-- The images of an accepted call. -/
theorem exists_medianImage (mem : Mem) {src dst : Rows} {width height kernelWidth kernelHeight : ℕ}
    {borderType : BorderType} {b : FixedBorderType}
    (h : medianBlurValidate src.ptr dst.ptr width height dst.channels kernelWidth kernelHeight
      borderType = .ok b)
    (hchannels : src.channels = dst.channels) (hpos : 1 ≤ dst.channels)
    (hstride : width * dst.channels ≤ dst.stride) :
    ∃ I : MedianImage, I.mem = mem ∧ I.src = src ∧ I.dst = dst ∧ I.width = width ∧
      I.height = height ∧ I.borderType = b ∧ I.ksize = kernelWidth ∧ I.ksize = kernelHeight := by
  obtain ⟨-, hsquare, -, ⟨margin, hmargin, hkernel, hwidth, hheight⟩, hsize⟩ :=
    medianBlurValidate_ok h
  have hlt : ∀ {a b : ℕ}, 1 ≤ b → a * b ≤ kleidicvMaxImagePixels → a < 2 ^ 62 := by
    intro a b hb hab
    calc a = a * 1 := (Nat.mul_one a).symm
      _ ≤ a * b := Nat.mul_le_mul_left a hb
      _ ≤ kleidicvMaxImagePixels := hab
      _ < 2 ^ 62 := by decide
  refine ⟨⟨mem, src, dst, width, height, margin, b, hlt (by omega) hsize,
    hlt (b := width) (by omega) (by rwa [Nat.mul_comm]), hwidth, hheight, hmargin, hchannels, hpos,
    hstride⟩, rfl, rfl, rfl, rfl, rfl, rfl, hkernel.symm, ?_⟩
  rw [hsquare, hkernel]
  rfl

end KleidiCV
